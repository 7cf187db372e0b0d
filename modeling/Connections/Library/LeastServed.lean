import Mathlib.Algebra.BigOperators.Group.List.Basic
import Mathlib.Algebra.GroupWithZero.Nat
import Mathlib.Data.Finset.Basic

/-!
# Serving the least served

Counts by key, in the order in which the keys came, and the key with the smallest count among the
ones not excluded.  Rounds that serve the least served key, or drop it, keep the counts fair: no
key that was served is ahead of a key still in the running by more than one.
-/

namespace LeastServed

variable {α : Type*}

/-- The keys of counts. -/
def keys (counts : List (α × ℕ)) : List α := counts.map Prod.fst

/-- The sum of the counts. -/
def total (counts : List (α × ℕ)) : ℕ := (counts.map Prod.snd).sum

variable [DecidableEq α]

/-- The count of a key, 0 for a key that is not there. -/
def count : List (α × ℕ) → α → ℕ
  | [], _ => 0
  | entry :: rest, key => if entry.1 = key then entry.2 else count rest key

/-- Add to the count of a key; a key that is not there yet comes last. -/
def add (key : α) (n : ℕ) : List (α × ℕ) → List (α × ℕ)
  | [] => [(key, n)]
  | entry :: rest => if entry.1 = key then (entry.1, entry.2 + n) :: rest
    else entry :: add key n rest

/-- Count 0 for every key. -/
def zeros (names : List α) : List (α × ℕ) :=
  names.foldl (fun counts key => add key 0 counts) []

variable {counts : List (α × ℕ)} {key other : α} {n : ℕ}

/-- Adding to a key makes it one of the keys and loses none. -/
theorem mem_keys_add : other ∈ keys (add key n counts) ↔ other = key ∨ other ∈ keys counts := by
  induction counts with
  | nil => simp [add, keys]
  | cons entry rest ih =>
    simp only [keys] at ih
    by_cases h : entry.1 = key
    · simp only [add, h, if_true, keys, List.map_cons, List.mem_cons]
      tauto
    · simp only [add, h, if_false, keys, List.map_cons, List.mem_cons, ih]
      tauto

/-- A key that is there keeps all the keys as they are. -/
theorem keys_add_of_mem (h : key ∈ keys counts) : keys (add key n counts) = keys counts := by
  induction counts with
  | nil => simp [keys] at h
  | cons entry rest ih =>
    by_cases hkey : entry.1 = key
    · simp [add, hkey, keys]
    · have hrest : key ∈ keys rest := by
        simpa [keys, Ne.symm hkey] using h
      simpa [add, hkey, keys] using ih hrest

/-- A key that is there is added to, not listed again. -/
theorem nodup_keys_add (h : (keys counts).Nodup) : (keys (add key n counts)).Nodup := by
  induction counts with
  | nil => simp [add, keys]
  | cons entry rest ih =>
    obtain ⟨hnot, hrest⟩ := List.nodup_cons.mp h
    by_cases hkey : entry.1 = key
    · simpa [add, hkey, keys] using h
    · simp only [add, hkey, if_false]
      refine List.nodup_cons.mpr ⟨fun hmem => ?_, ih hrest⟩
      rcases mem_keys_add.mp hmem with heq | hmem
      · exact hkey heq
      · exact hnot hmem

/-- The key that is added to grows by the amount. -/
@[simp] theorem count_add_self : count (add key n counts) key = count counts key + n := by
  induction counts with
  | nil => simp [add, count]
  | cons entry rest ih =>
    by_cases h : entry.1 = key
    · simp [add, count, h]
    · simp [add, count, h, ih]

/-- The other keys keep their counts. -/
theorem count_add_of_ne (h : other ≠ key) :
    count (add key n counts) other = count counts other := by
  induction counts with
  | nil => simp [add, count, Ne.symm h]
  | cons entry rest ih =>
    by_cases hkey : entry.1 = key
    · simp [add, count, hkey, Ne.symm h]
    · simp [add, count, hkey, ih]

/-- No count goes down. -/
theorem count_le_count_add : count counts other ≤ count (add key n counts) other := by
  by_cases h : other = key
  · rw [h, count_add_self]
    omega
  · rw [count_add_of_ne h]

/-- An entry holds the count of its key. -/
theorem count_of_mem (hkeys : (keys counts).Nodup) {entry : α × ℕ} (h : entry ∈ counts) :
    count counts entry.1 = entry.2 := by
  induction counts with
  | nil => cases h
  | cons first rest ih =>
    obtain ⟨hnot, hrest⟩ := List.nodup_cons.mp hkeys
    rcases List.mem_cons.mp h with rfl | h
    · simp [count]
    · have hne : first.1 ≠ entry.1 := fun heq => hnot (heq ▸ List.mem_map_of_mem h)
      rw [count, if_neg hne]
      exact ih hrest h

/-- The total grows by the amount, whichever key it goes to. -/
@[simp] theorem total_add : total (add key n counts) = total counts + n := by
  induction counts with
  | nil => simp [add, total]
  | cons entry rest ih =>
    simp only [total] at ih
    by_cases h : entry.1 = key
    · simp only [add, h, if_true, total, List.map_cons, List.sum_cons]
      omega
    · simp only [add, h, if_false, total, List.map_cons, List.sum_cons, ih]
      omega

section Adding

variable (amounts : List (α × ℕ))

/-- Several additions, one after the other. -/
def addAll (counts : List (α × ℕ)) : List (α × ℕ) :=
  amounts.foldl (fun counts amount => add amount.1 amount.2 counts) counts

/-- Any amounts keep each key listed once. -/
theorem nodup_keys_addAll (h : (keys counts).Nodup) : (keys (addAll amounts counts)).Nodup := by
  induction amounts generalizing counts with
  | nil => exact h
  | cons amount rest ih => exact ih (nodup_keys_add h)

/-- The keys are those there were and those of the amounts. -/
theorem mem_keys_addAll :
    other ∈ keys (addAll amounts counts) ↔ other ∈ keys amounts ∨ other ∈ keys counts := by
  induction amounts generalizing counts with
  | nil => simp [addAll, keys]
  | cons amount rest ih =>
    have hrest := @ih (add amount.1 amount.2 counts)
    simp only [addAll, List.foldl_cons] at hrest ⊢
    rw [hrest, mem_keys_add]
    simp only [keys, List.map_cons, List.mem_cons]
    tauto

/-- The total grows by all the amounts. -/
theorem total_addAll : total (addAll amounts counts) = total counts + total amounts := by
  induction amounts generalizing counts with
  | nil => simp [addAll, total]
  | cons amount rest ih =>
    have hrest := @ih (add amount.1 amount.2 counts)
    simp only [addAll, List.foldl_cons] at hrest ⊢
    rw [hrest, total_add]
    simp only [total, List.map_cons, List.sum_cons]
    omega

end Adding

/-- Counting from zero is adding zero for each name to no counts. -/
theorem zeros_eq_addAll (names : List α) :
    zeros names = addAll (names.map fun key => (key, 0)) [] := by
  simp [zeros, addAll, List.foldl_map]

/-- Each name is counted once, however often it is given. -/
theorem nodup_keys_zeros (names : List α) : (keys (zeros names)).Nodup := by
  rw [zeros_eq_addAll]
  exact nodup_keys_addAll _ List.nodup_nil

/-- The counted keys are the names. -/
@[simp] theorem mem_keys_zeros {names : List α} : key ∈ keys (zeros names) ↔ key ∈ names := by
  rw [zeros_eq_addAll, mem_keys_addAll]
  simp [keys]

@[simp] theorem total_zeros (names : List α) : total (zeros names) = 0 := by
  rw [zeros_eq_addAll, total_addAll]
  simp [total, Function.comp_def]

/-- One entry of the search for the least served key. -/
def better (excluded : Finset α) (best : Option (α × ℕ)) (entry : α × ℕ) : Option (α × ℕ) :=
  if entry.1 ∈ excluded then best
  else match best with
    | none => some entry
    | some b => if entry.2 < b.2 then some entry else best

/-- The first entry with the smallest count among the keys that are not excluded. -/
def least (excluded : Finset α) (counts : List (α × ℕ)) : Option (α × ℕ) :=
  counts.foldl (better excluded) none

variable {excluded : Finset α} {best : Option (α × ℕ)} {entry : α × ℕ}

/-- The search finds none only if it began with none and every key is excluded. -/
theorem foldl_better_eq_none :
    counts.foldl (better excluded) best = none ↔
      best = none ∧ ∀ e ∈ counts, e.1 ∈ excluded := by
  induction counts generalizing best with
  | nil => simp
  | cons e rest ih =>
    rw [List.foldl_cons, ih, List.forall_mem_cons]
    by_cases he : e.1 ∈ excluded
    · simp [better, he]
    · cases best with
      | none => simp [better, he]
      | some b => by_cases hlt : e.2 < b.2 <;> simp [better, he, hlt]

/-- What is found is the entry held so far or one of the rest, and no other one of these is below
it. -/
theorem foldl_better_eq_some (h : counts.foldl (better excluded) best = some entry) :
    (best = some entry ∨ entry ∈ counts ∧ entry.1 ∉ excluded) ∧
      (∀ b, best = some b → entry.2 ≤ b.2) ∧
      ∀ e ∈ counts, e.1 ∉ excluded → entry.2 ≤ e.2 := by
  induction counts generalizing best with
  | nil =>
    rw [List.foldl_nil] at h
    subst h
    simp
  | cons e rest ih =>
    rw [List.foldl_cons] at h
    obtain ⟨hwhere, hbest, hrest⟩ := ih h
    by_cases he : e.1 ∈ excluded
    · simp only [better, he, if_true] at hwhere hbest
      refine ⟨?_, hbest, ?_⟩
      · rcases hwhere with hwhere | ⟨hmem, hnot⟩
        · exact .inl hwhere
        · exact .inr ⟨List.mem_cons_of_mem _ hmem, hnot⟩
      · rintro e' hmem hnot
        rcases List.mem_cons.mp hmem with rfl | hmem
        · exact absurd he hnot
        · exact hrest e' hmem hnot
    · -- The candidate after `e` is `e` itself or one that is not above it.
      have hcandidate : ∃ b', better excluded best e = some b' ∧ b'.2 ≤ e.2 ∧
          (b' = e ∨ best = some b') ∧ ∀ b, best = some b → b'.2 ≤ b.2 := by
        cases best with
        | none => exact ⟨e, by simp [better, he], le_rfl, .inl rfl, by simp⟩
        | some b =>
          by_cases hlt : e.2 < b.2
          · exact ⟨e, by simp [better, he, hlt], le_rfl, .inl rfl, by
              rintro _ ⟨⟩
              omega⟩
          · exact ⟨b, by simp [better, he, hlt], by omega, .inr rfl, by
              rintro _ ⟨⟩
              omega⟩
      obtain ⟨b', heq, hle, hor, hall⟩ := hcandidate
      rw [heq] at hwhere hbest
      have hentry : entry.2 ≤ b'.2 := hbest b' rfl
      refine ⟨?_, fun b hb => hentry.trans (hall b hb), ?_⟩
      · rcases hwhere with hwhere | ⟨hmem, hnot⟩
        · cases hwhere
          rcases hor with rfl | hor
          · exact .inr ⟨List.mem_cons_self, he⟩
          · exact .inl hor
        · exact .inr ⟨List.mem_cons_of_mem _ hmem, hnot⟩
      · rintro e' hmem hnot
        rcases List.mem_cons.mp hmem with rfl | hmem
        · exact hentry.trans hle
        · exact hrest e' hmem hnot

/-- Nothing is found only where every key is excluded. -/
theorem least_eq_none : least excluded counts = none ↔ ∀ key ∈ keys counts, key ∈ excluded := by
  unfold least
  rw [foldl_better_eq_none]
  simp [keys]

/-- What is found is in the running, and no other key in the running is below it. -/
theorem least_eq_some (h : least excluded counts = some entry) :
    entry ∈ counts ∧ entry.1 ∉ excluded ∧ ∀ e ∈ counts, e.1 ∉ excluded → entry.2 ≤ e.2 := by
  obtain ⟨hwhere, -, hleast⟩ := foldl_better_eq_some h
  rcases hwhere with hwhere | ⟨hmem, hnot⟩
  · cases hwhere
  · exact ⟨hmem, hnot, hleast⟩

/-- Rounds of serving: the counts, the keys dropped, and the keys served, newest first. -/
structure Round (α : Type*) [DecidableEq α] where
  counts : List (α × ℕ)
  dropped : Finset α
  served : List α

/-- One round: the least served key is served or dropped. -/
inductive Turn (r : Round α) : Round α → Prop
  | serve {entry : α × ℕ} : least r.dropped r.counts = some entry →
      Turn r { r with counts := add entry.1 1 r.counts, served := entry.1 :: r.served }
  | drop {entry : α × ℕ} : least r.dropped r.counts = some entry →
      Turn r { r with dropped := insert entry.1 r.dropped }

/-- No key that was served is ahead of a key in the running by more than one. -/
structure Fair (r : Round α) : Prop where
  nodup : (keys r.counts).Nodup
  ahead : ∀ key ∈ r.served, ∀ other ∈ keys r.counts, other ∉ r.dropped →
    count r.counts key ≤ count r.counts other + 1

/-- Nothing served is fair. -/
theorem Fair.start (hkeys : (keys counts).Nodup) (dropped : Finset α) :
    Fair ⟨counts, dropped, []⟩ :=
  ⟨hkeys, by simp⟩

/-- Every round keeps the counts fair. -/
theorem Turn.fair {r r' : Round α} (hr : Fair r) (h : Turn r r') : Fair r' := by
  cases h with
  | @serve entry hleast =>
    obtain ⟨hmem, -, hle⟩ := least_eq_some hleast
    have hself : count r.counts entry.1 = entry.2 := count_of_mem hr.nodup hmem
    have hkeys : keys (add entry.1 1 r.counts) = keys r.counts :=
      keys_add_of_mem (List.mem_map_of_mem hmem)
    refine ⟨nodup_keys_add hr.nodup, ?_⟩
    intro key hkey other hother hnot
    change count (add entry.1 1 r.counts) key ≤ count (add entry.1 1 r.counts) other + 1
    have hup : count r.counts other ≤ count (add entry.1 1 r.counts) other := count_le_count_add
    by_cases hserved : key = entry.1
    · -- The key just served was at most as high as every key in the running.
      obtain ⟨e, he, rfl⟩ := List.mem_map.mp (hkeys ▸ hother : other ∈ keys r.counts)
      have hlow : entry.2 ≤ e.2 := hle e he hnot
      have hcount : count r.counts e.1 = e.2 := count_of_mem hr.nodup he
      rw [hserved, count_add_self]
      omega
    · have hold : key ∈ r.served := by
        simpa [hserved] using hkey
      have hahead := hr.ahead key hold other (hkeys ▸ hother) hnot
      rw [count_add_of_ne hserved]
      omega
  | drop hleast =>
    refine ⟨hr.nodup, ?_⟩
    intro key hkey other hother hnot
    exact hr.ahead key hkey other hother fun hmem => hnot (Finset.mem_insert_of_mem hmem)

end LeastServed
