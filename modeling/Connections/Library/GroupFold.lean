import Mathlib.Algebra.BigOperators.Group.List.Basic
import Mathlib.Data.List.Nodup
import Mathlib.Data.List.Perm.Basic

/-!
# Folding a list into a map, group by group

A map keeps its entries in the order in which their keys came in.  A fold looks up the entry of each
item's key, makes one where there is none, and changes it by the item; in the end the entry of a key
is the fold of that key's items alone, and what each item adds to a measure is added once.
-/

namespace GroupFold

variable {ι κ α : Type*}

/-- Entries under distinct keys. -/
structure OrderedMap (κ α : Type*) where
  entries : List (κ × α)
  nodup_keys : (entries.map Prod.fst).Nodup

namespace OrderedMap

/-- The map without entries. -/
def empty : OrderedMap κ α := ⟨[], List.nodup_nil⟩

/-- The keys, in the order in which they came in. -/
def keys (m : OrderedMap κ α) : List κ := m.entries.map Prod.fst

variable [DecidableEq κ]

/-- The value under a key. -/
def get? (m : OrderedMap κ α) (k : κ) : Option α := (m.entries.find? (·.1 = k)).map Prod.snd

theorem get?_eq_some {m : OrderedMap κ α} {k : κ} {a : α} :
    m.get? k = some a ↔ (k, a) ∈ m.entries := by
  constructor
  · intro h
    obtain ⟨⟨key, value⟩, hfound, rfl⟩ := Option.map_eq_some_iff.mp h
    obtain rfl : key = k := by simpa using List.find?_some hfound
    exact List.mem_of_find?_eq_some hfound
  · intro h
    cases hfound : m.entries.find? (·.1 = k) with
    | none => exact absurd (decide_eq_true rfl) (List.find?_eq_none.mp hfound (k, a) h)
    | some entry =>
      have hkey : entry.1 = k := by simpa using List.find?_some hfound
      have hsame := List.inj_on_of_nodup_map m.nodup_keys (List.mem_of_find?_eq_some hfound) h hkey
      rw [get?, hfound, hsame]
      rfl

theorem get?_eq_none {m : OrderedMap κ α} {k : κ} : m.get? k = none ↔ k ∉ m.keys := by
  rw [get?, Option.map_eq_none_iff, List.find?_eq_none]
  simp only [keys, List.mem_map, decide_eq_true_eq, not_exists, not_and]

/-- An entry with its value changed, when it is the one of a key. -/
def changeEntry (k : κ) (f : α → α) (entry : κ × α) : κ × α :=
  if entry.1 = k then (k, f entry.2) else entry

@[simp] theorem changeEntry_fst (k : κ) (f : α → α) (entry : κ × α) :
    (changeEntry k f entry).1 = entry.1 := by
  unfold changeEntry
  split
  · rename_i h
    exact h.symm
  · rfl

/-- Change the value under a key, from a first one when there is none. -/
def change (m : OrderedMap κ α) (k : κ) (first : α) (f : α → α) : OrderedMap κ α :=
  if h : k ∈ m.keys then
    { entries := m.entries.map (changeEntry k f)
      nodup_keys := by simpa [List.map_map, Function.comp_def] using m.nodup_keys }
  else
    { entries := m.entries ++ [(k, f first)]
      nodup_keys := by
        rw [List.map_append, List.nodup_append]
        refine ⟨m.nodup_keys, by simp, ?_⟩
        rintro a ha b hb rfl
        obtain rfl : a = k := by simpa using hb
        exact h ha }

theorem keys_change (m : OrderedMap κ α) (k : κ) (first : α) (f : α → α) :
    (m.change k first f).keys = if k ∈ m.keys then m.keys else m.keys ++ [k] := by
  unfold change
  split
  · simp [keys, List.map_map, Function.comp_def]
  · simp [keys]

/-- The changed value is there, made from the one before. -/
theorem get?_change_self (m : OrderedMap κ α) (k : κ) (first : α) (f : α → α) :
    (m.change k first f).get? k = some (f ((m.get? k).getD first)) := by
  rw [get?_eq_some]
  unfold change
  split
  · rename_i h
    obtain ⟨a, ha⟩ := Option.ne_none_iff_exists'.mp (mt get?_eq_none.mp (not_not.mpr h))
    refine List.mem_map.mpr ⟨(k, a), get?_eq_some.mp ha, ?_⟩
    simp [changeEntry, ha]
  · rename_i h
    simp [get?_eq_none.mpr h]

/-- The values under other keys are as before. -/
theorem get?_change_of_ne (m : OrderedMap κ α) {k other : κ} (first : α) (f : α → α)
    (h : other ≠ k) : (m.change k first f).get? other = m.get? other := by
  ext a
  rw [get?_eq_some, get?_eq_some]
  unfold change
  split
  · constructor
    · intro hmem
      obtain ⟨entry, hentry, hsame⟩ := List.mem_map.mp hmem
      have hkey : entry.1 = other := by
        rw [← changeEntry_fst k f entry, hsame]
      rw [changeEntry, if_neg (hkey ▸ h)] at hsame
      rwa [← hsame]
    · intro hmem
      exact List.mem_map.mpr ⟨(other, a), hmem, by simp [changeEntry, h]⟩
  · simp [h]

/-- A change that adds the same to a measure of every value adds it once to the whole. -/
theorem sum_change {M : Type*} [AddCommMonoid M] (g : α → M) (m : OrderedMap κ α) (k : κ)
    {first : α} {f : α → α} {w : M} (hfirst : g first = 0) (hf : ∀ a, g (f a) = g a + w) :
    ((m.change k first f).entries.map fun entry => g entry.2).sum =
      (m.entries.map fun entry => g entry.2).sum + w := by
  have hother : ∀ entries : List (κ × α), k ∉ entries.map Prod.fst →
      entries.map (changeEntry k f) = entries := by
    intro entries hk
    refine (List.map_congr_left fun entry hentry => ?_).trans (List.map_id _)
    have hne : entry.1 ≠ k := fun heq => hk (List.mem_map.mpr ⟨entry, hentry, heq⟩)
    simp [changeEntry, hne]
  unfold change
  split
  · rename_i h
    -- The entry of the key occurs once.
    obtain ⟨⟨key, a⟩, hmem, rfl⟩ := List.mem_map.mp h
    obtain ⟨before, after, hsplit⟩ := List.append_of_mem hmem
    have hnodup := m.nodup_keys
    rw [hsplit, List.map_append, List.map_cons, List.nodup_middle, List.nodup_cons,
      List.mem_append, not_or] at hnodup
    simp only [hsplit, List.map_append, List.map_cons, hother before hnodup.1.1,
      hother after hnodup.1.2, changeEntry, if_pos, List.sum_append, List.sum_cons, hf]
    simp only [add_assoc, add_left_comm, add_comm w]
  · simp [hf, hfirst]

/-- Two maps with the same keys, and values that look alike, have the same entries in some order. -/
theorem map_entries_perm {β : Type*} {m m' : OrderedMap κ α} {f : κ × α → β}
    (hkeys : ∀ k, k ∈ m.keys ↔ k ∈ m'.keys)
    (hvalues : ∀ k a a', m.get? k = some a → m'.get? k = some a' → f (k, a) = f (k, a')) :
    (m.entries.map f).Perm (m'.entries.map f) := by
  have hlist (n : OrderedMap κ α) : n.entries.map f =
      n.keys.filterMap fun k => (n.get? k).map fun a => f (k, a) := by
    rw [keys, List.filterMap_map, ← List.filterMap_eq_map]
    refine List.filterMap_congr fun entry hentry => ?_
    simp [get?_eq_some.mpr (show (entry.1, entry.2) ∈ n.entries from hentry)]
  rw [hlist m, hlist m']
  refine (List.Perm.filterMap _ ((List.perm_ext_iff_of_nodup m.nodup_keys m'.nodup_keys).mpr
    hkeys)).trans ?_
  refine List.Perm.of_eq (List.filterMap_congr fun k hk => ?_)
  obtain ⟨a', ha'⟩ := Option.ne_none_iff_exists'.mp (mt get?_eq_none.mp (not_not.mpr hk))
  obtain ⟨a, ha⟩ := Option.ne_none_iff_exists'.mp
    (mt get?_eq_none.mp (not_not.mpr ((hkeys k).mpr hk)))
  rw [ha, ha', Option.map_some, Option.map_some, hvalues k a a' ha ha']

section Collect

variable (key : ι → κ) (first : ι → α) (add : α → ι → α)

/-- Change the entry of each item's key by the item. -/
def collect (m : OrderedMap κ α) (items : List ι) : OrderedMap κ α :=
  items.foldl (fun m item => m.change (key item) (first item) (add · item)) m

/-- The keys are those from before and those of the items. -/
theorem mem_keys_collect (m : OrderedMap κ α) (items : List ι) (k : κ) :
    k ∈ (m.collect key first add items).keys ↔ k ∈ m.keys ∨ ∃ item ∈ items, key item = k := by
  induction items generalizing m with
  | nil => simp [collect]
  | cons item items ih =>
    have hrest := ih (m.change (key item) (first item) (add · item))
    rw [collect, List.foldl_cons, ← collect, hrest, keys_change]
    split
    · rename_i hold
      simp only [List.exists_mem_cons_iff]
      constructor
      · rintro (hk | hk)
        · exact .inl hk
        · exact .inr (.inr hk)
      · rintro (hk | rfl | hk)
        · exact .inl hk
        · exact .inl hold
        · exact .inr hk
    · simp only [List.mem_append, List.mem_singleton, List.exists_mem_cons_iff, or_assoc,
        eq_comm (a := k)]

/-- The value under a key is the fold of the key's items. -/
theorem get?_collect (m : OrderedMap κ α) (items : List ι) (k : κ) :
    (m.collect key first add items).get? k =
      match items.filter (key · = k) with
      | [] => m.get? k
      | item :: rest => some ((item :: rest).foldl add ((m.get? k).getD (first item))) := by
  induction items generalizing m with
  | nil => rfl
  | cons item items ih =>
    rw [collect, List.foldl_cons, ← collect, ih]
    by_cases hkey : key item = k
    · subst hkey
      rw [List.filter_cons_of_pos (by simp), get?_change_self]
      cases items.filter (key · = key item) with
      | nil => rfl
      | cons next rest => rfl
    · rw [List.filter_cons_of_neg (by simpa using hkey), get?_change_of_ne _ _ _ (Ne.symm hkey)]

/-- What each item adds to a measure is added once to the whole. -/
theorem sum_collect {M : Type*} [AddCommMonoid M] (g : α → M) (w : ι → M)
    (hfirst : ∀ item, g (first item) = 0) (hadd : ∀ a item, g (add a item) = g a + w item)
    (m : OrderedMap κ α) (items : List ι) :
    ((m.collect key first add items).entries.map fun entry => g entry.2).sum =
      (m.entries.map fun entry => g entry.2).sum + (items.map w).sum := by
  induction items generalizing m with
  | nil => simp [collect]
  | cons item items ih =>
    rw [collect, List.foldl_cons, ← collect, ih,
      sum_change g m (key item) (hfirst item) fun a => hadd a item, List.map_cons, List.sum_cons,
      add_assoc]

end Collect

end OrderedMap

end GroupFold
