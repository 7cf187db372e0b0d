import Mathlib.Order.Lattice
import Mathlib.Data.List.Basic

/-!
# The row in force at a time

Rows are kept in the order they were written, each with a time.  Two readings of "the row in force
at `t`" are in use: walk the rows and stop at the first later one, or take the last row that is not
later.  They agree on rows whose times ascend.
-/

namespace AsOf

variable {α τ : Type*} [LinearOrder τ] (time : α → τ) (t : τ)

/-- Walk the rows, remembering the last one, and stop at the first that is later than `t`. -/
def walk (found : Option α) : List α → Option α
  | [] => found
  | row :: rows => if t < time row then found else walk (some row) rows

/-- The last row that is not later than `t`. -/
def latest (rows : List α) : Option α := (rows.filter (time · ≤ t)).getLast?

/-- No row up to `row` is later than `t`, and the row after it, if there is one, is. -/
def StopsAfter (rows : List α) (row : α) : Prop :=
  ∃ before after, rows = before ++ row :: after ∧
    (∀ r ∈ before ++ [row], time r ≤ t) ∧ ∀ r ∈ after.head?, t < time r

/-- The row is not later than `t`, and every row after it is. -/
def LastInForce (rows : List α) (row : α) : Prop :=
  ∃ before after, rows = before ++ row :: after ∧ time row ≤ t ∧ ∀ r ∈ after, t < time r

/-- What a walk found is what it had found before, or the row it stops after. -/
theorem walk_eq_some_iff (found : Option α) (rows : List α) (row : α) :
    walk time t found rows = some row ↔
      StopsAfter time t rows row ∨ (found = some row ∧ ∀ r ∈ rows.head?, t < time r) := by
  induction rows generalizing found with
  | nil => simp [walk, StopsAfter]
  | cons r rows ih =>
    by_cases hr : t < time r
    · have hnot : ¬ StopsAfter time t (r :: rows) row := by
        rintro ⟨before, after, heq, hbefore, -⟩
        have hmem : r ∈ before ++ [row] := by
          cases before with
          | nil => simp [(List.cons.inj heq).1]
          | cons b before => simp [(List.cons.inj heq).1]
        exact absurd (hbefore r hmem) (not_le.mpr hr)
      simp [walk, hr, hnot]
    · rw [walk, if_neg hr, ih]
      constructor
      · rintro (⟨before, after, rfl, hbefore, hafter⟩ | ⟨heq, hrest⟩)
        · refine Or.inl ⟨r :: before, after, rfl, ?_, hafter⟩
          simpa [not_lt.mp hr] using hbefore
        · cases heq
          exact Or.inl ⟨[], rows, rfl, by simpa using hr, hrest⟩
      · rintro (⟨before, after, heq, hbefore, hafter⟩ | ⟨-, hrest⟩)
        · cases before with
          | nil =>
            obtain ⟨rfl, rfl⟩ := List.cons.inj heq
            exact Or.inr ⟨rfl, hafter⟩
          | cons b before =>
            obtain ⟨rfl, rfl⟩ := List.cons.inj heq
            refine Or.inl ⟨before, after, rfl, fun x hx => hbefore x ?_, hafter⟩
            exact List.mem_cons_of_mem _ hx
        · exact absurd (hrest r rfl) hr

/-- A walk from nothing finds the row it stops after. -/
theorem walk_none_eq_some_iff (rows : List α) (row : α) :
    walk time t none rows = some row ↔ StopsAfter time t rows row := by
  simp [walk_eq_some_iff]

/-- The last row that is not later than `t`, by what surrounds it. -/
theorem latest_eq_some_iff (rows : List α) (row : α) :
    latest time t rows = some row ↔ LastInForce time t rows row := by
  rw [latest, List.getLast?_eq_some_iff]
  constructor
  · rintro ⟨kept, hkept⟩
    obtain ⟨before, rest, rfl, -, hrest⟩ := List.filter_eq_append_iff.mp hkept
    obtain ⟨skipped, after, rfl, -, hrow, hafter⟩ := List.filter_eq_cons_iff.mp hrest
    refine ⟨before ++ skipped, after, by simp, by simpa using hrow, fun r hr => ?_⟩
    simpa using List.filter_eq_nil_iff.mp hafter r hr
  · rintro ⟨before, after, rfl, hrow, hafter⟩
    refine ⟨before.filter (time · ≤ t), ?_⟩
    have hnil : after.filter (time · ≤ t) = [] :=
      List.filter_eq_nil_iff.mpr fun r hr => by simpa using hafter r hr
    simp [List.filter_append, hrow, hnil]

/-- On rows in the order of their times the two readings agree. -/
theorem walk_eq_latest {rows : List α} (hsorted : rows.Pairwise (time · ≤ time ·)) :
    walk time t none rows = latest time t rows := by
  ext row
  rw [walk_none_eq_some_iff, latest_eq_some_iff]
  constructor
  · rintro ⟨before, after, rfl, hbefore, hafter⟩
    refine ⟨before, after, rfl, hbefore row (by simp), fun r hr => ?_⟩
    cases after with
    | nil => cases hr
    | cons a after =>
      have ha : t < time a := hafter a rfl
      rcases List.mem_cons.mp hr with rfl | hr
      · exact ha
      · have htail := (List.pairwise_append.mp hsorted).2.1.of_cons
        exact lt_of_lt_of_le ha (List.rel_of_pairwise_cons htail hr)
  · rintro ⟨before, after, rfl, hrow, hafter⟩
    refine ⟨before, after, rfl, fun r hr => ?_, fun r hr => hafter r (List.mem_of_mem_head? hr)⟩
    rcases List.mem_append.mp hr with hr | hr
    · exact le_trans ((List.pairwise_append.mp hsorted).2.2 r hr row List.mem_cons_self) hrow
    · rwa [List.mem_singleton.mp hr]

/-- The walk depends on the times only through the side of `t` they lie on. -/
theorem walk_congr {σ : Type*} [LinearOrder σ] {time' : α → σ} {t' : σ} {rows : List α}
    (h : ∀ r ∈ rows, (t < time r ↔ t' < time' r)) (found : Option α) :
    walk time t found rows = walk time' t' found rows := by
  induction rows generalizing found with
  | nil => rfl
  | cons r rows ih =>
    rw [walk, walk, ih fun x hx => h x (List.mem_cons_of_mem _ hx)]
    simp [h r List.mem_cons_self]

/-- Rows that are later than `t` change nothing behind the others. -/
theorem walk_append_of_later {rows later : List α} (h : ∀ r ∈ later, t < time r)
    (found : Option α) : walk time t found (rows ++ later) = walk time t found rows := by
  induction rows generalizing found with
  | nil =>
    cases later with
    | nil => rfl
    | cons r later => simp [walk, h r List.mem_cons_self]
  | cons r rows ih => rw [List.cons_append, walk, walk, ih]

/-- A row behind all others is the latest from its own time on. -/
theorem latest_append_singleton (rows : List α) (row : α) :
    latest time t (rows ++ [row]) = if time row ≤ t then some row else latest time t rows := by
  unfold latest
  by_cases h : time row ≤ t <;> simp [List.filter_append, h]

/-- The latest of mapped rows is the mapped latest row. -/
theorem latest_map {β : Type*} (f : β → α) (rows : List β) :
    latest time t (rows.map f) = (latest (fun row => time (f row)) t rows).map f := by
  rw [latest, latest, List.filter_map, List.getLast?_map]
  rfl

/-- Once all rows are in the past, the last one is in force. -/
theorem latest_eq_getLast? {rows : List α} (h : ∀ r ∈ rows, time r ≤ t) :
    latest time t rows = rows.getLast? := by
  unfold latest
  rw [List.filter_eq_self.mpr fun r hr => decide_eq_true (h r hr)]

section Writes

variable {σ β : Type*}

/-- A cell that each step overwrites or leaves alone holds the last thing written, or what it held
before. -/
theorem view_foldl {step : σ → α → σ} (view : σ → Option β) (writes : α → Option β)
    (h : ∀ s a, view (step s a) = (writes a).or (view s)) (s : σ) (as : List α) :
    view (as.foldl step s) = (as.filterMap writes).getLast?.or (view s) := by
  induction as generalizing s with
  | nil => rfl
  | cons a as ih =>
    rw [List.foldl_cons, ih, h]
    cases hw : writes a with
    | none => rw [List.filterMap_cons_none hw, Option.none_or]
    | some b =>
      rw [List.filterMap_cons_some hw, List.getLast?_cons]
      cases (as.filterMap writes).getLast? with
      | none => rfl
      | some c => rfl

/-- The last thing written comes from the last element that writes anything, if that element writes
this as well. -/
theorem getLast?_filterMap_of_last {as : List α} {p : α → Bool} {writes : α → Option β} {a : α}
    {b : β} (hp : ∀ a ∈ as, (writes a).isSome → p a) (hlast : (as.filter p).getLast? = some a)
    (ha : writes a = some b) : (as.filterMap writes).getLast? = some b := by
  have hfilter : as.filterMap writes = (as.filter p).filterMap writes := by
    rw [List.filterMap_filter]
    refine List.filterMap_congr fun a ha => ?_
    by_cases hpa : p a
    · rw [if_pos hpa]
    · rw [if_neg hpa]
      exact Option.not_isSome_iff_eq_none.mp fun hsome => hpa (hp a ha hsome)
  obtain ⟨before, hsplit⟩ := List.getLast?_eq_some_iff.mp hlast
  rw [hfilter, hsplit, List.filterMap_append, List.filterMap_cons_some ha]
  simp

end Writes

end AsOf
