import Mathlib.Data.List.Nodup
import Mathlib.Order.Lattice

/-!
# Paging through a sorted list

Rows are sorted by a key, and rows with the same key by their ids, so that rows with distinct ids
are sorted in one way only.  Then the pages of the list can be read one after the other, each from
rows that come in any order.
-/

namespace Paging

variable {α κ : Type*}

/-- The page of a number, the first one being number 1. -/
def page (rows : List α) (number limit : ℕ) : List α :=
  (rows.drop ((number - 1) * limit)).take limit

/-- Pages that reach the end of a list are the list. -/
theorem flatten_pages (rows : List α) {limit count : ℕ} (h : rows.length ≤ count * limit) :
    ((List.range count).map fun i => page rows (i + 1) limit).flatten = rows := by
  have htaken (n : ℕ) :
      ((List.range n).map fun i => page rows (i + 1) limit).flatten = rows.take (n * limit) := by
    induction n with
    | zero => simp
    | succ n ih =>
      rw [List.range_succ, List.map_append, List.flatten_append, ih, Nat.succ_mul, List.take_add]
      simp [page]
  rw [htaken, List.take_of_length_le h]

section OrderBy

variable [LinearOrder κ]

/-- The order of a key, then of the ids, upwards or downwards. -/
def Precedes (descending : Bool) (key : α → κ) (id : α → ℕ) (a b : α) : Prop :=
  if descending then key b < key a ∨ key b = key a ∧ id b ≤ id a
  else key a < key b ∨ key a = key b ∧ id a ≤ id b

instance (descending : Bool) (key : α → κ) (id : α → ℕ) (a b : α) :
    Decidable (Precedes descending key id a b) :=
  inferInstanceAs (Decidable (if descending then key b < key a ∨ key b = key a ∧ id b ≤ id a
    else key a < key b ∨ key a = key b ∧ id a ≤ id b))

variable {descending : Bool} {key : α → κ} {id : α → ℕ}

/-- Two rows of one key are still told apart, by their ids. -/
theorem Precedes.total (a b : α) :
    Precedes descending key id a b ∨ Precedes descending key id b a := by
  unfold Precedes
  rcases lt_trichotomy (key a) (key b) with hlt | heq | hlt
  · cases descending <;> simp [hlt]
  · have hids := Nat.le_total (id a) (id b)
    cases descending
    · simpa [heq] using hids
    · simpa [heq] using hids.symm
  · cases descending <;> simp [hlt]

/-- The listed order is transitive, whichever way the key runs. -/
theorem Precedes.trans {a b c : α} (hab : Precedes descending key id a b)
    (hbc : Precedes descending key id b c) : Precedes descending key id a c := by
  have hup {x y z : α} (hxy : key x < key y ∨ key x = key y ∧ id x ≤ id y)
      (hyz : key y < key z ∨ key y = key z ∧ id y ≤ id z) :
      key x < key z ∨ key x = key z ∧ id x ≤ id z := by
    rcases hxy with hxy | ⟨hxy, hids⟩
    · rcases hyz with hyz | ⟨hyz, -⟩
      · exact .inl (hxy.trans hyz)
      · exact .inl (hyz ▸ hxy)
    · rcases hyz with hyz | ⟨hyz, hids'⟩
      · exact .inl (hxy ▸ hyz)
      · exact .inr ⟨hxy.trans hyz, Nat.le_trans hids hids'⟩
  unfold Precedes at hab hbc ⊢
  cases descending
  · exact hup hab hbc
  · exact hup hbc hab

/-- Two rows that precede each other are one. -/
theorem Precedes.antisymm {a b : α} (hab : Precedes descending key id a b)
    (hba : Precedes descending key id b a) : id a = id b := by
  have hup {x y : α} (hxy : key x < key y ∨ key x = key y ∧ id x ≤ id y)
      (hyx : key y < key x ∨ key y = key x ∧ id y ≤ id x) : id x = id y := by
    rcases hxy with hxy | ⟨hxy, hids⟩
    · rcases hyx with hyx | ⟨hyx, -⟩
      · exact absurd (hxy.trans hyx) (lt_irrefl _)
      · exact absurd (hyx ▸ hxy) (lt_irrefl _)
    · rcases hyx with hyx | ⟨-, hids'⟩
      · exact absurd (hxy ▸ hyx) (lt_irrefl _)
      · exact Nat.le_antisymm hids hids'
  unfold Precedes at hab hba
  cases descending
  · exact hup hab hba
  · exact hup hba hab

/-- Sort by a key, then by the ids. -/
def orderBy (descending : Bool) (key : α → κ) (id : α → ℕ) (rows : List α) : List α :=
  rows.mergeSort fun a b => decide (Precedes descending key id a b)

/-- Ordering the rows loses none. -/
theorem orderBy_perm (descending : Bool) (key : α → κ) (id : α → ℕ) (rows : List α) :
    (orderBy descending key id rows).Perm rows :=
  List.mergeSort_perm _ _

/-- In the ordered rows each precedes all that come after it. -/
theorem pairwise_orderBy (descending : Bool) (key : α → κ) (id : α → ℕ) (rows : List α) :
    (orderBy descending key id rows).Pairwise (Precedes descending key id) := by
  have hsorted : (orderBy descending key id rows).Pairwise fun a b =>
      decide (Precedes descending key id a b) = true := by
    apply List.pairwise_mergeSort
    · intro a b c hab hbc
      exact decide_eq_true ((of_decide_eq_true hab).trans (of_decide_eq_true hbc))
    · intro a b
      simpa using Precedes.total a b
  exact hsorted.imp of_decide_eq_true

/-- Rows with distinct ids are sorted in one way, in whatever order they come. -/
theorem orderBy_eq_of_perm {rows rows' : List α} (h : rows.Perm rows')
    (hids : (rows.map id).Nodup) :
    orderBy descending key id rows = orderBy descending key id rows' := by
  refine List.Perm.eq_of_pairwise ?_ (pairwise_orderBy ..) (pairwise_orderBy ..)
    ((orderBy_perm ..).trans (h.trans (orderBy_perm ..).symm))
  intro a b ha hb hab hba
  exact List.inj_on_of_nodup_map hids ((orderBy_perm ..).mem_iff.mp ha)
    (h.mem_iff.mpr ((orderBy_perm ..).mem_iff.mp hb)) (hab.antisymm hba)

end OrderBy

end Paging
