import Mathlib.Data.List.Sublists

/-!
# Combinations in lexicographic order

The `k`-element sublists of a list, in the order of their positions, and the successor that steps
through the combinations of positions without the list of all of them.
-/

namespace Combinations

variable {α β : Type*}

/-- The sublists of length `k`, in lexicographic order of their positions. -/
def combinations : ℕ → List α → List (List α)
  | 0, _ => [[]]
  | _ + 1, [] => []
  | k + 1, a :: l => (combinations k l).map (a :: ·) ++ combinations (k + 1) l

@[simp] theorem combinations_zero (l : List α) : combinations 0 l = [[]] := by
  unfold combinations
  rfl

@[simp] theorem combinations_succ_nil (k : ℕ) : combinations (k + 1) ([] : List α) = [] := rfl

theorem combinations_succ_cons (k : ℕ) (a : α) (l : List α) :
    combinations (k + 1) (a :: l) = (combinations k l).map (a :: ·) ++ combinations (k + 1) l :=
  rfl

/-- There are as many as the binomial coefficient says. -/
theorem length_combinations (k : ℕ) (l : List α) :
    (combinations k l).length = l.length.choose k := by
  induction l generalizing k with
  | nil => cases k <;> simp
  | cons a l ih =>
    cases k with
    | zero => simp
    | succ k =>
      rw [combinations_succ_cons, List.length_append, List.length_map, ih, ih, List.length_cons,
        Nat.choose_succ_succ]

/-- They are the sublists of the length. -/
theorem mem_combinations {k : ℕ} {l c : List α} :
    c ∈ combinations k l ↔ c.Sublist l ∧ c.length = k := by
  induction l generalizing k c with
  | nil =>
    cases k with
    | zero => simp +contextual [List.sublist_nil]
    | succ k => simp +contextual [List.sublist_nil]
  | cons a l ih =>
    cases k with
    | zero => simp +contextual [List.length_eq_zero_iff]
    | succ k =>
      rw [combinations_succ_cons, List.mem_append, List.mem_map, ih, List.sublist_cons_iff]
      constructor
      · rintro (⟨d, hd, rfl⟩ | ⟨hsub, hlength⟩)
        · obtain ⟨hsub, hlength⟩ := ih.mp hd
          exact ⟨.inr ⟨d, rfl, hsub⟩, by simp [hlength]⟩
        · exact ⟨.inl hsub, hlength⟩
      · rintro ⟨hsub | ⟨d, rfl, hsub⟩, hlength⟩
        · exact .inr ⟨hsub, hlength⟩
        · exact .inl ⟨d, ih.mpr ⟨hsub, by simpa using hlength⟩, rfl⟩

/-- The combinations of an increasing list come in lexicographic order. -/
theorem pairwise_combinations [LT α] {l : List α} (hl : l.Pairwise (· < ·)) (k : ℕ) :
    (combinations k l).Pairwise (· < ·) := by
  induction l generalizing k with
  | nil => cases k <;> simp
  | cons a l ih =>
    cases k with
    | zero => simp
    | succ k =>
      obtain ⟨hhead, htail⟩ := List.pairwise_cons.mp hl
      rw [combinations_succ_cons, List.pairwise_append, List.pairwise_map]
      refine ⟨(ih htail k).imp fun hlt => List.cons_lt_cons_iff.mpr (.inr ⟨rfl, hlt⟩),
        ih htail (k + 1), ?_⟩
      intro c hc d hd
      obtain ⟨c, -, rfl⟩ := List.mem_map.mp hc
      obtain ⟨hsub, hlength⟩ := mem_combinations.mp hd
      cases d with
      | nil => cases hlength
      | cons b d =>
        have hb : b ∈ l := hsub.subset List.mem_cons_self
        exact List.cons_lt_cons_iff.mpr (.inl (hhead b hb))

/-- A list of other elements has the corresponding combinations. -/
theorem combinations_map (f : α → β) (k : ℕ) (l : List α) :
    combinations k (l.map f) = (combinations k l).map (List.map f) := by
  induction l generalizing k with
  | nil => cases k <;> simp
  | cons a l ih =>
    cases k with
    | zero => simp
    | succ k =>
      simp only [List.map_cons, combinations_succ_cons, ih, List.map_append, List.map_map]
      rfl

/-- The first combination takes the first elements. -/
theorem getElem?_zero_combinations {k : ℕ} {l : List α} (h : k ≤ l.length) :
    (combinations k l)[0]? = some (l.take k) := by
  induction l generalizing k with
  | nil =>
    obtain rfl : k = 0 := by simpa using h
    simp
  | cons a l ih =>
    cases k with
    | zero => simp
    | succ k =>
      have hfirst := ih (k := k) (by simpa using h)
      have hlt : 0 < ((combinations k l).map (a :: ·)).length := by
        rw [List.length_map]
        exact (List.getElem?_eq_some_iff.mp hfirst).1
      rw [combinations_succ_cons, List.getElem?_append_left hlt, List.getElem?_map, hfirst]
      rfl

/-- The next combination of positions below `n`, in lexicographic order: the last position that has
room moves up by one, and the ones after it follow it closely. -/
def successor (n : ℕ) : List ℕ → Option (List ℕ)
  | [] => none
  | i :: rest =>
    match successor n rest with
    | some next => some (i :: next)
    | none =>
      if i + (rest.length + 1) = n then none else some (List.range' (i + 1) (rest.length + 1))

/-- The successor steps through the combinations of consecutive positions one by one. -/
theorem successor_getElem? {k lo m p : ℕ} {c : List ℕ}
    (h : (combinations k (List.range' lo m))[p]? = some c) :
    successor (lo + m) c = (combinations k (List.range' lo m))[p + 1]? := by
  induction m generalizing k lo p c with
  | zero =>
    cases k with
    | zero =>
      cases p with
      | zero =>
        obtain rfl : c = [] := by simpa using h.symm
        rfl
      | succ p => simp at h
    | succ k => simp at h
  | succ m ih =>
    cases k with
    | zero =>
      cases p with
      | zero =>
        obtain rfl : c = [] := by simpa using h.symm
        simp [successor]
      | succ p => simp at h
    | succ k =>
      rw [List.range'_succ, combinations_succ_cons] at h ⊢
      generalize hhead : (combinations k (List.range' (lo + 1) m)).map (lo :: ·) = heads at h ⊢
      have hlength : heads.length = (combinations k (List.range' (lo + 1) m)).length := by
        rw [← hhead, List.length_map]
      by_cases hp : p < heads.length
      · rw [List.getElem?_append_left hp, ← hhead, List.getElem?_map] at h
        obtain ⟨d, hd, rfl⟩ := Option.map_eq_some_iff.mp h
        have hnext := ih hd
        rw [show lo + 1 + m = lo + (m + 1) by omega] at hnext
        have hk : d.length = k := (mem_combinations.mp (List.mem_of_getElem? hd)).2
        simp only [successor, hnext]
        by_cases hp' : p + 1 < heads.length
        · -- The rest of the combination moves.
          rw [List.getElem?_append_left hp', ← hhead, List.getElem?_map]
          obtain ⟨e, he⟩ : ∃ e, (combinations k (List.range' (lo + 1) m))[p + 1]? = some e :=
            ⟨_, List.getElem?_eq_getElem (hlength ▸ hp')⟩
          simp [he]
        · -- The rest is used up, so the first position moves, if there is room.
          have hlast : p + 1 = heads.length := by omega
          rw [List.getElem?_eq_none (hlength ▸ Nat.le_of_eq hlast.symm)]
          rw [List.getElem?_append_right (Nat.le_of_eq hlast.symm), hlast, Nat.sub_self]
          have hfits : k ≤ m := by
            have hsub := (mem_combinations.mp (List.mem_of_getElem? hd)).1.length_le
            simpa [hk] using hsub
          by_cases hroom : k = m
          · subst hroom
            have hnone : combinations (k + 1) (List.range' (lo + 1) k) = [] := by
              rw [← List.length_eq_zero_iff, length_combinations, List.length_range']
              exact Nat.choose_succ_self k
            simp [hk, hnone]
          · have hmore : k + 1 ≤ (List.range' (lo + 1) m).length := by
              rw [List.length_range']
              omega
            rw [getElem?_zero_combinations hmore, List.take_range'_of_length_ge (by omega)]
            simp only [hk]
            rw [if_neg (by omega)]
      · rw [List.getElem?_append_right (Nat.le_of_not_lt hp)] at h
        rw [List.getElem?_append_right (by omega), show p + 1 - heads.length =
          p - heads.length + 1 by omega, ← ih h, show lo + 1 + m = lo + (m + 1) by omega]

end Combinations
