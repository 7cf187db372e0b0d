import Connections.Library.Combinations
import Connections.Strategy.Entities
import Mathlib.Data.Finset.Powerset
import Mathlib.Data.Finset.Sort

/-!
# The cursor of the enumerating strategies

A combination is kept as increasing positions in the list of words left.  Stepping it through the
words left visits their combinations one by one, in lexicographic order.
-/

namespace Connections

open Combinations

/-- Whether a position has reached the last place that the ones after it leave. -/
def atLast (indices : List ℕ) (poolSize i : ℕ) : Bool :=
  indices.getD i 0 + (indices.length - i) = poolSize

/-- The next combination of positions in a pool, or none after the last one. -/
def nextCombination (indices : List ℕ) (poolSize : ℕ) : Option (List ℕ) :=
  let k := indices.length
  -- The rightmost index that can still be incremented.
  match (List.range k).reverse.find? fun i => !atLast indices poolSize i with
  | none => none
  | some i => some (indices.take i ++ List.range' (indices.getD i 0 + 1) (k - i))

/-- The words of a combination; a position beyond the pool has none. -/
def combinationToWords (indices : List ℕ) (pool : List String) : List (Option String) :=
  indices.map (pool[·]?)

theorem atLast_cons_succ (i : ℕ) (indices : List ℕ) (poolSize j : ℕ) :
    atLast (i :: indices) poolSize (j + 1) = atLast indices poolSize j := by
  simp [atLast]

/-- The search from the right finds the successor. -/
theorem nextCombination_eq_successor (indices : List ℕ) (poolSize : ℕ) :
    nextCombination indices poolSize = successor poolSize indices := by
  induction indices with
  | nil => rfl
  | cons i rest ih =>
    have hsearch : (List.range (rest.length + 1)).reverse.find?
          (fun j => !atLast (i :: rest) poolSize j) =
        (((List.range rest.length).reverse.find? fun j => !atLast rest poolSize j).map (· + 1)).or
          (if atLast (i :: rest) poolSize 0 then none else some 0) := by
      rw [List.range_succ_eq_map, List.reverse_cons, List.find?_append, ← List.map_reverse,
        List.find?_map]
      have hzero : List.find? (fun j => !atLast (i :: rest) poolSize j) [0] =
          if atLast (i :: rest) poolSize 0 then none else some 0 := by
        rw [List.find?_singleton]
        cases atLast (i :: rest) poolSize 0 <;> rfl
      have hshift : (fun j => !atLast (i :: rest) poolSize j) ∘ Nat.succ =
          fun j => !atLast rest poolSize j := by
        funext j
        exact congrArg not (atLast_cons_succ i rest poolSize j)
      rw [hzero, hshift]
    unfold nextCombination at ih ⊢
    simp only [List.length_cons] at ih ⊢
    rw [hsearch]
    unfold successor
    rw [← ih]
    cases hfound : (List.range rest.length).reverse.find? fun j => !atLast rest poolSize j with
    | some j => simp
    | none =>
      by_cases hlast : i + (rest.length + 1) = poolSize <;> simp [atLast, hlast]

/-- The words at a position of the enumeration of a pool. -/
theorem combinationToWords_getElem? {k p : ℕ} {pool : List String} {indices : List ℕ}
    (h : (combinations k (List.range pool.length))[p]? = some indices) :
    ∃ words, (combinations k pool)[p]? = some words ∧
      combinationToWords indices pool = words.map some := by
  have hpool : (List.range pool.length).map (pool[·]?) = pool.map some := by
    apply List.ext_getElem
    · simp
    · simp
  have hall : (combinations k pool).map (List.map some) =
      (combinations k (List.range pool.length)).map (List.map (pool[·]?)) := by
    rw [← combinations_map, ← combinations_map, hpool]
  have hwords : ((combinations k pool).map (List.map some))[p]? =
      some (combinationToWords indices pool) := by
    rw [hall, List.getElem?_map, h]
    rfl
  rw [List.getElem?_map] at hwords
  obtain ⟨words, hp, hsame⟩ := Option.map_eq_some_iff.mp hwords
  exact ⟨words, hp, hsame.symm⟩

/-- The cursor moves from one position of the enumeration to the next. -/
theorem nextCombination_getElem? {k n p : ℕ} {indices : List ℕ}
    (h : (combinations k (List.range n))[p]? = some indices) :
    nextCombination indices n = (combinations k (List.range n))[p + 1]? := by
  rw [nextCombination_eq_successor]
  rw [List.range_eq_range'] at h ⊢
  simpa using successor_getElem? h

/-! ### The enumeration -/

/-- The combination that is reached from the first one in some steps, none once they are used up. -/
def combinationAt (k poolSize : ℕ) : ℕ → Option (List ℕ)
  | 0 => some (firstCombination k)
  | p + 1 => (combinationAt k poolSize p).bind (nextCombination · poolSize)

/-- The steps visit the combinations in their order, and nothing behind the last one. -/
theorem combinationAt_eq {k poolSize : ℕ} (hfits : k ≤ poolSize) (p : ℕ) :
    combinationAt k poolSize p = (combinations k (List.range poolSize))[p]? := by
  induction p with
  | zero =>
    have hroom : k ≤ (List.range poolSize).length := by rwa [List.length_range]
    rw [combinationAt, getElem?_zero_combinations hroom, List.take_range, Nat.min_eq_left hfits,
      firstCombination]
  | succ p ih =>
    rw [combinationAt, ih]
    cases hvisited : (combinations k (List.range poolSize))[p]? with
    | none =>
      have hlast := List.getElem?_eq_none_iff.mp hvisited
      rw [Option.bind_none, List.getElem?_eq_none (Nat.le_succ_of_le hlast)]
    | some indices =>
      rw [Option.bind_some, nextCombination_getElem? hvisited]

/-- The combinations of positions are the increasing lists of them. -/
theorem mem_combinations_range {k n : ℕ} {indices : List ℕ} :
    indices ∈ combinations k (List.range n) ↔
      indices.Pairwise (· < ·) ∧ (∀ i ∈ indices, i < n) ∧ indices.length = k := by
  rw [mem_combinations, ← and_assoc]
  refine and_congr_left fun _ => ⟨fun hsub => ?_, fun ⟨hincreasing, hbound⟩ => ?_⟩
  · exact ⟨List.pairwise_lt_range.sublist hsub, fun i hi => List.mem_range.mp (hsub.subset hi)⟩
  · have hsubperm : indices.Subperm (List.range n) :=
      List.subperm_of_subset (hincreasing.imp fun hlt => Nat.ne_of_lt hlt) fun i hi =>
        List.mem_range.mpr (hbound i hi)
    exact List.sublist_of_subperm_of_pairwise hsubperm hincreasing List.pairwise_lt_range

/-- Increasing positions are what their set is sorted to. -/
theorem sort_toFinset_of_increasing {indices : List ℕ} (h : indices.Pairwise (· < ·)) :
    indices.toFinset.sort = indices :=
  (List.toFinset_sort (· ≤ ·) (h.imp fun hlt => Nat.ne_of_lt hlt)).mpr
    (h.imp fun hlt => Nat.le_of_lt hlt)

/-- Stepping from the first combination visits every subset of the positions with that many elements
once, in lexicographic order, and then there is none. -/
theorem nextCombination_enumerates {k n : ℕ} (hfits : k ≤ n) :
    ∃ visited : List (List ℕ), (∀ p, combinationAt k n p = visited[p]?) ∧
      visited.Pairwise (· < ·) ∧
      (∀ indices ∈ visited, indices.Pairwise (· < ·) ∧
        indices.toFinset ∈ (Finset.range n).powersetCard k) ∧
      ∀ subset ∈ (Finset.range n).powersetCard k,
        (visited.map List.toFinset).count subset = 1 := by
  have hordered : (combinations k (List.range n)).Pairwise (· < ·) :=
    pairwise_combinations List.pairwise_lt_range k
  have hnodup : (combinations k (List.range n)).Nodup := by
    refine hordered.imp fun {c d} hlt hsame => ?_
    rw [hsame] at hlt
    exact List.lt_irrefl d hlt
  refine ⟨combinations k (List.range n), combinationAt_eq hfits, hordered, ?_, ?_⟩
  · intro indices hmem
    obtain ⟨hincreasing, hbound, hlength⟩ := mem_combinations_range.mp hmem
    refine ⟨hincreasing, Finset.mem_powersetCard.mpr ⟨fun i hi => ?_, ?_⟩⟩
    · exact Finset.mem_range.mpr (hbound i (List.mem_toFinset.mp hi))
    · rw [List.toFinset_card_of_nodup (hincreasing.imp fun hlt => Nat.ne_of_lt hlt), hlength]
  · intro subset hsubset
    obtain ⟨hin, hcard⟩ := Finset.mem_powersetCard.mp hsubset
    refine List.count_eq_one_of_mem ?_ (List.mem_map.mpr ⟨subset.sort, ?_, ?_⟩)
    · refine List.Nodup.map_on (fun c hc d hd hsame => ?_) hnodup
      rw [← sort_toFinset_of_increasing (mem_combinations_range.mp hc).1, hsame,
        sort_toFinset_of_increasing (mem_combinations_range.mp hd).1]
    · refine mem_combinations_range.mpr ⟨subset.sortedLT_sort.pairwise, fun i hi => ?_, ?_⟩
      · exact Finset.mem_range.mp (hin ((Finset.mem_sort _).mp hi))
      · rw [Finset.length_sort, hcard]
    · exact Finset.sort_toFinset _ _

/-- The combinations of four positions of five. -/
theorem nextCombination_enumerates_four_of_five :
    ∃ visited : List (List ℕ), (∀ p, combinationAt 4 5 p = visited[p]?) ∧
      visited.Pairwise (· < ·) ∧
      (∀ indices ∈ visited, indices.Pairwise (· < ·) ∧
        indices.toFinset ∈ (Finset.range 5).powersetCard 4) ∧
      ∀ subset ∈ (Finset.range 5).powersetCard 4,
        (visited.map List.toFinset).count subset = 1 :=
  nextCombination_enumerates (by decide)

example : (List.range 6).map (combinationAt 4 5) =
    [some [0, 1, 2, 3], some [0, 1, 2, 4], some [0, 1, 3, 4], some [0, 2, 3, 4],
      some [1, 2, 3, 4], none] := by
  decide

end Connections
