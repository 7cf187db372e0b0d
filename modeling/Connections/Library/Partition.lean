import Mathlib.Data.List.Perm.Subperm
import Mathlib.Data.List.Flatten
import Mathlib.Data.List.Dedup
import Mathlib.Algebra.BigOperators.Group.List.Basic
import Mathlib.Tactic.TypeStar

/-!
# Clearing a board group by group

A board is split into disjoint groups of one size.  Clearing whole groups leaves the words of
the groups that are not yet cleared, in the board's own order.
-/

namespace Partition

variable {α : Type*} [DecidableEq α]

/-- The words of a board that lie in no cleared group. -/
def remaining (board : List α) (cleared : List (List α)) : List α :=
  board.filter (· ∉ cleared.flatten)

theorem mem_remaining {board : List α} {cleared : List (List α)} {w : α} :
    w ∈ remaining board cleared ↔ w ∈ board ∧ w ∉ cleared.flatten := by
  simp only [remaining, List.mem_filter, decide_eq_true_eq]

@[simp] theorem remaining_nil (board : List α) : remaining board [] = board := by
  simp [remaining]

/-- Clearing one more group drops exactly its words. -/
theorem remaining_concat (board : List α) (cleared : List (List α)) {group words : List α}
    (h : words.Perm group) :
    (remaining board cleared).filter (· ∉ words) = remaining board (cleared ++ [group]) := by
  simp only [remaining, List.filter_filter]
  apply List.filter_congr
  intro w _
  simp only [List.flatten_append, List.flatten_singleton, List.mem_append, h.mem_iff]
  by_cases hg : w ∈ group <;> by_cases hc : w ∈ cleared.flatten <;> simp [hg, hc]

section Disjoint

variable {board : List α} {groups cleared : List (List α)} {k : ℕ}

/-- What remains are the words of the groups left, in some order. -/
theorem remaining_perm (hboard : board.Perm groups.flatten) (hdistinct : groups.flatten.Nodup)
    (hcleared : cleared.Nodup) (hsub : cleared ⊆ groups) :
    ∃ rest, groups.Perm (cleared ++ rest) ∧ (remaining board cleared).Perm rest.flatten := by
  obtain ⟨sorted, hsorted, hsublist⟩ := List.subperm_of_subset hcleared hsub
  obtain ⟨rest, hperm⟩ := hsublist.exists_perm_append
  have hrest : groups.Perm (cleared ++ rest) := hperm.trans (hsorted.append_right rest)
  have hflat : groups.flatten.Perm (cleared.flatten ++ rest.flatten) := by
    simpa only [List.flatten_append] using hrest.flatten
  have hnodup := hflat.nodup_iff.mp hdistinct
  refine ⟨rest, hrest, ?_⟩
  have hfilter := (hboard.trans hflat).filter (· ∉ cleared.flatten)
  rw [List.filter_append] at hfilter
  have hnone : cleared.flatten.filter (· ∉ cleared.flatten) = [] := by
    rw [List.filter_eq_nil_iff]
    intro w hw
    simpa using hw
  have hall : rest.flatten.filter (· ∉ cleared.flatten) = rest.flatten := by
    rw [List.filter_eq_self]
    intro w hw
    have := List.disjoint_of_nodup_append hnodup
    simpa using fun hc => this hc hw
  rw [hnone, hall, List.nil_append] at hfilter
  exact hfilter

omit [DecidableEq α] in
theorem length_flatten_of_uniform {rest : List (List α)} (h : ∀ g ∈ rest, g.length = k) :
    rest.flatten.length = k * rest.length := by
  induction rest with
  | nil => simp
  | cons g rest ih =>
    rw [List.flatten_cons, List.length_append, h g List.mem_cons_self,
      ih fun g hg => h g (List.mem_cons_of_mem _ hg), List.length_cons, Nat.mul_succ, Nat.add_comm]

omit [DecidableEq α] in
/-- A guess of the group size, made of words that remain, that covers a group is a rearrangement
of it, and the group is not cleared yet. -/
theorem perm_of_covers {words group : List α} (hdistinct : groups.flatten.Nodup)
    (hgroup : group ∈ groups) (hsize : words.length = group.length) (hcovers : group ⊆ words) :
    words.Perm group := by
  have hnodup : group.Nodup := hdistinct.sublist (List.sublist_flatten_of_mem hgroup)
  exact ((List.subperm_of_subset hnodup hcovers).perm_of_length_le (Nat.le_of_eq hsize)).symm

theorem not_mem_cleared {words group : List α} (hne : group ≠ [])
    (hwords : ∀ w ∈ words, w ∈ remaining board cleared) (h : words.Perm group) :
    group ∉ cleared := by
  intro hmem
  obtain ⟨w, hw⟩ := List.exists_mem_of_ne_nil group hne
  have hleft := (mem_remaining.mp (hwords w (h.mem_iff.mpr hw))).2
  exact hleft (List.mem_flatten.mpr ⟨group, hmem, hw⟩)

end Disjoint

end Partition
