import Connections.Grammar.ParseAnswer
import Mathlib.Data.List.Forall2
import Mathlib.Data.List.TakeWhile

/-!
# The lines of an answer block

Trimming the block and allowing a carriage return before a line break make no difference: the
lines are the trimmed pieces between line feeds that are not empty.  So the lines of two texts on
consecutive lines are those of the first and then those of the second.
-/

namespace Connections

open TextScan

section Trim

theorem trimChars_cons {c : Char} (hc : isWhitespace c) (s : List Char) :
    trimChars (c :: s) = trimChars s := by
  simp [trimChars, hc]

/-- White space at the end is trimmed off. -/
theorem trimChars_append {w : List Char} (s : List Char) (hw : ∀ c ∈ w, isWhitespace c) :
    trimChars (s ++ w) = trimChars s := by
  rw [trimChars, List.dropWhile_append]
  split
  · rename_i h
    have hs : s.dropWhile isWhitespace = [] := by simpa using h
    have hw' : w.dropWhile isWhitespace = [] := by
      rw [List.dropWhile_eq_nil_iff]
      exact hw
    rw [hw', trimChars, hs]
  · rw [List.reverse_append, List.dropWhile_append_of_pos (by simpa using hw), trimChars]

/-- A text is its trimmed part between white space. -/
theorem exists_trimChars (s : List Char) :
    ∃ w w', s = w ++ trimChars s ++ w' ∧ (∀ c ∈ w, isWhitespace c) ∧
      ∀ c ∈ w', isWhitespace c := by
  set t := s.dropWhile isWhitespace with ht
  refine ⟨s.takeWhile isWhitespace, (t.reverse.takeWhile isWhitespace).reverse, ?_, ?_, ?_⟩
  · rw [List.append_assoc, trimChars, ← ht, ← List.reverse_append,
      List.takeWhile_append_dropWhile, List.reverse_reverse, ht, List.takeWhile_append_dropWhile]
  · exact fun c hc => List.mem_takeWhile_imp hc
  · exact fun c hc => List.mem_takeWhile_imp (List.mem_reverse.mp hc)

end Trim

section Lines

/-- The trimmed pieces between line feeds, without empty ones. -/
def plainLines (s : List Char) : List (List Char) :=
  ((s.splitOn '\n').map trimChars).filter (· ≠ [])

/-- A text and the same text with white space behind it. -/
def Padded (s t : List Char) : Prop := ∃ w, t = s ++ w ∧ ∀ c ∈ w, isWhitespace c

theorem Padded.refl (s : List Char) : Padded s s := ⟨[], by simp, by simp⟩

theorem Padded.trimChars_eq {s t : List Char} (h : Padded s t) : trimChars s = trimChars t := by
  obtain ⟨w, rfl, hw⟩ := h
  exact (trimChars_append s hw).symm

/-- A character in front of the first lines keeps them alike. -/
theorem forall₂_padded_modifyHead {ls ls' : List (List Char)} (c : Char)
    (h : List.Forall₂ Padded ls ls') :
    List.Forall₂ Padded (ls.modifyHead (c :: ·)) (ls'.modifyHead (c :: ·)) := by
  cases h with
  | nil => exact .nil
  | cons hl hls =>
    obtain ⟨w, rfl, hw⟩ := hl
    exact .cons ⟨w, rfl, hw⟩ hls

theorem map_trimChars_eq {ls ls' : List (List Char)} (h : List.Forall₂ Padded ls ls') :
    ls.map trimChars = ls'.map trimChars := by
  induction h with
  | nil => rfl
  | cons hl _ ih => rw [List.map_cons, List.map_cons, hl.trimChars_eq, ih]

theorem lineBreak_eq_none {c : Char} {s : List Char} (hc : c ≠ '\n')
    (hs : c = '\r' → s.head? ≠ some '\n') : lineBreak (c :: s) = none := by
  unfold lineBreak
  split
  · rename_i heq
    exact absurd (List.cons.inj heq).1 hc
  · rename_i heq
    obtain ⟨rfl, rfl⟩ := List.cons.inj heq
    exact absurd rfl (hs rfl)
  · rfl

/-- A line break with a carriage return cuts where its line feed does, up to that character. -/
theorem splitAll_lineBreak (s : List Char) :
    List.Forall₂ Padded (splitAll lineBreak s) (s.splitOn '\n') := by
  induction hn : s.length using Nat.strong_induction_on generalizing s with
  | _ n ih =>
    subst hn
    cases s with
    | nil => exact .cons (.refl _) .nil
    | cons c s =>
      rw [List.splitOn_cons_eq_if_modifyHead]
      by_cases hc : c = '\n'
      · subst hc
        have hcut : splitAll lineBreak ('\n' :: s) = [] :: splitAll lineBreak s :=
          splitAll_of_match (s := []) rfl
        rw [hcut, if_pos (by simp)]
        exact .cons (.refl _) (ih _ (by simp) s rfl)
      · rw [if_neg (by simpa using hc)]
        by_cases hs : c = '\r' → s.head? ≠ some '\n'
        · rw [splitAll_of_none (lineBreak_eq_none hc hs)]
          exact forall₂_padded_modifyHead c (ih _ (by simp) s rfl)
        · push Not at hs
          obtain ⟨rfl, hs⟩ := hs
          obtain ⟨s', rfl⟩ := List.head?_eq_some_iff.mp hs
          have hshort : s'.length < ('\r' :: '\n' :: s').length := by
            rw [List.length_cons, List.length_cons]
            omega
          have hcut : splitAll lineBreak ('\r' :: '\n' :: s') = [] :: splitAll lineBreak s' :=
            splitAll_of_match (s := ['\n']) rfl
          rw [hcut, List.splitOn_cons_eq_if_modifyHead, if_pos (by simp)]
          exact .cons ⟨['\r'], rfl, by simp [isWhitespace]⟩ (ih _ hshort s' rfl)

theorem plainLines_append (s t : List Char) :
    plainLines (s ++ '\n' :: t) = plainLines s ++ plainLines t := by
  simp only [plainLines, List.splitOn_append_cons_self, List.map_append, List.filter_append]

/-- White space in front of a text makes no line. -/
theorem plainLines_of_all_append {w : List Char} (hw : ∀ c ∈ w, isWhitespace c) (s : List Char) :
    plainLines (w ++ s) = plainLines s := by
  induction w with
  | nil => rfl
  | cons c w ih =>
    have hc := hw c List.mem_cons_self
    rw [← ih fun d hd => hw d (List.mem_cons_of_mem c hd), List.cons_append, plainLines,
      plainLines, List.splitOn_cons_eq_if_modifyHead]
    split
    · simp [trimChars]
    · cases (w ++ s).splitOn '\n' with
      | nil => rfl
      | cons l ls => rw [List.modifyHead_cons, List.map_cons, List.map_cons, trimChars_cons hc]

/-- A white space character that breaks no line only pads the last one. -/
theorem forall₂_padded_append {c : Char} (hc : isWhitespace c) (hn : c ≠ '\n') (s : List Char) :
    List.Forall₂ Padded (s.splitOn '\n') ((s ++ [c]).splitOn '\n') := by
  induction s with
  | nil =>
    have hone : [c].splitOn '\n' = [[c]] := List.splitOn_eq_singleton (by simpa using hn.symm)
    rw [List.nil_append, hone]
    exact .cons ⟨[c], rfl, by simpa using hc⟩ .nil
  | cons d s ih =>
    rw [List.cons_append, List.splitOn_cons_eq_if_modifyHead, List.splitOn_cons_eq_if_modifyHead]
    split
    · exact .cons (.refl _) ih
    · exact forall₂_padded_modifyHead d ih

/-- White space behind a text makes no line. -/
theorem plainLines_append_of_all {w : List Char} (s : List Char) (hw : ∀ c ∈ w, isWhitespace c) :
    plainLines (s ++ w) = plainLines s := by
  induction w generalizing s with
  | nil => rw [List.append_nil]
  | cons c w ih =>
    have hc := hw c List.mem_cons_self
    have hrest := ih (s ++ [c]) fun d hd => hw d (List.mem_cons_of_mem c hd)
    rw [List.append_assoc, List.singleton_append] at hrest
    rw [hrest]
    by_cases hn : c = '\n'
    · subst hn
      rw [plainLines_append]
      simp [plainLines, trimChars]
    · rw [plainLines, ← map_trimChars_eq (forall₂_padded_append hc hn s), plainLines]

/-- The lines of a block are its plain lines. -/
theorem answerBlockLines_eq (answerBlock : List Char) :
    answerBlockLines answerBlock = plainLines answerBlock := by
  obtain ⟨w, w', hblock, hw, hw'⟩ := exists_trimChars answerBlock
  have htrim : plainLines (trimChars answerBlock) = plainLines answerBlock := by
    conv_rhs => rw [hblock]
    rw [plainLines_append_of_all _ hw', plainLines_of_all_append hw]
  rw [← htrim, answerBlockLines, map_trimChars_eq (splitAll_lineBreak _), plainLines]

/-- A block that goes on after a line break has its own lines and then the further ones. -/
theorem answerBlockLines_append (s t : List Char) :
    answerBlockLines (s ++ '\n' :: t) = answerBlockLines s ++ answerBlockLines t := by
  simp only [answerBlockLines_eq, plainLines_append]

end Lines

end Connections
