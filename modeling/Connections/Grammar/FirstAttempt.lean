import Connections.Grammar.AnswerLines

/-!
# A second attempt in the same reply

A reply may go on with another attempt.  The section of groups ends at the first answer heading,
so the headings of the second attempt are never read; but the block of the first answer ends at
the next marker, so the text between the two answers belongs to it, line by line.
-/

namespace Connections

open TextScan

section Markers

variable {t rest : List Char}

/-- What a marker does not reach across: a character of its own, and no word behind white space. -/
structure StopsMarker (t : List Char) : Prop where
  exists_cons : ∃ c r, t = c :: r ∧ c.toUpper ∉ "#ANSWER:".toList.map Char.toUpper
  no_word : matchText "ANSWER" (t.dropWhile isWhitespace) = none

/-- A line break stops a marker when a number sign follows. -/
theorem stopsMarker_break (rest : List Char) : StopsMarker ('\n' :: '#' :: rest) where
  exists_cons := ⟨'\n', '#' :: rest, rfl, by decide⟩
  no_word := rfl

/-- The word of a marker is not looked for behind what stops the marker. -/
theorem matchAnswer_append (ht : StopsMarker t) (s : List Char) :
    matchText "ANSWER" ((s ++ t).dropWhile isWhitespace) =
      (matchText "ANSWER" (s.dropWhile isWhitespace)).map (· ++ t) := by
  obtain ⟨c, r, rfl, hc⟩ := ht.exists_cons
  rw [List.dropWhile_append]
  split
  · rename_i hspace
    have hs : s.dropWhile isWhitespace = [] := by simpa using hspace
    rw [hs, ht.no_word]
    rfl
  · exact matchText_append (fun hmem => hc (List.mem_of_mem_tail (List.mem_append_left _ hmem))) _ _

/-- A marker does not reach across what stops it. -/
theorem answerMarker_append (ht : StopsMarker t) (s : List Char) :
    answerMarker (s ++ t) = (answerMarker s).map (Prod.map id (· ++ t)) := by
  obtain ⟨c, r, rfl, hc⟩ := ht.exists_cons
  have hsign : c ≠ '#' := fun h => hc (h ▸ by decide)
  have hcolon : c ≠ ':' := fun h => hc (h ▸ by decide)
  rw [answerMarker_eq, answerMarker_eq, matchText_append fun hmem => hc ?_]
  · cases matchText "##" s with
    | none => rfl
    | some signs =>
      simp only [Option.map_some, Option.bind_some]
      rw [matchOptional_append hsign, matchAnswer_append ht]
      cases matchText "ANSWER" ((matchOptional '#' signs).dropWhile isWhitespace) with
      | none => rfl
      | some word =>
        simp only [Option.map_some, Prod.map_apply, id_eq]
        rw [matchOptional_append hcolon]
  · have hsub : "##".toList.map Char.toUpper ⊆ "#ANSWER:".toList.map Char.toUpper := by decide
    exact hsub hmem

/-- A marker takes characters off its text. -/
theorem length_le_of_answerMarker {s : List Char} {b : Unit} {r : List Char}
    (h : answerMarker s = some (b, r)) : r.length ≤ s.length := by
  rw [answerMarker_eq] at h
  obtain ⟨signs, hsigns, h⟩ := Option.bind_eq_some_iff.mp h
  obtain ⟨word, hword, h⟩ := Option.map_eq_some_iff.mp h
  obtain rfl : matchOptional ':' word = r := congrArg Prod.snd h
  have h₁ := matchFolded_length hsigns
  have h₂ := matchFolded_length hword
  have h₃ := length_matchOptional_le ':' word
  have h₄ := length_matchOptional_le '#' signs
  have h₅ := (List.dropWhile_suffix (l := matchOptional '#' signs) isWhitespace).length_le
  omega

/-- A further text on the next line belongs to the last piece up to its first marker. -/
theorem splitAll_answerMarker_append {s : List Char} {ps qs : List (List Char)} {p q : List Char}
    (h : splitAll answerMarker s = ps ++ [p])
    (h' : splitAll answerMarker ('#' :: rest) = q :: qs) :
    splitAll answerMarker (s ++ '\n' :: '#' :: rest) = ps ++ (p ++ '\n' :: q) :: qs := by
  have hscan : scan answerMarker (s ++ '\n' :: '#' :: rest) =
      scan answerMarker s ++ scan answerMarker ('\n' :: '#' :: rest) :=
    scan_append_local (fun v _ => answerMarker_append (stopsMarker_break rest) v)
      fun _ _ _ hv => length_le_of_answerMarker hv
  have hbreak : splitAll answerMarker ('\n' :: '#' :: rest) = ('\n' :: q) :: qs := by
    rw [splitAll_of_none rfl, h', List.modifyHead_cons]
  rw [splitAll, hscan]
  exact pieces_append h hbreak

/-- A section of groups that has ended is not changed by further lines. -/
theorem groupsSection_append {s x : List Char} (h : groupsSection s = some x) (t : List Char) :
    groupsSection (s ++ '\n' :: t) = some x := by
  obtain ⟨opened, hopen, hclose⟩ := Option.bind_eq_some_iff.mp h
  have hheading : ∀ v, matchText "### GROUPS" (v ++ '\n' :: t) =
      (matchText "### GROUPS" v).map (· ++ '\n' :: t) := fun v =>
    matchText_append (by decide) v t
  have hopen' := firstMatch_local (· ++ '\n' :: t) hheading hopen
  have hclose' : before (matchText "### ANSWER") (opened ++ '\n' :: t) = some x := by
    apply before_local _ hclose
    intro v
    rw [matchText_append (by decide), Option.isSome_map]
  rw [groupsSection, hopen', Option.bind_some, hclose']

end Markers

section Attempts

variable (canonicalize : Char → Char) (boardWords : List String)

/-- One complete attempt: a section of groups that an answer heading ends, a single marker, and a
line of the answer that has the size of a group. -/
structure IsAttempt (text : String) : Prop where
  has_groups : groupsSection text.toList ≠ none
  one_marker : (splitAll answerMarker text.toList).length = 2
  has_line : parseAnswerBlock canonicalize text.toList boardWords ≠ []

/-- A further attempt: it opens with the heading of the groups and has a marker. -/
structure IsFurtherAttempt (text : String) : Prop where
  opens : ∃ rest, text.toList = "### GROUPS".toList ++ rest
  has_marker : 2 ≤ (splitAll answerMarker text.toList).length

/-- The text of a reply in front of its first marker. -/
def textBeforeMarker (text : String) : List Char := (splitAll answerMarker text.toList).headI

/-- The lines of that text that an answer block takes for groups. -/
def strayGroups (text : String) : List (List String) :=
  ((answerBlockLines (textBeforeMarker text)).map
    (answerLineWords canonicalize boardWords)).filter (·.length = GROUP_SIZE)

variable {canonicalize boardWords} {A B : String}

/-- The answer block of a reply with a further attempt has that attempt's stray groups behind its
own. -/
theorem parseAnswerBlock_append (hA : IsAttempt canonicalize boardWords A)
    (hB : IsFurtherAttempt B) :
    parseAnswerBlock canonicalize (A ++ "\n" ++ B).toList boardWords =
      parseAnswerBlock canonicalize A.toList boardWords ++
        strayGroups canonicalize boardWords B := by
  obtain ⟨lead, block, hparts⟩ := List.length_eq_two.mp hA.one_marker
  obtain ⟨rest, hopens⟩ := hB.opens
  obtain ⟨q, qs, hqs⟩ := List.exists_cons_of_ne_nil
    (pieces_ne_nil (scan answerMarker B.toList))
  have hB' : B.toList = '#' :: ("## GROUPS".toList ++ rest) := hopens
  have hsplit : splitAll answerMarker B.toList = q :: qs := hqs
  have hlead : textBeforeMarker B = q := by rw [textBeforeMarker, hsplit, List.headI_cons]
  have hall : splitAll answerMarker (A ++ "\n" ++ B).toList =
      lead :: (block ++ '\n' :: q) :: qs := by
    have htext : (A ++ "\n" ++ B).toList = A.toList ++ '\n' :: B.toList := by simp
    rw [htext, hB']
    rw [hB'] at hsplit
    have hpair : splitAll answerMarker A.toList = [lead] ++ [block] := hparts
    exact splitAll_answerMarker_append hpair hsplit
  rw [parseAnswerBlock, parseAnswerBlock, hall, hparts]
  simp only []
  rw [answerBlockLines_append, List.map_append, List.filter_append, strayGroups, hlead]

/-- The headings of a further attempt are not read. -/
theorem forget_parseGroups_append (hA : groupsSection A.toList ≠ none) (boardWords : List String) :
    (parseGroups canonicalize boardWords (A ++ "\n" ++ B).toList).forget =
      (parseGroups canonicalize boardWords A.toList).forget := by
  obtain ⟨x, hx⟩ := Option.ne_none_iff_exists'.mp hA
  have htext : (A ++ "\n" ++ B).toList = A.toList ++ '\n' :: B.toList := by simp
  have hchunks : groupChunks (A.toList ++ '\n' :: B.toList) = groupChunks A.toList := by
    rw [groupChunks, groupChunks, groupsSection_append hx, hx]
    rfl
  rw [parseGroups, parseGroups, parseGroupsBy, parseGroupsBy, htext, hchunks]
  exact GroupsParse.forget_foldl_readChunk canonicalize boardWords _ rfl

/-- The first attempt alone counts exactly when no line between the two answers has the size of a
group. -/
theorem only_first_attempt_counts_iff (hA : IsAttempt canonicalize boardWords A)
    (hB : IsFurtherAttempt B) :
    ((parseAnswer canonicalize (A ++ "\n" ++ B) boardWords).groups =
          (parseAnswer canonicalize A boardWords).groups ∧
        (parseAnswer canonicalize (A ++ "\n" ++ B) boardWords).proposalWords =
          (parseAnswer canonicalize A boardWords).proposalWords ∧
        (parseAnswer canonicalize (A ++ "\n" ++ B) boardWords).categoryByGroup =
          (parseAnswer canonicalize A boardWords).categoryByGroup) ↔
      ∀ line ∈ answerBlockLines (textBeforeMarker B),
        (answerLineWords canonicalize boardWords line).length ≠ GROUP_SIZE := by
  have hgroups : (parseGroups canonicalize boardWords (A ++ "\n" ++ B).toList).forget =
      (parseGroups canonicalize boardWords A.toList).forget :=
    forget_parseGroups_append hA.has_groups boardWords
  have hwords := congrArg GroupsParse.parsedGroupWords hgroups
  have hcategories := congrArg GroupsParse.categoryByGroup hgroups
  have hblock := parseAnswerBlock_append hA hB
  have hpos : 0 < (parseAnswerBlock canonicalize A.toList boardWords).length :=
    List.length_pos_iff.mpr hA.has_line
  have hstray : strayGroups canonicalize boardWords B = [] ↔
      ∀ line ∈ answerBlockLines (textBeforeMarker B),
        (answerLineWords canonicalize boardWords line).length ≠ GROUP_SIZE := by
    simp [strayGroups, List.filter_eq_nil_iff]
  simp only [GroupsParse.forget] at hwords hcategories
  rw [← hstray]
  simp only [parseAnswer, hblock, hwords, hcategories, if_pos hpos]
  constructor
  · rintro ⟨h, -⟩
    rw [if_pos (by simp; omega)] at h
    exact List.append_right_eq_self.mp h
  · intro h
    simp [h, hpos]

end Attempts

section Cases

/-- An attempt at one group, with the words under its heading and those of its answer. -/
def attemptText (words answer : String) : String :=
  "### GROUPS\nGroup 1\nWords: " ++ words ++ "\n\n### ANSWER\n" ++ answer

theorem attemptText_isAttempt :
    IsAttempt Char.toUpper [] (attemptText "A, B, C, D" "A, B, C, D") where
  has_groups := by decide +kernel
  one_marker := by decide +kernel
  has_line := by decide +kernel

/-- A second attempt with three words under its heading leaves no trace. -/
theorem three_word_attempt_is_ignored :
    (parseAnswer Char.toUpper (attemptText "A, B, C, D" "A, B, C, D" ++ "\n" ++
        attemptText "E, F, G" "E, F, G, H") []).groups =
      (parseAnswer Char.toUpper (attemptText "A, B, C, D" "A, B, C, D") []).groups := by
  have hB : IsFurtherAttempt (attemptText "E, F, G" "E, F, G, H") :=
    ⟨⟨_, rfl⟩, by decide +kernel⟩
  have hlines : ∀ line ∈ answerBlockLines (textBeforeMarker (attemptText "E, F, G" "E, F, G, H")),
      (answerLineWords Char.toUpper [] line).length ≠ GROUP_SIZE := by decide +kernel
  exact ((only_first_attempt_counts_iff attemptText_isAttempt hB).mpr hlines).1

/-- The line of words under the second heading becomes a group of the first answer, with the
field's name in its first word. -/
theorem words_line_of_second_attempt_leaks :
    IsAttempt Char.toUpper [] (attemptText "A, B, C, D" "A, B, C, D") ∧
      IsFurtherAttempt (attemptText "E, F, G, H" "E, F, G, H") ∧
      (parseAnswer Char.toUpper (attemptText "A, B, C, D" "A, B, C, D") []).groups =
        [["A", "B", "C", "D"]] ∧
      (parseAnswer Char.toUpper (attemptText "A, B, C, D" "A, B, C, D" ++ "\n" ++
          attemptText "E, F, G, H" "E, F, G, H") []).groups =
        [["A", "B", "C", "D"], ["Words: E", "F", "G", "H"]] :=
  ⟨attemptText_isAttempt, ⟨⟨_, rfl⟩, by decide +kernel⟩, by decide +kernel, by decide +kernel⟩

end Cases

end Connections
