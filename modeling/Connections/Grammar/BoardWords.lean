import Connections.Grammar.FirstAttempt
import Connections.Grammar.Masking
import Connections.Grammar.RoundTrip

/-!
# Board words survive the parser

A reply that names one group of board words, whatever marks and digits are in them and whatever
casing they are typed in, is read back with exactly these words.
-/

namespace Connections

open TextScan

/-- A word that a board can have: an item without a marker of an answer block and without the
character that opens a placeholder. -/
structure IsBoardWord (word : List Char) : Prop where
  isItem : IsItem word
  no_marker : firstMatch answerMarker word = none
  undelimited : '\uE000' ∉ word

instance (word : List Char) : Decidable (IsBoardWord word) :=
  decidable_of_iff (IsItem word ∧ firstMatch answerMarker word = none ∧ '\uE000' ∉ word)
    ⟨fun ⟨h₁, h₂, h₃⟩ => ⟨h₁, h₂, h₃⟩, fun h => ⟨h.isItem, h.no_marker, h.undelimited⟩⟩

/-- A reply that names one group and restates it. -/
def oneGroupReply (groupNum : ℕ) (words : List String) : String :=
  "\n".intercalate ["### GROUPS", "Group " ++ toString groupNum,
    "Words: " ++ ", ".intercalate words, "### ANSWER", ", ".intercalate words]

/-! ### Other casings -/

section Casing

theorem map_dropWhile_toUpper {p : Char → Bool} (hp : ∀ c : Char, p c.toUpper = p c)
    (s : List Char) : (s.map Char.toUpper).dropWhile p = (s.dropWhile p).map Char.toUpper := by
  have hfun : (p ∘ Char.toUpper) = p := funext hp
  rw [List.dropWhile_map, hfun]

theorem trimChars_map_toUpper (s : List Char) :
    trimChars (s.map Char.toUpper) = (trimChars s).map Char.toUpper := by
  rw [trimChars, map_dropWhile_toUpper isWhitespace_toUpper, ← List.map_reverse,
    map_dropWhile_toUpper isWhitespace_toUpper, ← List.map_reverse, trimChars]

theorem matchText_map_toUpper (pattern : String) (s : List Char) :
    matchText pattern (s.map Char.toUpper) = (matchText pattern s).map (·.map Char.toUpper) := by
  unfold matchText
  induction pattern.toList generalizing s with
  | nil => rfl
  | cons p pattern ih =>
    cases s with
    | nil => rfl
    | cons c s =>
      rw [List.map_cons, matchFolded, matchFolded, toUpper_toUpper]
      split
      · exact ih s
      · rfl

theorem matchOptional_map_toUpper {c : Char} (hc : c.isAlpha = false) (hself : c.toUpper = c)
    (s : List Char) :
    matchOptional c (s.map Char.toUpper) = (matchOptional c s).map Char.toUpper := by
  cases s with
  | nil => rfl
  | cons d s =>
    rw [List.map_cons, matchOptional, matchOptional]
    by_cases hd : d = c
    · rw [if_pos hd, if_pos (by rw [hd, hself])]
    · rw [if_neg hd, if_neg fun h => hd (eq_of_toUpper_eq h hc), List.map_cons]

/-- A heading is the same in every casing. -/
theorem groupHeading_map_toUpper (s : List Char) :
    groupHeading (s.map Char.toUpper) = groupHeading s := by
  have hdigits : ∀ t : List Char, (t.map Char.toUpper).takeWhile Char.isDigit =
      t.takeWhile Char.isDigit := by
    intro t
    have hfun : (Char.isDigit ∘ Char.toUpper) = Char.isDigit := funext isDigit_toUpper
    rw [List.takeWhile_map, hfun]
    conv_rhs => rw [← List.map_id (t.takeWhile Char.isDigit)]
    exact List.map_congr_left fun c hc => toUpper_of_isDigit (List.mem_takeWhile_imp hc)
  rw [groupHeading, groupHeading, matchText_map_toUpper]
  cases matchText "Group" s with
  | none => rfl
  | some rest =>
    simp only [Option.map_some, Option.bind_eq_bind, Option.bind_some,
      map_dropWhile_toUpper isWhitespace_toUpper, hdigits, List.head?_map, Option.any_map,
      isWhitespace_toUpper]

/-- A marker is one in every casing. -/
theorem answerMarker_map_toUpper (s : List Char) :
    answerMarker (s.map Char.toUpper) = none ↔ answerMarker s = none := by
  rw [answerMarker_eq, answerMarker_eq, matchText_map_toUpper]
  cases matchText "##" s with
  | none => rfl
  | some signs =>
    rw [Option.map_some, Option.bind_some, Option.bind_some,
      matchOptional_map_toUpper (by decide) (by decide),
      map_dropWhile_toUpper isWhitespace_toUpper, matchText_map_toUpper]
    simp only [Option.map_eq_none_iff]

theorem firstMatch_map_toUpper {β : Type} {look : List Char → Option β}
    (hlook : ∀ s, look (s.map Char.toUpper) = none ↔ look s = none) (s : List Char) :
    firstMatch look (s.map Char.toUpper) = none ↔ firstMatch look s = none := by
  induction s with
  | nil => exact hlook []
  | cons c s ih =>
    have hhead := hlook (c :: s)
    rw [List.map_cons] at hhead ⊢
    rw [firstMatch, firstMatch, Option.or_eq_none_iff, Option.or_eq_none_iff, hhead, ih]

variable {word typed : List Char}

theorem Recased.firstMatch_eq_none {β : Type} {look : List Char → Option β}
    (h : Recased word typed) (hlook : ∀ s, look (s.map Char.toUpper) = none ↔ look s = none)
    (hword : firstMatch look word = none) : firstMatch look typed = none := by
  rw [← firstMatch_map_toUpper hlook, h, firstMatch_map_toUpper hlook]
  exact hword

theorem Recased.not_mem (h : Recased word typed) {c : Char} (hc : c.isAlpha = false)
    (hself : c.toUpper = c) (hword : c ∉ word) : c ∉ typed := by
  intro hmem
  have hupper : c ∈ typed.map Char.toUpper := hself ▸ List.mem_map_of_mem hmem
  rw [h] at hupper
  obtain ⟨d, hd, heq⟩ := List.mem_map.mp hupper
  exact hword (eq_of_toUpper_eq heq hc ▸ hd)

theorem Recased.trimmed (h : Recased word typed) (hword : trimChars word = word) :
    trimChars typed = typed := by
  have hlength : (trimChars typed).length = typed.length := by
    have hmap : (trimChars typed).map Char.toUpper = typed.map Char.toUpper := by
      rw [← trimChars_map_toUpper, h, trimChars_map_toUpper, hword]
    simpa using congrArg List.length hmap
  obtain ⟨w, w', hsplit, -, -⟩ := exists_trimChars typed
  have hcut := congrArg List.length hsplit
  rw [List.length_append, List.length_append] at hcut
  obtain rfl : w = [] := List.eq_nil_of_length_eq_zero (by omega)
  obtain rfl : w' = [] := List.eq_nil_of_length_eq_zero (by omega)
  rw [List.nil_append, List.append_nil] at hsplit
  exact hsplit.symm

/-- A board word in another casing could be on a board itself. -/
theorem IsBoardWord.recased (hword : IsBoardWord word) (h : Recased word typed) :
    IsBoardWord typed where
  isItem :=
    { nonempty := by
        rintro rfl
        exact hword.isItem.nonempty (List.map_eq_nil_iff.mp h.symm)
      trimmed := h.trimmed hword.isItem.trimmed
      unseparated := h.not_mem (by decide) (by decide) hword.isItem.unseparated
      unbroken := h.not_mem (by decide) (by decide) hword.isItem.unbroken
      no_heading := h.firstMatch_eq_none (fun s => by rw [groupHeading_map_toUpper])
        hword.isItem.no_heading }
  no_marker := h.firstMatch_eq_none answerMarker_map_toUpper hword.no_marker
  undelimited := h.not_mem (by decide) (by decide) hword.undelimited

end Casing

/-! ### The reply -/

/-- A pattern of two parts matches one after the other. -/
theorem matchFolded_append_pattern (fold : Char → Char) (p q s : List Char) :
    matchFolded fold (p ++ q) s = (matchFolded fold p s).bind (matchFolded fold q) := by
  induction p generalizing s with
  | nil => rfl
  | cons c p ih =>
    cases s with
    | nil => rfl
    | cons d s =>
      rw [List.cons_append, matchFolded, matchFolded]
      split
      · exact ih s
      · rfl

/-- The answer heading is a marker. -/
theorem matchText_answerHeading {s : List Char} (h : answerMarker s = none) :
    matchText "### ANSWER" s = none := by
  have hpattern : "### ANSWER".toList = "##".toList ++ ('#' :: ' ' :: "ANSWER".toList) := rfl
  rw [matchText, hpattern, matchFolded_append_pattern]
  rw [answerMarker_eq, matchText] at h
  cases hsigns : matchFolded Char.toUpper "##".toList s with
  | none => rfl
  | some signs =>
    rw [hsigns, Option.bind_some] at h
    rw [Option.bind_some]
    rcases signs with _ | ⟨c, _ | ⟨d, rest⟩⟩
    · rfl
    · simp [matchFolded]
    · rw [matchFolded, matchFolded]
      split
      · rename_i hc
        split
        · rename_i hd
          obtain rfl : c = '#' := eq_of_toUpper_eq hc.symm (by decide)
          obtain rfl : d = ' ' := eq_of_toUpper_eq hd.symm (by decide)
          rw [Option.map_eq_none_iff, matchOptional, if_pos rfl,
            List.dropWhile_cons_of_pos (by rfl)] at h
          cases rest with
          | nil => rfl
          | cons e rest =>
            by_cases he : isWhitespace e
            · refine matchText_cons (show "ANSWER".toList = 'A' :: "NSWER".toList from rfl) ?_ rest
              intro hA
              rw [← isWhitespace_toUpper, ← hA] at he
              cases he
            · rwa [List.dropWhile_cons_of_neg he] at h
        · rfl
      · rfl
section Reply

variable {words : List String}

/-- The text under the heading of the reply, with the heading. -/
def wordsChunk (groupNum : ℕ) (line : List Char) : List Char :=
  'G' :: (("roup ".toList ++ Nat.toDigits 10 groupNum) ++
    '\n' :: ("Words:".toList ++ ' ' :: (line ++ ['\n'])))

/-- The reply around its two headings. -/
theorem toList_oneGroupReply (groupNum : ℕ) (words : List String) :
    (oneGroupReply groupNum words).toList =
      "### GROUPS".toList ++ (('\n' :: wordsChunk groupNum (joinItems (words.map String.toList))) ++
        ("### ANSWER".toList ++ '\n' :: joinItems (words.map String.toList))) := by
  have hrepr : (toString groupNum).toList = Nat.toDigits 10 groupNum := Nat.toList_repr
  have hline : (", ".intercalate words).toList = joinItems (words.map String.toList) := by
    rw [String.toList_intercalate]
    rfl
  simp only [oneGroupReply, String.toList_intercalate, List.map_cons, List.map_nil,
    String.toList_append, hline, hrepr]
  simp [wordsChunk]

variable (hwords : ∀ word ∈ words, IsBoardWord word.toList)
include hwords

theorem isItem_of_mem_map : ∀ item ∈ words.map String.toList, IsItem item := by
  intro item hitem
  obtain ⟨word, hword, rfl⟩ := List.mem_map.mp hitem
  exact (hwords word hword).isItem

/-- No marker starts in a line of board words. -/
theorem quiet_marker_joinItems {t : List Char} (ht : t = [] ∨ StopsMarker t) :
    Quiet answerMarker (joinItems (words.map String.toList)) t := by
  have hquiet : ∀ word ∈ words, ∀ t, t = [] ∨ StopsMarker t →
      Quiet answerMarker word.toList t := by
    intro word hword t ht
    refine quiet_of_suffix fun v _ hv => ?_
    have hnone := eq_none_of_firstMatch (hwords word hword).no_marker hv
    rcases ht with rfl | ht
    · rw [List.append_nil, hnone]
    · rw [answerMarker_append ht, hnone]
      rfl
  refine quiet_joinItems_of (fun _ => rfl) (fun _ => rfl) fun item hitem => ?_
  obtain ⟨word, hword, rfl⟩ := List.mem_map.mp hitem
  exact ⟨fun r => hquiet word hword _ (.inr ⟨⟨',', r, rfl, by decide⟩, rfl⟩),
    hquiet word hword t ht⟩

/-- No marker starts between the two headings. -/
theorem quiet_marker_wordsChunk (groupNum : ℕ) (t : List Char) :
    Quiet answerMarker ('\n' :: wordsChunk groupNum (joinItems (words.map String.toList)))
      ("### ANSWER".toList ++ t) := by
  have hdigits : '#' ∉ Nat.toDigits 10 groupNum := fun hc => by
    have hdigit := Nat.isDigit_of_mem_toDigits (by decide) (by decide) hc
    simp at hdigit
  have hline : Quiet answerMarker (joinItems (words.map String.toList))
      (['\n'] ++ ("### ANSWER".toList ++ t)) :=
    quiet_marker_joinItems hwords (.inr (stopsMarker_break ("## ANSWER".toList ++ t)))
  have hstart : Quiet answerMarker ('\n' :: 'G' :: ("roup ".toList ++ Nat.toDigits 10 groupNum))
      ('\n' :: ("Words:".toList ++ ' ' :: (joinItems (words.map String.toList) ++ ['\n'])) ++
        ("### ANSWER".toList ++ t)) :=
    quiet_answerMarker (by simpa using hdigits) _
  have hfield : Quiet answerMarker ('\n' :: ("Words:".toList ++ [' ']))
      ((joinItems (words.map String.toList) ++ ['\n']) ++ ("### ANSWER".toList ++ t)) :=
    quiet_answerMarker (by decide) _
  have hend : Quiet answerMarker ['\n'] ("### ANSWER".toList ++ t) :=
    quiet_answerMarker (by decide) _
  have hsplit : '\n' :: wordsChunk groupNum (joinItems (words.map String.toList)) =
      ('\n' :: 'G' :: ("roup ".toList ++ Nat.toDigits 10 groupNum)) ++
        (('\n' :: ("Words:".toList ++ [' '])) ++
          (joinItems (words.map String.toList) ++ ['\n'])) := by
    simp [wordsChunk]
  rw [hsplit, quiet_append, quiet_append, quiet_append]
  exact ⟨by simpa using hstart, by simpa using hfield, hline, hend⟩

/-- The marker cuts the reply in two. -/
theorem splitAll_oneGroupReply (groupNum : ℕ) :
    splitAll answerMarker (oneGroupReply groupNum words).toList =
      ["### GROUPS".toList ++ '\n' :: wordsChunk groupNum (joinItems (words.map String.toList)),
        '\n' :: joinItems (words.map String.toList)] := by
  have hmark : answerMarker ('#' :: ("## ANSWER".toList ++
      '\n' :: joinItems (words.map String.toList))) =
        some ((), '\n' :: joinItems (words.map String.toList)) := rfl
  rw [toList_oneGroupReply, ← List.append_assoc]
  refine splitAll_of_one_match ?_ hmark ⟨rfl, quiet_marker_joinItems hwords (.inl rfl)⟩
  rw [quiet_append]
  refine ⟨?_, quiet_marker_wordsChunk hwords groupNum _⟩
  exact ⟨rfl, rfl, rfl, rfl, rfl, rfl, rfl, rfl, rfl, rfl, trivial⟩

/-- The section of groups ends at the answer heading. -/
theorem groupsSection_oneGroupReply (groupNum : ℕ) :
    groupsSection (oneGroupReply groupNum words).toList =
      some ('\n' :: wordsChunk groupNum (joinItems (words.map String.toList))) := by
  rw [toList_oneGroupReply]
  exact groupsSection_of_quiet
    ((quiet_marker_wordsChunk hwords groupNum _).of_imp fun _ => matchText_answerHeading)

/-- The section falls into the line break in front of the heading and the chunk of the group. -/
theorem splitBefore_wordsChunk (groupNum : ℕ) :
    splitBefore groupHeading ('\n' :: wordsChunk groupNum (joinItems (words.map String.toList))) =
      [['\n'], wordsChunk groupNum (joinItems (words.map String.toList))] := by
  have hheading : (groupHeading
      (wordsChunk groupNum (joinItems (words.map String.toList)))).isSome := by
    have h := groupHeading_heading groupNum
      ("Words:".toList ++ ' ' :: (joinItems (words.map String.toList) ++ ['\n']))
    have hchunk : "Group ".toList ++ (Nat.toDigits 10 groupNum ++ '\n' ::
        ("Words:".toList ++ ' ' :: (joinItems (words.map String.toList) ++ ['\n']))) =
          wordsChunk groupNum (joinItems (words.map String.toList)) := by
      simp [wordsChunk]
    rw [← hchunk, h]
    rfl
  have hquiet : Quiet groupHeading (("roup ".toList ++ Nat.toDigits 10 groupNum) ++
      '\n' :: ("Words:".toList ++ ' ' :: (joinItems (words.map String.toList) ++ ['\n']))) [] := by
    rw [quiet_append]
    refine ⟨quiet_headingRest _ _, ?_⟩
    rw [quiet_cons, quiet_append, quiet_cons, quiet_append]
    refine ⟨rfl, ?_, rfl, ?_, ?_⟩
    · exact ⟨rfl, rfl, rfl, rfl, rfl, rfl, trivial⟩
    · exact quiet_joinItems (isItem_of_mem_map hwords) (stopsHeading_break rfl)
    · exact ⟨rfl, trivial⟩
  have hcut : splitBefore groupHeading
      ('\n' :: ([] ++ wordsChunk groupNum (joinItems (words.map String.toList)))) =
        ['\n'] :: splitBefore groupHeading
          (wordsChunk groupNum (joinItems (words.map String.toList))) :=
    splitBefore_append (quiet_nil _) hheading (by simp [wordsChunk])
  rw [List.nil_append] at hcut
  rw [hcut, wordsChunk, splitBefore_quiet_cons hquiet]

/-- The chunk gives back the line of its words. -/
theorem firstMatch_wordsChunk (hne : words ≠ []) (groupNum : ℕ) :
    firstMatch (fieldLine "Words:")
        (wordsChunk groupNum (joinItems (words.map String.toList))) =
      some (joinItems (words.map String.toList)) := by
  have hitems := isItem_of_mem_map hwords
  have hline : joinItems (words.map String.toList) ≠ [] :=
    joinItems_ne_nil (by simpa using hne) hitems
  have hchunk : wordsChunk groupNum (joinItems (words.map String.toList)) =
      ("Group ".toList ++ Nat.toDigits 10 groupNum) ++ (['\n'] ++
        ("Words:".toList ++ ' ' :: (joinItems (words.map String.toList) ++ '\n' :: []))) := by
    simp [wordsChunk]
  rw [hchunk, firstMatch_append (quiet_heading "Words:" (by decide) (by decide) groupNum _),
    firstMatch_append (quiet_words (by decide) _)]
  exact firstMatch_fieldLine "Words:" hline (head?_joinItems hitems)
    (unbroken_joinItems hitems) []

end Reply

section Board

variable {canonicalize : Char → Char} (hc : IsCanonicalize canonicalize)
  {boardWords : List String} (hboard : ∀ word ∈ boardWords, IsBoardWord word.toList)
  {words : List String}
  (hchosen : ∀ word ∈ words, ∃ original ∈ boardWords, Recased original.toList word.toList)
  (hsize : words.length = GROUP_SIZE)

include hboard hchosen in
theorem isBoardWord_of_chosen : ∀ word ∈ words, IsBoardWord word.toList := by
  intro word hword
  obtain ⟨original, horiginal, hrecased⟩ := hchosen word hword
  exact (hboard original horiginal).recased hrecased

theorem ne_nil_of_size {words : List String} (hsize : words.length = GROUP_SIZE) : words ≠ [] := by
  rintro rfl
  cases hsize

include hc hboard hchosen hsize

/-- A line of four board words is masked and restored item by item, whatever is stripped. -/
theorem protectBoardWords_words :
    ∃ pieces, (protectBoardWords canonicalize (joinItems (words.map String.toList))
        boardWords).1 = joinItems pieces ∧ (∀ piece ∈ pieces, IsClean piece) ∧
      ∀ stripped : List Char, (∀ c ∈ stripped, isStrippable c) →
        splitItems stripped (protectBoardWords canonicalize (joinItems (words.map String.toList))
          boardWords).2 (joinItems pieces) = words := by
  have htyped := isBoardWord_of_chosen hboard hchosen
  have hitems : ∀ item ∈ words.map String.toList, IsItem item ∧ '\uE000' ∉ item ∧
      ∃ original ∈ boardWords, Recased original.toList item := by
    intro item hitem
    obtain ⟨word, hword, rfl⟩ := List.mem_map.mp hitem
    exact ⟨(htyped word hword).isItem, (htyped word hword).undelimited, hchosen word hword⟩
  obtain ⟨pieces, hmasked, hclean, hrestore⟩ := protectBoardWords_joinItems hc
    (fun word hword => (hboard word hword).isItem) hitems
  refine ⟨pieces, hmasked, hclean, fun stripped hstripped => ?_⟩
  exact splitItems_pieces hstripped hclean (ne_nil_of_size hsize)
    (fun word hword => (htyped word hword).isItem.nonempty) hrestore

/-- A line of four board words gives its words to its group, and nothing is stripped of it. -/
theorem readWords_boardWords (parse : GroupsParse) (groupNum : ℕ) :
    parse.readWords canonicalize boardWords groupNum (joinItems (words.map String.toList)) =
      parse.setWords groupNum words := by
  obtain ⟨pieces, hmasked, hclean, hsplit⟩ :=
    protectBoardWords_words hc hboard hchosen hsize
  have haside : replaceAll parenthetical (joinItems pieces) = joinItems pieces := by
    refine replaceAll_quiet (quiet_of_forall _ fun c hmem r => ?_)
    have hparen : c ≠ '(' := by
      rintro rfl
      rcases mem_intercalate hmem with hmem | ⟨piece, hpiece, hmem⟩
      · simp at hmem
      · exact absurd ((hclean piece hpiece).unstripped _ hmem) (by decide)
    simp [parenthetical, hparen]
  have hitems := hsplit ['\x60', '*'] (by simp [isStrippable])
  unfold GroupsParse.readWords
  simp only [hmasked, haside, ne_eq, not_true_eq_false, ↓reduceIte, hitems, hsize]

/-- A line of four board words in the answer is read as these words. -/
theorem answerLineWords_boardWords :
    answerLineWords canonicalize boardWords (joinItems (words.map String.toList)) = words := by
  obtain ⟨pieces, hmasked, -, hsplit⟩ := protectBoardWords_words hc hboard hchosen hsize
  have hitems := hsplit ['\x60', '*', '#', '-'] (by simp [isStrippable])
  unfold answerLineWords
  simp only [hmasked, hitems]

/-- What the headings of the reply give. -/
theorem parseGroups_oneGroupReply {groupNum : ℕ} (hpos : 1 ≤ groupNum)
    (hlt : groupNum < 2 ^ 32) :
    let parse := parseGroups canonicalize boardWords (oneGroupReply groupNum words).toList
    parse.parsedGroupWords = setAt [] (groupNum - 1) words ∧ parse.issues = [] := by
  have hwords := isBoardWord_of_chosen hboard hchosen
  have hne := ne_nil_of_size hsize
  intro parse
  have hheading : firstMatch groupHeading
      (wordsChunk groupNum (joinItems (words.map String.toList))) =
        some (Nat.toDigits 10 groupNum) := by
    refine firstMatch_of_some ?_
    have h := groupHeading_heading groupNum
      ("Words:".toList ++ ' ' :: (joinItems (words.map String.toList) ++ ['\n']))
    rw [← List.append_assoc] at h
    exact h
  have hparse : parse = (GroupsParse.start []).readChunk canonicalize boardWords
      (wordsChunk groupNum (joinItems (words.map String.toList))) := by
    have hissues : ¬ 2 < (splitAll answerMarker (oneGroupReply groupNum words).toList).length := by
      rw [splitAll_oneGroupReply hwords]
      simp
    simp only [parse, parseGroups, parseGroupsBy, groupChunks, if_neg hissues,
      groupsSection_oneGroupReply hwords, Option.getD_some, splitBefore_wordsChunk hwords,
      List.foldl_cons, List.foldl_nil]
    rfl
  rw [hparse]
  simp only [GroupsParse.readChunk, GroupsParse.readChunkBy, exactInt, hheading,
    Nat.ofDigitChars_ten_toDigits, firstMatch_wordsChunk hwords hne,
    readWords_boardWords hc hboard hchosen hsize, GroupsParse.setWords, if_pos (And.intro hpos hlt)]
  cases firstMatch (fieldLine "Category:")
    (wordsChunk groupNum (joinItems (words.map String.toList))) with
  | none => exact ⟨rfl, rfl⟩
  | some line => exact ⟨rfl, rfl⟩

/-- The answer block of the reply gives its words. -/
theorem parseAnswerBlock_oneGroupReply (groupNum : ℕ) :
    parseAnswerBlock canonicalize (oneGroupReply groupNum words).toList boardWords = [words] := by
  have hwords := isBoardWord_of_chosen hboard hchosen
  have hne := ne_nil_of_size hsize
  have hitems := isItem_of_mem_map hwords
  have hline : joinItems (words.map String.toList) ≠ [] :=
    joinItems_ne_nil (by simpa using hne) hitems
  have hlines : answerBlockLines ('\n' :: joinItems (words.map String.toList)) =
      [joinItems (words.map String.toList)] := by
    have hbreak : plainLines (['\n'] ++ joinItems (words.map String.toList)) =
        plainLines (joinItems (words.map String.toList)) :=
      plainLines_of_all_append (by simp [isWhitespace]) _
    rw [answerBlockLines_eq, ← List.singleton_append, hbreak, plainLines,
      List.splitOn_eq_singleton (unbroken_joinItems hitems)]
    simp [trimChars_joinItems hitems, hline]
  rw [parseAnswerBlock, splitAll_oneGroupReply hwords]
  simp only [hlines, List.map_cons, List.map_nil,
    answerLineWords_boardWords hc hboard hchosen hsize]
  simp [hsize]

/-- A reply that names one group of board words, in any casing, gives back exactly these words, as
its groups and as the proposal of its number, and nothing of it is taken for an aside. -/
theorem parseAnswer_oneGroupReply {groupNum : ℕ} (hpos : 1 ≤ groupNum)
    (hlt : groupNum < 2 ^ 32) :
    (parseAnswer canonicalize (oneGroupReply groupNum words) boardWords).groups = [words] ∧
      (parseAnswer canonicalize (oneGroupReply groupNum words) boardWords).proposalWords[
        groupNum - 1]? = some (some words) ∧
      .parentheticalStripped ∉
        (parseAnswer canonicalize (oneGroupReply groupNum words) boardWords).textIssues := by
  obtain ⟨hparsed, hissues⟩ := parseGroups_oneGroupReply hc hboard hchosen hsize hpos hlt
  have hblock := parseAnswerBlock_oneGroupReply hc hboard hchosen hsize groupNum
  have htrim : words.map trim = words := by
    conv_rhs => rw [← List.map_id words]
    refine List.map_congr_left fun word hword => ?_
    have h := trim_ofList word.toList
    rwa [(isBoardWord_of_chosen hboard hchosen word hword).isItem.trimmed,
      String.ofList_toList] at h
  have hplace := setAt_append_holes ([] : List (Option (List String))) (groupNum - 1) words
  rw [List.length_nil, Nat.zero_add, List.nil_append] at hplace
  refine ⟨?_, ?_, ?_⟩
  · simp [parseAnswer, hblock]
  · simp only [parseAnswer, hparsed, hplace]
    simp [htrim]
  · simp only [parseAnswer, GroupsParse.classified]
    split
    · simp [GroupsParse.addIssue, addIssue, hissues]
    · simp [hissues]

end Board

/-- The upper case of the ASCII letters folds as the host does on texts made of ASCII characters. -/
theorem isCanonicalize_toUpper : IsCanonicalize Char.toUpper where
  toUpper := toUpper_toUpper
  ascii c d hd hletter h := by
    have hself : d.toUpper = d := by
      rcases toUpper_cases d with ⟨hsame, -⟩ | ⟨hlo, hhi, -⟩
      · exact hsame
      · exact absurd ⟨hlo, hhi⟩ (ranges_of_not_isAlpha hletter).2
    exact eq_of_toUpper_eq (h.trans hself) hletter
  units c d h := by
    have hnat := congrArg Char.toNat h
    rcases toUpper_cases c with ⟨hc, -⟩ | ⟨_, _, hc⟩ <;>
      rcases toUpper_cases d with ⟨hd, -⟩ | ⟨_, _, hd⟩
    · rw [hc, hd] at hnat
      omega
    · rw [hc] at hnat
      omega
    · rw [hd] at hnat
      omega
    · omega

/-- Board words with marks and digits. -/
def markedBoard : List String := ["TEE (GOLF)", "TEE", "(", ")", "YO-YO", "-", "**", "2000"]

/-- Four of them in another casing, one inside another. -/
def markedWords : List String := ["Tee (golf)", "(", "Yo-Yo", "**"]

theorem parseAnswer_marked_words :
    (parseAnswer Char.toUpper (oneGroupReply 3 markedWords) markedBoard).groups = [markedWords] ∧
      (parseAnswer Char.toUpper (oneGroupReply 3 markedWords) markedBoard).proposalWords[2]? =
        some (some markedWords) ∧
      .parentheticalStripped ∉
        (parseAnswer Char.toUpper (oneGroupReply 3 markedWords) markedBoard).textIssues := by
  refine parseAnswer_oneGroupReply isCanonicalize_toUpper ?_ ?_ rfl (by decide) (by decide)
  · decide +kernel
  · decide +kernel

/-- A group number that is no position of an array leaves its position empty, and an empty word of
the board takes its group with it. -/
theorem number_and_empty_word_are_lost :
    (parseAnswer Char.toUpper (oneGroupReply 4294967296 ["ANT", "BEE", "FLY", "GNAT"])
        ["ANT", "BEE", "FLY", "GNAT"]).proposalWords[4294967295]? = none ∧
      (parseAnswer Char.toUpper (oneGroupReply 1 ["ANT", "", "FLY", "GNAT"])
        ["ANT", "", "FLY", "GNAT"]).groups = [] := by
  decide +kernel

end Connections
