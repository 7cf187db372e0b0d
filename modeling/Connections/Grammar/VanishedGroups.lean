import Connections.Grammar.GroupNumbers

/-!
# No group vanishes silently

A group that a heading names either has its words among the proposals or leaves an issue behind:
its own words were off, or the catch-all found its number without words.  The catch-all counts from
1, so a group 0 gets by when the reply gives no other cause for an issue, and so would a group
behind the last position of an array.
-/

namespace Connections

open TextScan

section Causes

variable (canonicalize : Char → Char) (boardWords : List String)

/-- A words line loses an aside in its cleanup. -/
def asideIn (line : List Char) : Bool :=
  replaceAll parenthetical (protectBoardWords canonicalize line boardWords).1 ≠
    (protectBoardWords canonicalize line boardWords).1

/-- A chunk with a heading has a words line with an aside, or with another number of words than a
group has. -/
def troubledChunk (chunk : List Char) : Bool :=
  (firstMatch groupHeading chunk).isSome && (firstMatch (fieldLine "Words:") chunk).any fun line =>
    asideIn canonicalize boardWords line || (wordsOfLine canonicalize boardWords line).isNone

/-- A chunk gives the words of a group number. -/
def wordsUnder (groupNum : ℕ) (chunk : List Char) : Bool :=
  (firstMatch groupHeading chunk).map exactInt = some groupNum &&
    ((firstMatch (fieldLine "Words:") chunk).bind
      (wordsOfLine canonicalize boardWords)).isSome

/-- A reply gives cause for an issue: a second answer block, a troubled chunk, or a number up to
that of some heading that no chunk gives words. -/
def Troubled (responseText : String) : Prop :=
  2 < (splitAll answerMarker responseText.toList).length ∨
    (∃ chunk ∈ groupChunks responseText.toList, troubledChunk canonicalize boardWords chunk) ∨
    ∃ m ∈ headingNumbers responseText, ∃ n, 1 ≤ n ∧ n ≤ m ∧
      ∀ chunk ∈ groupChunks responseText.toList,
        wordsUnder canonicalize boardWords n chunk = false

end Causes

section Chunks

variable {canonicalize : Char → Char} {boardWords : List String}

theorem addIssue_ne_nil (issues : List AnswerTextIssue) (issue : AnswerTextIssue) :
    addIssue issues issue ≠ [] := by
  unfold addIssue
  split
  · rename_i h
    exact List.ne_nil_of_mem h
  · simp

theorem issues_setWords (parse : GroupsParse) (groupNum : ℕ) (words : List String) :
    (parse.setWords groupNum words).issues = parse.issues := by
  unfold GroupsParse.setWords
  split
  · rfl
  · rfl

theorem wrongCount_setWords (parse : GroupsParse) (groupNum : ℕ) (words : List String) :
    (parse.setWords groupNum words).wrongCountGroupNumbers = parse.wrongCountGroupNumbers := by
  unfold GroupsParse.setWords
  split
  · rfl
  · rfl

/-- The words of a line are those that the parse reads from it. -/
theorem readWords_eq (parse : GroupsParse) (groupNum : ℕ) (line : List Char) :
    parse.readWords canonicalize boardWords groupNum line =
      let noted := if asideIn canonicalize boardWords line then
        parse.addIssue .parentheticalStripped else parse
      match wordsOfLine canonicalize boardWords line with
      | some words => noted.setWords groupNum words
      | none =>
        { noted.addIssue .groupCountOff with
          wrongCountGroupNumbers := groupNum :: noted.wrongCountGroupNumbers } := by
  unfold GroupsParse.readWords wordsOfLine asideIn
  simp only [decide_eq_true_eq]
  split
  · rfl
  · rfl

/-- A words line leaves an issue when it has an aside or the wrong number of words. -/
theorem issues_readWords (parse : GroupsParse) (groupNum : ℕ) (line : List Char) :
    (parse.readWords canonicalize boardWords groupNum line).issues ≠ [] ↔
      parse.issues ≠ [] ∨ asideIn canonicalize boardWords line ∨
        wordsOfLine canonicalize boardWords line = none := by
  rw [readWords_eq]
  cases hwords : wordsOfLine canonicalize boardWords line with
  | none => simp [GroupsParse.addIssue, addIssue_ne_nil]
  | some words =>
    by_cases haside : asideIn canonicalize boardWords line
    · simp [haside, issues_setWords, GroupsParse.addIssue, addIssue_ne_nil]
    · simp [haside, issues_setWords]

/-- A line of the right number of words leaves no wrong count. -/
theorem wrongCount_readWords {parse : GroupsParse} {groupNum : ℕ} {line : List Char}
    (h : wordsOfLine canonicalize boardWords line ≠ none) :
    (parse.readWords canonicalize boardWords groupNum line).wrongCountGroupNumbers =
      parse.wrongCountGroupNumbers := by
  rw [readWords_eq]
  cases hwords : wordsOfLine canonicalize boardWords line with
  | none => exact absurd hwords h
  | some words =>
    simp only [wrongCount_setWords]
    split
    · rfl
    · rfl

theorem hasWords_setWords {parse : GroupsParse} {groupNum n : ℕ} (hn : 1 ≤ n)
    (words : List String) :
    (parse.setWords groupNum words).hasWords n ↔ parse.hasWords n ∨ groupNum = n := by
  unfold GroupsParse.hasWords
  by_cases hposition : 1 ≤ groupNum ∧ groupNum < 2 ^ 32
  · have hother : (parse.setWords groupNum words).otherGroupNumbers = parse.otherGroupNumbers := by
      rw [GroupsParse.setWords, if_pos hposition]
    rw [getElem?_setWords, hother]
    by_cases heq : groupNum = n
    · rw [if_pos (by omega)]
      simp [heq]
    · rw [if_neg (by omega)]
      simp [heq]
  · rw [GroupsParse.setWords, if_neg hposition]
    simp only [Bool.or_eq_true, decide_eq_true_eq, List.mem_cons]
    constructor
    · rintro (h | rfl | h)
      · exact .inl (.inl h)
      · exact .inr rfl
      · exact .inl (.inr h)
    · rintro ((h | h) | rfl)
      · exact .inl h
      · exact .inr (.inr h)
      · exact .inr (.inl rfl)

/-- A line gives its group number words and takes none away. -/
theorem hasWords_readWords {parse : GroupsParse} {groupNum n : ℕ} (hn : 1 ≤ n)
    (line : List Char) :
    (parse.readWords canonicalize boardWords groupNum line).hasWords n ↔
      parse.hasWords n ∨ groupNum = n ∧
        (wordsOfLine canonicalize boardWords line).isSome := by
  have hnoted : ∀ (p : GroupsParse) (aside : Bool),
      (if aside then p.addIssue .parentheticalStripped else p).hasWords n = p.hasWords n := by
    intro p aside
    cases aside <;> rfl
  rw [readWords_eq]
  cases wordsOfLine canonicalize boardWords line with
  | none =>
    simp only [Option.isSome_none, Bool.false_eq_true, and_false, or_false]
    rw [← hnoted parse (asideIn canonicalize boardWords line)]
    exact Iff.rfl
  | some words =>
    simp only [Option.isSome_some, and_true]
    rw [hasWords_setWords hn, hnoted]

/-- A parse behind a heading and its category differs in neither of the three. -/
theorem readChunk_eq (parse : GroupsParse) (chunk : List Char) :
    parse.readChunk canonicalize boardWords chunk =
      match firstMatch groupHeading chunk with
      | none => parse
      | some digits =>
        let headed := labelled parse (exactInt digits)
          ((firstMatch (fieldLine "Category:") chunk).map fun line =>
            String.ofList (trimChars line))
        match firstMatch (fieldLine "Words:") chunk with
        | some line => headed.readWords canonicalize boardWords (exactInt digits) line
        | none => headed := by
  unfold GroupsParse.readChunk GroupsParse.readChunkBy
  cases firstMatch groupHeading chunk with
  | none => rfl
  | some digits =>
    cases firstMatch (fieldLine "Words:") chunk <;>
      cases firstMatch (fieldLine "Category:") chunk <;> rfl

theorem labelled_keeps (parse : GroupsParse) (groupNum : ℕ) (category : Option String) :
    (labelled parse groupNum category).issues = parse.issues ∧
      (labelled parse groupNum category).wrongCountGroupNumbers = parse.wrongCountGroupNumbers ∧
      ∀ n, (labelled parse groupNum category).hasWords n = parse.hasWords n := by
  cases category with
  | none => exact ⟨rfl, rfl, fun n => rfl⟩
  | some category => exact ⟨rfl, rfl, fun n => rfl⟩

/-- A chunk leaves an issue when it is troubled. -/
theorem issues_readChunk (parse : GroupsParse) (chunk : List Char) :
    (parse.readChunk canonicalize boardWords chunk).issues ≠ [] ↔
      parse.issues ≠ [] ∨ troubledChunk canonicalize boardWords chunk := by
  rw [readChunk_eq, troubledChunk]
  cases firstMatch groupHeading chunk with
  | none => simp
  | some digits =>
    have hkeeps := labelled_keeps parse (exactInt digits)
      ((firstMatch (fieldLine "Category:") chunk).map fun line => String.ofList (trimChars line))
    cases firstMatch (fieldLine "Words:") chunk with
    | none => simp [hkeeps.1]
    | some line =>
      simp only [issues_readWords, hkeeps.1]
      simp

/-- A chunk that is not troubled leaves no wrong count. -/
theorem wrongCount_readChunk {parse : GroupsParse} {chunk : List Char}
    (h : troubledChunk canonicalize boardWords chunk = false) :
    (parse.readChunk canonicalize boardWords chunk).wrongCountGroupNumbers =
      parse.wrongCountGroupNumbers := by
  rw [readChunk_eq]
  unfold troubledChunk at h
  cases hheading : firstMatch groupHeading chunk with
  | none => rfl
  | some digits =>
    have hkeeps := labelled_keeps parse (exactInt digits)
      ((firstMatch (fieldLine "Category:") chunk).map fun line => String.ofList (trimChars line))
    cases hline : firstMatch (fieldLine "Words:") chunk with
    | none => exact hkeeps.2.1
    | some line =>
      rw [hheading, hline] at h
      simp only [Option.isSome_some, Option.any_some, Bool.true_and, Bool.or_eq_false_iff,
        Option.isNone_eq_false_iff] at h
      exact (wrongCount_readWords (Option.ne_none_iff_isSome.mpr h.2)).trans hkeeps.2.1

/-- A chunk gives words to the number of its heading. -/
theorem hasWords_readChunk {n : ℕ} (hn : 1 ≤ n) (parse : GroupsParse) (chunk : List Char) :
    (parse.readChunk canonicalize boardWords chunk).hasWords n ↔
      parse.hasWords n ∨ wordsUnder canonicalize boardWords n chunk := by
  rw [readChunk_eq, wordsUnder]
  cases firstMatch groupHeading chunk with
  | none => simp
  | some digits =>
    have hkeeps := labelled_keeps parse (exactInt digits)
      ((firstMatch (fieldLine "Category:") chunk).map fun line => String.ofList (trimChars line))
    cases firstMatch (fieldLine "Words:") chunk with
    | none => simp [hkeeps.2.2]
    | some line =>
      simp only [hasWords_readWords hn, hkeeps.2.2]
      simp

variable (canonicalize boardWords) in
/-- All chunks together: the issues, the wrong counts and the words. -/
theorem foldl_readChunk (chunks : List (List Char)) (parse : GroupsParse)
    (hwrong : parse.wrongCountGroupNumbers ≠ [] → parse.issues ≠ []) :
    ((chunks.foldl (GroupsParse.readChunk canonicalize boardWords) parse).issues ≠ [] ↔
      parse.issues ≠ [] ∨ ∃ chunk ∈ chunks, troubledChunk canonicalize boardWords chunk) ∧
    ((chunks.foldl (GroupsParse.readChunk canonicalize boardWords) parse).wrongCountGroupNumbers ≠
        [] →
      (chunks.foldl (GroupsParse.readChunk canonicalize boardWords) parse).issues ≠ []) ∧
    ∀ n, 1 ≤ n →
      ((chunks.foldl (GroupsParse.readChunk canonicalize boardWords) parse).hasWords n ↔
        parse.hasWords n ∨ ∃ chunk ∈ chunks, wordsUnder canonicalize boardWords n chunk) := by
  induction chunks generalizing parse with
  | nil => exact ⟨by simp, hwrong, by simp⟩
  | cons chunk chunks ih =>
    have hnext : (parse.readChunk canonicalize boardWords chunk).wrongCountGroupNumbers ≠ [] →
        (parse.readChunk canonicalize boardWords chunk).issues ≠ [] := by
      intro hne
      rw [issues_readChunk]
      by_cases htrouble : troubledChunk canonicalize boardWords chunk
      · exact .inr htrouble
      · rw [wrongCount_readChunk (Bool.not_eq_true _ ▸ htrouble)] at hne
        exact .inl (hwrong hne)
    obtain ⟨hissues, hcount, hwords⟩ := ih _ hnext
    refine ⟨?_, hcount, fun n hn => ?_⟩
    · rw [List.foldl_cons, hissues, issues_readChunk, or_assoc]
      simp only [List.mem_cons, exists_eq_or_imp]
    · rw [List.foldl_cons, hwords n hn, hasWords_readChunk hn, or_assoc]
      simp only [List.mem_cons, exists_eq_or_imp]

/-- The catch-all leaves an issue where there is one already, or for a number without words. -/
theorem issues_classified {parse : GroupsParse}
    (hwrong : parse.wrongCountGroupNumbers ≠ [] → parse.issues ≠ []) :
    parse.classified.issues ≠ [] ↔
      parse.issues ≠ [] ∨ ∃ n, 1 ≤ n ∧ n ≤ parse.maxGroupNum ∧ parse.hasWords n = false := by
  unfold GroupsParse.classified
  split
  · rename_i hany
    obtain ⟨n, hn, hnone⟩ := List.any_eq_true.mp hany
    have hrange := List.mem_range'_1.mp hn
    simp only [Bool.and_eq_true, Bool.not_eq_true', decide_eq_true_eq] at hnone
    refine iff_of_true (addIssue_ne_nil _ _) (.inr ⟨n, hrange.1, by omega, hnone.1⟩)
  · rename_i hany
    constructor
    · exact .inl
    · rintro (hissues | ⟨n, hpos, hle, hnone⟩)
      · exact hissues
      · -- A number without words that the catch-all passes over had a wrong count.
        apply hwrong
        intro hempty
        apply hany
        refine List.any_eq_true.mpr ⟨n, List.mem_range'_1.mpr ⟨hpos, by omega⟩, ?_⟩
        simp [hnone, hempty]

end Chunks

section Replies

variable {canonicalize : Char → Char} {boardWords : List String} {responseText : String}

variable (canonicalize boardWords responseText) in
/-- What the headings leave: issues for a second answer block or a troubled chunk, no wrong count
without an issue, and words for the numbers under which some chunk has them. -/
theorem parseGroups_leaves :
    ((parseGroups canonicalize boardWords responseText.toList).issues ≠ [] ↔
      2 < (splitAll answerMarker responseText.toList).length ∨
        ∃ chunk ∈ groupChunks responseText.toList, troubledChunk canonicalize boardWords chunk) ∧
    ((parseGroups canonicalize boardWords responseText.toList).wrongCountGroupNumbers ≠ [] →
      (parseGroups canonicalize boardWords responseText.toList).issues ≠ []) ∧
    ∀ n, 1 ≤ n → ((parseGroups canonicalize boardWords responseText.toList).hasWords n = false ↔
      ∀ chunk ∈ groupChunks responseText.toList,
        wordsUnder canonicalize boardWords n chunk = false) := by
  set issues := if 2 < (splitAll answerMarker responseText.toList).length then
    [AnswerTextIssue.multipleProposals] else [] with hissues
  have hparse : parseGroups canonicalize boardWords responseText.toList =
      (groupChunks responseText.toList).foldl (GroupsParse.readChunk canonicalize boardWords)
        (.start issues) := rfl
  obtain ⟨hleft, hcount, hwords⟩ := foldl_readChunk canonicalize
    boardWords (groupChunks responseText.toList) (.start issues)
    fun h => absurd rfl h
  rw [← hparse] at hleft hcount hwords
  refine ⟨?_, hcount, fun n hn => ?_⟩
  · rw [hleft]
    refine or_congr ?_ Iff.rfl
    by_cases hmany : 2 < (splitAll answerMarker responseText.toList).length
    · simp [hissues, hmany, GroupsParse.start]
    · simp [hissues, hmany, GroupsParse.start]
  · rw [← Bool.not_eq_true, hwords n hn]
    simp [GroupsParse.start, GroupsParse.hasWords]

/-- The largest number is that of a heading. -/
theorem le_maxGroupNum_iff {n : ℕ} (hn : 1 ≤ n) :
    n ≤ (parseGroups canonicalize boardWords responseText.toList).maxGroupNum ↔
      ∃ m ∈ headingNumbers responseText, n ≤ m := by
  have hlt := maxGroupNum_parseGroupsBy_lt canonicalize boardWords exactInt hn responseText.toList
  rw [← not_lt, parseGroups, hlt]
  unfold headingNumbers
  simp only [List.mem_filterMap, Option.map_eq_some_iff, Option.mem_def]
  push Not
  constructor
  · rintro ⟨chunk, hchunk, digits, hdigits, hle⟩
    exact ⟨_, ⟨chunk, hchunk, digits, hdigits, rfl⟩, hle⟩
  · rintro ⟨m, ⟨chunk, hchunk, digits, hdigits, rfl⟩, hle⟩
    exact ⟨chunk, hchunk, digits, hdigits, hle⟩

/-- The parser records an issue just when the reply gives cause for one. -/
theorem textIssues_ne_nil_iff :
    (parseAnswer canonicalize responseText boardWords).textIssues ≠ [] ↔
      Troubled canonicalize boardWords responseText := by
  obtain ⟨hissues, hcount, hwithout⟩ := parseGroups_leaves canonicalize
    boardWords responseText
  change (parseGroups canonicalize boardWords responseText.toList).classified.issues ≠ [] ↔ _
  rw [issues_classified hcount, hissues, or_assoc]
  unfold Troubled
  refine or_congr Iff.rfl (or_congr Iff.rfl ?_)
  constructor
  · rintro ⟨n, hn, hle, hnone⟩
    obtain ⟨m, hm, hnm⟩ := (le_maxGroupNum_iff hn).mp hle
    exact ⟨m, hm, n, hn, hnm, (hwithout n hn).mp hnone⟩
  · rintro ⟨m, hm, n, hn, hnm, hnone⟩
    exact ⟨n, hn, (le_maxGroupNum_iff hn).mpr ⟨m, hm, hnm⟩, (hwithout n hn).mpr hnone⟩

/-- Words under a number of a position give the group of that number its words. -/
theorem givesWords_of_wordsUnder {n : ℕ} {chunk : List Char} (hn : 1 ≤ n) (hlt : n < 2 ^ 32)
    (hchunk : chunk ∈ groupChunks responseText.toList)
    (h : wordsUnder canonicalize boardWords n chunk) :
    GivesWords canonicalize boardWords responseText n := by
  simp only [wordsUnder, Bool.and_eq_true, decide_eq_true_eq] at h
  obtain ⟨digits, hdigits, hnum⟩ := Option.map_eq_some_iff.mp h.1
  have hnum' : Nat.ofDigitChars 10 digits 0 = n := hnum
  refine ⟨chunk, hchunk, ⟨(firstMatch (fieldLine "Words:") chunk).bind
    (wordsOfLine canonicalize boardWords),
    (firstMatch (fieldLine "Category:") chunk).map fun line => String.ofList (trimChars line)⟩,
    ?_, h.2⟩
  simp only [entryOf, chunkEntry, hdigits, Option.map_some, Option.bind_some, hnum', if_true]
  rw [if_pos ⟨hn, hlt⟩]
  rfl

variable (canonicalize boardWords responseText) in
/-- The group of a number behind the last position of an array gets no words. -/
theorem not_givesWords_of_le {n : ℕ} (hn : 2 ^ 32 ≤ n) :
    ¬ GivesWords canonicalize boardWords responseText n := by
  rintro ⟨chunk, -, entry, hentry, hsome⟩
  obtain ⟨⟨m, said⟩, hsaid, hif⟩ := Option.bind_eq_some_iff.mp hentry
  obtain ⟨rfl, hsame⟩ := Option.ite_none_right_eq_some.mp hif
  obtain rfl : said = entry := Option.some.inj hsame
  obtain ⟨digits, -, heq⟩ := Option.map_eq_some_iff.mp hsaid
  obtain ⟨rfl, rfl⟩ := Prod.mk.inj heq
  simp only [] at hsome hn
  rw [if_neg (by omega)] at hsome
  cases hsome

/-- A position of the proposals, when the headings gave words at all. -/
theorem proposalWords_isSome (i : ℕ)
    (h : GivesWords canonicalize boardWords responseText (i + 1)) :
    ((parseAnswer canonicalize responseText boardWords).proposalWords[i]?.join).isSome := by
  have hsome := (givesWords_iff responseText i).mp h
  have hpos : 0 < (parseGroups canonicalize boardWords
      responseText.toList).parsedGroupWords.length := by
    refine List.length_pos_of_ne_nil fun hnil => ?_
    rw [hnil] at hsome
    cases hsome
  obtain ⟨words, hwords⟩ := Option.isSome_iff_exists.mp hsome
  have hentry := Option.join_eq_some_iff.mp hwords
  simp [parseAnswer, hpos, hentry]

/-- A group that a heading names has its words among the proposals, or the reply leaves an issue,
just when the parser returns and the number is that of a position, or the reply gives another cause
for an issue. -/
theorem group_accounted_iff (canonicalize : Char → Char) (responseText : String)
    (boardWords : List String) (groupNum : ℕ) (hheading : groupNum ∈ headingNumbers responseText) :
    (∃ fuel answer, parseAnswerWithin canonicalize responseText boardWords fuel = some answer ∧
      (1 ≤ groupNum ∧ (answer.proposalWords[groupNum - 1]?.join).isSome ∨
        answer.textIssues ≠ [])) ↔
    (∀ n ∈ headingNumbers responseText, n < 2 ^ 53) ∧
      (1 ≤ groupNum ∧ groupNum < 2 ^ 32 ∨ Troubled canonicalize boardWords responseText) := by
  constructor
  · rintro ⟨fuel, answer, hanswer, hor⟩
    obtain ⟨hnumbers, rfl⟩ := parseAnswerWithin_eq_some hanswer
    refine ⟨hnumbers, ?_⟩
    by_cases htrouble : Troubled canonicalize boardWords responseText
    · exact .inr htrouble
    rcases hor with ⟨hpos, hsome⟩ | hissues
    · -- Without trouble the number 1 has words, so the proposals are those of the headings.
      refine .inl ⟨hpos, ?_⟩
      by_contra hge
      have hone : ∃ chunk ∈ groupChunks responseText.toList,
          wordsUnder canonicalize boardWords 1 chunk := by
        by_contra hnone
        push Not at hnone
        exact htrouble (.inr (.inr ⟨groupNum, hheading, 1, le_rfl, hpos, fun chunk hchunk =>
          Bool.not_eq_true _ ▸ hnone chunk hchunk⟩))
      obtain ⟨chunk, hchunk, hunder⟩ := hone
      have hfirst := (givesWords_iff responseText 0).mp
        (givesWords_of_wordsUnder le_rfl (by omega) hchunk hunder)
      have hlength : 0 < (parseGroups canonicalize boardWords
          responseText.toList).parsedGroupWords.length := by
        refine List.length_pos_of_ne_nil fun hnil => ?_
        rw [hnil] at hfirst
        cases hfirst
      obtain ⟨i, rfl⟩ : ∃ i, groupNum = i + 1 := ⟨groupNum - 1, by omega⟩
      have hnot := not_givesWords_of_le canonicalize boardWords responseText
        (Nat.not_lt.mp hge)
      rw [givesWords_iff, Bool.not_eq_true, Option.isSome_eq_false_iff,
        Option.isNone_iff_eq_none] at hnot
      simp only [parseAnswer, hlength, if_true, Nat.add_sub_cancel, List.getElem?_map] at hsome
      cases hentry : (parseGroups canonicalize boardWords
          responseText.toList).parsedGroupWords[i]? with
      | none => simp [hentry] at hsome
      | some entry =>
        rw [hentry, Option.join_some] at hnot
        simp [hentry, hnot] at hsome
    · exact absurd (textIssues_ne_nil_iff.mp hissues) htrouble
  · rintro ⟨hnumbers, hor⟩
    obtain ⟨fuel, hanswer⟩ := exists_parseAnswerWithin canonicalize boardWords hnumbers
    refine ⟨fuel, _, hanswer, ?_⟩
    by_cases htrouble : Troubled canonicalize boardWords responseText
    · exact .inr (textIssues_ne_nil_iff.mpr htrouble)
    rcases hor with ⟨hpos, hlt⟩ | hor
    · left
      refine ⟨hpos, ?_⟩
      have hunder : ∃ chunk ∈ groupChunks responseText.toList,
          wordsUnder canonicalize boardWords groupNum chunk := by
        by_contra hnone
        push Not at hnone
        exact htrouble (.inr (.inr ⟨groupNum, hheading, groupNum, hpos, le_rfl, fun chunk hchunk =>
          Bool.not_eq_true _ ▸ hnone chunk hchunk⟩))
      obtain ⟨chunk, hchunk, hunder⟩ := hunder
      obtain ⟨i, rfl⟩ : ∃ i, groupNum = i + 1 := ⟨groupNum - 1, by omega⟩
      exact proposalWords_isSome i (givesWords_of_wordsUnder hpos hlt hchunk hunder)
    · exact absurd hor htrouble

end Replies

/-- The first group of a reply that says it twice. -/
theorem group_accounted_of_correctedReply :
    1 ∈ headingNumbers correctedReply ∧
    ((∃ fuel answer, parseAnswerWithin Char.toUpper correctedReply [] fuel = some answer ∧
      (1 ≤ 1 ∧ (answer.proposalWords[1 - 1]?.join).isSome ∨ answer.textIssues ≠ [])) ↔
    (∀ n ∈ headingNumbers correctedReply, n < 2 ^ 53) ∧
      (1 ≤ 1 ∧ 1 < 2 ^ 32 ∨ Troubled Char.toUpper [] correctedReply)) :=
  ⟨by decide +kernel, group_accounted_iff Char.toUpper correctedReply [] 1 (by decide +kernel)⟩

/-- A reply that counts its groups from 0. -/
def zeroReply : String := "Group 0\nCategory: Fruits\nWords: APPLE, PEAR, FIG, KIWI\n"

/-- Its group is lost without an issue. -/
theorem zeroReply_vanishes :
    0 ∈ headingNumbers zeroReply ∧
      parseAnswerWithin Char.toUpper zeroReply [] 1 = some ⟨[], [], [(0, "Fruits")], []⟩ := by
  refine ⟨?_, ?_⟩
  · decide +kernel
  · decide +kernel

end Connections
