import Connections.Grammar.Pairing
import Connections.Library.DoubleNat

/-!
# Group numbers as the host counts them

A heading carries any digits, the host reads them as a double, and the last loop of the parser
counts in doubles up to the largest number it has read.  Below `2 ^ 53` this is the parser of exact
numbers; from there on the loop does not end.  A group that a heading names is there in the end, or
an issue says why not, with the exception of numbers that are no position of the array.
-/

namespace Connections

open TextScan

/-- The number of a heading, as the host reads its digits. -/
def parseInt (digits : List Char) : ℕ := DoubleNat.ofNat (Nat.ofDigitChars 10 digits 0)

/-- The numbers of the headings in the section that is parsed. -/
def headingNumbers (responseText : String) : List ℕ :=
  (groupChunks responseText.toList).filterMap fun chunk =>
    (firstMatch groupHeading chunk).map exactInt

namespace GroupsParse

variable (canonicalize : Char → Char) (boardWords : List String)

/-- Name the failure of one group number, if nothing explains it. -/
def visitGroup (parse : GroupsParse) (groupNum : ℕ) (issues : List AnswerTextIssue) :
    List AnswerTextIssue :=
  if !parse.hasWords groupNum && groupNum ∉ parse.wrongCountGroupNumbers then
    Connections.addIssue issues .unclassified
  else issues

end GroupsParse

section Parser

variable (canonicalize : Char → Char)

/-- The grammar of a reply as the host computes it, within `fuel` passes of the loop over group
numbers. -/
def parseAnswerWithin (responseText : String) (boardWords : List String) (fuel : ℕ) :
    Option ParsedAnswer :=
  let answerBlockGroups := parseAnswerBlock canonicalize responseText.toList boardWords
  let parse := parseGroupsBy canonicalize parseInt boardWords responseText.toList
  let sourceGroups := if 0 < parse.parsedGroupWords.length then parse.parsedGroupWords
    else answerBlockGroups.map some
  (Loop.run (DoubleNat.upTo parse.maxGroupNum parse.visitGroup) fuel (1, parse.issues)).map
    fun textIssues =>
      { groups := if 0 < answerBlockGroups.length then answerBlockGroups
          else parse.parsedGroupWords.filterMap id
        proposalWords := sourceGroups.map (·.map (·.map trim))
        categoryByGroup := parse.categoryByGroup
        textIssues := textIssues }

/-- The parser returns. -/
def Returns (responseText : String) (boardWords : List String) : Prop :=
  ∃ fuel, (parseAnswerWithin canonicalize responseText boardWords fuel).isSome

end Parser

section Numbers

variable {canonicalize : Char → Char} {boardWords : List String} {number : List Char → ℕ}

theorem addIssue_addIssue (issues : List AnswerTextIssue) (issue : AnswerTextIssue) :
    addIssue (addIssue issues issue) issue = addIssue issues issue := by
  unfold addIssue
  by_cases h : issue ∈ issues
  · simp [h]
  · simp [h]

/-- Several visits name the failure once, if any of them names it. -/
theorem foldl_visitGroup (parse : GroupsParse) (numbers : List ℕ) (issues : List AnswerTextIssue) :
    numbers.foldl (fun issues n => parse.visitGroup n issues) issues =
      if numbers.any fun n => !parse.hasWords n && n ∉ parse.wrongCountGroupNumbers then
        addIssue issues .unclassified
      else issues := by
  induction numbers generalizing issues with
  | nil => rfl
  | cons n numbers ih =>
    rw [List.foldl_cons, ih, List.any_cons]
    by_cases hn : (!parse.hasWords n && n ∉ parse.wrongCountGroupNumbers) = true
    · simp only [GroupsParse.visitGroup, hn, if_true, Bool.true_or, addIssue_addIssue, ite_self]
    · rw [Bool.not_eq_true] at hn
      simp only [GroupsParse.visitGroup, hn, Bool.false_eq_true, if_false, Bool.false_or]

/-- The visits of all numbers up to the largest one are the catch-all of the exact parser. -/
theorem foldl_visitGroup_range (parse : GroupsParse) :
    (List.range' 1 parse.maxGroupNum).foldl (fun issues n => parse.visitGroup n issues)
      parse.issues = parse.classified.issues := by
  rw [foldl_visitGroup]
  unfold GroupsParse.classified
  split
  · rfl
  · rfl

theorem maxGroupNum_readWords (parse : GroupsParse) (groupNum : ℕ) (line : List Char) :
    (parse.readWords canonicalize boardWords groupNum line).maxGroupNum = parse.maxGroupNum := by
  unfold GroupsParse.readWords GroupsParse.setWords GroupsParse.addIssue
  simp only []
  split
  · split
    · split <;> rfl
    · split <;> rfl
  · split <;> rfl

/-- A chunk raises the largest number to that of its heading. -/
theorem maxGroupNum_readChunkBy (parse : GroupsParse) (chunk : List Char) :
    (parse.readChunkBy canonicalize boardWords number chunk).maxGroupNum =
      max parse.maxGroupNum (((firstMatch groupHeading chunk).map number).getD 0) := by
  unfold GroupsParse.readChunkBy
  cases firstMatch groupHeading chunk with
  | none => simp
  | some digits =>
    cases firstMatch (fieldLine "Words:") chunk with
    | none => cases firstMatch (fieldLine "Category:") chunk <;> rfl
    | some line =>
      simp only [maxGroupNum_readWords]
      cases firstMatch (fieldLine "Category:") chunk <;> rfl

variable (canonicalize boardWords number) in
/-- The largest number is below a bound just when all of the headings are. -/
theorem maxGroupNum_parseGroupsBy_lt {bound : ℕ} (hbound : 0 < bound) (responseText : List Char) :
    (parseGroupsBy canonicalize number boardWords responseText).maxGroupNum < bound ↔
      ∀ chunk ∈ groupChunks responseText, ∀ digits ∈ firstMatch groupHeading chunk,
        number digits < bound := by
  have hfold : ∀ (chunks : List (List Char)) (parse : GroupsParse),
      (chunks.foldl (GroupsParse.readChunkBy canonicalize boardWords number) parse).maxGroupNum <
          bound ↔
        parse.maxGroupNum < bound ∧ ∀ chunk ∈ chunks, ∀ digits ∈ firstMatch groupHeading chunk,
          number digits < bound := by
    intro chunks
    induction chunks with
    | nil => simp
    | cons chunk chunks ih =>
      intro parse
      rw [List.foldl_cons, ih, maxGroupNum_readChunkBy, max_lt_iff, List.forall_mem_cons, and_assoc]
      cases firstMatch groupHeading chunk with
      | none => simp [hbound]
      | some digits => simp
  unfold parseGroupsBy
  rw [hfold]
  simp [GroupsParse.start, hbound]

/-- Where the host reads the numbers of all headings exactly, it finds the same groups. -/
theorem parseGroupsBy_parseInt {responseText : String}
    (h : ∀ n ∈ headingNumbers responseText, n < 2 ^ 53) :
    parseGroupsBy canonicalize parseInt boardWords responseText.toList =
      parseGroups canonicalize boardWords responseText.toList := by
  unfold parseGroups parseGroupsBy
  refine List.foldl_ext _ _ _ fun parse chunk hchunk => ?_
  unfold GroupsParse.readChunkBy
  cases hdigits : firstMatch groupHeading chunk with
  | none => rfl
  | some digits =>
    have hmem : exactInt digits ∈ headingNumbers responseText :=
      List.mem_filterMap.mpr ⟨chunk, hchunk, by rw [hdigits]; rfl⟩
    have hnumber : parseInt digits = exactInt digits := DoubleNat.ofNat_of_lt (h _ hmem)
    simp only [hnumber]

/-- The largest number that the host reads is below `2 ^ 53` just when all the numbers are. -/
theorem maxGroupNum_parseInt_lt {responseText : String} :
    (parseGroupsBy canonicalize parseInt boardWords responseText.toList).maxGroupNum < 2 ^ 53 ↔
      ∀ n ∈ headingNumbers responseText, n < 2 ^ 53 := by
  rw [maxGroupNum_parseGroupsBy_lt canonicalize boardWords parseInt (Nat.two_pow_pos 53)]
  unfold headingNumbers
  simp only [List.mem_filterMap, Option.map_eq_some_iff, Option.mem_def]
  constructor
  · rintro h n ⟨chunk, hchunk, digits, hdigits, rfl⟩
    exact DoubleNat.ofNat_lt_iff.mp (h chunk hchunk digits hdigits)
  · intro h chunk hchunk digits hdigits
    exact DoubleNat.ofNat_lt_iff.mpr (h _ ⟨chunk, hchunk, digits, hdigits, rfl⟩)

/-- What the parser returns under the host's numbers is what it returns under exact ones. -/
theorem parseAnswerWithin_eq_some {responseText : String} {fuel : ℕ} {answer : ParsedAnswer}
    (h : parseAnswerWithin canonicalize responseText boardWords fuel = some answer) :
    (∀ n ∈ headingNumbers responseText, n < 2 ^ 53) ∧
      answer = parseAnswer canonicalize responseText boardWords := by
  obtain ⟨textIssues, hrun, rfl⟩ := Option.map_eq_some_iff.mp h
  obtain ⟨hbound, hissues⟩ := DoubleNat.endsWith_upTo ⟨fuel, hrun⟩
  have hnumbers := maxGroupNum_parseInt_lt.mp hbound
  refine ⟨hnumbers, ?_⟩
  rw [foldl_visitGroup_range] at hissues
  rw [hissues, parseGroupsBy_parseInt hnumbers]
  rfl

variable (canonicalize boardWords) in
/-- Headings below `2 ^ 53` make it return. -/
theorem exists_parseAnswerWithin {responseText : String}
    (h : ∀ n ∈ headingNumbers responseText, n < 2 ^ 53) :
    ∃ fuel, parseAnswerWithin canonicalize responseText boardWords fuel =
      some (parseAnswer canonicalize responseText boardWords) := by
  obtain ⟨textIssues, fuel, hrun⟩ := (DoubleNat.ends_upTo_iff
    (parseGroupsBy canonicalize parseInt boardWords responseText.toList).visitGroup
    (parseGroupsBy canonicalize parseInt boardWords responseText.toList).issues).mpr
      (maxGroupNum_parseInt_lt.mpr h)
  have hsome : ∃ answer, parseAnswerWithin canonicalize responseText boardWords fuel =
      some answer := ⟨_, Option.map_eq_some_iff.mpr ⟨textIssues, hrun, rfl⟩⟩
  obtain ⟨answer, hanswer⟩ := hsome
  exact ⟨fuel, by rw [hanswer, (parseAnswerWithin_eq_some hanswer).2]⟩

/-- The parser returns just when the number of every heading in the parsed section is below
`2 ^ 53`. -/
theorem returns_iff (canonicalize : Char → Char) (responseText : String)
    (boardWords : List String) :
    Returns canonicalize responseText boardWords ↔
      ∀ n ∈ headingNumbers responseText, n < 2 ^ 53 := by
  constructor
  · rintro ⟨fuel, hsome⟩
    obtain ⟨answer, hanswer⟩ := Option.isSome_iff_exists.mp hsome
    exact (parseAnswerWithin_eq_some hanswer).1
  · intro h
    obtain ⟨fuel, hanswer⟩ := exists_parseAnswerWithin canonicalize boardWords h
    exact ⟨fuel, by rw [hanswer]; rfl⟩

end Numbers

/-- A reply whose only heading has the number at which the host's counter gets stuck. -/
def endlessReply : String := "Group 9007199254740992"

theorem headingNumbers_endlessReply : headingNumbers endlessReply = [2 ^ 53] := by
  decide +kernel

/-- The parser hangs on it. -/
theorem not_returns_endlessReply : ¬ Returns Char.toUpper endlessReply [] := by
  rintro ⟨fuel, hsome⟩
  obtain ⟨answer, hanswer⟩ := Option.isSome_iff_exists.mp hsome
  have hlt := (parseAnswerWithin_eq_some hanswer).1 (2 ^ 53)
    (headingNumbers_endlessReply ▸ List.mem_singleton_self _)
  exact absurd hlt (lt_irrefl _)

end Connections
