import Connections.Game.Puzzle
import Connections.Library.TextScan
import Mathlib.Data.List.Sort

/-!
# The grammar of a model's answer

A reply holds a section of group headings with their category and words, and a block that restates
the answer with one group per line.  The section gives the proposals and the categories, the block
gives the groups, and each of the two stands in for the other when it yields nothing.
-/

namespace Connections

open TextScan

/-- The number of words of a group. -/
def GROUP_SIZE : ℕ := 4

/-- The shapes of a reply that the parser names. -/
inductive AnswerTextIssue
  | parentheticalStripped
  | groupCountOff
  | unclassified
  | multipleProposals
  deriving DecidableEq, Repr

/-- What a reply says.  `proposalWords` is indexed by group number less one and may have holes. -/
structure ParsedAnswer where
  groups : List (List String)
  proposalWords : List (Option (List String))
  categoryByGroup : List (ℕ × String)
  textIssues : List AnswerTextIssue
  deriving DecidableEq, Repr

section Patterns

/-- What is left behind a fixed text, compared character by character after folding. -/
def matchFolded (fold : Char → Char) : List Char → List Char → Option (List Char)
  | [], s => some s
  | _ :: _, [] => none
  | p :: pattern, c :: s => if fold p = fold c then matchFolded fold pattern s else none

/-- What is left behind a fixed ASCII text in either case. -/
def matchText (pattern : String) (s : List Char) : Option (List Char) :=
  matchFolded Char.toUpper pattern.toList s

/-- A match takes as many characters as the pattern has. -/
theorem matchFolded_length {fold : Char → Char} {pattern s rest : List Char}
    (h : matchFolded fold pattern s = some rest) : s.length = pattern.length + rest.length := by
  induction pattern generalizing s with
  | nil => simpa [matchFolded] using congrArg List.length (Option.some.inj h)
  | cons p pattern ih =>
    cases s with
    | nil => simp [matchFolded] at h
    | cons c s =>
      rw [matchFolded] at h
      split at h
      · have hs := ih h
        simp only [List.length_cons]
        omega
      · simp at h

/-- What is left behind a match is an ending of the text. -/
theorem matchFolded_suffix {fold : Char → Char} {pattern s rest : List Char}
    (h : matchFolded fold pattern s = some rest) : rest <:+ s := by
  induction pattern generalizing s with
  | nil =>
    obtain rfl : s = rest := Option.some.inj h
    exact List.suffix_rfl
  | cons p pattern ih =>
    cases s with
    | nil => simp [matchFolded] at h
    | cons c s =>
      rw [matchFolded] at h
      split at h
      · exact (ih h).trans (List.suffix_cons c s)
      · simp at h

/-- A match does not reach across a character that is foreign to the pattern. -/
theorem matchFolded_append {fold : Char → Char} {pattern : List Char} {c : Char}
    (hc : ∀ p ∈ pattern, fold p ≠ fold c) (s t : List Char) :
    matchFolded fold pattern (s ++ c :: t) =
      (matchFolded fold pattern s).map (· ++ c :: t) := by
  induction pattern generalizing s with
  | nil => simp [matchFolded]
  | cons p pattern ih =>
    cases s with
    | nil =>
      simp only [List.nil_append, matchFolded, if_neg (hc p List.mem_cons_self), Option.map_none]
    | cons d s =>
      rw [List.cons_append, matchFolded, matchFolded]
      split
      · exact ih (fun q hq => hc q (List.mem_cons_of_mem p hq)) s
      · rfl

/-- A text that lacks a character of the pattern has no match. -/
theorem matchFolded_eq_none {fold : Char → Char} {pattern s : List Char} {p : Char}
    (hp : p ∈ pattern) (hs : ∀ c ∈ s, fold p ≠ fold c) : matchFolded fold pattern s = none := by
  induction pattern generalizing s with
  | nil => simp at hp
  | cons q pattern ih =>
    cases s with
    | nil => rfl
    | cons c s =>
      rw [matchFolded]
      split
      · rename_i hq
        rcases List.mem_cons.mp hp with rfl | hp
        · exact absurd hq (hs c List.mem_cons_self)
        · exact ih hp fun d hd => hs d (List.mem_cons_of_mem c hd)
      · rfl

/-- A match ends before a character that the pattern lacks. -/
theorem matchText_append {pattern : String} {c : Char}
    (hc : c.toUpper ∉ pattern.toList.map Char.toUpper) (s t : List Char) :
    matchText pattern (s ++ c :: t) = (matchText pattern s).map (· ++ c :: t) := by
  have hforeign : ∀ p ∈ pattern.toList, p.toUpper ≠ c.toUpper := fun p hp h =>
    hc (h ▸ List.mem_map_of_mem hp)
  exact matchFolded_append hforeign s t

/-- A pattern matches itself. -/
theorem matchFolded_self (fold : Char → Char) (pattern s : List Char) :
    matchFolded fold pattern (pattern ++ s) = some s := by
  induction pattern with
  | nil => rfl
  | cons p pattern ih => rw [List.cons_append, matchFolded, if_pos rfl, ih]

/-- A text that starts with another character has no match. -/
theorem matchText_cons {pattern : String} {p c : Char} {ps : List Char}
    (hp : pattern.toList = p :: ps) (hc : p.toUpper ≠ c.toUpper) (s : List Char) :
    matchText pattern (c :: s) = none := by
  rw [matchText, hp, matchFolded, if_neg hc]

/-- Take a character that may be there. -/
def matchOptional (c : Char) : List Char → List Char
  | [] => []
  | d :: s => if d = c then s else d :: s

/-- An optional character is looked for at the start only. -/
theorem matchOptional_append {c d : Char} (h : d ≠ c) (s t : List Char) :
    matchOptional c (s ++ d :: t) = matchOptional c s ++ d :: t := by
  cases s with
  | nil => simp [matchOptional, h]
  | cons e s =>
    rw [List.cons_append, matchOptional, matchOptional]
    split
    · rfl
    · rfl

/-- Skipping a character does not make the text longer. -/
theorem length_matchOptional_le (c : Char) (s : List Char) :
    (matchOptional c s).length ≤ s.length := by
  cases s with
  | nil => rfl
  | cons d s =>
    rw [matchOptional]
    split
    · simp
    · rfl

/-- The marker of an answer block, two or three number signs and the word, with or without a
colon.  A third number sign is always taken: nothing else of the pattern could match it. -/
def answerMarker (s : List Char) : Option (Unit × List Char) := do
  let signs ← matchText "##" s
  let rest ← matchText "ANSWER" ((matchOptional '#' signs).dropWhile isWhitespace)
  return ((), matchOptional ':' rest)

/-- The marker, part by part. -/
theorem answerMarker_eq (s : List Char) :
    answerMarker s = (matchText "##" s).bind fun signs =>
      (matchText "ANSWER" ((matchOptional '#' signs).dropWhile isWhitespace)).map fun rest =>
        ((), matchOptional ':' rest) := by
  cases h : matchText "##" s with
  | none => simp [answerMarker, h]
  | some signs =>
    cases h' : matchText "ANSWER" ((matchOptional '#' signs).dropWhile isWhitespace) <;>
      simp [answerMarker, h, h']

/-- The number of a group heading, as its digits. -/
def groupHeading (s : List Char) : Option (List Char) := do
  let rest ← matchText "Group" s
  let digits := (rest.dropWhile isWhitespace).takeWhile Char.isDigit
  if rest.head?.any isWhitespace ∧ digits ≠ [] then some digits else none

/-- The line behind white space.  White space is given back when nothing else follows: then the
line is the last character that does not break lines. -/
def lineAfterSpace (s : List Char) : Option (List Char) :=
  match s.dropWhile isWhitespace with
  | [] => (s.reverse.find? (· ≠ '\n')).map fun c => [c]
  | c :: rest => some ((c :: rest).takeWhile (· ≠ '\n'))

/-- The rest of the line behind a field name. -/
def fieldLine (name : String) (s : List Char) : Option (List Char) :=
  (matchText name s).bind lineAfterSpace

/-- An aside in parentheses. -/
def parenthetical : List Char → Option (List Char × List Char)
  | [] => none
  | c :: s => if c = '(' ∧ ')' ∈ s then some ([], (s.dropWhile (· ≠ ')')).tail) else none

/-- A line break. -/
def lineBreak : List Char → Option (Unit × List Char)
  | '\n' :: s => some ((), s)
  | '\r' :: '\n' :: s => some ((), s)
  | _ => none

/-- The text between the heading of the groups and the first answer heading behind it.  A later
heading of the groups is never needed: what follows it also follows the first one. -/
def groupsSection (s : List Char) : Option (List Char) :=
  (firstMatch (matchText "### GROUPS") s).bind (before (matchText "### ANSWER"))

/-- Remove the white space at both ends. -/
def trimChars (s : List Char) : List Char :=
  ((s.dropWhile isWhitespace).reverse.dropWhile isWhitespace).reverse

/-- Trimming a text is trimming its characters. -/
theorem trim_ofList (s : List Char) : trim (String.ofList s) = String.ofList (trimChars s) := by
  simp [trim, trimChars]

end Patterns

section BoardWords

/-- The characters that a cleanup removes. -/
def isStrippable (c : Char) : Bool := c ∈ ['(', ')', '\x60', '*', '#', '-']

/-- The characters beside which an item starts and ends. -/
def isItemBoundary (c : Char) : Bool := isWhitespace c || c ∈ [',', '*', '\x60']

/-- The length of a text in the host's code units. -/
def utf16Length (s : List Char) : ℕ := s.length + s.countP fun c => 0x10000 ≤ c.toNat

/-- The text that stands for the board word found as number `n`. -/
def placeholder (n : ℕ) : List Char := '\uE000' :: (toString n).toList ++ ['\uE001']

/-- A placeholder, with the text it stands for. -/
def placeholderAt (originals : List (List Char)) : List Char → Option (List Char × List Char)
  | [] => none
  | c :: s =>
    let digits := s.takeWhile Char.isDigit
    match s.dropWhile Char.isDigit with
    | [] => none
    | d :: rest =>
      if c = '\uE000' ∧ digits ≠ [] ∧ d = '\uE001' then
        some (originals.getD (Nat.ofDigitChars 10 digits 0) "undefined".toList, rest)
      else none

variable (canonicalize : Char → Char)

/-- A board word, up to case, that ends at the boundary of an item. -/
def occursAt (s word : List Char) : Bool :=
  (matchFolded canonicalize word s).any fun rest => rest.head?.all isItemBoundary

/-- Replace the board words of a line by placeholders, from left to right, and collect the replaced
texts.  A word must start at the boundary of an item; `skip` counts what is left of the last word
found. -/
def maskFrom (words : List (List Char)) :
    Option Char → ℕ → ℕ → List Char → List Char × List (List Char)
  | _, _, _, [] => ([], [])
  | _, skip + 1, count, c :: s => maskFrom words (some c) skip count s
  | prev, 0, count, c :: s =>
    match if prev.all isItemBoundary then words.find? (occursAt canonicalize (c :: s))
      else none with
    | some word =>
      let (masked, originals) := maskFrom words (some c) (word.length - 1) (count + 1) s
      (placeholder count ++ masked, (c :: s).take word.length :: originals)
    | none =>
      let (masked, originals) := maskFrom words (some c) 0 count s
      (c :: masked, originals)

/-- A line with the board words that the cleanup would damage masked, and the way back for a piece
of it.  Longer words are tried first. -/
def protectBoardWords (line : List Char) (boardWords : List String) :
    List Char × (List Char → List Char) :=
  let protectedWords := ((boardWords.map String.toList).filter (·.any isStrippable)).insertionSort
    fun a b => utf16Length b ≤ utf16Length a
  if protectedWords.isEmpty then (line, id)
  else
    let (masked, originals) := maskFrom canonicalize protectedWords none 0 0 line
    (masked, replaceAll (placeholderAt originals))

end BoardWords

/-- The items of a comma-separated line, cleaned up, restored and without empty ones. -/
def splitItems (stripped : List Char) (restore : List Char → List Char) (line : List Char) :
    List String :=
  (((line.splitOn ',').map fun w => restore (trimChars (w.filter (· ∉ stripped)))).filter
    (· ≠ [])).map String.ofList

section Parser

variable (canonicalize : Char → Char)

/-- The items of a line of the answer block. -/
def answerLineWords (boardWords : List String) (line : List Char) : List String :=
  let (masked, restore) := protectBoardWords canonicalize line boardWords
  splitItems ['\x60', '*', '#', '-'] restore masked

/-- The lines of a block, trimmed and without empty ones. -/
def answerBlockLines (answerBlock : List Char) : List (List Char) :=
  ((splitAll lineBreak (trimChars answerBlock)).map trimChars).filter (· ≠ [])

/-- One word list per line of the first answer block that has the size of a group. -/
def parseAnswerBlock (responseText : List Char) (boardWords : List String) :
    List (List String) :=
  match splitAll answerMarker responseText with
  | _ :: answerBlock :: _ =>
    ((answerBlockLines answerBlock).map (answerLineWords canonicalize boardWords)).filter
      (·.length = GROUP_SIZE)
  | _ => []

/-- The digits of a heading as an exact number. -/
def exactInt (digits : List Char) : ℕ := Nat.ofDigitChars 10 digits 0

/-- What the headings of a section have given so far.  Words under a group number that is no
position of an array are kept aside. -/
structure GroupsParse where
  categoryByGroup : List (ℕ × String)
  parsedGroupWords : List (Option (List String))
  otherGroupNumbers : List ℕ
  issues : List AnswerTextIssue
  wrongCountGroupNumbers : List ℕ
  maxGroupNum : ℕ
  deriving DecidableEq, Repr

/-- Add an issue once. -/
def addIssue (issues : List AnswerTextIssue) (issue : AnswerTextIssue) : List AnswerTextIssue :=
  if issue ∈ issues then issues else issues ++ [issue]

/-- Set the category of a group number, in place when it has one. -/
def setCategory (categoryMap : List (ℕ × String)) (groupNum : ℕ) (category : String) :
    List (ℕ × String) :=
  if categoryMap.any (·.1 = groupNum) then
    categoryMap.map fun entry => if entry.1 = groupNum then (groupNum, category) else entry
  else categoryMap ++ [(groupNum, category)]

/-- Set an entry of a list, with holes before it where the list is too short. -/
def setAt {α : Type} (xs : List (Option α)) (i : ℕ) (x : α) : List (Option α) :=
  (xs ++ List.replicate (i + 1 - xs.length) none).set i (some x)

namespace GroupsParse

/-- Nothing parsed, with the issues found before the headings. -/
def start (issues : List AnswerTextIssue) : GroupsParse :=
  { categoryByGroup := []
    parsedGroupWords := []
    otherGroupNumbers := []
    issues := issues
    wrongCountGroupNumbers := []
    maxGroupNum := 0 }

/-- Note the issue of a reply. -/
def addIssue (parse : GroupsParse) (issue : AnswerTextIssue) : GroupsParse :=
  { parse with issues := Connections.addIssue parse.issues issue }

/-- Note the category of a group. -/
def setCategory (parse : GroupsParse) (groupNum : ℕ) (category : String) : GroupsParse :=
  { parse with categoryByGroup := Connections.setCategory parse.categoryByGroup groupNum category }

/-- Note the words of a group; the positions of an array are below `2 ^ 32 - 1`. -/
def setWords (parse : GroupsParse) (groupNum : ℕ) (words : List String) : GroupsParse :=
  if 1 ≤ groupNum ∧ groupNum < 2 ^ 32 then
    { parse with parsedGroupWords := setAt parse.parsedGroupWords (groupNum - 1) words }
  else { parse with otherGroupNumbers := groupNum :: parse.otherGroupNumbers }

/-- Read the words of a group from its line. -/
def readWords (boardWords : List String) (parse : GroupsParse) (groupNum : ℕ)
    (line : List Char) : GroupsParse :=
  let (rawWordsLine, restore) := protectBoardWords canonicalize line boardWords
  let strippedWordsLine := replaceAll parenthetical rawWordsLine
  let noted := if strippedWordsLine ≠ rawWordsLine then parse.addIssue .parentheticalStripped
    else parse
  let wordsLine := splitItems ['\x60', '*'] restore strippedWordsLine
  if wordsLine.length = GROUP_SIZE then noted.setWords groupNum wordsLine
  else
    { noted.addIssue .groupCountOff with
      wrongCountGroupNumbers := groupNum :: noted.wrongCountGroupNumbers }

/-- Read one chunk of the section, its number as `number` reads digits; a chunk without a heading
is passed over. -/
def readChunkBy (boardWords : List String) (number : List Char → ℕ) (parse : GroupsParse)
    (chunk : List Char) : GroupsParse :=
  match firstMatch groupHeading chunk with
  | none => parse
  | some digits =>
    let groupNum := number digits
    let headed := { parse with maxGroupNum := max parse.maxGroupNum groupNum }
    let labelled := match firstMatch (fieldLine "Category:") chunk with
      | some line => headed.setCategory groupNum (String.ofList (trimChars line))
      | none => headed
    match firstMatch (fieldLine "Words:") chunk with
    | some line => readWords canonicalize boardWords labelled groupNum line
    | none => labelled

/-- Read one chunk with the exact number of its heading. -/
def readChunk (boardWords : List String) (parse : GroupsParse) (chunk : List Char) :
    GroupsParse :=
  parse.readChunkBy canonicalize boardWords exactInt chunk

/-- The parse without the issues named so far. -/
def forget (parse : GroupsParse) : GroupsParse := { parse with issues := [] }

/-- The issues named so far do not decide which words are set. -/
theorem forget_setWords (parse : GroupsParse) (groupNum : ℕ) (words : List String) :
    (parse.setWords groupNum words).forget = parse.forget.setWords groupNum words := by
  unfold setWords
  split <;> rfl

/-- They do not decide which words are read either. -/
theorem forget_readWords (boardWords : List String) (parse : GroupsParse) (groupNum : ℕ)
    (line : List Char) :
    (readWords canonicalize boardWords parse groupNum line).forget =
      (readWords canonicalize boardWords parse.forget groupNum line).forget := by
  have hnoted : ∀ (p : GroupsParse) (stripped : Prop) [Decidable stripped],
      (if stripped then p.addIssue .parentheticalStripped else p).forget = p.forget := by
    intro p stripped _
    split <;> rfl
  unfold readWords
  simp only []
  split
  · rw [forget_setWords, forget_setWords, hnoted, hnoted]
    rfl
  · split <;> rfl

/-- The issues named so far have no influence on what the next chunk gives. -/
theorem forget_readChunk (boardWords : List String) (parse : GroupsParse) (chunk : List Char) :
    (readChunk canonicalize boardWords parse chunk).forget =
      (readChunk canonicalize boardWords parse.forget chunk).forget := by
  unfold readChunk readChunkBy
  cases firstMatch groupHeading chunk with
  | none => rfl
  | some digits =>
    cases firstMatch (fieldLine "Words:") chunk with
    | none => cases firstMatch (fieldLine "Category:") chunk <;> rfl
    | some line =>
      rw [forget_readWords]
      conv_rhs => rw [forget_readWords]
      cases firstMatch (fieldLine "Category:") chunk <;> rfl

/-- The chunks of a section give the same whatever was named before them. -/
theorem forget_foldl_readChunk (boardWords : List String) (chunks : List (List Char))
    {p q : GroupsParse} (h : p.forget = q.forget) :
    (chunks.foldl (readChunk canonicalize boardWords) p).forget =
      (chunks.foldl (readChunk canonicalize boardWords) q).forget := by
  induction chunks generalizing p q with
  | nil => exact h
  | cons chunk chunks ih =>
    apply ih
    rw [forget_readChunk, h, ← forget_readChunk]

/-- Whether a group number has words. -/
def hasWords (parse : GroupsParse) (groupNum : ℕ) : Bool :=
  (parse.parsedGroupWords[groupNum - 1]?.join).isSome || groupNum ∈ parse.otherGroupNumbers

/-- Name the failure of a group that a heading mentioned, or skipped, and nothing explains. -/
def classified (parse : GroupsParse) : GroupsParse :=
  if (List.range' 1 parse.maxGroupNum).any fun groupNum =>
      !parse.hasWords groupNum && groupNum ∉ parse.wrongCountGroupNumbers then
    parse.addIssue .unclassified
  else parse

end GroupsParse

/-- The chunks of a reply, of its section of groups or else of all of it. -/
def groupChunks (responseText : List Char) : List (List Char) :=
  splitBefore groupHeading ((groupsSection responseText).getD responseText)

/-- The headings of a reply, their numbers as `number` reads digits. -/
def parseGroupsBy (number : List Char → ℕ) (boardWords : List String)
    (responseText : List Char) : GroupsParse :=
  let issues := if 2 < (splitAll answerMarker responseText).length then
    [AnswerTextIssue.multipleProposals] else []
  (groupChunks responseText).foldl (GroupsParse.readChunkBy canonicalize boardWords number)
    (.start issues)

/-- The headings of a reply with their exact numbers. -/
def parseGroups (boardWords : List String) (responseText : List Char) : GroupsParse :=
  parseGroupsBy canonicalize exactInt boardWords responseText

/-- The grammar of a reply.  `proposalWords` comes from the headings and `groups` from the answer
block, each with the other as its fallback. -/
def parseAnswer (responseText : String) (boardWords : List String) : ParsedAnswer :=
  let answerBlockGroups := parseAnswerBlock canonicalize responseText.toList boardWords
  let parse := parseGroups canonicalize boardWords responseText.toList
  let sourceGroups := if 0 < parse.parsedGroupWords.length then parse.parsedGroupWords
    else answerBlockGroups.map some
  { groups := if 0 < answerBlockGroups.length then answerBlockGroups
      else parse.parsedGroupWords.filterMap id
    proposalWords := sourceGroups.map (·.map (·.map trim))
    categoryByGroup := parse.categoryByGroup
    textIssues := parse.classified.issues }

end Parser

end Connections
