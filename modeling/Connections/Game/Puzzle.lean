import Connections.Strategy.Entities
import Mathlib.Data.String.Basic

/-!
# Puzzles and the evaluation of guesses

The answer groups of a puzzle, the word order a run starts with, the one-off word fixups, and
the two comparisons of guessed words with answer groups.
-/

namespace Connections

/-- A card of a group. -/
structure GroupMember where
  word : String
  position : ℕ
  deriving DecidableEq, Repr

/-- An answer group. -/
structure AnswerGroup where
  members : List GroupMember
  deriving DecidableEq, Repr

/-- A puzzle with its answer groups. -/
structure Puzzle where
  id : ℕ
  date : String
  answerGroups : List AnswerGroup
  deriving DecidableEq, Repr

/-- The words of a group, in their canonical casing. -/
def AnswerGroup.words (group : AnswerGroup) : List String := group.members.map (·.word)

/-- The words of every group. -/
def Puzzle.groupWords (puzzle : Puzzle) : List (List String) := puzzle.answerGroups.map (·.words)

/-- The words of the whole board. -/
def Puzzle.boardWords (puzzle : Puzzle) : List String :=
  puzzle.answerGroups.flatMap (·.words)

theorem Puzzle.flatten_groupWords (puzzle : Puzzle) :
    puzzle.groupWords.flatten = puzzle.boardWords := by
  simp [groupWords, boardWords, List.flatMap]

/-- The two text functions of the host language whose tables are not spelled out here. -/
structure TextOps where
  toLowerCase : String → String
  localeCompare : String → String → ℤ

/-- The characters that `trim` removes. -/
def isWhitespace (c : Char) : Bool :=
  c.toNat ∈ [0x09, 0x0A, 0x0B, 0x0C, 0x0D, 0x20, 0xA0, 0x1680, 0x2028, 0x2029, 0x202F, 0x205F,
    0x3000, 0xFEFF] || (0x2000 ≤ c.toNat && c.toNat ≤ 0x200A)

/-- Remove the white space at both ends of a text. -/
def trim (s : String) : String :=
  String.ofList ((s.toList.dropWhile isWhitespace).reverse.dropWhile isWhitespace).reverse

/-- Lower-casing of the ASCII letters, which is what the host does on texts made of them. -/
def asciiLowerCase (s : String) : String := String.ofList (s.toList.map Char.toLower)

/-- The text functions on texts of ASCII characters. -/
def asciiText : TextOps where
  toLowerCase := asciiLowerCase
  localeCompare a b := if a < b then -1 else if a = b then 0 else 1

/-- Sorting by a linear order forgets the order of a list. -/
theorem insertionSort_eq_of_perm {α : Type*} {r : α → α → Prop} [DecidableRel r] [Std.Total r]
    [IsTrans α r] [Std.Antisymm r] {l m : List α} (h : l.Perm m) :
    l.insertionSort r = m.insertionSort r := by
  have hperm : (l.insertionSort r).Perm (m.insertionSort r) :=
    (List.perm_insertionSort r l).trans (h.trans (List.perm_insertionSort r m).symm)
  exact hperm.eq_of_pairwise' (List.pairwise_insertionSort r l) (List.pairwise_insertionSort r m)

section Comparison

variable (text : TextOps)

/-- Words are compared without their outer white space and their case. -/
def normalizeForComparison (word : String) : String := text.toLowerCase (trim word)

/-- The first answer group whose words are the guessed ones up to case; an exact match is not a
mismatch and is passed over. -/
def findCaseInsensitiveGroupMatch (guessWords : List String) (answerGroups : List (List String)) :
    Option (List String) :=
  let sortedLowerGuess := (guessWords.map (normalizeForComparison text)).insertionSort (· ≤ ·)
  let sortedTrimmedGuess := (guessWords.map trim).insertionSort (· ≤ ·)
  answerGroups.find? fun group =>
    group.length = guessWords.length &&
      sortedLowerGuess =
        (group.map (normalizeForComparison text)).insertionSort (· ≤ ·) &&
      sortedTrimmedGuess ≠ group.insertionSort (· ≤ ·)

/-- A match is one of the answer groups, of the size of the guess. -/
theorem findCaseInsensitiveGroupMatch_mem {guessWords group : List String}
    {answerGroups : List (List String)}
    (h : findCaseInsensitiveGroupMatch text guessWords answerGroups = some group) :
    group ∈ answerGroups ∧ group.length = guessWords.length := by
  refine ⟨List.mem_of_find?_eq_some h, ?_⟩
  have hfound := List.find?_some h
  simp only [Bool.and_eq_true, decide_eq_true_eq] at hfound
  exact hfound.1.1

/-- The groups are tried in order: a full hit ends the search, three hits are remembered. -/
def evaluateGroups (guessedSet : List String) (isOffByOne : Bool) :
    List AnswerGroup → GuessResult
  | [] => if isOffByOne then .offByOne else .failure
  | group :: groups =>
    let groupWords := group.words.map (normalizeForComparison text)
    let hits := (groupWords.filter (· ∈ guessedSet)).length
    if hits = 4 ∧ groupWords.length = 4 then .success
    else evaluateGroups guessedSet (isOffByOne || hits = 3) groups

/-- Evaluate a guess against a loaded puzzle. -/
def evaluateGuessOnPuzzle (puzzle : Puzzle) (words : List String) : GuessResult :=
  evaluateGroups text (words.map (normalizeForComparison text)) false puzzle.answerGroups

/-- A successful guess names every word of some group of four, up to white space and case. -/
theorem evaluateGuessOnPuzzle_success {puzzle : Puzzle} {words : List String}
    (h : evaluateGuessOnPuzzle text puzzle words = .success) :
    ∃ group ∈ puzzle.answerGroups, group.words.length = 4 ∧
      ∀ w ∈ group.words, normalizeForComparison text w ∈
        words.map (normalizeForComparison text) := by
  have search : ∀ (groups : List AnswerGroup) (seen : Bool),
      evaluateGroups text (words.map (normalizeForComparison text)) seen groups = .success →
      ∃ group ∈ groups, group.words.length = 4 ∧
        ∀ w ∈ group.words, normalizeForComparison text w ∈
          words.map (normalizeForComparison text) := by
    intro groups
    induction groups with
    | nil => intro seen h; cases seen <;> simp [evaluateGroups] at h
    | cons group groups ih =>
      intro seen h
      unfold evaluateGroups at h
      simp only [] at h
      split at h
      · rename_i hfull
        refine ⟨group, List.mem_cons_self, by simpa using hfull.2, fun w hw => ?_⟩
        have hlen := hfull.1.trans hfull.2.symm
        have hall := List.length_filter_eq_length_iff.mp hlen
        simpa using hall _ (List.mem_map_of_mem hw)
      · obtain ⟨g, hg, hrest⟩ := ih _ h
        exact ⟨g, List.mem_cons_of_mem _ hg, hrest⟩
  exact search _ _ h

/-- A guess with the words of a group of four succeeds. -/
theorem evaluateGuessOnPuzzle_of_covers {puzzle : Puzzle} {words : List String}
    {group : AnswerGroup} (hgroup : group ∈ puzzle.answerGroups) (hfour : group.words.length = 4)
    (hcovers : ∀ w ∈ group.words, w ∈ words) :
    evaluateGuessOnPuzzle text puzzle words = .success := by
  have search : ∀ (groups : List AnswerGroup) (seen : Bool), group ∈ groups →
      evaluateGroups text (words.map (normalizeForComparison text)) seen groups = .success := by
    intro groups
    induction groups with
    | nil => exact fun _ hmem => nomatch hmem
    | cons first rest ih =>
      intro seen hmem
      unfold evaluateGroups
      simp only
      split
      · rfl
      · rename_i hmiss
        rcases List.mem_cons.mp hmem with rfl | hmem
        · have hall : (group.words.map (normalizeForComparison text)).filter
              (· ∈ words.map (normalizeForComparison text)) =
                group.words.map (normalizeForComparison text) := by
            refine List.filter_eq_self.mpr fun v hv => ?_
            obtain ⟨w, hw, rfl⟩ := List.mem_map.mp hv
            exact decide_eq_true (List.mem_map_of_mem (hcovers w hw))
          exact absurd ⟨by rw [hall, List.length_map, hfour], by simpa using hfour⟩ hmiss
        · exact ih _ hmem
  exact search _ _ hgroup

/-- The word order a fresh run starts with, keyed by strategy. -/
def computeInitialWordOrder (puzzle : Puzzle) (strategyName : String) : List String :=
  if strategyName ∈ ["order", "shuffle-smart", "shuffle-foolish", "llm-openai", "llm-ollama"] then
    ((puzzle.answerGroups.flatMap (·.members)).insertionSort
      fun a b => a.position ≤ b.position).map (·.word)
  else if strategyName = "reverse-order" then
    ((puzzle.answerGroups.flatMap (·.members)).insertionSort
      fun a b => b.position ≤ a.position).map (·.word)
  else if strategyName = "reverse-alphabetical" then
    (puzzle.answerGroups.flatMap fun group => group.members.map (·.word)).insertionSort
      fun a b => text.localeCompare b a ≤ 0
  else
    (puzzle.answerGroups.flatMap fun group => group.members.map (·.word)).insertionSort
      fun a b => text.localeCompare a b ≤ 0

/-- Every starting order is a rearrangement of the board. -/
theorem computeInitialWordOrder_perm (puzzle : Puzzle) (strategyName : String) :
    (computeInitialWordOrder text puzzle strategyName).Perm puzzle.boardWords := by
  have hwords : (puzzle.answerGroups.flatMap (·.members)).map (·.word) = puzzle.boardWords := by
    simp [Puzzle.boardWords, AnswerGroup.words, List.map_flatMap]
  unfold computeInitialWordOrder
  split
  · rw [← hwords]
    exact (List.perm_insertionSort _ _).map _
  · split
    · rw [← hwords]
      exact (List.perm_insertionSort _ _).map _
    · split
      · exact List.perm_insertionSort _ _
      · exact List.perm_insertionSort _ _

end Comparison

/-- The only puzzle word that cannot survive the comma-joined prompt, rewritten.  The source looks a
word up in a plain object, so names that every object inherits ("constructor", "valueOf" and so on)
would not come back unchanged there; no puzzle has such a card. -/
def normalizePuzzleWord (word : String) : String := if word = "20,000" then "20000" else word

/-- A word normalized already comes back as it is. -/
theorem normalizePuzzleWord_idem (word : String) :
    normalizePuzzleWord (normalizePuzzleWord word) = normalizePuzzleWord word := by
  unfold normalizePuzzleWord
  split
  · decide
  · simp

/-- Without that word the fixups leave a list of words alone. -/
theorem map_normalizePuzzleWord_eq {words : List String} (h : "20,000" ∉ words) :
    words.map normalizePuzzleWord = words := by
  conv_rhs => rw [← List.map_id words]
  refine List.map_congr_left fun w hw => ?_
  rw [normalizePuzzleWord, if_neg (fun hsame : w = "20,000" => h (hsame ▸ hw)), id_eq]

/-- The loaded puzzle as a run sees it. -/
def Puzzle.fixups (puzzle : Puzzle) : Puzzle :=
  { puzzle with answerGroups := puzzle.answerGroups.map fun group =>
      { members := group.members.map fun m => { m with word := normalizePuzzleWord m.word } } }

/-- Rewrite the fixed-up words in a loaded run and its puzzle. -/
def applyOneOffWordFixups (run : StrategyRun) (puzzle : Puzzle) : StrategyRun × Puzzle :=
  ({ run with availableWords := run.availableWords.map normalizePuzzleWord }, puzzle.fixups)

theorem Puzzle.boardWords_fixups (puzzle : Puzzle) :
    puzzle.fixups.boardWords = puzzle.boardWords.map normalizePuzzleWord := by
  simp only [fixups, boardWords, AnswerGroup.words, List.flatMap_map, List.map_flatMap,
    List.map_map]
  rfl

end Connections
