import Mathlib.Data.List.Basic

/-!
# The game of the frontend

The state of a game in the browser and its reducer.  A group is solved on two paths: a submitted
guess waits for its animation and is confirmed by a later action, and a reply of the AI assist is
submitted group by group at once, whenever it arrives.
-/

namespace Connections

/-- The difficulty of a category. -/
inductive Difficulty
  | yellow
  | green
  | blue
  | purple
  deriving DecidableEq, Repr

/-- A category of the puzzle. -/
structure Category where
  id : String
  name : String
  difficulty : Difficulty
  words : List String
  deriving DecidableEq, Repr

/-- The result of a guess, as it is told to the orchestrator. -/
inductive PriorGuessResult
  | correct
  | incorrect
  | oneAway
  deriving DecidableEq, Repr

/-- A submitted guess with its result. -/
structure GamePriorGuess where
  words : List String
  result : PriorGuessResult
  deriving DecidableEq, Repr

/-- What the board says about the last wrong guess. -/
inductive Feedback
  | oneAway
  | incorrect
  deriving DecidableEq, Repr

/-- Whether the game goes on. -/
inductive GameStatus
  | playing
  | won
  | lost
  deriving DecidableEq, Repr

/-- A turn of the AI assist conversation. -/
structure AiChatMessage where
  role : String
  content : String
  deriving DecidableEq, Repr

/-- The last group of the AI that was wrong. -/
structure AiLastFailedGuess where
  items : List String
  result : PriorGuessResult
  deriving DecidableEq, Repr

/-- The AI assist session. -/
structure AiSessionState where
  history : List AiChatMessage
  lastFailedGuess : Option AiLastFailedGuess
  deriving DecidableEq, Repr

/-- A reply of the AI assist. -/
structure AiAssistData where
  response : String
  groups : List (List String)
  prompt : String
  model : Option String
  deriving DecidableEq, Repr

/-- The state of a game. -/
structure GameState where
  categories : List Category
  remainingWords : List String
  selected : List String
  solved : List Category
  mistakes : ℕ
  status : GameStatus
  feedback : Option Feedback
  shakeWords : List String
  /-- The category of a correct guess that is still to be confirmed. -/
  pendingSolve : Option Category
  guessHistory : List (List Difficulty)
  priorGuesses : List GamePriorGuess
  loading : Bool
  error : Option String
  aiSolution : Option AiAssistData
  aiSession : AiSessionState
  deriving DecidableEq, Repr

/-- The actions of the reducer. -/
inductive GameAction
  | toggleWord (word : String)
  | submitGuess
  | deselectAll
  | clearFeedback
  | aiSolveStart
  | aiSolveSuccess (payload : AiAssistData) (history : List AiChatMessage)
  | aiSolveFailure (payload : String)
  | shuffle (words : List String)
  | confirmSolve
  deriving DecidableEq, Repr

/-- A guess has four words. -/
def maxSelected : ℕ := 4

/-- The fourth mistake loses the game. -/
def maxMistakes : ℕ := 4

/-- A new game. -/
def initGameState (categories : List Category) (remainingWords : List String) : GameState where
  categories := categories
  remainingWords := remainingWords
  selected := []
  solved := []
  mistakes := 0
  status := .playing
  feedback := none
  shakeWords := []
  pendingSolve := none
  guessHistory := []
  priorGuesses := []
  loading := false
  error := none
  aiSolution := none
  aiSession := ⟨[], none⟩

/-- The first category that a selection matches in full. -/
def findMatchingCategory (categories : List Category) (selected : List String) :
    Option Category :=
  categories.find? fun cat =>
    cat.words.length = selected.length && cat.words.all (· ∈ selected)

/-- The most words that a selection shares with one category. -/
def largestCategoryOverlap (categories : List Category) (selected : List String) : ℕ :=
  categories.foldl (fun most cat => max most (cat.words.filter (· ∈ selected)).length) 0

/-- What becomes of a proposed group. -/
inductive GuessOutcome
  | correct (category : Category)
  | wrong (result : PriorGuessResult)
  deriving DecidableEq, Repr

/-- The validation that the player's guesses and the AI's share. -/
def evaluateGuess (categories : List Category) (words : List String) : GuessOutcome :=
  match findMatchingCategory categories words with
  | some category => .correct category
  | none =>
    .wrong (if largestCategoryOverlap categories words = 3 then .oneAway else .incorrect)

/-- The difficulty of the category of each selected word. -/
def difficultiesForGuess (categories : List Category) (selected : List String) :
    List Difficulty :=
  selected.map fun word =>
    ((categories.find? fun cat => word ∈ cat.words).map (·.difficulty)).getD .yellow

/-- The status after a mistake. -/
def statusAfterMistake (mistakes : ℕ) : GameStatus :=
  if maxMistakes ≤ mistakes then .lost else .playing

/-- The feedback on a wrong guess. -/
def feedbackOn (result : PriorGuessResult) : Feedback :=
  if result = .oneAway then .oneAway else .incorrect

/-- What the submission of an AI reply reads and updates, group by group. -/
structure AiTurn where
  solved : List Category
  remainingWords : List String
  mistakes : ℕ
  guessHistory : List (List Difficulty)
  priorGuesses : List GamePriorGuess
  lastFailedGuess : Option AiLastFailedGuess
  status : GameStatus
  feedback : Option Feedback
  shakeWords : List String
  deriving DecidableEq, Repr

/-- A correct group of the AI, which is locked in unless it was solved before. -/
def AiTurn.lockIn (categories : List Category) (turn : AiTurn) (items : List String)
    (category : Category) : AiTurn :=
  let known := turn.solved.any (·.id = category.id)
  let remainingWords :=
    if known then turn.remainingWords else turn.remainingWords.filter (· ∉ category.words)
  { turn with
    solved := if known then turn.solved else turn.solved ++ [category]
    remainingWords := remainingWords
    lastFailedGuess := none
    guessHistory := turn.guessHistory ++ [difficultiesForGuess categories items]
    priorGuesses := turn.priorGuesses ++ [⟨items, .correct⟩]
    status := if remainingWords.length = 0 then .won else turn.status }

/-- A wrong group of the AI. -/
def AiTurn.miss (categories : List Category) (turn : AiTurn) (items : List String)
    (result : PriorGuessResult) : AiTurn :=
  { turn with
    mistakes := turn.mistakes + 1
    lastFailedGuess := some ⟨items, result⟩
    status := statusAfterMistake (turn.mistakes + 1)
    feedback := some (feedbackOn result)
    shakeWords := items
    guessHistory := turn.guessHistory ++ [difficultiesForGuess categories items]
    priorGuesses := turn.priorGuesses ++ [⟨items, result⟩] }

/-- Submit the groups of an AI reply in order, up to the first wrong one or the end of the
game. -/
def submitGroups (categories : List Category) : AiTurn → List (List String) → AiTurn
  | turn, [] => turn
  | turn, items :: rest =>
    if turn.status ≠ .playing then turn
    else match evaluateGuess categories items with
      | .correct category => submitGroups categories (turn.lockIn categories items category) rest
      | .wrong result => turn.miss categories items result

/-- The turn with which an AI reply begins. -/
def GameState.aiTurn (state : GameState) : AiTurn where
  solved := state.solved
  remainingWords := state.remainingWords
  mistakes := state.mistakes
  guessHistory := state.guessHistory
  priorGuesses := state.priorGuesses
  lastFailedGuess := none
  status := state.status
  feedback := none
  shakeWords := []

/-- The reducer. -/
def gameReducer (state : GameState) : GameAction → GameState
  | .toggleWord word =>
    if state.status ≠ .playing then state
    else if word ∈ state.selected then
      { state with selected := state.selected.filter (· ≠ word) }
    else if maxSelected ≤ state.selected.length then state
    else { state with selected := state.selected ++ [word] }
  | .submitGuess =>
    if state.status ≠ .playing ∨ state.selected.length ≠ maxSelected ∨
        state.pendingSolve ≠ none then state
    else match evaluateGuess state.categories state.selected with
      | .correct category =>
        { state with
          pendingSolve := some category
          feedback := none
          shakeWords := []
          guessHistory := state.guessHistory ++
            [difficultiesForGuess state.categories state.selected]
          priorGuesses := state.priorGuesses ++ [⟨state.selected, .correct⟩] }
      | .wrong result =>
        { state with
          mistakes := state.mistakes + 1
          shakeWords := state.selected
          selected := []
          status := statusAfterMistake (state.mistakes + 1)
          feedback := some (feedbackOn result)
          guessHistory := state.guessHistory ++
            [difficultiesForGuess state.categories state.selected]
          priorGuesses := state.priorGuesses ++ [⟨state.selected, result⟩] }
  | .aiSolveStart => { state with loading := true, error := none }
  | .aiSolveSuccess payload history =>
    let turn := submitGroups state.categories state.aiTurn payload.groups
    let puzzleSolved := turn.status = .won ∨ turn.remainingWords.length = 0
    { state with
      loading := false
      aiSolution := some payload
      error := none
      solved := turn.solved
      remainingWords := turn.remainingWords
      mistakes := turn.mistakes
      status := turn.status
      feedback := turn.feedback
      shakeWords := turn.shakeWords
      guessHistory := turn.guessHistory
      priorGuesses := turn.priorGuesses
      aiSession := if puzzleSolved then ⟨[], none⟩ else ⟨history, turn.lastFailedGuess⟩ }
  | .aiSolveFailure payload =>
    { state with loading := false, aiSolution := none, error := some payload }
  | .deselectAll => { state with selected := [] }
  | .clearFeedback => { state with feedback := none, shakeWords := [] }
  | .confirmSolve =>
    match state.pendingSolve with
    | none => state
    | some category =>
      let solved := state.solved ++ [category]
      { state with
        solved := solved
        remainingWords := state.remainingWords.filter (· ∉ category.words)
        selected := []
        pendingSolve := none
        status := if solved.length = state.categories.length then .won else .playing }
  | .shuffle words => { state with remainingWords := words }

end Connections
