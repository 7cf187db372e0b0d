import Connections.Repair.ResumeCorruption

/-!
# Manual retries that lost the conversation

The audit finds a manual retry whose trigger row left no usable request behind; the repair rolls the
run back to the state before the trigger row's own call.
-/

namespace Connections

/-- One turn in a provider's layout. -/
def isTurn (contentKey assistantRole : String) (item : Json) : Bool :=
  let role := (item.field "role").bind Json.str?
  (role = some "user" || role = some assistantRole) &&
    match item.field contentKey with
    | some (.str _) => true
    | some (.arr parts) => parts.all fun part => ((part.field "text").bind Json.str?).isSome
    | _ => false

/-- A list of turns in a provider's layout, with at least one. -/
def isTurnsArray (value : Option Json) (contentKey assistantRole : String) : Bool :=
  match value.bind Json.arr? with
  | some items => !items.isEmpty && items.all (isTurn contentKey assistantRole)
  | none => false

/-- A request that a conversation can be rebuilt from. -/
def hasReconstructableHistory (requestBody : Option Json) : Bool :=
  isTurnsArray (requestBody.bind (·.field "messages")) "content" "assistant" ||
    isTurnsArray (requestBody.bind (·.field "input")) "content" "assistant" ||
    isTurnsArray (requestBody.bind (·.field "contents")) "parts" "model"

/-- The rows between which a conversation was lost. -/
structure ManualRetryHistoryLoss where
  triggerPromptNumber : ℕ
  retryPromptNumber : ℕ
  deriving DecidableEq, Repr

/-- The first manual retry, when the row before it left no usable request and an earlier call had
been answered. -/
def findManualRetryHistoryLoss (solvePrompts : List SolvePrompt) :
    Option ManualRetryHistoryLoss := do
  let ordered := solvePrompts.insertionSort fun a b => a.promptNumber ≤ b.promptNumber
  let firstRetry ← ordered.find? (·.manualRetry)
  let trigger ← ordered.find? (·.promptNumber + 1 = firstRetry.promptNumber)
  let hadRealHistoryToLose := ordered.any fun p =>
    p.promptNumber < trigger.promptNumber && p.status = .parsed
  if hadRealHistoryToLose ∧ ¬ hasReconstructableHistory trigger.requestBody then
    some ⟨trigger.promptNumber, firstRetry.promptNumber⟩
  else none

/-- What the repair of a run would take back. -/
structure ManualRetryHistoryRepair where
  cutoffPromptNumber : ℕ
  availableWordsBeforeCutoff : List String
  taintedGuessIds : List ℕ
  deriving DecidableEq, Repr

section Script

variable (proposals : List ProposalRow) (guessesById : ℕ → Option Guess)

/-- The guesses that the proposals of a prompt became. -/
def usedGuessIds (promptId : ℕ) : List ℕ :=
  (proposalsByPrompt proposals promptId).filterMap fun proposal =>
    if proposal.row.status = .used then proposal.guessId else none

/-- The guesses of a prompt, in their order. -/
def usedGuesses (promptId : ℕ) : List Guess :=
  ((usedGuessIds proposals promptId).filterMap guessesById).insertionSort
    fun a b => a.sequenceNumber ≤ b.sequenceNumber

/-- The words left by a guess. -/
def removeSolved (availableWords : List String) (guess : Guess) : List String :=
  if guess.result = .success then availableWords.filter (· ∉ guess.words) else availableWords

/-- Visit a prompt: from the trigger row on its guesses are taken back. -/
def visitForRepair (triggerPromptNumber : ℕ) (replay : List String × List ℕ)
    (prompt : WithId SolvePrompt) : List String × List ℕ :=
  if triggerPromptNumber ≤ prompt.row.promptNumber then
    (replay.1, replay.2 ++ usedGuessIds proposals prompt.id)
  else if prompt.row.status = .callError then replay
  else ((usedGuesses proposals guessesById prompt.id).foldl removeSolved replay.1, replay.2)

/-- The plan of a run's repair, if the audit flags it. -/
def planManualRetryHistoryRepair (originalWords : List String)
    (solvePrompts : List (WithId SolvePrompt)) : Option ManualRetryHistoryRepair :=
  (findManualRetryHistoryLoss (solvePrompts.map (·.row))).map fun loss =>
    let orderedPrompts := solvePrompts.insertionSort fun a b =>
      a.row.promptNumber ≤ b.row.promptNumber
    let (availableWords, taintedGuessIds) := orderedPrompts.foldl
      (visitForRepair proposals guessesById loss.triggerPromptNumber) (originalWords, [])
    ⟨loss.triggerPromptNumber, availableWords, taintedGuessIds⟩

end Script

end Connections
