import Connections.Game.Puzzle
import Connections.Strategy.Conversation

/-!
# The run loop of an LLM strategy

The loop state, the evaluation of a reply's proposals, the classification of a failed call, one
iteration of the loop, and the state rebuilt from stored guesses when a run is picked up again.
-/

namespace Connections

/-- A guess as the loop remembers it. -/
structure PriorGuess where
  words : List String
  result : GuessResult
  deriving DecidableEq, Repr

/-- The state threaded through one execution of a run. -/
structure LlmRunLoopState where
  guessCount : ℕ
  duplicateCount : ℕ
  failedGuessCount : ℕ
  malformedCount : ℕ
  consecutiveModelErrors : ℕ
  rateLimitWaitMs : Option ℕ
  rateLimitStreak : ℕ
  rateLimitStreakStartedAt : Option ℕ
  lockedInGroups : List (List String)
  lastFailedGuess : Option FailedGuess
  priorGuesses : List PriorGuess
  deriving DecidableEq, Repr

/-- The limits that end a run, and the knobs of the waits and parks. -/
structure RunLimits where
  maxDuplicates : ℕ
  maxFailedGuesses : ℕ
  maxMalformed : ℕ
  llmMaxModelErrors : ℕ
  rateLimitFallbackSeconds : ℕ
  dailyHoldFallbackSeconds : ℕ
  rpmCooldownSeconds : ℕ
  persistentAttempts : ℕ
  persistentElapsedMs : ℕ
  deriving DecidableEq, Repr

/-- Tokens of a call. -/
structure SolveUsage where
  promptTokens : ℕ
  completionTokens : ℕ
  totalTokens : ℕ
  reasoningTokens : Option ℕ
  deriving DecidableEq, Repr

/-- The error codes of a failed call. -/
inductive SolveErrorCode
  | duplicateGroup
  | invalidGroup
  | modelError
  | rateLimited
  | rateLimitedDaily
  deriving DecidableEq, Repr

/-- A reply of the orchestrator.  A group that failed to parse leaves a hole in
`proposalWords`. -/
structure SolveStepSuccess where
  response : String
  groups : List (List String)
  proposalWords : List (Option (List String))
  categoryByGroup : List (ℕ × String)
  textIssues : List String
  model : String
  contextWindow : Option ℕ
  latencyMs : ℕ
  usage : Option SolveUsage
  requestBody : Option Json

/-- A failed call. -/
structure SolveStepFailure where
  error : String
  code : SolveErrorCode
  requestBody : Option Json
  statusCode : Option ℕ
  errorName : Option String
  isRetryable : Option Bool
  retryAfterSeconds : Option ℕ
  dailyResetSeconds : Option ℕ
  usage : Option SolveUsage

/-- How a call ended. -/
inductive SolveStepOutcome
  | ok (data : SolveStepSuccess)
  | error (failure : SolveStepFailure)

/-- The tokens a call reported, if it reported any. -/
def SolveStepOutcome.reportedTotal : SolveStepOutcome → Option ℕ
  | ok data => data.usage.map (·.totalTokens)
  | error failure => failure.usage.map (·.totalTokens)

/-- The row of one call. -/
structure SolvePrompt where
  strategyRunId : ℕ
  promptNumber : ℕ
  attemptNumber : ℕ
  promptType : SolvePromptType
  manualRetry : Bool
  status : SolvePromptStatus
  rawResponseText : Option String
  promptText : String
  issueTags : List String
  usage : Option SolveUsage
  latencyMs : Option ℕ
  requestBody : Option Json
  statusCode : Option ℕ
  errorName : Option String
  errorMessage : Option String
  isRetryable : Option Bool

/-- What becomes of a call's reservation when its batch is flushed. -/
structure ReservationSettlement where
  reservationId : ℕ
  recorded : Bool
  deriving DecidableEq, Repr

section Proposals

variable (text : TextOps)

/-- One draft for each parsed group of the right size. -/
def buildProposalEntries (proposalWords : List (Option (List String)))
    (categoryMap : List (ℕ × String)) (run : StrategyRun) (promptNumber : ℕ) :
    List LlmProposal :=
  (proposalWords.mapIdx fun i words => match words with
    | some words =>
      if words.length = groupSize then
        some { strategyRunId := run.id, promptNumber := promptNumber, words := words
               category := (categoryOf categoryMap (i + 1)).getD
                 s!"Category unavailable for group {i + 1}"
               status := .notSelected, guess := none : LlmProposal }
      else none
    | none => none).filterMap id

/-- What happens to a proposal before it is judged. -/
inductive Resolution
  | submit (words : List String) (caseMismatch : Bool)
  | skip (hallucinated : Bool)
  deriving DecidableEq, Repr

/-- A proposal with a missing word is submitted in canonical casing when only its case is off and
the group is still available; otherwise it is skipped. -/
def resolveProposal (puzzle : Puzzle) (availableWords guessWords : List String) : Resolution :=
  if guessWords.any (· ∉ availableWords) then
    match findCaseInsensitiveGroupMatch text guessWords puzzle.groupWords with
    | some group =>
      if group.all (· ∈ availableWords) then .submit group true
      else .skip (guessWords.any (· ∉ puzzle.boardWords))
    | none => .skip (guessWords.any (· ∉ puzzle.boardWords))
  else .submit guessWords false

/-- Whether an earlier guess of the run has the same size and only words of this one. -/
def isDuplicate (priorGuesses : List PriorGuess) (guessWords : List String) : Bool :=
  priorGuesses.any fun g => g.words.length = guessWords.length && g.words.all (· ∈ guessWords)

/-- The result of a submitted guess. -/
def judgeGuess (puzzle : Puzzle) (priorGuesses : List PriorGuess) (guessWords : List String) :
    GuessResult :=
  if isDuplicate priorGuesses guessWords then .duplicate
  else evaluateGuessOnPuzzle text puzzle guessWords

/-- The wording of a failed guess in the next prompt. -/
def failedGuess (words : List String) (result : GuessResult) : FailedGuess :=
  { items := words, result := if result = .offByOne then "one away" else "incorrect" }

/-- Account for a judged guess in the loop state. -/
def LlmRunLoopState.record (state : LlmRunLoopState) (words : List String)
    (result : GuessResult) : LlmRunLoopState :=
  let state : LlmRunLoopState := { state with
    guessCount := state.guessCount + 1
    priorGuesses := state.priorGuesses ++ [⟨words, result⟩] }
  if result = .success then
    { state with lockedInGroups := state.lockedInGroups ++ [words], lastFailedGuess := none }
  else
    { state with
      failedGuessCount := state.failedGuessCount + 1
      lastFailedGuess := some (failedGuess words result)
      duplicateCount := state.duplicateCount + if result = .duplicate then 1 else 0 }

/-- Account for a judged guess in the run; the state is the one that has it recorded. -/
def applyGuess (limits : RunLimits) (now : ℕ) (run : StrategyRun) (state : LlmRunLoopState)
    (words : List String) (result : GuessResult) : StrategyRun :=
  if result = .success then
    let run : StrategyRun := { run with
      availableWords := run.availableWords.filter (· ∉ words)
      currentCombination := firstCombination groupSize }
    if run.availableWords.length = 0 then
      { run with status := .completed, finishedAt := some now }
    else run
  else
    let run : StrategyRun :=
      if result = .duplicate ∧ limits.maxDuplicates ≤ state.duplicateCount then
        { run with status := .duplicate, finishedAt := some now }
      else run
    if limits.maxFailedGuesses ≤ state.failedGuessCount then
      { run with status := .failed, finishedAt := some now }
    else run

/-- What the evaluation of a reply reads and updates. -/
structure Evaluation where
  run : StrategyRun
  state : LlmRunLoopState
  pendingGuesses : List Guess
  issueTags : List String

/-- A tag is set once. -/
def Evaluation.tag (ev : Evaluation) (tag : String) : Evaluation :=
  if tag ∈ ev.issueTags then ev else { ev with issueTags := ev.issueTags ++ [tag] }

/-- Account for a judged guess. -/
def submitGuess (limits : RunLimits) (puzzle : Puzzle) (now : ℕ) (ev : Evaluation)
    (words : List String) (result : GuessResult) : Evaluation :=
  let state := ev.state.record words result
  { ev with
    run := applyGuess limits now ev.run state words result
    state := state
    pendingGuesses := ev.pendingGuesses ++
      [{ puzzleId := puzzle.id, strategyRunId := ev.run.id, words := words, result := result
         sequenceNumber := state.guessCount, source := .strategy }] }

/-- Submit the proposals in order, up to the first failure or until the puzzle is solved. -/
def evaluateProposals (limits : RunLimits) (puzzle : Puzzle) (now : ℕ) :
    Evaluation → List LlmProposal → Evaluation × List LlmProposal
  | ev, [] => (ev, [])
  | ev, proposal :: rest =>
    match resolveProposal text puzzle ev.run.availableWords proposal.words with
    | .skip hallucinated =>
      let ev := if hallucinated then ev.tag SolvePromptIssueTag.wordNotOnList else ev
      let (ev, rest) := evaluateProposals limits puzzle now ev rest
      (ev, proposal :: rest)
    | .submit words caseMismatch =>
      let ev := if caseMismatch then ev.tag SolvePromptIssueTag.caseMismatch else ev
      let result := judgeGuess text puzzle ev.state.priorGuesses words
      let ev := submitGuess limits puzzle now ev words result
      let proposal := { proposal with
        words := words, status := .used, guess := some ev.state.guessCount }
      if result ≠ .success ∨ ev.run.availableWords.length = 0 then
        (ev, proposal :: rest)
      else
        let (ev, rest) := evaluateProposals limits puzzle now ev rest
        (ev, proposal :: rest)

end Proposals

/-- End a run, or park it. -/
def StrategyRun.finish (run : StrategyRun) (status : StrategyRunStatus) (now : ℕ) : StrategyRun :=
  { run with status := status, finishedAt := some now }

/-- Count a malformed reply, which ends the run at the limit. -/
def countMalformed (limits : RunLimits) (now : ℕ) (run : StrategyRun) (state : LlmRunLoopState) :
    StrategyRun × LlmRunLoopState :=
  let state : LlmRunLoopState := { state with malformedCount := state.malformedCount + 1 }
  (if limits.maxMalformed ≤ state.malformedCount then run.finish .malformedResponse now else run,
    state)

/-- Classify a failed call; the returned code is the one that decides about a daily hold. -/
def classifyFailedCall (limits : RunLimits) (pool : Option ProviderPoolId)
    (freeTier : Option FreeTierConfig) (now : ℕ) (failure : SolveStepFailure) (run : StrategyRun)
    (state : LlmRunLoopState) : SolveErrorCode × StrategyRun × LlmRunLoopState :=
  match failure.code with
  | .rateLimitedDaily => (.rateLimitedDaily, run.finish .rateLimitedDaily now, state)
  | .rateLimited =>
    let wait (state : LlmRunLoopState) : LlmRunLoopState := { state with
      rateLimitWaitMs :=
        some ((failure.retryAfterSeconds.getD limits.rateLimitFallbackSeconds) * 1000) }
    if (freeTier.map (·.persistentRateLimitPark)).getD false then
      let startedAt := state.rateLimitStreakStartedAt.getD now
      let state : LlmRunLoopState := { state with
        rateLimitStreak := state.rateLimitStreak + 1
        rateLimitStreakStartedAt := some startedAt }
      if limits.persistentAttempts ≤ state.rateLimitStreak ∨
          limits.persistentElapsedMs ≤ now - startedAt then
        (.rateLimitedDaily, run.finish .rateLimitedDaily now, state)
      else (.rateLimited, run, wait state)
    else (.rateLimited, run, wait state)
  | .modelError =>
    let errors := state.consecutiveModelErrors + 1
    let state : LlmRunLoopState := { state with consecutiveModelErrors := errors }
    -- An OpenAI error is never retried; every strategy outside the pools calls OpenAI.
    let maxModelErrors := if pool.getD .openai = .openai then 1 else limits.llmMaxModelErrors
    (.modelError,
      if maxModelErrors ≤ state.consecutiveModelErrors then run.finish .error now else run, state)
  | .duplicateGroup =>
    let state : LlmRunLoopState := { state with duplicateCount := state.duplicateCount + 1 }
    (.duplicateGroup,
      if limits.maxDuplicates ≤ state.duplicateCount then run.finish .duplicate now else run,
      state)
  | .invalidGroup =>
    let (run, state) := countMalformed limits now run state
    (.invalidGroup, run, state)

/-- A hold that a failed call writes: on one model, or on the account. -/
structure HoldRequest where
  modelName : Option String
  daily : Bool
  resetInSeconds : ℕ
  deriving DecidableEq, Repr

/-- The holds written after a failed call. -/
def holdsOf (limits : RunLimits) (freeTier : Option FreeTierConfig) (model : Option String)
    (failure : SolveStepFailure) (effectiveErrorCode : SolveErrorCode) : List HoldRequest :=
  match freeTier with
  | none => []
  | some tier =>
    let resetInSeconds := failure.dailyResetSeconds.getD limits.dailyHoldFallbackSeconds
    (if effectiveErrorCode = .rateLimitedDaily then
      match tier.holdScope, model with
      | .account, _ => [⟨none, true, resetInSeconds⟩]
      | .model, some model => [⟨some model, true, resetInSeconds⟩]
      | .model, none => []
    else []) ++
    if tier.holdScope = .account ∧ tier.stop = .accountBudget ∧ failure.code = .rateLimited then
      [⟨none, false, limits.rpmCooldownSeconds⟩]
    else []

/-- The loop state rebuilt from the stored guesses of a run. -/
def rebuildState (rows : List Guess) : LlmRunLoopState :=
  let priorGuesses : List PriorGuess := rows.map fun guess => ⟨guess.words, guess.result⟩
  let (lockedInGroups, lastFailedGuess) := priorGuesses.foldl
    (fun (locked, _) guess =>
      if guess.result = .success then (locked ++ [guess.words], none)
      else (locked, some (failedGuess guess.words guess.result)))
    (([] : List (List String)), (none : Option FailedGuess))
  { guessCount := priorGuesses.length
    duplicateCount := (priorGuesses.filter (·.result = .duplicate)).length
    failedGuessCount := (priorGuesses.filter (·.result ≠ .success)).length
    malformedCount := 0
    consecutiveModelErrors := 0
    rateLimitWaitMs := none
    rateLimitStreak := 0
    rateLimitStreakStartedAt := none
    lockedInGroups := lockedInGroups
    lastFailedGuess := lastFailedGuess
    priorGuesses := priorGuesses }

/-- The guesses of a run as they are loaded, in the order of their numbers. -/
def loadLlmGuessesForRun (guesses : List Guess) : List Guess :=
  guesses.insertionSort fun a b => a.sequenceNumber ≤ b.sequenceNumber

/-- What one execution of a run carries from iteration to iteration. -/
structure RunLoop where
  run : StrategyRun
  /-- The loaded puzzle, with the fixups applied. -/
  puzzle : Puzzle
  model : Option String
  manualRetry : Bool
  maxOutputTokens : Option ℕ
  state : LlmRunLoopState
  messages : List ChatMessage
  globalPromptNumber : ℕ
  knownPrefix : Option KnownPrefix

/-- A batch that one iteration flushes in one transaction. -/
structure FlushBatch where
  run : StrategyRun
  guesses : List Guess
  proposals : List LlmProposal
  prompts : List SolvePrompt
  settlement : Option ReservationSettlement

/-- The prompt of a step. -/
def RunLoop.prompt (loop : RunLoop) : String :=
  let quarters := loop.run.availableWords.length
  match loop.state.lastFailedGuess with
  | some failed =>
    buildRetryPrompt loop.run.availableWords loop.state.lockedInGroups failed quarters
  | none => buildInitialPrompt loop.run.availableWords quarters

/-- The worst case that a budgeted run reserves for its next call; a model without an output cap
has none. -/
def RunLoop.worstCase (loop : RunLoop) : Option ℕ :=
  loop.maxOutputTokens.map (· +
    inputTokenUpperBound (loop.messages ++ [⟨.user, loop.prompt⟩]) loop.knownPrefix)

/-- How one iteration ends: parked for lack of budget, or with a batch to flush. -/
inductive IterationResult
  | parked (run : StrategyRun)
  | flush (loop : RunLoop) (batch : FlushBatch) (holds : List HoldRequest)

section Iteration

variable (text : TextOps) (limits : RunLimits)

/-- The part of an iteration that handles a reply. -/
def handleReply (loop : RunLoop) (now : ℕ) (promptType : SolvePromptType)
    (request : List ChatMessage) (data : SolveStepSuccess) : RunLoop × FlushBatch :=
  let promptNumber := loop.globalPromptNumber + 1
  let state : LlmRunLoopState := { loop.state with
    consecutiveModelErrors := 0, rateLimitStreak := 0, rateLimitStreakStartedAt := none }
  let run : StrategyRun := { loop.run with
    modelName := loop.run.modelName.orElse fun _ => some data.model
    contextWindow := data.contextWindow.orElse fun _ => loop.run.contextWindow }
  let prompt : SolvePrompt :=
    { strategyRunId := run.id, promptNumber := promptNumber, attemptNumber := 1
      promptType := promptType, manualRetry := loop.manualRetry, status := .parsed
      rawResponseText := some data.response, promptText := transcriptText request
      issueTags := [], usage := data.usage, latencyMs := some data.latencyMs
      requestBody := data.requestBody, statusCode := none, errorName := none
      errorMessage := none, isRetryable := none }
  let (run, state, guesses, proposals, prompt, assistantContent) :=
    if data.groups.length = 0 then
      let (run, state) := countMalformed limits now run state
      (run, state, [], [], { prompt with status := .malformedNoAnswerBlock }, data.response)
    else
      let assistantContent := if SolvePromptIssueTag.multipleProposals ∈ data.textIssues then
        formatCompactAnswer data.proposalWords data.categoryByGroup else data.response
      let entries := buildProposalEntries data.proposalWords data.categoryByGroup run promptNumber
      let (ev, entries) := evaluateProposals text limits loop.puzzle now
        ⟨run, state, [], data.textIssues⟩ entries
      -- A reply that parsed but submitted nothing counts as malformed.
      let (run, state) :=
        if ev.run.status = .running ∧ ev.state.guessCount = state.guessCount then
          countMalformed limits now ev.run ev.state
        else (ev.run, ev.state)
      (run, state, ev.pendingGuesses, entries, { prompt with issueTags := ev.issueTags },
        assistantContent)
  ({ loop with
      run := run, state := state, globalPromptNumber := promptNumber
      messages := request ++ [⟨.assistant, assistantContent⟩]
      knownPrefix := match data.usage with
        | some usage => some
          (knownPrefixAfterReply request.length usage.promptTokens assistantContent)
        | none => loop.knownPrefix },
    ⟨run, guesses, proposals, [prompt], none⟩)

/-- The part of an iteration that handles a failed call. -/
def handleFailure (loop : RunLoop) (now : ℕ) (promptType : SolvePromptType)
    (request : List ChatMessage) (failure : SolveStepFailure) :
    RunLoop × FlushBatch × List HoldRequest :=
  let promptNumber := loop.globalPromptNumber + 1
  let pool := providerPool loop.run.strategyName
  let freeTier := pool.bind (·.freeTier)
  let prompt : SolvePrompt :=
    { strategyRunId := loop.run.id, promptNumber := promptNumber, attemptNumber := 1
      promptType := promptType, manualRetry := loop.manualRetry, status := .callError
      rawResponseText := none, promptText := transcriptText request
      issueTags := [], usage := failure.usage, latencyMs := none
      requestBody := failure.requestBody, statusCode := failure.statusCode
      errorName := failure.errorName, errorMessage := some failure.error
      isRetryable := failure.isRetryable }
  let (effectiveErrorCode, run, state) :=
    classifyFailedCall limits pool freeTier now failure loop.run loop.state
  ({ loop with run := run, state := state, globalPromptNumber := promptNumber },
    ⟨run, [], [], [prompt], none⟩,
    holdsOf limits freeTier loop.model failure effectiveErrorCode)

/-- One iteration of the loop, for a budget decision and an outcome of the call. -/
def runIteration (loop : RunLoop) (now : ℕ) (reservation : Option ℕ)
    (outcome : SolveStepOutcome) : IterationResult :=
  if loop.run.budgetTier.isSome ∧ (loop.worstCase = none ∨ reservation = none) then
    .parked (loop.run.finish .rateLimitedDaily now)
  else
    let request := loop.messages ++ [⟨.user, loop.prompt⟩]
    let promptType : SolvePromptType :=
      if loop.state.lastFailedGuess.isSome then .retry else .initialSolve
    let (next, batch, holds) := match outcome with
      | .ok data =>
        let (next, batch) := handleReply text limits loop now promptType request data
        (next, batch, [])
      | .error failure => handleFailure limits loop now promptType request failure
    let settlement := if loop.run.budgetTier.isSome then
      reservation.map fun id => ⟨id, outcome.reportedTotal.isSome⟩ else none
    .flush next { batch with settlement := settlement } holds

/-- The run of a flushed batch is the run that the loop goes on with. -/
theorem runIteration_batch_run {loop next : RunLoop} {now : ℕ} {reservation : Option ℕ}
    {outcome : SolveStepOutcome} {batch : FlushBatch} {holds : List HoldRequest}
    (h : runIteration text limits loop now reservation outcome = .flush next batch holds) :
    batch.run = next.run := by
  unfold runIteration at h
  split at h
  · cases h
  · cases outcome <;> cases h <;> rfl

/-- An iteration without budget for its call parks the run as it is. -/
theorem runIteration_parked_run {loop : RunLoop} {run : StrategyRun} {now : ℕ}
    {reservation : Option ℕ} {outcome : SolveStepOutcome}
    (h : runIteration text limits loop now reservation outcome = .parked run) :
    run = loop.run.finish .rateLimitedDaily now := by
  unfold runIteration at h
  split at h
  · cases h
    rfl
  · cases h

end Iteration

/-- What a call that submits nothing can make of a run: it leaves it, or ends or parks it. -/
inductive LeftOrFinished (now : ℕ) (run : StrategyRun) : StrategyRun → Prop
  | left : LeftOrFinished now run run
  | finished (status : StrategyRunStatus) : status ≠ .running → status ≠ .completed →
      LeftOrFinished now run (run.finish status now)

section FailedCalls

variable (limits : RunLimits) (now : ℕ)

theorem countMalformed_run (run : StrategyRun) (state : LlmRunLoopState) :
    LeftOrFinished now run (countMalformed limits now run state).1 := by
  unfold countMalformed
  simp only
  split
  · exact .finished _ (by decide) (by decide)
  · exact .left

/-- A failed call leaves the run, or ends or parks it. -/
theorem classifyFailedCall_run (pool : Option ProviderPoolId) (freeTier : Option FreeTierConfig)
    (failure : SolveStepFailure) (run : StrategyRun) (state : LlmRunLoopState) :
    LeftOrFinished now run
      (classifyFailedCall limits pool freeTier now failure run state).2.1 := by
  unfold classifyFailedCall
  cases failure.code with
  | rateLimitedDaily => exact .finished _ (by decide) (by decide)
  | rateLimited =>
    simp only
    split
    · split
      · exact .finished _ (by decide) (by decide)
      · exact .left
    · exact .left
  | modelError =>
    simp only
    generalize (if pool.getD .openai = .openai then 1 else limits.llmMaxModelErrors) =
      maxModelErrors
    split
    · exact .finished _ (by decide) (by decide)
    · exact .left
  | duplicateGroup =>
    simp only
    split
    · exact .finished _ (by decide) (by decide)
    · exact .left
  | invalidGroup => exact countMalformed_run limits now run state

end FailedCalls

/-- Such a call takes no word off the board. -/
theorem LeftOrFinished.availableWords {now : ℕ} {run next : StrategyRun}
    (h : LeftOrFinished now run next) : next.availableWords = run.availableWords := by
  cases h <;> rfl

end Connections
