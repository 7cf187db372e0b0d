import Connections.Library.Run
import Connections.Strategy.Runner

/-!
# A run over its restarts

The stored rows of one run, the worker that executes it, and every step that can happen to
them: a job that loads or creates the run, the gates and the rebuild, an iteration of the loop
with its flush, a crash of the worker, and the status flips of the resume operations.  One
worker executes the run at a time, and the status flips happen while none does.
-/

namespace Connections

/-- A run has a finish time exactly when it is not running. -/
def StrategyRun.Stamped (run : StrategyRun) : Prop :=
  run.finishedAt = none ↔ run.status = .running

/-- The rows that belong to a run. -/
structure RunRows where
  run : StrategyRun
  guesses : List Guess
  proposals : List LlmProposal
  prompts : List SolvePrompt

/-- How far a worker has come with the run. -/
inductive RunWorker
  | loaded (run : StrategyRun) (model : Option String) (manualRetry : Bool)
      (maxOutputTokens : Option ℕ)
  | looping (loop : RunLoop)

/-- The stored run, its worker, and a record of the loop state right after the last flush. -/
structure RunWorld where
  rows : Option RunRows
  worker : Option RunWorker
  lastFlushed : Option LlmRunLoopState

/-- What can happen to a run. -/
inductive RunEvent
  /-- A job starts: the run is loaded, or created when there is none. -/
  | load (now : ℕ) (model : Option String) (contextWindow : Option ℕ)
      (budgetTier : Option String) (manualRetry : Bool) (maxOutputTokens : Option ℕ)
  /-- The gates, and behind them the rebuilt loop state. -/
  | enter (now : ℕ) (held : Bool)
  /-- One iteration of the loop. -/
  | iterate (now : ℕ) (reservation : Option ℕ) (outcome : SolveStepOutcome)
  /-- The worker is gone, with everything it had not flushed. -/
  | crash
  /-- A parked run is set running again. -/
  | resume (clearFinishedAt : Bool)
  /-- An errored run is set running again. -/
  | retry
  /-- The job ran out of attempts. -/
  | markFailed (now : ℕ)

namespace RunWorld

/-- No row yet. -/
def fresh : RunWorld := ⟨none, none, none⟩

/-- The row that `loadOrCreateRun` writes. -/
def createdRun (text : TextOps) (puzzle : Puzzle) (strategyName : String) (runId trialNumber : ℕ)
    (now : ℕ) (model : Option String) (contextWindow : Option ℕ) (budgetTier : Option String) :
    StrategyRun :=
  { id := runId, puzzleId := puzzle.id, strategyName := strategyName
    trialNumber := trialNumber, status := .running
    availableWords := computeInitialWordOrder text puzzle strategyName
    currentCombination := firstCombination groupSize, modelName := model
    contextWindow := contextWindow, budgetTier := budgetTier, startedAt := now
    updatedAt := now, finishedAt := none }

/-- Whether a live hold parks a job at the top of the runner. -/
def gateHolds (strategyName : String) (model : Option String) (held : Bool) : Bool :=
  match (providerPool strategyName).bind (·.freeTier) with
  | some tier => held && (tier.holdScope = .account || model.isSome)
  | none => false

/-- Save a run entity. -/
def saveRun (rows : RunRows) (run : StrategyRun) (now : ℕ) : RunRows :=
  { rows with run := { run with updatedAt := now } }

/-- Commit a batch. -/
def flushBatch (rows : RunRows) (batch : FlushBatch) (now : ℕ) : RunRows :=
  { run := { batch.run with updatedAt := now }
    guesses := rows.guesses ++ batch.guesses
    proposals := rows.proposals ++ batch.proposals
    prompts := rows.prompts ++ batch.prompts }

/-- The request stored with the latest call of the run. -/
def latestRequestBody (prompts : List SolvePrompt) : Option Json :=
  ((prompts.insertionSort fun a b => b.promptNumber ≤ a.promptNumber).head?).bind
    (·.requestBody)

/-- The highest prompt number stored for the run. -/
def lastPromptNumber (prompts : List SolvePrompt) : ℕ :=
  (prompts.map (·.promptNumber)).foldl max 0

/-- The loop state a worker starts with: rebuilt from the rows, past the gates. -/
def rebuiltLoop (puzzle : Puzzle) (rows : RunRows) (run : StrategyRun) (model : Option String)
    (manualRetry : Bool) (maxOutputTokens : Option ℕ) : RunLoop :=
  { run := if run.status = .rateLimitedDaily then
      { run with status := .running, finishedAt := none } else run
    puzzle := puzzle, model := model, manualRetry := manualRetry
    maxOutputTokens := maxOutputTokens
    state := rebuildState (loadLlmGuessesForRun rows.guesses)
    messages := reconstructMessages (latestRequestBody rows.prompts)
    globalPromptNumber := lastPromptNumber rows.prompts, knownPrefix := none }

section Step

variable (text : TextOps) (limits : RunLimits) (puzzle : Puzzle) (strategyName : String)
  (runId trialNumber : ℕ)

/-- One step of the run; an event that cannot happen is refused. -/
def step (w : RunWorld) : RunEvent → Option RunWorld
  | .load now model contextWindow budgetTier manualRetry maxOutputTokens =>
    match w.worker, w.rows with
    | none, none =>
      let run := createdRun text puzzle strategyName runId trialNumber now model contextWindow
        budgetTier
      some { w with
        rows := some ⟨run, [], [], []⟩
        worker := some (.loaded run model manualRetry maxOutputTokens) }
    | none, some rows =>
      -- A job for another model than the row's throws.
      if rows.run.modelName = model then
        some { w with worker := some (.loaded rows.run model manualRetry maxOutputTokens) }
      else none
    | some _, _ => none
  | .enter now held =>
    match w.worker, w.rows with
    | some (.loaded run model manualRetry maxOutputTokens), some rows =>
      let (run, puzzle) := applyOneOffWordFixups run puzzle
      if run.status ∈ terminalStatuses then some { w with worker := none }
      else if gateHolds strategyName model held then
        some { w with
          rows := some (saveRun rows (run.finish .rateLimitedDaily now) now), worker := none }
      else
        some { w with
          worker := some (.looping
            (rebuiltLoop puzzle rows run model manualRetry maxOutputTokens)) }
    | _, _ => none
  | .iterate now reservation outcome =>
    match w.worker, w.rows with
    | some (.looping loop), some rows =>
      match runIteration text limits loop now reservation outcome with
      | .parked run => some { w with rows := some (saveRun rows run now), worker := none }
      | .flush next batch _ =>
        -- After the flush the worker waits, and leaves the loop unless the run still runs.
        let waited := { next with state := { next.state with rateLimitWaitMs := none } }
        some { rows := some (flushBatch rows batch now)
               worker := if next.run.status = .running then some (.looping waited) else none
               lastFlushed := some next.state }
    | _, _ => none
  | .crash => if w.worker.isSome then some { w with worker := none } else none
  | .resume clearFinishedAt =>
    match w.worker, w.rows with
    | none, some rows =>
      if rows.run.status = .rateLimitedDaily then
        some { w with rows := some { rows with run := { rows.run with
          status := .running
          finishedAt := if clearFinishedAt then none else rows.run.finishedAt } } }
      else none
    | _, _ => none
  | .retry =>
    match w.worker, w.rows with
    | none, some rows =>
      if rows.run.status = .error then
        some { w with rows := some { rows with run := { rows.run with
          status := .running, finishedAt := none } } }
      else none
    | _, _ => none
  | .markFailed now =>
    match w.worker, w.rows with
    | none, some rows =>
      if rows.run.status = .running then
        some { w with rows := some { rows with run := rows.run.finish .failed now } }
      else none
    | _, _ => none

/-- What one step can do, branch by branch. -/
inductive StepCase (w : RunWorld) : RunEvent → RunWorld → Prop
  | created (now : ℕ) (model : Option String) (contextWindow : Option ℕ)
      (budgetTier : Option String) (manualRetry : Bool) (maxOutputTokens : Option ℕ) :
      w.worker = none → w.rows = none →
      StepCase w (.load now model contextWindow budgetTier manualRetry maxOutputTokens)
        { w with
          rows := some ⟨createdRun text puzzle strategyName runId trialNumber now model
            contextWindow budgetTier, [], [], []⟩
          worker := some (.loaded (createdRun text puzzle strategyName runId trialNumber now model
            contextWindow budgetTier) model manualRetry maxOutputTokens) }
  | loaded (rows : RunRows) (now : ℕ) (model : Option String) (contextWindow : Option ℕ)
      (budgetTier : Option String) (manualRetry : Bool) (maxOutputTokens : Option ℕ) :
      w.worker = none → w.rows = some rows → rows.run.modelName = model →
      StepCase w (.load now model contextWindow budgetTier manualRetry maxOutputTokens)
        { w with worker := some (.loaded rows.run model manualRetry maxOutputTokens) }
  | enteredTerminal (rows : RunRows) (run : StrategyRun) (model : Option String)
      (manualRetry : Bool) (maxOutputTokens : Option ℕ) (now : ℕ) (held : Bool) :
      w.worker = some (.loaded run model manualRetry maxOutputTokens) → w.rows = some rows →
      run.status ∈ terminalStatuses →
      StepCase w (.enter now held) { w with worker := none }
  | enteredHeld (rows : RunRows) (run : StrategyRun) (model : Option String)
      (manualRetry : Bool) (maxOutputTokens : Option ℕ) (now : ℕ) (held : Bool) :
      w.worker = some (.loaded run model manualRetry maxOutputTokens) → w.rows = some rows →
      run.status ∉ terminalStatuses →
      StepCase w (.enter now held)
        { w with
          rows := some (saveRun rows
            ((applyOneOffWordFixups run puzzle).1.finish .rateLimitedDaily now) now)
          worker := none }
  | enteredLoop (rows : RunRows) (run : StrategyRun) (model : Option String)
      (manualRetry : Bool) (maxOutputTokens : Option ℕ) (now : ℕ) (held : Bool) :
      w.worker = some (.loaded run model manualRetry maxOutputTokens) → w.rows = some rows →
      run.status ∉ terminalStatuses →
      StepCase w (.enter now held)
        { w with worker := some (.looping (rebuiltLoop puzzle.fixups rows
          (applyOneOffWordFixups run puzzle).1 model manualRetry maxOutputTokens)) }
  | parked (rows : RunRows) (loop : RunLoop) (now : ℕ) (reservation : Option ℕ)
      (outcome : SolveStepOutcome) (run : StrategyRun) :
      w.worker = some (.looping loop) → w.rows = some rows →
      runIteration text limits loop now reservation outcome = .parked run →
      StepCase w (.iterate now reservation outcome)
        { w with rows := some (saveRun rows run now), worker := none }
  | flushed (rows : RunRows) (loop next : RunLoop) (batch : FlushBatch)
      (holds : List HoldRequest) (now : ℕ) (reservation : Option ℕ)
      (outcome : SolveStepOutcome) :
      w.worker = some (.looping loop) → w.rows = some rows →
      runIteration text limits loop now reservation outcome = .flush next batch holds →
      StepCase w (.iterate now reservation outcome)
        { rows := some (flushBatch rows batch now)
          worker := if next.run.status = .running then some (.looping { next with
            state := { next.state with rateLimitWaitMs := none } }) else none
          lastFlushed := some next.state }
  | crashed : StepCase w .crash { w with worker := none }
  | flipped (rows : RunRows) (run : StrategyRun) (e : RunEvent) :
      w.worker = none → w.rows = some rows →
      run.availableWords = rows.run.availableWords →
      rows.run.status ∈ [.rateLimitedDaily, .error, .running] →
      run.status ∈ [.running, .failed] →
      (e ≠ .resume false → run.Stamped) →
      StepCase w e { w with rows := some { rows with run := run } }

variable {text limits puzzle strategyName runId trialNumber}

/-- Every step is one of the branches. -/
theorem step_cases {w w' : RunWorld} {e : RunEvent}
    (h : step text limits puzzle strategyName runId trialNumber w e = some w') :
    StepCase text limits puzzle strategyName runId trialNumber w e w' := by
  obtain ⟨rows, worker, lastFlushed⟩ := w
  cases e with
  | load now model contextWindow budgetTier manualRetry maxOutputTokens =>
    rcases worker with _ | worker <;> rcases rows with _ | rows <;>
      simp only [step, reduceCtorEq] at h
    · cases h
      exact .created _ _ _ _ _ _ rfl rfl
    · split at h
      · cases h
        exact .loaded rows _ _ _ _ _ _ rfl rfl ‹_›
      · cases h
  | enter now held =>
    rcases worker with _ | ⟨run, model, manualRetry, maxOutputTokens⟩ | loop <;>
      rcases rows with _ | rows <;> simp only [step, reduceCtorEq] at h
    split at h
    · cases h
      exact .enteredTerminal rows run model manualRetry maxOutputTokens now held rfl rfl ‹_›
    · split at h
      · cases h
        exact .enteredHeld rows run model manualRetry maxOutputTokens now held rfl rfl ‹_›
      · cases h
        exact .enteredLoop rows run model manualRetry maxOutputTokens now held rfl rfl ‹_›
  | iterate now reservation outcome =>
    rcases worker with _ | ⟨run, model, manualRetry, maxOutputTokens⟩ | loop <;>
      rcases rows with _ | rows <;> simp only [step, reduceCtorEq] at h
    split at h
    · cases h
      exact .parked rows loop _ _ _ _ rfl rfl ‹_›
    · cases h
      exact .flushed rows loop _ _ _ _ _ _ rfl rfl ‹_›
  | crash =>
    simp only [step] at h
    split at h
    · cases h
      exact .crashed
    · cases h
  | resume clearFinishedAt =>
    rcases worker with _ | worker <;> rcases rows with _ | rows <;>
      simp only [step, reduceCtorEq] at h
    split at h
    · cases h
      refine .flipped rows _ _ rfl rfl rfl (by simp [*]) (by simp) ?_
      intro hcleared
      cases clearFinishedAt with
      | true => simp [StrategyRun.Stamped]
      | false => exact absurd rfl hcleared
    · cases h
  | retry =>
    rcases worker with _ | worker <;> rcases rows with _ | rows <;>
      simp only [step, reduceCtorEq] at h
    split at h
    · cases h
      exact .flipped rows _ _ rfl rfl rfl (by simp [*]) (by simp)
        (by simp [StrategyRun.Stamped])
    · cases h
  | markFailed now =>
    rcases worker with _ | worker <;> rcases rows with _ | rows <;>
      simp only [step, reduceCtorEq] at h
    split at h
    · cases h
      exact .flipped rows _ _ rfl rfl rfl (by simp [*]) (by simp [StrategyRun.finish])
        (by simp [StrategyRun.Stamped, StrategyRun.finish])
    · cases h

/-- A worker behind a flush goes on with the next loop, which is running. -/
theorem worker_flushed {next : RunLoop} {worker : RunWorker}
    (h : (if next.run.status = .running then some (RunWorker.looping { next with
      state := { next.state with rateLimitWaitMs := none } }) else none) = some worker) :
    next.run.status = .running ∧
      worker = .looping { next with state := { next.state with rateLimitWaitMs := none } } := by
  split at h
  · cases h
    exact ⟨‹_›, rfl⟩
  · cases h

end Step

/-- A reply that parsed into the given groups and reported nothing else. -/
def plainReply (proposals : List (List String)) : SolveStepOutcome :=
  .ok { response := "", groups := proposals, proposalWords := proposals.map some
        categoryByGroup := [], textIssues := [], model := "gpt-5-mini", contextWindow := none
        latencyMs := 0, usage := none, requestBody := none }

/-- The default limits. -/
def defaultLimits : RunLimits :=
  { maxDuplicates := 10, maxFailedGuesses := 4, maxMalformed := 3, llmMaxModelErrors := 5
    rateLimitFallbackSeconds := 60, dailyHoldFallbackSeconds := 3600, rpmCooldownSeconds := 60
    persistentAttempts := 5, persistentElapsedMs := 600000 }

end RunWorld

end Connections
