import Connections.Strategy.Resume

/-!
# The finish time of a run

A run is written by its runner, by the resume operations and by the hook of a failed job.  Each of
them writes the status and the finish time together, except the daily resume of a provider pool,
which sets a parked run running and leaves the time of its park in the row.
-/

namespace Connections

namespace StrategyRun.Stamped

theorem of_same {run run' : StrategyRun} (h : run.Stamped) (hstatus : run'.status = run.status)
    (hfinished : run'.finishedAt = run.finishedAt) : run'.Stamped := by
  unfold StrategyRun.Stamped
  rw [hstatus, hfinished]
  exact h

theorem finish {run : StrategyRun} {status : StrategyRunStatus} {now : ℕ}
    (hstatus : status ≠ .running) : (run.finish status now).Stamped := by
  simp [StrategyRun.Stamped, StrategyRun.finish, hstatus]

end StrategyRun.Stamped

section Loop

variable {text : TextOps} {limits : RunLimits} {puzzle : Puzzle} {now : ℕ}

/-- A judged guess ends the run with a time, or leaves both columns. -/
theorem applyGuess_stamped {run : StrategyRun} (h : run.Stamped) (state : LlmRunLoopState)
    (words : List String) (result : GuessResult) :
    (applyGuess limits now run state words result).Stamped := by
  unfold applyGuess
  by_cases hresult : result = .success
  · simp only [hresult, ↓reduceIte]
    split
    · simp [StrategyRun.Stamped]
    · exact h.of_same rfl rfl
  · simp only [hresult, ↓reduceIte]
    split
    · simp [StrategyRun.Stamped]
    · split
      · simp [StrategyRun.Stamped]
      · exact h

/-- The evaluation of a reply, guess by guess. -/
theorem evaluateProposals_stamped (ev : Evaluation) (proposals : List LlmProposal)
    (h : ev.run.Stamped) :
    (evaluateProposals text limits puzzle now ev proposals).1.run.Stamped := by
  apply evaluateProposals_invariant (P := fun ev => ev.run.Stamped) _ _ _ _ _ _ ev proposals h
  · intro ev tagged htagged hrun
    rw [htagged.run]
    exact hrun
  · intro ev words result hrun
    exact applyGuess_stamped hrun _ words result

/-- A call that submits nothing keeps both columns paired. -/
theorem StrategyRun.Stamped.leftOrFinished {run next : StrategyRun} (h : run.Stamped)
    (hnext : LeftOrFinished now run next) : next.Stamped := by
  cases hnext with
  | left => exact h
  | finished status hrunning _ => exact .finish hrunning

theorem handleReply_stamped {loop : RunLoop} (h : loop.run.Stamped)
    (promptType : SolvePromptType) (request : List ChatMessage) (data : SolveStepSuccess) :
    (handleReply text limits loop now promptType request data).1.run.Stamped := by
  have hanswered : StrategyRun.Stamped { loop.run with
      modelName := loop.run.modelName.orElse fun _ => some data.model
      contextWindow := data.contextWindow.orElse fun _ => loop.run.contextWindow } :=
    h.of_same rfl rfl
  unfold handleReply
  simp only
  split
  · exact hanswered.leftOrFinished (countMalformed_run limits now _ _)
  · simp only
    split
    · exact (evaluateProposals_stamped _ _ hanswered).leftOrFinished
        (countMalformed_run limits now _ _)
    · exact evaluateProposals_stamped _ _ hanswered

theorem runIteration_parked_stamped {loop : RunLoop} {run : StrategyRun}
    {reservation : Option ℕ} {outcome : SolveStepOutcome}
    (h : runIteration text limits loop now reservation outcome = .parked run) : run.Stamped := by
  unfold runIteration at h
  split at h
  · cases h
    exact StrategyRun.Stamped.finish (by decide)
  · cases h

/-- A flushed iteration leaves the worker and its batch with one entity, both columns paired. -/
theorem runIteration_flush_stamped {loop next : RunLoop} (hrun : loop.run.Stamped)
    {reservation : Option ℕ} {outcome : SolveStepOutcome} {batch : FlushBatch}
    {holds : List HoldRequest}
    (h : runIteration text limits loop now reservation outcome = .flush next batch holds) :
    next.run.Stamped ∧ batch.run = next.run := by
  unfold runIteration at h
  split at h
  · cases h
  · cases outcome with
    | ok data =>
      cases h
      exact ⟨handleReply_stamped hrun _ _ data, rfl⟩
    | error failure =>
      cases h
      exact ⟨hrun.leftOrFinished (classifyFailedCall_run limits now _ _ failure _ _), rfl⟩

end Loop

/-- The entity that a worker holds. -/
def RunWorker.run : RunWorker → StrategyRun
  | .loaded run _ _ _ => run
  | .looping loop => loop.run

namespace RunWorld

/-- The stored run and the worker's entity have a finish time exactly when they do not run. -/
structure Stamped (w : RunWorld) : Prop where
  stored : ∀ rows, w.rows = some rows → rows.run.Stamped
  held : ∀ worker, w.worker = some worker → worker.run.Stamped

theorem stamped_fresh : Stamped fresh where
  stored := by simp [fresh]
  held := by simp [fresh]

variable {text : TextOps} {limits : RunLimits} {puzzle : Puzzle} {strategyName : String}
  {runId trialNumber : ℕ}

/-- Every step but the daily resume of a pool writes both columns together. -/
theorem stamped_step {w w' : RunWorld} {e : RunEvent} (hw : Stamped w) (he : e ≠ .resume false)
    (hstep : step text limits puzzle strategyName runId trialNumber w e = some w') :
    Stamped w' := by
  cases step_cases hstep with
  | created now model contextWindow budgetTier manualRetry maxOutputTokens hworker hrows =>
    have hcreated : (createdRun text puzzle strategyName runId trialNumber now model contextWindow
        budgetTier).Stamped := by simp [StrategyRun.Stamped, createdRun]
    refine ⟨?_, ?_⟩
    · rintro _ ⟨⟩
      exact hcreated
    · rintro _ ⟨⟩
      exact hcreated
  | loaded rows now model contextWindow budgetTier manualRetry maxOutputTokens hworker hrows =>
    refine ⟨hw.stored, ?_⟩
    rintro _ ⟨⟩
    exact hw.stored rows hrows
  | enteredTerminal rows run model manualRetry maxOutputTokens now held hworker hrows hstatus =>
    exact ⟨hw.stored, by simp⟩
  | enteredHeld rows run model manualRetry maxOutputTokens now held hworker hrows hstatus =>
    refine ⟨?_, by simp⟩
    rintro _ ⟨⟩
    have hfinished : ((applyOneOffWordFixups run puzzle).1.finish .rateLimitedDaily now).Stamped :=
      StrategyRun.Stamped.finish (by decide)
    exact hfinished.of_same rfl rfl
  | enteredLoop rows run model manualRetry maxOutputTokens now held hworker hrows hstatus =>
    refine ⟨hw.stored, ?_⟩
    rintro _ ⟨⟩
    -- A parked run is normalised here; any other one is taken over as it was loaded.
    simp only [RunWorker.run, rebuiltLoop]
    split
    · simp [StrategyRun.Stamped]
    · exact (hw.held _ hworker).of_same rfl rfl
  | parked rows loop now reservation outcome run hworker hrows hparked =>
    refine ⟨?_, by simp⟩
    rintro _ ⟨⟩
    exact (runIteration_parked_stamped hparked).of_same rfl rfl
  | flushed rows loop next batch holds now reservation outcome hworker hrows hflush =>
    obtain ⟨hnext, hbatch⟩ := runIteration_flush_stamped (hw.held _ hworker) hflush
    refine ⟨?_, ?_⟩
    · rintro _ ⟨⟩
      have hsaved : batch.run.Stamped := hbatch ▸ hnext
      exact hsaved.of_same rfl rfl
    · intro worker hworker'
      obtain ⟨-, rfl⟩ := worker_flushed hworker'
      exact hnext
  | crashed => exact ⟨hw.stored, by simp⟩
  | flipped rows run _ hworker hrows hwords hfrom hto hstamped =>
    refine ⟨?_, ?_⟩
    · rintro _ ⟨⟩
      exact hstamped he
    · simp [hworker]

/-- A daily resume of a pool leaves the time of the park in the row that it sets running. -/
theorem resume_keeps_park_time {w w' : RunWorld} (hw : Stamped w)
    (hstep : step text limits puzzle strategyName runId trialNumber w (.resume false) = some w') :
    ∃ rows, w'.rows = some rows ∧ rows.run.status = .running ∧ rows.run.finishedAt ≠ none := by
  obtain ⟨rows, worker, lastFlushed⟩ := w
  rcases worker with _ | worker <;> rcases rows with _ | rows <;>
    simp only [step, reduceCtorEq] at hstep
  split at hstep
  · rename_i hparked
    cases hstep
    refine ⟨_, rfl, rfl, ?_⟩
    have hstored := hw.stored rows rfl
    simp only [StrategyRun.Stamped, hparked, reduceCtorEq, iff_false] at hstored
    exact hstored
  · cases hstep

/-- As long as no pool is resumed for the day, a run has a finish time exactly when it does not
run; the first daily resume of a parked run ends that. -/
theorem finishedAt_agrees_until_pool_resume {w : RunWorld}
    (hrun : Run.Reaches (step text limits puzzle strategyName runId trialNumber)
      (fun _ e => e ≠ .resume false) fresh w) :
    (∀ rows, w.rows = some rows → (rows.run.finishedAt = none ↔ rows.run.status = .running)) ∧
      ∀ w', step text limits puzzle strategyName runId trialNumber w (.resume false) = some w' →
        ∃ rows, w'.rows = some rows ∧ rows.run.status = .running ∧
          rows.run.finishedAt ≠ none := by
  have hw : Stamped w := hrun.invariant stamped_fresh fun v e u hv he hstep =>
    stamped_step hv he hstep
  exact ⟨hw.stored, fun w' hstep => resume_keeps_park_time hw hstep⟩

instance (e : RunEvent) : Decidable (e = .resume false) :=
  match e with
  | .resume clearFinishedAt => decidable_of_iff (clearFinishedAt = false) (by simp)
  | .load .. | .enter .. | .iterate .. | .crash | .retry | .markFailed _ => isFalse nofun

/-- A call that met the daily limit. -/
def dailyLimited : SolveStepOutcome :=
  .error { error := "429", code := .rateLimitedDaily, requestBody := none, statusCode := some 429
           errorName := none, isRetryable := none, retryAfterSeconds := none
           dailyResetSeconds := none, usage := none }

/-- A run that met the daily limit and was resumed with its pool. -/
def pooledResume : List RunEvent :=
  [.load 0 (some "gemini-2.5-flash") none none false none, .enter 0 false,
    .iterate 5 none dailyLimited, .resume false]

/-- The same run taken up the way the budget resume does it. -/
theorem finishedAt_agrees_after_budget_resume :
    ∃ (w : RunWorld) (rows : RunRows), w.rows = some rows ∧ rows.prompts.length = 1 ∧
      (rows.run.finishedAt = none ↔ rows.run.status = .running) := by
  obtain ⟨w, hrun, hrow⟩ := Run.exists_reaches
    (step asciiText defaultLimits insectsAndTrees "llm-google" 1 1)
    (fun _ e => e ≠ .resume false) fresh
    [.load 0 (some "gemini-2.5-flash") none none false none, .enter 0 false,
      .iterate 5 none dailyLimited, .resume true]
    (fun w => w.rows.any fun rows => rows.prompts.length = 1) (by decide)
  simp only [Option.any_eq_true, decide_eq_true_eq] at hrow
  obtain ⟨rows, hrows, hprompts⟩ := hrow
  exact ⟨w, rows, hrows, hprompts, (finishedAt_agrees_until_pool_resume hrun).1 rows hrows⟩

/-- The daily resume of the pool leaves a running row with the time of its park. -/
theorem pool_resume_leaves_park_time :
    ∃ (w : RunWorld) (rows : RunRows),
      Run.Reaches (step asciiText defaultLimits insectsAndTrees "llm-google" 1 1) Run.always fresh
        w ∧ w.rows = some rows ∧
      ¬ (rows.run.finishedAt = none ↔ rows.run.status = .running) := by
  obtain ⟨w, hrun, hrow⟩ := Run.exists_reaches
    (step asciiText defaultLimits insectsAndTrees "llm-google" 1 1) Run.always fresh
    pooledResume (fun w => w.rows.any fun rows =>
      rows.run.status = .running ∧ rows.run.finishedAt = some 5) (by decide)
  simp only [Option.any_eq_true, decide_eq_true_eq] at hrow
  obtain ⟨rows, hrows, hstatus, hfinished⟩ := hrow
  exact ⟨w, rows, hrun, hrows, by simp [hstatus, hfinished]⟩

end RunWorld

end Connections
