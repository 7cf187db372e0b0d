import Connections.Library.Potential
import Connections.Strategy.BoardInvariant
import Connections.Strategy.FinishedAt

/-!
# The run loop ends

Every iteration that does not wait for a per-minute limit uses something up: a solved group takes
words off the board, a failed guess, a malformed reply or a duplicate group counts towards its
limit, and a model error counts towards a limit that only replies set back.
-/

namespace Connections

/-- A limit on consecutive model errors that covers every strategy. -/
def RunLimits.modelErrorLimit (limits : RunLimits) : ℕ := max 1 limits.llmMaxModelErrors

/-- What the replies of a run can still use up. -/
def replyCredit (limits : RunLimits) (run : StrategyRun) (state : LlmRunLoopState) : ℕ :=
  run.availableWords.length + (limits.maxFailedGuesses - state.failedGuessCount) +
    (limits.maxMalformed - state.malformedCount) + (limits.maxDuplicates - state.duplicateCount)

/-- The iterations that a loop has left, waits apart; each reply allows for new model errors. -/
def RunLoop.potential (limits : RunLimits) (loop : RunLoop) : ℕ :=
  replyCredit limits loop.run loop.state * limits.modelErrorLimit +
    (limits.modelErrorLimit - loop.state.consecutiveModelErrors)

/-- The most iterations, waits apart, of one execution on a puzzle with so many groups. -/
def iterationBound (limits : RunLimits) (groups : ℕ) : ℕ :=
  (groupSize * groups + limits.maxFailedGuesses + limits.maxMalformed + limits.maxDuplicates + 1) *
    limits.modelErrorLimit + 1

section Credit

variable {text : TextOps} {limits : RunLimits} {puzzle : Puzzle} {now : ℕ}

/-- A malformed reply that does not end the run uses up credit. -/
theorem countMalformed_credit {run : StrategyRun} {state : LlmRunLoopState}
    (h : (countMalformed limits now run state).1.status = .running) :
    replyCredit limits (countMalformed limits now run state).1
        (countMalformed limits now run state).2 < replyCredit limits run state := by
  unfold countMalformed at h ⊢
  simp only at h ⊢
  split at h
  · cases h
  · rename_i hlimit
    simp only [replyCredit, hlimit, ↓reduceIte]
    omega

/-- Taking a guess of available words off the board leaves fewer. -/
theorem length_filter_lt {available words : List String} (hne : words ≠ [])
    (hwords : ∀ w ∈ words, w ∈ available) :
    (available.filter (· ∉ words)).length < available.length := by
  obtain ⟨w, hw⟩ := List.exists_mem_of_ne_nil words hne
  refine List.length_filter_lt_length_iff_exists.mpr ⟨w, hwords w hw, ?_⟩
  simpa using hw

/-- A submitted guess uses up credit, unless it ends the run. -/
theorem submitGuess_credit {ev : Evaluation} {words : List String} {result : GuessResult}
    (hne : words ≠ []) (hwords : ∀ w ∈ words, w ∈ ev.run.availableWords)
    (h : result = .success ∨
      (submitGuess limits puzzle now ev words result).run.status = .running) :
    replyCredit limits (submitGuess limits puzzle now ev words result).run
        (submitGuess limits puzzle now ev words result).state <
      replyCredit limits ev.run ev.state := by
  have havailable : (submitGuess limits puzzle now ev words result).run.availableWords =
      if result = .success then ev.run.availableWords.filter (· ∉ words)
      else ev.run.availableWords :=
    availableWords_applyGuess ev.run (ev.state.record words result) words result
  by_cases hresult : result = .success
  · have hshorter := length_filter_lt hne hwords
    rw [if_pos hresult] at havailable
    simp only [replyCredit, havailable]
    simp only [submitGuess, LlmRunLoopState.record, hresult, ↓reduceIte]
    omega
  · rw [if_neg hresult] at havailable
    have hrunning := h.resolve_left hresult
    have hlimit : ¬ limits.maxFailedGuesses ≤ ev.state.failedGuessCount + 1 := by
      intro hlimit
      simp only [submitGuess, applyGuess, LlmRunLoopState.record, hresult, hlimit, ↓reduceIte]
        at hrunning
      cases hrunning
    simp only [replyCredit, havailable]
    simp only [submitGuess, LlmRunLoopState.record, hresult, ↓reduceIte]
    omega

variable (text limits puzzle now) in
/-- The evaluation of a reply never adds credit to a run that goes on, and uses some up when it
submits a guess. -/
theorem evaluateProposals_credit (ev : Evaluation) (proposals : List LlmProposal)
    (hne : ∀ proposal ∈ proposals, proposal.words ≠ [])
    (h : (evaluateProposals text limits puzzle now ev proposals).1.run.status = .running) :
    (replyCredit limits (evaluateProposals text limits puzzle now ev proposals).1.run
        (evaluateProposals text limits puzzle now ev proposals).1.state =
          replyCredit limits ev.run ev.state ∧
      (evaluateProposals text limits puzzle now ev proposals).1.state.guessCount =
        ev.state.guessCount) ∨
    replyCredit limits (evaluateProposals text limits puzzle now ev proposals).1.run
        (evaluateProposals text limits puzzle now ev proposals).1.state <
      replyCredit limits ev.run ev.state := by
  revert hne h
  induction ev, proposals using evaluateProposals_induct text limits puzzle now with
  | nil ev => exact fun _ _ => .inl ⟨rfl, rfl⟩
  | skipped ev tagged proposal rest result htagged ih =>
    intro hne h
    have hrest := ih (List.forall_mem_cons.mp hne).2 h
    rwa [htagged.run, htagged.state] at hrest
  | submitted ev tagged proposal rest words caseMismatch next htagged hsubmit hnext =>
    obtain ⟨havailable, hlength⟩ := resolveProposal_submit hsubmit
    have hless : proposal.words ≠ [] →
        (judgeGuess text puzzle ev.state.priorGuesses words = .success ∨
          next.run.status = .running) →
        replyCredit limits next.run next.state < replyCredit limits ev.run ev.state := by
      intro hproposal hgoes
      have hwords : words ≠ [] := by
        intro hempty
        rw [hempty, List.length_nil] at hlength
        exact hproposal (List.length_eq_zero_iff.mp hlength.symm)
      rw [hnext] at hgoes ⊢
      rw [← htagged.run] at havailable ⊢
      rw [← htagged.state] at hgoes ⊢
      exact submitGuess_credit hwords havailable hgoes
    refine ⟨fun hne h => .inr (hless (hne _ List.mem_cons_self) (.inr h)),
      fun result hsuccess _ ih hne h => .inr ?_⟩
    obtain ⟨hproposal, hrest⟩ := List.forall_mem_cons.mp hne
    have hfirst := hless hproposal (.inl hsuccess)
    rcases ih hrest h with ⟨hsame, -⟩ | hmore
    · exact hsame ▸ hfirst
    · exact hmore.trans hfirst

variable (text limits puzzle now) in
/-- What the evaluation of a reply leaves alone. -/
theorem evaluateProposals_waits (ev : Evaluation) (proposals : List LlmProposal) :
    (evaluateProposals text limits puzzle now ev proposals).1.state.consecutiveModelErrors =
        ev.state.consecutiveModelErrors ∧
      (evaluateProposals text limits puzzle now ev proposals).1.state.rateLimitWaitMs =
        ev.state.rateLimitWaitMs := by
  refine evaluateProposals_invariant text limits puzzle now
    (P := fun next => next.state.consecutiveModelErrors = ev.state.consecutiveModelErrors ∧
      next.state.rateLimitWaitMs = ev.state.rateLimitWaitMs) ?_ ?_ ev proposals ⟨rfl, rfl⟩
  · intro before tagged htagged hbefore
    rw [htagged.state]
    exact hbefore
  · intro before words result hbefore
    by_cases hresult : result = .success
    · simp only [submitGuess, LlmRunLoopState.record, hresult, ↓reduceIte]
      exact hbefore
    · simp only [submitGuess, LlmRunLoopState.record, hresult, ↓reduceIte]
      exact hbefore

/-- A reply that does not end the run uses up credit and sets the model errors back. -/
theorem handleReply_credit {loop : RunLoop} {promptType : SolvePromptType}
    {request : List ChatMessage} {data : SolveStepSuccess}
    (h : (handleReply text limits loop now promptType request data).1.run.status = .running) :
    let next := (handleReply text limits loop now promptType request data).1
    replyCredit limits next.run next.state < replyCredit limits loop.run loop.state ∧
      next.state.consecutiveModelErrors = 0 ∧
      next.state.rateLimitWaitMs = loop.state.rateLimitWaitMs := by
  unfold handleReply at h ⊢
  simp only at h ⊢
  split at h
  · rename_i hgroups
    simp only [hgroups, ↓reduceIte]
    exact ⟨countMalformed_credit h, rfl, rfl⟩
  · rename_i hgroups
    simp only [hgroups, ↓reduceIte]
    generalize hentries : buildProposalEntries _ _ _ _ = entries at h ⊢
    have hne : ∀ proposal ∈ entries, proposal.words ≠ [] := by
      intro proposal hproposal hempty
      have hfour := buildProposalEntries_four _ _ _ _ proposal (hentries ▸ hproposal)
      simp [hempty] at hfour
    generalize hev : (⟨_, _, [], data.textIssues⟩ : Evaluation) = ev at h ⊢
    have hrun : replyCredit limits ev.run ev.state = replyCredit limits loop.run loop.state := by
      rw [← hev]
      rfl
    have herrors : ev.state.consecutiveModelErrors = 0 := by rw [← hev]
    have hwait : ev.state.rateLimitWaitMs = loop.state.rateLimitWaitMs := by rw [← hev]
    have hkept := evaluateProposals_waits text limits loop.puzzle now ev entries
    rw [herrors, hwait] at hkept
    have hcount : ev.state.guessCount = loop.state.guessCount := by rw [← hev]
    rw [← hrun, ← hcount]
    rw [← hcount] at h
    have hcredit := evaluateProposals_credit text limits loop.puzzle now ev entries hne
    split at h
    · rename_i hsubmitted
      rw [if_pos hsubmitted]
      have hmalformed := countMalformed_credit h
      refine ⟨?_, hkept⟩
      rcases hcredit hsubmitted.1 with ⟨hsame, -⟩ | hmore
      · exact hsame ▸ hmalformed
      · exact hmalformed.trans hmore
    · rename_i hsubmitted
      rw [if_neg hsubmitted]
      refine ⟨?_, hkept⟩
      rcases hcredit h with ⟨-, hsame⟩ | hmore
      · exact absurd ⟨h, hsame⟩ hsubmitted
      · exact hmore

variable (limits now) in
/-- A failed call that does not end or park the run waits, uses up credit, or adds a model error
below the limit. -/
theorem classifyFailedCall_credit (pool : Option ProviderPoolId)
    (freeTier : Option FreeTierConfig) (failure : SolveStepFailure) (run : StrategyRun)
    (state : LlmRunLoopState)
    (h : (classifyFailedCall limits pool freeTier now failure run state).2.1.status = .running) :
    let next := (classifyFailedCall limits pool freeTier now failure run state).2
    (failure.code = .rateLimited ∧ next.2.rateLimitWaitMs.isSome ∧
        replyCredit limits next.1 next.2 = replyCredit limits run state ∧
        next.2.consecutiveModelErrors = state.consecutiveModelErrors) ∨
      next.2.rateLimitWaitMs = state.rateLimitWaitMs ∧
        ((replyCredit limits next.1 next.2 < replyCredit limits run state ∧
            next.2.consecutiveModelErrors = state.consecutiveModelErrors) ∨
          (replyCredit limits next.1 next.2 = replyCredit limits run state ∧
            next.2.consecutiveModelErrors = state.consecutiveModelErrors + 1 ∧
            next.2.consecutiveModelErrors < limits.modelErrorLimit)) := by
  unfold classifyFailedCall at h ⊢
  cases hcode : failure.code with
  | rateLimitedDaily =>
    simp only [hcode] at h
    cases h
  | rateLimited =>
    simp only [hcode] at h ⊢
    split at h
    · split at h
      · cases h
      · rename_i hpark hstreak
        simp only [hpark, hstreak, ↓reduceIte]
        exact .inl ⟨trivial, rfl, rfl, trivial⟩
    · rename_i hpark
      simp only [hpark]
      exact .inl ⟨trivial, rfl, rfl, rfl⟩
  | modelError =>
    simp only [hcode] at h ⊢
    generalize hmax : (if pool.getD .openai = .openai then 1 else limits.llmMaxModelErrors) =
      maxModelErrors at h ⊢
    have hle : maxModelErrors ≤ limits.modelErrorLimit := by
      rw [← hmax, RunLimits.modelErrorLimit]
      split <;> omega
    split at h
    · cases h
    · rename_i hlimit
      simp only [hlimit, ↓reduceIte]
      exact .inr ⟨trivial, .inr ⟨rfl, trivial, by omega⟩⟩
  | duplicateGroup =>
    simp only [hcode] at h ⊢
    split at h
    · cases h
    · rename_i hlimit
      simp only [hlimit, ↓reduceIte, replyCredit]
      exact .inr ⟨trivial, .inl ⟨by omega, trivial⟩⟩
  | invalidGroup =>
    simp only [hcode] at h ⊢
    exact .inr ⟨rfl, .inl ⟨countMalformed_credit h, rfl⟩⟩

end Credit

/-- A call that failed on a per-minute limit. -/
def SolveStepOutcome.rateLimited : SolveStepOutcome → Prop
  | ok _ => False
  | error failure => failure.code = .rateLimited

/-- What holds of a loop between two iterations. -/
structure RunLoop.Going (limits : RunLimits) (loop : RunLoop) : Prop where
  running : loop.run.status = .running
  errors : loop.state.consecutiveModelErrors < limits.modelErrorLimit
  waited : loop.state.rateLimitWaitMs = none

/-- An iteration that lets the run go on waits for a per-minute limit or lowers the potential. -/
theorem runIteration_potential {text : TextOps} {limits : RunLimits} {loop next : RunLoop}
    {now : ℕ} {reservation : Option ℕ} {outcome : SolveStepOutcome} {batch : FlushBatch}
    {holds : List HoldRequest} (hgoing : loop.Going limits)
    (h : runIteration text limits loop now reservation outcome = .flush next batch holds)
    (hrunning : next.run.status = .running) :
    next.state.consecutiveModelErrors < limits.modelErrorLimit ∧
      next.potential limits + (if next.state.rateLimitWaitMs.isSome then 0 else 1) ≤
        loop.potential limits ∧
      (next.state.rateLimitWaitMs.isSome = true → outcome.rateLimited) := by
  have herrors := hgoing.errors
  have hwaited := hgoing.waited
  -- A credit less pays for the model errors that a reply sets back.
  have hless : ∀ credit, credit < replyCredit limits loop.run loop.state →
      credit * limits.modelErrorLimit + limits.modelErrorLimit ≤
        replyCredit limits loop.run loop.state * limits.modelErrorLimit := by
    intro credit hcredit
    have hmul := Nat.mul_le_mul_right limits.modelErrorLimit (Nat.succ_le_of_lt hcredit)
    rwa [Nat.succ_mul] at hmul
  unfold runIteration at h
  split at h
  · cases h
  · cases outcome with
    | ok data =>
      simp only [IterationResult.flush.injEq] at h
      obtain ⟨hnext, -, -⟩ := h
      have hreply := handleReply_credit (hnext ▸ hrunning)
      simp only [hnext] at hreply
      obtain ⟨hcredit, hreset, hwait⟩ := hreply
      have hmul := hless _ hcredit
      rw [hwaited] at hwait
      refine ⟨by omega, ?_, by simp [hwait]⟩
      simp only [RunLoop.potential, hreset, hwait, Option.isSome_none, Bool.false_eq_true,
        ↓reduceIte]
      omega
    | error failure =>
      simp only [IterationResult.flush.injEq] at h
      obtain ⟨hnext, -, -⟩ := h
      have hfailed := classifyFailedCall_credit limits now (providerPool loop.run.strategyName)
        ((providerPool loop.run.strategyName).bind (·.freeTier)) failure loop.run loop.state
        (by rw [← hnext] at hrunning; exact hrunning)
      have hstate : (classifyFailedCall limits (providerPool loop.run.strategyName)
          ((providerPool loop.run.strategyName).bind (·.freeTier)) now failure loop.run
          loop.state).2 = (next.run, next.state) := by
        rw [← hnext]
        rfl
      simp only [hstate, hwaited] at hfailed
      rcases hfailed with ⟨hcode, hwait, hcredit, hsame⟩ |
        ⟨hwait, ⟨hcredit, hsame⟩ | ⟨hcredit, hmore, hlimit⟩⟩
      · refine ⟨hsame ▸ herrors, ?_, fun _ => hcode⟩
        simp only [RunLoop.potential, hwait, hcredit, hsame, ↓reduceIte]
        omega
      · have hmul := hless _ hcredit
        refine ⟨hsame ▸ herrors, ?_, by simp [hwait]⟩
        simp only [RunLoop.potential, hwait, hsame, Option.isSome_none, Bool.false_eq_true,
          ↓reduceIte]
        omega
      · refine ⟨hlimit, ?_, by simp [hwait]⟩
        simp only [RunLoop.potential, hwait, hcredit, hmore, Option.isSome_none,
          Bool.false_eq_true, ↓reduceIte]
        omega

/-! ### The words of a run -/

section Words

variable {text : TextOps} {limits : RunLimits} {now : ℕ}

variable (text limits now) in
theorem evaluateProposals_words_le (puzzle : Puzzle) (ev : Evaluation)
    (proposals : List LlmProposal) :
    (evaluateProposals text limits puzzle now ev proposals).1.run.availableWords.length ≤
      ev.run.availableWords.length := by
  refine evaluateProposals_invariant text limits puzzle now
    (P := fun next => next.run.availableWords.length ≤ ev.run.availableWords.length) ?_ ?_ ev
    proposals (Nat.le_refl _)
  · intro before tagged htagged hbefore
    rwa [htagged.run]
  · intro before words result hbefore
    rw [submitGuess, availableWords_applyGuess]
    split
    · exact (List.length_filter_le _ _).trans hbefore
    · exact hbefore

variable (text limits now) in
theorem handleReply_words_le (loop : RunLoop) (promptType : SolvePromptType)
    (request : List ChatMessage) (data : SolveStepSuccess) :
    (handleReply text limits loop now promptType request data).1.run.availableWords.length ≤
      loop.run.availableWords.length := by
  unfold handleReply
  simp only
  split
  · rw [(countMalformed_run limits now _ _).availableWords]
  · split
    · rw [(countMalformed_run limits now _ _).availableWords]
      exact evaluateProposals_words_le text limits now loop.puzzle _ _
    · exact evaluateProposals_words_le text limits now loop.puzzle _ _

/-- No iteration puts words back on the board. -/
theorem runIteration_words_le {loop next : RunLoop} {reservation : Option ℕ}
    {outcome : SolveStepOutcome} {batch : FlushBatch} {holds : List HoldRequest}
    (h : runIteration text limits loop now reservation outcome = .flush next batch holds) :
    next.run.availableWords.length ≤ loop.run.availableWords.length := by
  unfold runIteration at h
  split at h
  · cases h
  · cases outcome with
    | ok data =>
      cases h
      exact handleReply_words_le text limits now loop _ _ data
    | error failure =>
      cases h
      exact Nat.le_of_eq
        (congrArg List.length (classifyFailedCall_run limits now _ _ _ _ _).availableWords)

end Words

namespace RunWorld

section Runs

variable {text : TextOps} {limits : RunLimits} {puzzle : Puzzle} {strategyName : String}
  {runId trialNumber : ℕ}

/-- A run never has more words left than its board has. -/
structure WordsFit (puzzle : Puzzle) (w : RunWorld) : Prop where
  stored : ∀ rows, w.rows = some rows → rows.run.availableWords.length ≤ puzzle.boardWords.length
  worker : ∀ worker, w.worker = some worker →
    worker.run.availableWords.length ≤ puzzle.boardWords.length

theorem wordsFit_fresh : WordsFit puzzle fresh where
  stored := by simp [fresh]
  worker := by simp [fresh]

/-- Every step keeps the words on the board. -/
theorem wordsFit_step {w w' : RunWorld} {e : RunEvent} (hw : WordsFit puzzle w)
    (hstep : step text limits puzzle strategyName runId trialNumber w e = some w') :
    WordsFit puzzle w' := by
  cases step_cases hstep with
  | created now model contextWindow budgetTier manualRetry maxOutputTokens hworker hrows =>
    have hlength := (computeInitialWordOrder_perm text puzzle strategyName).length_eq
    refine ⟨?_, ?_⟩
    · rintro _ ⟨⟩
      exact Nat.le_of_eq hlength
    · rintro _ ⟨⟩
      exact Nat.le_of_eq hlength
  | loaded rows now model contextWindow budgetTier manualRetry maxOutputTokens hworker hrows =>
    refine ⟨hw.stored, ?_⟩
    rintro _ ⟨⟩
    exact hw.stored rows hrows
  | enteredTerminal => exact ⟨hw.stored, by simp⟩
  | enteredHeld rows run model manualRetry maxOutputTokens now held hworker hrows hstatus =>
    refine ⟨?_, by simp⟩
    rintro _ ⟨⟩
    have hloaded := hw.worker _ hworker
    simpa [saveRun, StrategyRun.finish, applyOneOffWordFixups, RunWorker.run] using hloaded
  | enteredLoop rows run model manualRetry maxOutputTokens now held hworker hrows hstatus =>
    refine ⟨hw.stored, ?_⟩
    rintro _ ⟨⟩
    have hloaded := hw.worker _ hworker
    simp only [RunWorker.run, rebuiltLoop]
    split <;> simpa [applyOneOffWordFixups, RunWorker.run] using hloaded
  | parked rows loop now reservation outcome run hworker hrows hparked =>
    refine ⟨?_, by simp⟩
    rintro _ ⟨⟩
    have hloop := hw.worker _ hworker
    rw [runIteration_parked_run text limits hparked]
    exact hloop
  | flushed rows loop next batch holds now reservation outcome hworker hrows hflush =>
    have hnext := (runIteration_words_le hflush).trans (hw.worker _ hworker)
    refine ⟨?_, ?_⟩
    · rintro _ ⟨⟩
      simp only [flushBatch, runIteration_batch_run _ _ hflush]
      exact hnext
    · intro worker hworker'
      obtain ⟨-, rfl⟩ := worker_flushed hworker'
      exact hnext
  | crashed => exact ⟨hw.stored, by simp⟩
  | flipped rows run _ hworker hrows hwords =>
    refine ⟨?_, by simp [hworker]⟩
    rintro _ ⟨⟩
    rw [hwords]
    exact hw.stored rows hrows

/-! ### One execution of the loop -/

/-- What one iteration meets. -/
structure Iteration where
  now : ℕ
  reservation : Option ℕ
  outcome : SolveStepOutcome

/-- One iteration of the loop. -/
def iterate (text : TextOps) (limits : RunLimits) (puzzle : Puzzle) (strategyName : String)
    (runId trialNumber : ℕ) (w : RunWorld) (iteration : Iteration) : Option RunWorld :=
  step text limits puzzle strategyName runId trialNumber w
    (.iterate iteration.now iteration.reservation iteration.outcome)

/-- The last iteration ended in a wait for a per-minute limit. -/
def waits (w : RunWorld) : Bool :=
  w.worker.isSome && w.lastFlushed.any (·.rateLimitWaitMs.isSome)

/-- A worker in its loop, or gone with the run ended or parked. -/
structure Executing (limits : RunLimits) (w : RunWorld) : Prop where
  rows : w.rows.isSome
  worker : w.worker = none ∨ w.loop?.isSome
  going : ∀ loop, w.loop? = some loop → loop.Going limits
  stopped : ∀ rows, w.rows = some rows → w.worker = none →
    rows.run.status ∈ StrategyRunStatus.rateLimitedDaily :: terminalStatuses

/-- The iterations that are left, waits apart. -/
def potential (limits : RunLimits) (w : RunWorld) : ℕ :=
  match w.loop? with
  | some loop => loop.potential limits + 1
  | none => 0

theorem stopped_of_not_running {status : StrategyRunStatus} (h : status ≠ .running) :
    status ∈ StrategyRunStatus.rateLimitedDaily :: terminalStatuses := by
  cases status <;> simp [terminalStatuses] at h ⊢

/-- What one iteration does to an execution. -/
theorem iterate_executing {w w' : RunWorld} {iteration : Iteration}
    (hw : Executing limits w)
    (hstep : iterate text limits puzzle strategyName runId trialNumber w iteration = some w') :
    Executing limits w' ∧ potential limits w' + (if waits w' then 0 else 1) ≤ potential limits w ∧
      (waits w' = true → iteration.outcome.rateLimited) := by
  have hcase : StepCase text limits puzzle strategyName runId trialNumber w
      (.iterate iteration.now iteration.reservation iteration.outcome) w' := step_cases hstep
  cases hcase with
  | parked rows loop _ _ _ run hworker hrows hparked =>
    have hloop : w.loop? = some loop := loop?_eq_some.mpr hworker
    refine ⟨⟨rfl, .inl rfl, by simp [loop?], ?_⟩, ?_, by simp [waits]⟩
    · rintro _ ⟨⟩ -
      refine stopped_of_not_running ?_
      rw [runIteration_parked_run text limits hparked]
      simp [saveRun, StrategyRun.finish]
    · simp [potential, waits, loop?, hworker]
  | flushed rows loop next batch holds _ _ _ hworker hrows hflush =>
    have hloop : w.loop? = some loop := loop?_eq_some.mpr hworker
    have hgoing := hw.going loop hloop
    by_cases hrunning : next.run.status = .running
    · obtain ⟨herrors, hfalls, hwaits⟩ := runIteration_potential hgoing hflush hrunning
      simp only [hrunning, ↓reduceIte]
      refine ⟨⟨rfl, .inr rfl, ?_, by simp⟩, ?_, ?_⟩
      · rintro _ ⟨⟩
        exact ⟨hrunning, herrors, rfl⟩
      · simp only [potential, loop?, hworker, waits, Option.isSome_some, Option.any_some,
          Bool.true_and]
        have hsame : RunLoop.potential limits { next with
            state := { next.state with rateLimitWaitMs := none } } = next.potential limits := rfl
        rw [hsame]
        omega
      · intro hwait
        exact hwaits (by simpa [waits] using hwait)
    · simp only [hrunning, ↓reduceIte]
      refine ⟨⟨rfl, .inl rfl, by simp [loop?], ?_⟩, ?_, by simp [waits]⟩
      · rintro _ ⟨⟩ -
        refine stopped_of_not_running ?_
        simp only [flushBatch, runIteration_batch_run _ _ hflush]
        exact hrunning
      · simp [potential, waits, loop?, hworker]
  | flipped rows run _ hworker =>
    simp [iterate, step, hworker] at hstep

/-- An iteration is only refused when the worker has left the loop. -/
theorem worker_of_refused {w : RunWorld} {iteration : Iteration} (hw : Executing limits w)
    (hrefused : iterate text limits puzzle strategyName runId trialNumber w iteration = none) :
    w.worker = none := by
  rcases hw.worker with hnone | hloop
  · exact hnone
  · obtain ⟨loop, hloop⟩ := Option.isSome_iff_exists.mp hloop
    obtain ⟨rows, hrows⟩ := Option.isSome_iff_exists.mp hw.rows
    simp only [iterate, step, loop?_eq_some.mp hloop, hrows] at hrefused
    split at hrefused <;> cases hrefused

/-- The loop's potential measures every execution. -/
theorem executing_potential : Run.Potential
    (iterate text limits puzzle strategyName runId trialNumber) waits (Executing limits)
    (potential limits) where
  keeps _ _ _ hw hstep := (iterate_executing hw hstep).1
  falls _ _ _ hw hstep := (iterate_executing hw hstep).2.1

/-- A worker that enters the loop starts with an execution within the bound. -/
theorem entered_executing {before w : RunWorld} {now : ℕ} {held : Bool} {loop : RunLoop}
    (hfit : WordsFit puzzle before)
    (hfour : ∀ group ∈ puzzle.answerGroups, group.members.length = groupSize)
    (henter : step text limits puzzle strategyName runId trialNumber before (.enter now held) =
      some w)
    (hloop : w.worker = some (.looping loop)) :
    Executing limits w ∧ potential limits w ≤ iterationBound limits puzzle.answerGroups.length := by
  have hboard : puzzle.boardWords.length = groupSize * puzzle.answerGroups.length := by
    rw [← puzzle.flatten_groupWords]
    have huniform : ∀ g ∈ puzzle.groupWords, g.length = groupSize := by
      intro g hg
      obtain ⟨group, hgroup, rfl⟩ := List.mem_map.mp hg
      rw [AnswerGroup.words, List.length_map]
      exact hfour group hgroup
    rw [Partition.length_flatten_of_uniform huniform, Puzzle.groupWords, List.length_map]
  have hcase := step_cases henter
  have hafter := (wordsFit_step hfit henter).worker _ hloop
  cases hcase with
  | enteredTerminal => cases hloop
  | enteredHeld => cases hloop
  | flipped rows run _ hworker => simp [hworker] at hloop
  | enteredLoop rows run model manualRetry maxOutputTokens _ _ hworker hrows hstatus =>
    cases hloop
    rw [hboard] at hafter
    have hlimit : 0 < limits.modelErrorLimit := by
      rw [RunLimits.modelErrorLimit]
      omega
    refine ⟨⟨by simp [hrows], .inr rfl, ?_, by simp⟩, ?_⟩
    · rintro _ ⟨⟩
      refine ⟨?_, hlimit, rfl⟩
      cases hs : run.status <;>
        simp [hs, terminalStatuses] at hstatus <;>
        simp [rebuiltLoop, applyOneOffWordFixups, hs]
    · simp only [potential, loop?, iterationBound, RunLoop.potential]
      refine Nat.succ_le_succ ?_
      rw [Nat.succ_mul]
      refine Nat.add_le_add (Nat.mul_le_mul_right _ ?_) (Nat.sub_le _ _)
      simp only [RunWorker.run] at hafter
      simp only [replyCredit]
      omega

/-- Once a worker has entered its loop, the iterations that do not wait for a per-minute limit are
at most the bound, in every endless order of outcomes; and unless all outcomes from some point on
are per-minute limits, the loop is left with the run ended or parked. -/
theorem loop_ends {before w : RunWorld} {now : ℕ} {held : Bool} {loop : RunLoop}
    (hfour : ∀ group ∈ puzzle.answerGroups, group.members.length = groupSize)
    (hrun : Run.Reaches (step text limits puzzle strategyName runId trialNumber) Run.always fresh
      before)
    (henter : step text limits puzzle strategyName runId trialNumber before (.enter now held) =
      some w)
    (hloop : w.worker = some (.looping loop)) (iterations : ℕ → Iteration) :
    (∀ n, Run.busySteps (iterate text limits puzzle strategyName runId trialNumber) waits w
        ((List.range n).map iterations) ≤ iterationBound limits puzzle.answerGroups.length) ∧
      ((∀ m, ∃ n, m ≤ n ∧ ¬ (iterations n).outcome.rateLimited) →
        ∃ n w' rows, Run.after (iterate text limits puzzle strategyName runId trialNumber) w
            iterations n = some w' ∧ w'.worker = none ∧ w'.rows = some rows ∧
          rows.run.status ∈ StrategyRunStatus.rateLimitedDaily :: terminalStatuses) := by
  have hfit : WordsFit puzzle before :=
    hrun.invariant wordsFit_fresh fun _ _ _ hinv _ hstep => wordsFit_step hinv hstep
  obtain ⟨hexecuting, hbound⟩ := entered_executing hfit hfour henter hloop
  refine ⟨fun n => (executing_potential.busySteps_le hexecuting _).trans hbound, ?_⟩
  intro houtcomes
  obtain ⟨n, w', hafter, hw', hrefused⟩ := executing_potential.exists_refused
    (fun iteration : Iteration => iteration.outcome.rateLimited)
    (fun _ _ _ hinv hstep => (iterate_executing hinv hstep).2.2) hexecuting houtcomes
  have hworker := worker_of_refused hw' hrefused
  obtain ⟨rows, hrows⟩ := Option.isSome_iff_exists.mp hw'.rows
  exact ⟨n, w', rows, hafter, hworker, hrows, hw'.stopped rows hrows hworker⟩

/-- A model that never answers in the asked format is given up on. -/
theorem loop_ends_without_answers :
    let malformed : ℕ → Iteration := fun now => ⟨now, none, plainReply []⟩
    ∃ w n w' rows, Run.after (iterate asciiText defaultLimits insectsAndTrees "llm-openai" 1 1) w
        malformed n = some w' ∧ w'.worker = none ∧ w'.rows = some rows ∧
      rows.run.status ∈ StrategyRunStatus.rateLimitedDaily :: terminalStatuses := by
  intro malformed
  let advance := step asciiText defaultLimits insectsAndTrees "llm-openai" 1 1
  obtain ⟨before, hrun, henters⟩ := Run.exists_reaches advance Run.always fresh
    [.load 0 (some "gpt-5-mini") none none false none]
    (fun w => (advance w (.enter 0 false)).any fun w' => w'.loop?.isSome) (by decide)
  obtain ⟨w, henter, hlooping⟩ := (Option.any_eq_true _ _).mp henters
  obtain ⟨loop, hloop⟩ := Option.isSome_iff_exists.mp hlooping
  have hends := (loop_ends (by decide) hrun henter (loop?_eq_some.mp hloop) malformed).2
    fun m => ⟨m, Nat.le_refl m, id⟩
  exact ⟨w, hends⟩

end Runs

end RunWorld

end Connections
