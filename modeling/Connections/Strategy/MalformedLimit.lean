import Connections.Strategy.FinishedAt

/-!
# The limit on malformed replies

The limit is documented as one on consecutive replies, while the counter behind it is never set
back within an execution: it counts every reply since the run was last picked up from which no
guess was submitted.  A run therefore ends by the documented rule exactly when its usable replies
all came before its unusable ones.
-/

namespace Connections

/-- Whether each reply of a run was usable, before the run was last picked up and since. -/
structure ReplyLog where
  earlier : List Bool
  current : List Bool
  deriving DecidableEq, Repr

/-- All replies of a run. -/
def ReplyLog.replies (log : ReplyLog) : List Bool := log.earlier ++ log.current

/-- The log after a call. -/
def ReplyLog.after (log : ReplyLog) (reply submitted : Bool) : ReplyLog :=
  if reply = true then { log with current := log.current ++ [submitted] } else log

/-- The model replied; a reply without any group may also be rejected by the orchestrator. -/
def SolveStepOutcome.isReply : SolveStepOutcome → Bool
  | ok _ => true
  | error failure => failure.code = .invalidGroup

/-- No usable reply comes after an unusable one. -/
def UsableFirst (replies : List Bool) : Prop :=
  replies.Pairwise fun earlier later => later = true → earlier = true

instance (replies : List Bool) : Decidable (UsableFirst replies) :=
  inferInstanceAs (Decidable (replies.Pairwise _))

theorem count_false_eq_zero {replies : List Bool} :
    replies.count false = 0 ↔ ∀ usable ∈ replies, usable = true := by
  rw [List.count_eq_zero]
  constructor
  · intro h usable husable
    cases usable with
    | true => rfl
    | false => exact absurd husable h
  · intro h hmem
    cases h false hmem

/-- With the usable replies first, as many last replies are unusable as there are at all. -/
theorem UsableFirst.last {replies : List Bool} (h : UsableFirst replies) :
    ∀ usable ∈ replies.reverse.take (replies.count false), usable = false := by
  induction replies with
  | nil => simp
  | cons first rest ih =>
    obtain ⟨hfirst, hrest⟩ := List.pairwise_cons.mp h
    rw [List.reverse_cons]
    cases first with
    | true =>
      have hcount : (true :: rest).count false = rest.count false := by simp
      have hle : rest.count false ≤ rest.reverse.length := by
        rw [List.length_reverse]
        exact List.count_le_length
      rw [hcount, List.take_append_of_le_length hle]
      exact ih hrest
    | false =>
      intro usable husable
      have hmem := List.mem_of_mem_take husable
      rw [List.mem_append, List.mem_reverse, List.mem_singleton] at hmem
      rcases hmem with hmem | rfl
      · cases usable with
        | false => rfl
        | true => cases hfirst true hmem rfl
      · rfl

/-- Unusable last replies, as many as there are unusable ones at all, have only usable ones before
them. -/
theorem usableFirst_of_last {replies : List Bool}
    (h : ∀ usable ∈ replies.reverse.take (replies.count false), usable = false) :
    UsableFirst replies := by
  generalize hn : replies.count false = n at h
  have hsplit := List.take_append_drop n replies.reverse
  have hlength : (replies.reverse.take n).length = n := by
    rw [List.length_take, List.length_reverse, ← hn]
    exact Nat.min_eq_left List.count_le_length
  have htake : (replies.reverse.take n).count false = n := by
    rw [List.count_eq_length.mpr fun usable husable => (h usable husable).symm, hlength]
  have hdrop : ∀ usable ∈ replies.reverse.drop n, usable = true := by
    refine count_false_eq_zero.mp ?_
    have hcount := congrArg (List.count false) hsplit
    rw [List.count_append, List.count_reverse, hn, htake] at hcount
    omega
  have hreplies :
      replies = (replies.reverse.drop n).reverse ++ (replies.reverse.take n).reverse := by
    rw [← List.reverse_append, hsplit, List.reverse_reverse]
  rw [hreplies]
  refine List.pairwise_append.mpr ⟨?_, ?_, ?_⟩
  · refine List.pairwise_of_forall_mem_list fun earlier hearlier _ _ _ => ?_
    exact hdrop earlier (List.mem_reverse.mp hearlier)
  · refine List.pairwise_of_forall_mem_list fun _ _ later hlater htrue => ?_
    rw [h later (List.mem_reverse.mp hlater)] at htrue
    cases htrue
  · intro earlier hearlier _ _ _
    exact hdrop earlier (List.mem_reverse.mp hearlier)

/-! ### One iteration -/

section Loop

variable {text : TextOps} {limits : RunLimits} {puzzle : Puzzle} {now : ℕ}

variable (text limits puzzle now) in
/-- The evaluation of a reply never ends a run as malformed, and a reply that submits nothing leaves
the run alone. -/
theorem evaluateProposals_run (ev : Evaluation) (proposals : List LlmProposal) :
    let next := (evaluateProposals text limits puzzle now ev proposals).1
    ev.state.guessCount ≤ next.state.guessCount ∧
      (next.state.guessCount = ev.state.guessCount → next.run = ev.run) ∧
      next.state.malformedCount = ev.state.malformedCount ∧
      (ev.run.status ≠ .malformedResponse → next.run.status ≠ .malformedResponse) := by
  induction ev, proposals using evaluateProposals_induct text limits puzzle now with
  | nil ev => exact ⟨Nat.le_refl _, fun _ => rfl, rfl, id⟩
  | skipped ev tagged proposal rest result htagged ih =>
    rw [htagged.run, htagged.state] at ih
    exact ih
  | submitted ev tagged proposal rest words caseMismatch next htagged _ hnext =>
    have hsubmitted : next.state.guessCount = ev.state.guessCount + 1 ∧
        next.state.malformedCount = ev.state.malformedCount ∧
        (ev.run.status ≠ .malformedResponse → next.run.status ≠ .malformedResponse) := by
      rw [hnext, ← htagged.state, ← htagged.run]
      generalize judgeGuess text puzzle tagged.state.priorGuesses words = result
      by_cases hresult : result = .success
      · refine ⟨?_, ?_, fun hstatus => ?_⟩
        · simp only [submitGuess, LlmRunLoopState.record, hresult, ↓reduceIte]
        · simp only [submitGuess, LlmRunLoopState.record, hresult, ↓reduceIte]
        · simp only [submitGuess, applyGuess, hresult, ↓reduceIte]
          split
          · simp
          · exact hstatus
      · refine ⟨?_, ?_, fun hstatus => ?_⟩
        · simp only [submitGuess, LlmRunLoopState.record, hresult, ↓reduceIte]
        · simp only [submitGuess, LlmRunLoopState.record, hresult, ↓reduceIte]
        · simp only [submitGuess, applyGuess, hresult, ↓reduceIte]
          split
          · simp
          · split
            · simp
            · exact hstatus
    obtain ⟨hcount, hmalformed, hstatus⟩ := hsubmitted
    refine ⟨⟨?_, fun hsame => ?_, hmalformed, hstatus⟩, ?_⟩
    · simp only
      omega
    · simp only at hsame
      omega
    · rintro result - - ⟨hle, -, hkept, hrest⟩
      refine ⟨?_, fun hsame => ?_, hkept.trans hmalformed, fun h => hrest (hstatus h)⟩
      · simp only
        omega
      · simp only at hsame
        omega

/-- What a call does to the count of malformed replies. -/
structure CountsReply (limits : RunLimits) (loop next : RunLoop) (reply submitted : Bool) :
    Prop where
  usable : submitted = true → reply = true
  count : next.state.malformedCount =
    loop.state.malformedCount + if reply && !submitted then 1 else 0
  ended : next.run.status = .malformedResponse ↔
    reply = true ∧ submitted = false ∧ limits.maxMalformed ≤ next.state.malformedCount

theorem countMalformed_status {run : StrategyRun} {state : LlmRunLoopState}
    (hstatus : run.status ≠ .malformedResponse) :
    (countMalformed limits now run state).1.status = .malformedResponse ↔
      limits.maxMalformed ≤ (countMalformed limits now run state).2.malformedCount := by
  unfold countMalformed
  simp only
  split
  · rename_i hlimit
    simp [StrategyRun.finish, hlimit]
  · rename_i hlimit
    simp [hstatus, hlimit]

/-- A reply counts as malformed exactly when it submits nothing. -/
theorem handleReply_counts {loop : RunLoop} (hrunning : loop.run.status = .running)
    (promptType : SolvePromptType) (request : List ChatMessage) (data : SolveStepSuccess) :
    let result := handleReply text limits loop now promptType request data
    CountsReply limits loop result.1 true (decide (result.2.guesses ≠ [])) := by
  have hstatus : loop.run.status ≠ .malformedResponse := by
    rw [hrunning]
    decide
  unfold handleReply
  simp only
  split
  · refine ⟨by simp, by simp [countMalformed], ?_⟩
    refine (countMalformed_status ?_).trans ?_
    · exact hstatus
    · simp
  · generalize hentries : buildProposalEntries _ _ _ _ = entries
    generalize hev : (⟨_, _, [], data.textIssues⟩ : Evaluation) = ev
    have hrun : ev.run.status = .running := by
      rw [← hev]
      exact hrunning
    have hcount : loop.state.guessCount = ev.state.guessCount := by rw [← hev]
    have hmalformed : loop.state.malformedCount = ev.state.malformedCount := by rw [← hev]
    have hempty : ev.pendingGuesses = [] := by rw [← hev]
    obtain ⟨-, hsame, hkept, hnot⟩ := evaluateProposals_run text limits loop.puzzle now ev entries
    obtain ⟨guesses, hguesses, hextends⟩ :=
      evaluateProposals_extends text limits loop.puzzle now ev entries
    rw [hempty, List.nil_append] at hguesses
    have hcounted := congrArg RunHistory.guessCount hextends.recorded
    rw [RunHistory.guessCount_foldl] at hcounted
    simp only [LlmRunLoopState.history] at hcounted
    rw [hcount, hguesses]
    rw [← hmalformed] at hkept
    generalize (evaluateProposals text limits loop.puzzle now ev entries).1 = after
      at hsame hkept hnot hcounted ⊢
    have hafter : after.run.status ≠ .malformedResponse := hnot (by rw [hrun]; decide)
    cases guesses with
    | nil =>
      have hunchanged := hsame hcounted
      have hmatch : after.run.status = .running ∧ after.state.guessCount = ev.state.guessCount :=
        ⟨by rw [hunchanged, hrun], hcounted⟩
      rw [if_pos hmatch]
      refine ⟨by simp, by simp [countMalformed, hkept], ?_⟩
      refine (countMalformed_status hafter).trans ?_
      simp
    | cons guess guesses =>
      have hmore : ¬ (after.run.status = .running ∧
          after.state.guessCount = ev.state.guessCount) := by
        rintro ⟨-, hno⟩
        rw [List.length_cons] at hcounted
        omega
      rw [if_neg hmore]
      exact ⟨by simp, by simp [hkept], by simp [hafter]⟩

variable (limits now) in
/-- A failed call counts as malformed exactly when the reply was rejected. -/
theorem classifyFailedCall_counts {run : StrategyRun} (state : LlmRunLoopState)
    (hrunning : run.status = .running) (pool : Option ProviderPoolId)
    (freeTier : Option FreeTierConfig) (failure : SolveStepFailure) :
    let next := (classifyFailedCall limits pool freeTier now failure run state).2
    next.2.malformedCount = state.malformedCount +
        (if (SolveStepOutcome.error failure).isReply then 1 else 0) ∧
      (next.1.status = .malformedResponse ↔ (SolveStepOutcome.error failure).isReply = true ∧
        limits.maxMalformed ≤ next.2.malformedCount) := by
  have hstatus : run.status ≠ .malformedResponse := by
    rw [hrunning]
    decide
  have hreply : (SolveStepOutcome.error failure).isReply =
      decide (failure.code = .invalidGroup) := rfl
  rw [hreply]
  unfold classifyFailedCall
  cases hcode : failure.code with
  | rateLimitedDaily => simp [StrategyRun.finish]
  | rateLimited =>
    simp only
    split
    · split <;> simp [StrategyRun.finish, hstatus]
    · simp [hstatus]
  | modelError =>
    simp only [reduceCtorEq, decide_false, Bool.false_eq_true, ↓reduceIte, Nat.add_zero, true_and,
      false_and, iff_false]
    generalize (if pool.getD .openai = .openai then 1 else limits.llmMaxModelErrors) =
      maxModelErrors
    split <;> simp [StrategyRun.finish, hstatus]
  | duplicateGroup =>
    simp only [reduceCtorEq, decide_false, Bool.false_eq_true, ↓reduceIte, Nat.add_zero, true_and,
      false_and, iff_false]
    split <;> simp [StrategyRun.finish, hstatus]
  | invalidGroup =>
    refine ⟨rfl, ?_⟩
    simp only [decide_true, true_and]
    exact countMalformed_status hstatus

/-- What a flushed iteration does to the count of malformed replies. -/
theorem runIteration_counts {loop next : RunLoop} {reservation : Option ℕ}
    {outcome : SolveStepOutcome} {batch : FlushBatch} {holds : List HoldRequest}
    (hrunning : loop.run.status = .running)
    (h : runIteration text limits loop now reservation outcome = .flush next batch holds) :
    CountsReply limits loop next outcome.isReply (decide (batch.guesses ≠ [])) ∧
      batch.prompts.length = 1 := by
  unfold runIteration at h
  split at h
  · cases h
  · cases outcome with
    | ok data =>
      cases h
      exact ⟨handleReply_counts hrunning _ _ data, rfl⟩
    | error failure =>
      simp only [IterationResult.flush.injEq] at h
      obtain ⟨hnext, hbatch, -⟩ := h
      have hcounts := classifyFailedCall_counts limits now loop.state hrunning
        (providerPool loop.run.strategyName)
        ((providerPool loop.run.strategyName).bind (·.freeTier)) failure
      have hstate : (classifyFailedCall limits (providerPool loop.run.strategyName)
          ((providerPool loop.run.strategyName).bind (·.freeTier)) now failure loop.run
          loop.state).2 = (next.run, next.state) := by
        rw [← hnext]
        rfl
      simp only [hstate] at hcounts
      have hguesses : batch.guesses = [] := by
        rw [← hbatch]
        rfl
      refine ⟨⟨by simp [hguesses], by simp [hguesses, hcounts.1],
        by simp [hguesses, hcounts.2]⟩, ?_⟩
      rw [← hbatch]
      rfl

end Loop

namespace RunWorld

/-- Note a reply in the log, and whether the guesses have grown by it; an iteration that was parked
for lack of budget made no call. -/
def logReply (w w' : RunWorld) (log : ReplyLog) : RunEvent → ReplyLog
  | .enter _ _ => if w'.loop?.isSome then ⟨log.earlier ++ log.current, []⟩ else log
  | .iterate _ _ outcome =>
    log.after (outcome.isReply && w.callCount < w'.callCount)
      (w.guesses.length < w'.guesses.length)
  | _ => log

section Runs

variable (text : TextOps) (limits : RunLimits) (puzzle : Puzzle) (strategyName : String)
  (runId trialNumber : ℕ)

/-- A step of the run, with its replies logged. -/
def loggedStep (s : RunWorld × ReplyLog) (e : RunEvent) : Option (RunWorld × ReplyLog) :=
  (step text limits puzzle strategyName runId trialNumber s.1 e).map fun w' =>
    (w', logReply s.1 w' s.2 e)

variable {text limits puzzle strategyName runId trialNumber}

/-- The log refuses nothing: every run has one. -/
theorem logged_of_reaches {w : RunWorld}
    (h : Run.Reaches (step text limits puzzle strategyName runId trialNumber) Run.always fresh w) :
    ∃ log, Run.Reaches (loggedStep text limits puzzle strategyName runId trialNumber) Run.always
      (fresh, ⟨[], []⟩) (w, log) := by
  induction h with
  | start => exact ⟨_, .start⟩
  | snoc _ _ hstep ih =>
    obtain ⟨log, hlog⟩ := ih
    exact ⟨_, hlog.snoc trivial (by rw [loggedStep, hstep, Option.map_some])⟩

/-- The counter is the number of unusable replies since the run was last picked up, and an ended
run has just had the last one it is allowed. -/
structure MalformedCounted (limits : RunLimits) (w : RunWorld) (log : ReplyLog) : Prop where
  loaded : ∀ rows run model manualRetry maxOutputTokens, w.rows = some rows →
    w.worker = some (.loaded run model manualRetry maxOutputTokens) → rows.run = run
  looping : ∀ loop, w.worker = some (.looping loop) → loop.run.status = .running ∧
    loop.state.malformedCount = log.current.count false ∧
    log.current.count false ≤ limits.maxMalformed - 1
  ended : ∀ rows, w.rows = some rows → rows.run.status = .malformedResponse →
    ∃ before, log.current = before ++ [false] ∧ before.count false = limits.maxMalformed - 1

theorem malformedCounted_fresh : MalformedCounted limits fresh ⟨[], []⟩ where
  loaded rows _ _ _ _ h := by cases h
  looping loop h := by cases h
  ended rows h := by cases h

/-- Without a worker only the end of a run says something about its log. -/
theorem MalformedCounted.closed {w : RunWorld} {log : ReplyLog} (hworker : w.worker = none)
    (h : ∀ rows, w.rows = some rows → rows.run.status = .malformedResponse →
      ∃ before, log.current = before ++ [false] ∧ before.count false = limits.maxMalformed - 1) :
    MalformedCounted limits w log where
  loaded _ _ _ _ _ _ h' := by rw [hworker] at h'; cases h'
  looping _ h' := by rw [hworker] at h'; cases h'
  ended := h

theorem logReply_closed (w w' : RunWorld) (log : ReplyLog) (e : RunEvent)
    (hworker : w'.worker = none) (hcalls : w'.callCount = w.callCount) :
    logReply w w' log e = log := by
  cases e with
  | enter => simp [logReply, loop?, hworker]
  | iterate => simp [logReply, ReplyLog.after, hcalls]
  | _ => rfl

/-- A call keeps the counter of a running loop, and ends the run at the limit. -/
theorem counted_after {loop next : RunLoop} {log : ReplyLog} {reply submitted : Bool}
    (hcount : loop.state.malformedCount = log.current.count false)
    (hle : log.current.count false ≤ limits.maxMalformed - 1)
    (h : CountsReply limits loop next reply submitted) :
    (next.run.status = .running → next.state.malformedCount =
        (log.after reply submitted).current.count false ∧
      (log.after reply submitted).current.count false ≤ limits.maxMalformed - 1) ∧
    (next.run.status = .malformedResponse → ∃ before,
      (log.after reply submitted).current = before ++ [false] ∧
        before.count false = limits.maxMalformed - 1) := by
  have hnext := h.count
  have hended := h.ended
  cases reply with
  | false =>
    simp only [Bool.false_and, Bool.false_eq_true, ↓reduceIte, Nat.add_zero, false_and,
      iff_false] at hnext hended
    simp only [ReplyLog.after, Bool.false_eq_true, ↓reduceIte]
    exact ⟨fun _ => ⟨hnext.trans hcount, hle⟩, fun hstatus => absurd hstatus hended⟩
  | true =>
    cases submitted with
    | true =>
      simp only [Bool.not_true, Bool.and_false, Bool.false_eq_true, ↓reduceIte, Nat.add_zero,
        Bool.true_eq_false, false_and, and_false, iff_false] at hnext hended
      simp only [ReplyLog.after, ↓reduceIte, List.count_append, List.count_singleton]
      exact ⟨fun _ => ⟨hnext.trans hcount, hle⟩, fun hstatus => absurd hstatus hended⟩
    | false =>
      simp only [Bool.not_false, Bool.and_true, ↓reduceIte, true_and] at hnext hended
      simp only [ReplyLog.after, ↓reduceIte, List.count_append, List.count_singleton,
        BEq.rfl]
      constructor
      · intro hrunning
        have hbelow : ¬ limits.maxMalformed ≤ next.state.malformedCount := by
          rw [← hended, hrunning]
          decide
        exact ⟨by omega, by omega⟩
      · intro hmalformed
        have hlimit := hended.mp hmalformed
        exact ⟨log.current, rfl, by omega⟩

/-- Every step keeps the replies counted. -/
theorem malformedCounted_step {w w' : RunWorld} {log : ReplyLog} {e : RunEvent}
    (hw : MalformedCounted limits w log)
    (hstep : step text limits puzzle strategyName runId trialNumber w e = some w') :
    MalformedCounted limits w' (logReply w w' log e) := by
  cases step_cases hstep with
  | created now model contextWindow budgetTier manualRetry maxOutputTokens hworker hrows =>
    refine ⟨?_, by simp, ?_⟩
    · rintro _ _ _ _ _ ⟨⟩ ⟨⟩
      rfl
    · rintro _ ⟨⟩ hended
      simp [createdRun] at hended
  | loaded rows now model contextWindow budgetTier manualRetry maxOutputTokens hworker hrows =>
    refine ⟨?_, by simp, hw.ended⟩
    rintro rows' _ _ _ _ hrows' ⟨⟩
    rw [Option.some.inj (hrows.symm.trans hrows')]
  | enteredTerminal rows run model manualRetry maxOutputTokens now held hworker hrows hstatus =>
    exact .closed rfl hw.ended
  | enteredHeld rows run model manualRetry maxOutputTokens now held hworker hrows hstatus =>
    refine .closed rfl ?_
    rintro _ ⟨⟩ hended
    simp [saveRun, StrategyRun.finish] at hended
  | enteredLoop rows run model manualRetry maxOutputTokens now held hworker hrows hstatus =>
    refine ⟨by simp, ?_, ?_⟩
    · rintro _ ⟨⟩
      refine ⟨?_, rfl, Nat.zero_le _⟩
      cases hs : run.status <;>
        simp [hs, terminalStatuses] at hstatus <;>
        simp [rebuiltLoop, applyOneOffWordFixups, hs]
    · intro rows' hrows' hended
      rw [hw.loaded rows' _ _ _ _ hrows' hworker] at hended
      exact absurd hended fun h => hstatus (by rw [h]; decide)
  | parked rows loop now reservation outcome run hworker hrows hparked =>
    refine .closed rfl ?_
    rintro _ ⟨⟩ hended
    rw [runIteration_parked_run text limits hparked] at hended
    simp [saveRun, StrategyRun.finish] at hended
  | flushed rows loop next batch holds now reservation outcome hworker hrows hflush =>
    obtain ⟨hrunning, hcount, hle⟩ := hw.looping loop hworker
    obtain ⟨hcounts, hcalls⟩ := runIteration_counts hrunning hflush
    generalize hw' : (⟨some (flushBatch rows batch now), _, some next.state⟩ : RunWorld) = w'
    have hrows' : w'.rows = some (flushBatch rows batch now) := by rw [← hw']
    have hworker' : ∀ loop', w'.worker = some (.looping loop') → next.run.status = .running ∧
        loop'.run = next.run ∧ loop'.state.malformedCount = next.state.malformedCount := by
      intro loop' hloop'
      rw [← hw'] at hloop'
      obtain ⟨hstatus, heq⟩ := worker_flushed hloop'
      cases heq
      exact ⟨hstatus, rfl, rfl⟩
    have hloaded : ∀ run model manualRetry maxOutputTokens,
        w'.worker ≠ some (.loaded run model manualRetry maxOutputTokens) := by
      intro run model manualRetry maxOutputTokens h
      rw [← hw'] at h
      cases (worker_flushed h).2
    have hlog : logReply w w' log (.iterate now reservation outcome) =
        log.after outcome.isReply (decide (batch.guesses ≠ [])) := by
      have hcalled : w.callCount < w'.callCount := by
        simp [callCount, hrows, hrows', flushBatch, hcalls]
      have hsubmitted : decide (w.guesses.length < w'.guesses.length) =
          decide (batch.guesses ≠ []) := by
        simp only [guesses, hrows, hrows', flushBatch, List.length_append]
        cases batch.guesses <;> simp
      simp only [logReply, hcalled, decide_true, Bool.and_true, hsubmitted]
    obtain ⟨hgoes, hends⟩ := counted_after hcount hle hcounts
    rw [hlog]
    refine ⟨fun _ run model manualRetry maxOutputTokens _ h => absurd h (hloaded _ _ _ _), ?_, ?_⟩
    · intro loop' hloop'
      obtain ⟨hrunning', hrun', hsame⟩ := hworker' loop' hloop'
      rw [hrun', hsame]
      exact ⟨hrunning', hgoes hrunning'⟩
    · intro rows' hrows'' hended
      rw [hrows'] at hrows''
      cases hrows''
      have hstatus : next.run.status = .malformedResponse := by
        rw [← runIteration_batch_run text limits hflush]
        exact hended
      exact hends hstatus
  | crashed => exact .closed rfl hw.ended
  | flipped rows run e hworker hrows hwords hfrom hto =>
    rw [logReply_closed w { w with rows := some { rows with run := run } } log e hworker
      (by simp [callCount, hrows])]
    refine .closed hworker ?_
    rintro _ ⟨⟩ hended
    rw [hended] at hto
    simp at hto

/-- Over every run the replies are counted. -/
theorem malformedCounted_reaches {s : RunWorld × ReplyLog}
    (h : Run.Reaches (loggedStep text limits puzzle strategyName runId trialNumber) Run.always
      (fresh, ⟨[], []⟩) s) : MalformedCounted limits s.1 s.2 := by
  induction h with
  | start => exact malformedCounted_fresh
  | snoc _ _ hstep ih =>
    obtain ⟨w', hw', rfl⟩ := Option.map_eq_some_iff.mp hstep
    exact malformedCounted_step ih hw'

/-- A run that ended as malformed did so by its last replies, all unusable and as many as the limit
allows, exactly when no usable reply came after an unusable one since it was last picked up. -/
theorem ended_by_last_replies_iff {w : RunWorld} {log : ReplyLog} {rows : RunRows}
    (hrun : Run.Reaches (loggedStep text limits puzzle strategyName runId trialNumber) Run.always
      (fresh, ⟨[], []⟩) (w, log))
    (hrows : w.rows = some rows) (hended : rows.run.status = .malformedResponse) :
    (limits.maxMalformed ≤ log.replies.length ∧
        ∀ usable ∈ log.replies.reverse.take limits.maxMalformed, usable = false) ↔
      UsableFirst log.current := by
  have hcounted : MalformedCounted limits w log := malformedCounted_reaches hrun
  obtain ⟨before, hcurrent, hbefore⟩ := hcounted.ended rows hrows hended
  have hcount : log.current.count false = before.count false + 1 := by
    rw [hcurrent, List.count_append]
    rfl
  have hlength : log.current.count false ≤ log.current.length := List.count_le_length
  rcases Nat.eq_zero_or_pos limits.maxMalformed with hzero | hpos
  · -- Without a limit the first unusable reply ended the run.
    rw [hzero]
    refine iff_of_true ⟨Nat.zero_le _, by simp⟩ (usableFirst_of_last ?_)
    rw [hcount, hbefore, hzero, hcurrent]
    simp
  · have hlimit : log.current.count false = limits.maxMalformed := by omega
    have htake : log.replies.reverse.take limits.maxMalformed =
        log.current.reverse.take (log.current.count false) := by
      rw [ReplyLog.replies, List.reverse_append, hlimit, List.take_append_of_le_length]
      rw [List.length_reverse]
      omega
    rw [htake]
    constructor
    · rintro ⟨-, hlast⟩
      exact usableFirst_of_last hlast
    · intro hfirst
      refine ⟨?_, hfirst.last⟩
      rw [ReplyLog.replies, List.length_append]
      omega

/-- The calls of a run whose replies propose the given groups, one reply after the other. -/
def repliesWith (replies : List (List (List String))) : List RunEvent :=
  .load 0 (some "gpt-5-mini") none none false none :: .enter 0 false ::
    replies.map fun proposals => .iterate 1 none (plainReply proposals)

/-- A run that solves a group first and then never answers again ends by its last three replies. -/
theorem ended_by_last_replies_after_solved_group :
    ∃ (log : ReplyLog), log.replies = [true, false, false, false] ∧
      ∀ usable ∈ log.replies.reverse.take defaultLimits.maxMalformed, usable = false := by
  obtain ⟨⟨w, log⟩, hrun, hended⟩ := Run.exists_reaches
    (loggedStep asciiText defaultLimits insectsAndTrees "llm-openai" 1 1) Run.always
    (fresh, ⟨[], []⟩) (repliesWith [[["ANT", "BEE", "FLY", "GNAT"]], [], [], []])
    (fun s => s.2.replies = [true, false, false, false] ∧ UsableFirst s.2.current ∧
      s.1.rows.any (·.run.status = .malformedResponse)) (by decide)
  simp only [decide_eq_true_eq, Option.any_eq_true] at hended
  obtain ⟨hreplies, hfirst, rows, hrows, hstatus⟩ := hended
  exact ⟨log, hreplies, ((ended_by_last_replies_iff hrun hrows hstatus).mpr hfirst).2⟩

/-- A solved group between unusable replies does not set the counter back: the run ends as malformed
by a single unusable reply after it. -/
theorem solved_group_leaves_malformed_count :
    ∃ (w : RunWorld) (log : ReplyLog) (rows : RunRows),
      Run.Reaches (loggedStep asciiText defaultLimits insectsAndTrees "llm-openai" 1 1) Run.always
        (fresh, ⟨[], []⟩) (w, log) ∧
      w.rows = some rows ∧ rows.run.status = .malformedResponse ∧
      ¬ ∀ usable ∈ log.replies.reverse.take defaultLimits.maxMalformed, usable = false := by
  obtain ⟨⟨w, log⟩, hrun, hended⟩ := Run.exists_reaches
    (loggedStep asciiText defaultLimits insectsAndTrees "llm-openai" 1 1) Run.always
    (fresh, ⟨[], []⟩) (repliesWith [[], [], [["ANT", "BEE", "FLY", "GNAT"]], []])
    (fun s => (s.1.rows.any (·.run.status = .malformedResponse) &&
      ¬ ∀ usable ∈ s.2.replies.reverse.take defaultLimits.maxMalformed, usable = false))
    (by decide)
  simp only [Bool.and_eq_true, decide_eq_true_eq, Option.any_eq_true] at hended
  obtain ⟨⟨rows, hrows, hstatus⟩, hlast⟩ := hended
  exact ⟨w, log, rows, hrun, hrows, hstatus, hlast⟩

end Runs

end RunWorld

end Connections
