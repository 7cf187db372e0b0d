import Connections.Library.EventLog
import Connections.Strategy.RunMachine
import Mathlib.Data.List.Induction

/-!
# The loop state as a summary of the guesses

Six fields of the loop state are a summary of the guesses made so far.  The live loop updates
them guess by guess, the resume path recomputes them from the stored rows; both are the replay
of one recording step, and a run over its restarts is a process with a durable log of guesses.
-/

namespace Connections

/-- The part of the loop state that a resumed run rebuilds. -/
structure RunHistory where
  guessCount : ℕ
  duplicateCount : ℕ
  failedGuessCount : ℕ
  lockedInGroups : List (List String)
  lastFailedGuess : Option FailedGuess
  priorGuesses : List PriorGuess
  deriving DecidableEq, Repr

/-- The history kept in a loop state. -/
def LlmRunLoopState.history (state : LlmRunLoopState) : RunHistory :=
  { guessCount := state.guessCount
    duplicateCount := state.duplicateCount
    failedGuessCount := state.failedGuessCount
    lockedInGroups := state.lockedInGroups
    lastFailedGuess := state.lastFailedGuess
    priorGuesses := state.priorGuesses }

namespace RunHistory

/-- The history before the first guess. -/
def start : RunHistory := ⟨0, 0, 0, [], none, []⟩

/-- The history after one more judged guess. -/
def record (history : RunHistory) (guess : Guess) : RunHistory :=
  { guessCount := history.guessCount + 1
    duplicateCount := history.duplicateCount + if guess.result = .duplicate then 1 else 0
    failedGuessCount := history.failedGuessCount + if guess.result = .success then 0 else 1
    lockedInGroups := if guess.result = .success then history.lockedInGroups ++ [guess.words]
      else history.lockedInGroups
    lastFailedGuess := if guess.result = .success then none
      else some (failedGuess guess.words guess.result)
    priorGuesses := history.priorGuesses ++ [⟨guess.words, guess.result⟩] }

/-- Every recorded guess is counted. -/
theorem guessCount_foldl (history : RunHistory) (guesses : List Guess) :
    (guesses.foldl record history).guessCount = history.guessCount + guesses.length := by
  induction guesses generalizing history with
  | nil => rfl
  | cons guess guesses ih =>
    rw [List.foldl_cons, ih, List.length_cons, record]
    simp only
    omega

end RunHistory

/-- Recording a guess in the loop state records it in the history. -/
theorem LlmRunLoopState.history_record (state : LlmRunLoopState) (guess : Guess) :
    (state.record guess.words guess.result).history = state.history.record guess := by
  unfold LlmRunLoopState.record RunHistory.record LlmRunLoopState.history
  by_cases h : guess.result = .success
  · simp [h]
  · simp [h]

/-- The filters and the replay of the resume path compute the same history guess by guess. -/
theorem history_rebuildState (rows : List Guess) :
    (rebuildState rows).history = EventLog.replay RunHistory.record RunHistory.start rows := by
  induction rows using List.reverseRecOn with
  | nil => rfl
  | append_singleton rows guess ih =>
    rw [EventLog.replay, List.foldl_append, List.foldl_cons, List.foldl_nil,
      ← EventLog.replay.eq_1, ← ih]
    cases hresult : guess.result <;>
      simp [rebuildState, LlmRunLoopState.history, RunHistory.record, hresult]

section Evaluation

variable (text : TextOps) (limits : RunLimits) (puzzle : Puzzle) (now : ℕ)

/-- A batch of guesses extends a history: it is recorded in order and numbered on. -/
structure Extends (before after : RunHistory) (guesses : List Guess) : Prop where
  recorded : after = guesses.foldl RunHistory.record before
  numbered : guesses.map (·.sequenceNumber) =
    List.range' (before.guessCount + 1) guesses.length

theorem Extends.refl (history : RunHistory) : Extends history history [] := ⟨rfl, rfl⟩

/-- Extensions follow one another. -/
theorem Extends.append {a b c : RunHistory} {xs ys : List Guess} (h : Extends a b xs)
    (h' : Extends b c ys) : Extends a c (xs ++ ys) := by
  have hcount : b.guessCount = a.guessCount + xs.length := by
    rw [h.recorded, RunHistory.guessCount_foldl]
  refine ⟨by rw [h'.recorded, h.recorded, List.foldl_append], ?_⟩
  rw [List.map_append, h.numbered, h'.numbered, hcount, List.length_append,
    show a.guessCount + xs.length + 1 = a.guessCount + 1 + 1 * xs.length by omega,
    List.range'_append]

@[simp] theorem Evaluation.tag_state (ev : Evaluation) (tag : String) :
    (ev.tag tag).state = ev.state := by
  unfold Evaluation.tag
  split <;> rfl

@[simp] theorem Evaluation.tag_run (ev : Evaluation) (tag : String) :
    (ev.tag tag).run = ev.run := by
  unfold Evaluation.tag
  split <;> rfl

@[simp] theorem Evaluation.tag_pendingGuesses (ev : Evaluation) (tag : String) :
    (ev.tag tag).pendingGuesses = ev.pendingGuesses := by
  unfold Evaluation.tag
  split <;> rfl

/-- A submitted guess is appended to the pending ones and extends the history by itself. -/
theorem submitGuess_extends (ev : Evaluation) (words : List String) (result : GuessResult) :
    ∃ guess : Guess, guess.words = words ∧ guess.result = result ∧
      (submitGuess limits puzzle now ev words result).pendingGuesses =
        ev.pendingGuesses ++ [guess] ∧
      Extends ev.state.history (submitGuess limits puzzle now ev words result).state.history
        [guess] := by
  refine ⟨_, rfl, rfl, rfl, ?_, ?_⟩
  · exact LlmRunLoopState.history_record ev.state ⟨_, _, words, result, _, _⟩
  · have hcount : (ev.state.record words result).guessCount = ev.state.guessCount + 1 := by
      unfold LlmRunLoopState.record
      split <;> rfl
    simp [hcount, LlmRunLoopState.history]

/-- The same evaluation, up to its issue tags. -/
structure Evaluation.Retagged (ev tagged : Evaluation) : Prop where
  run : tagged.run = ev.run
  state : tagged.state = ev.state
  pendingGuesses : tagged.pendingGuesses = ev.pendingGuesses

/-- A tag changes nothing but the tags. -/
theorem Evaluation.retagged_tag (ev : Evaluation) (on : Bool) (tag : String) :
    ev.Retagged (if on = true then ev.tag tag else ev) := by
  cases on with
  | true => exact ⟨ev.tag_run tag, ev.tag_state tag, ev.tag_pendingGuesses tag⟩
  | false => exact ⟨rfl, rfl, rfl⟩

/-- A proposal as it is stored once it was submitted. -/
def LlmProposal.submitted (proposal : LlmProposal) (words : List String) (sequenceNumber : ℕ) :
    LlmProposal :=
  { proposal with words := words, status := .used, guess := some sequenceNumber }

/-- The evaluation of a reply by its proposals: one is skipped, or submitted as the last one, or
submitted and followed by the rest. -/
theorem evaluateProposals_induct
    {motive : Evaluation → List LlmProposal → Evaluation × List LlmProposal → Prop}
    (nil : ∀ ev, motive ev [] (ev, []))
    (skipped : ∀ ev tagged proposal rest result, ev.Retagged tagged → motive tagged rest result →
      motive ev (proposal :: rest) (result.1, proposal :: result.2))
    (submitted : ∀ (ev tagged : Evaluation) (proposal : LlmProposal) (rest : List LlmProposal)
      (words : List String) (caseMismatch : Bool) (next : Evaluation), ev.Retagged tagged →
      resolveProposal text puzzle ev.run.availableWords proposal.words =
        .submit words caseMismatch →
      next = submitGuess limits puzzle now tagged words
        (judgeGuess text puzzle ev.state.priorGuesses words) →
      motive ev (proposal :: rest) (next, proposal.submitted words next.state.guessCount :: rest) ∧
        ∀ result, judgeGuess text puzzle ev.state.priorGuesses words = .success →
          next.run.availableWords.length ≠ 0 → motive next rest result →
          motive ev (proposal :: rest)
            (result.1, proposal.submitted words next.state.guessCount :: result.2))
    (ev : Evaluation) (proposals : List LlmProposal) :
    motive ev proposals (evaluateProposals text limits puzzle now ev proposals) := by
  induction proposals generalizing ev with
  | nil => exact nil ev
  | cons proposal rest ih =>
    unfold evaluateProposals
    split
    · rename_i hallucinated _
      exact skipped ev _ proposal rest _ (ev.retagged_tag hallucinated _) (ih _)
    · rename_i words caseMismatch hsubmit
      have htagged := ev.retagged_tag caseMismatch SolvePromptIssueTag.caseMismatch
      simp only
      generalize (if caseMismatch = true then ev.tag SolvePromptIssueTag.caseMismatch else ev) =
        tagged at htagged
      obtain ⟨hstops, hgoes⟩ :=
        submitted ev tagged proposal rest words caseMismatch _ htagged hsubmit rfl
      rw [htagged.state]
      split
      · exact hstops
      · rename_i hcontinues
        push Not at hcontinues
        exact hgoes _ hcontinues.1 hcontinues.2 (ih _)

/-- What every tag and every submitted guess keeps holds after the evaluation. -/
theorem evaluateProposals_invariant {P : Evaluation → Prop}
    (tagged : ∀ ev tagged, ev.Retagged tagged → P ev → P tagged)
    (submitted : ∀ ev words result, P ev → P (submitGuess limits puzzle now ev words result))
    (ev : Evaluation) (proposals : List LlmProposal) (h : P ev) :
    P (evaluateProposals text limits puzzle now ev proposals).1 := by
  revert h
  induction ev, proposals using evaluateProposals_induct text limits puzzle now with
  | nil ev => exact id
  | skipped ev next proposal rest result hnext ih => exact fun h => ih (tagged ev next hnext h)
  | submitted ev next proposal rest words caseMismatch after hnext _ hafter =>
    subst hafter
    have hsubmit : P ev → P (submitGuess limits puzzle now next words
        (judgeGuess text puzzle ev.state.priorGuesses words)) := fun h =>
      submitted _ _ _ (tagged ev next hnext h)
    exact ⟨hsubmit, fun result _ _ ih h => ih (hsubmit h)⟩

/-- The evaluation of a reply extends the history by the guesses it adds. -/
theorem evaluateProposals_extends (ev : Evaluation) (proposals : List LlmProposal) :
    ∃ guesses, (evaluateProposals text limits puzzle now ev proposals).1.pendingGuesses =
        ev.pendingGuesses ++ guesses ∧
      Extends ev.state.history
        (evaluateProposals text limits puzzle now ev proposals).1.state.history guesses := by
  induction ev, proposals using evaluateProposals_induct text limits puzzle now with
  | nil ev => exact ⟨[], (List.append_nil _).symm, Extends.refl _⟩
  | skipped ev tagged proposal rest result htagged ih =>
    rw [htagged.state, htagged.pendingGuesses] at ih
    exact ih
  | submitted ev tagged proposal rest words caseMismatch next htagged _ hnext =>
    subst hnext
    obtain ⟨guess, -, -, hguess, hextends⟩ := submitGuess_extends limits puzzle now tagged words
      (judgeGuess text puzzle ev.state.priorGuesses words)
    rw [htagged.pendingGuesses] at hguess
    rw [htagged.state] at hextends
    refine ⟨⟨[guess], hguess, hextends⟩, ?_⟩
    rintro result - - ⟨guesses, hmore, hrest⟩
    refine ⟨guess :: guesses, ?_, hextends.append hrest⟩
    rw [hmore, hguess, List.append_assoc, List.singleton_append]

/-- A handled reply extends the history by the guesses of its batch. -/
theorem handleReply_extends (loop : RunLoop) (promptType : SolvePromptType)
    (request : List ChatMessage) (data : SolveStepSuccess) :
    Extends loop.state.history
      (handleReply text limits loop now promptType request data).1.state.history
      (handleReply text limits loop now promptType request data).2.guesses := by
  unfold handleReply
  simp only
  split
  · exact Extends.refl _
  · obtain ⟨guesses, hguesses, hextends⟩ := evaluateProposals_extends text limits loop.puzzle now
      ⟨{ loop.run with
          modelName := loop.run.modelName.orElse fun _ => some data.model
          contextWindow := data.contextWindow.orElse fun _ => loop.run.contextWindow },
        { loop.state with
          consecutiveModelErrors := 0, rateLimitStreak := 0, rateLimitStreakStartedAt := none },
        [], data.textIssues⟩
      (buildProposalEntries data.proposalWords data.categoryByGroup { loop.run with
          modelName := loop.run.modelName.orElse fun _ => some data.model
          contextWindow := data.contextWindow.orElse fun _ => loop.run.contextWindow }
        (loop.globalPromptNumber + 1))
    rw [List.nil_append] at hguesses
    simp only [hguesses]
    split
    · exact hextends
    · exact hextends

/-- A failed call other than a duplicate group leaves the history as it is. -/
theorem classifyFailedCall_history (pool : Option ProviderPoolId)
    (freeTier : Option FreeTierConfig) (failure : SolveStepFailure) (run : StrategyRun)
    (state : LlmRunLoopState) (h : failure.code ≠ .duplicateGroup) :
    (classifyFailedCall limits pool freeTier now failure run state).2.2.history =
      state.history := by
  unfold classifyFailedCall
  cases hcode : failure.code with
  | duplicateGroup => exact absurd hcode h
  | rateLimited =>
    simp only
    split
    · split <;> rfl
    · rfl
  | rateLimitedDaily => rfl
  | modelError => rfl
  | invalidGroup => rfl

/-- A failed call makes no guess. -/
theorem classifyFailedCall_guessCount (pool : Option ProviderPoolId)
    (freeTier : Option FreeTierConfig) (failure : SolveStepFailure) (run : StrategyRun)
    (state : LlmRunLoopState) :
    (classifyFailedCall limits pool freeTier now failure run state).2.2.guessCount =
      state.guessCount := by
  by_cases h : failure.code = .duplicateGroup
  · simp [classifyFailedCall, h]
  · exact congrArg RunHistory.guessCount
      (classifyFailedCall_history limits now pool freeTier failure run state h)

/-- The outcomes that the orchestrator can produce for a step. -/
def SolveStepOutcome.producible : SolveStepOutcome → Prop
  | ok _ => True
  | error failure => failure.code ≠ .duplicateGroup

/-- One flushed iteration extends the history by exactly the guesses of its batch. -/
theorem runIteration_extends {loop next : RunLoop} {reservation : Option ℕ}
    {outcome : SolveStepOutcome} {batch : FlushBatch} {holds : List HoldRequest}
    (hout : outcome.producible)
    (h : runIteration text limits loop now reservation outcome = .flush next batch holds) :
    Extends loop.state.history next.state.history batch.guesses := by
  unfold runIteration at h
  split at h
  · cases h
  · cases outcome with
    | ok data =>
      cases h
      exact handleReply_extends text limits now loop _ _ data
    | error failure =>
      cases h
      refine ⟨?_, rfl⟩
      exact classifyFailedCall_history limits now _ _ failure loop.run loop.state hout

/-- Whatever the outcome, the guesses of a flushed batch are numbered on from the count. -/
theorem runIteration_numbered {loop next : RunLoop} {reservation : Option ℕ}
    {outcome : SolveStepOutcome} {batch : FlushBatch} {holds : List HoldRequest}
    (h : runIteration text limits loop now reservation outcome = .flush next batch holds) :
    batch.guesses.map (·.sequenceNumber) =
        List.range' (loop.state.guessCount + 1) batch.guesses.length ∧
      next.state.guessCount = loop.state.guessCount + batch.guesses.length := by
  unfold runIteration at h
  split at h
  · cases h
  · cases outcome with
    | ok data =>
      cases h
      have hextends := handleReply_extends text limits now loop
        (if loop.state.lastFailedGuess.isSome then .retry else .initialSolve)
        (loop.messages ++ [⟨.user, loop.prompt⟩]) data
      refine ⟨hextends.numbered, ?_⟩
      have hcount := congrArg RunHistory.guessCount hextends.recorded
      rw [RunHistory.guessCount_foldl] at hcount
      exact hcount
    | error failure =>
      cases h
      exact ⟨rfl, classifyFailedCall_guessCount limits now _ _ failure loop.run loop.state⟩

end Evaluation

end Connections
