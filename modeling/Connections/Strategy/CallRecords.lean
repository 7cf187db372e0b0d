import Connections.Strategy.Resume

/-!
# What is stored of each call

Every flush appends the rows of one call: its prompt, the proposals of its reply and the guesses
that some of them became.  The type of the prompt is decided by the guess before it, whatever the
run went through between the two.
-/

namespace Connections

/-- The rows of one call. -/
structure CallRows where
  prompt : SolvePrompt
  proposals : List LlmProposal
  guesses : List Guess

/-- The failed guess that the next prompt answers to, after one more guess. -/
def nextFailedGuess (guess : Guess) : Option FailedGuess :=
  if guess.result = .success then none else some (failedGuess guess.words guess.result)

/-- The failed guess that the next prompt answers to, after more guesses. -/
def lastFailedGuess (before : Option FailedGuess) (guesses : List Guess) : Option FailedGuess :=
  guesses.foldl (fun _ guess => nextFailedGuess guess) before

/-- The last failed guess of two parts is found part by part. -/
theorem lastFailedGuess_append (before : Option FailedGuess) (guesses more : List Guess) :
    lastFailedGuess before (guesses ++ more) =
      lastFailedGuess (lastFailedGuess before guesses) more :=
  List.foldl_append

/-- A history that records guesses remembers the last failed one. -/
theorem lastFailedGuess_foldl_record (history : RunHistory) (guesses : List Guess) :
    (guesses.foldl RunHistory.record history).lastFailedGuess =
      lastFailedGuess history.lastFailedGuess guesses := by
  induction guesses generalizing history with
  | nil => rfl
  | cons guess guesses ih => exact ih (history.record guess)

/-- A resumed run answers to the last of its stored guesses. -/
theorem rebuildState_lastFailedGuess (guesses : List Guess) :
    (rebuildState guesses).lastFailedGuess = lastFailedGuess none guesses := by
  have hhistory := congrArg RunHistory.lastFailedGuess (history_rebuildState guesses)
  exact hhistory.trans (lastFailedGuess_foldl_record RunHistory.start guesses)

/-- The type of the prompt that answers to a guess. -/
def promptTypeAfter (failed : Option FailedGuess) : SolvePromptType :=
  if failed.isSome then .retry else .initialSolve

/-- The proposals that were submitted, with the guesses they became. -/
def submittedGuesses (proposals : List LlmProposal) : List (List String × Option ℕ) :=
  (proposals.filter (·.status = .used)).map fun proposal => (proposal.words, proposal.guess)

/-- The rows of a call agree with each other and with the calls before it. -/
structure CallRows.Follows (call : CallRows) (before : List CallRows) : Prop where
  number : call.prompt.promptNumber = before.length + 1
  promptType : call.prompt.promptType =
    promptTypeAfter (lastFailedGuess none (before.flatMap (·.guesses)))
  proposals : ∀ proposal ∈ call.proposals, proposal.promptNumber = call.prompt.promptNumber
  submitted : submittedGuesses call.proposals =
    call.guesses.map fun guess => (guess.words, some guess.sequenceNumber)
  callError : call.prompt.status = .callError → call.guesses = []

/-- The rows of a run, call by call. -/
inductive Recorded : List CallRows → Prop
  | nil : Recorded []
  | snoc {before : List CallRows} {call : CallRows} : Recorded before → call.Follows before →
      Recorded (before ++ [call])

/-- The stored prompts are numbered from one without a gap. -/
theorem Recorded.promptNumbers {calls : List CallRows} (h : Recorded calls) :
    calls.map (·.prompt.promptNumber) = List.range' 1 calls.length := by
  induction h with
  | nil => rfl
  | @snoc before call _ hcall ih =>
    rw [List.map_append, ih, List.length_append, List.map_singleton, hcall.number,
      List.length_singleton, List.range'_1_concat, Nat.add_comm 1]

/-- The highest of the first `n` numbers is `n`. -/
theorem foldl_max_range' (n : ℕ) : (List.range' 1 n).foldl max 0 = n := by
  induction n with
  | zero => rfl
  | succ n ih =>
    rw [List.range'_1_concat, List.foldl_append, ih]
    simp only [List.foldl_cons, List.foldl_nil]
    omega

/-- The numbering of the calls goes on from the stored ones. -/
theorem Recorded.lastPromptNumber {calls : List CallRows} (h : Recorded calls) :
    RunWorld.lastPromptNumber (calls.map (·.prompt)) = calls.length := by
  rw [RunWorld.lastPromptNumber, List.map_map]
  exact (congrArg (List.foldl max 0) h.promptNumbers).trans (foldl_max_range' _)

/-! ### One iteration -/

section Loop

variable (text : TextOps) (limits : RunLimits) (puzzle : Puzzle) (now : ℕ)

/-- The evaluation of fresh proposals marks the submitted ones, each with its guess. -/
theorem evaluateProposals_submitted (ev : Evaluation) (proposals : List LlmProposal)
    (hfresh : ∀ proposal ∈ proposals, proposal.status = .notSelected) :
    ∃ guesses : List Guess,
      (evaluateProposals text limits puzzle now ev proposals).1.pendingGuesses =
        ev.pendingGuesses ++ guesses ∧
      submittedGuesses (evaluateProposals text limits puzzle now ev proposals).2 =
        guesses.map (fun guess => (guess.words, some guess.sequenceNumber)) ∧
      (evaluateProposals text limits puzzle now ev proposals).2.map (·.promptNumber) =
        proposals.map (·.promptNumber) := by
  have unselected : ∀ rest : List LlmProposal, (∀ proposal ∈ rest, proposal.status = .notSelected) →
      submittedGuesses rest = [] := by
    intro rest hrest
    rw [submittedGuesses, List.map_eq_nil_iff, List.filter_eq_nil_iff]
    intro proposal hproposal
    simp [hrest proposal hproposal]
  revert hfresh
  induction ev, proposals using evaluateProposals_induct text limits puzzle now with
  | nil ev => exact fun _ => ⟨[], (List.append_nil _).symm, rfl, rfl⟩
  | skipped ev tagged proposal rest result htagged ih =>
    intro hfresh
    obtain ⟨hproposal, hrest⟩ := List.forall_mem_cons.mp hfresh
    obtain ⟨guesses, hpending, hsubmitted, hnumbers⟩ := ih hrest
    refine ⟨guesses, by rw [hpending, htagged.pendingGuesses], ?_, by simp [hnumbers]⟩
    rw [← hsubmitted]
    simp [submittedGuesses, hproposal]
  | submitted ev tagged proposal rest words caseMismatch next htagged _ hnext =>
    -- The guess that the proposal became carries its words and the count after it.
    obtain ⟨guess, hguess, hwords, hnumber⟩ : ∃ guess : Guess,
        next.pendingGuesses = ev.pendingGuesses ++ [guess] ∧ guess.words = words ∧
          guess.sequenceNumber = next.state.guessCount := by
      rw [hnext, ← htagged.pendingGuesses]
      exact ⟨_, rfl, rfl, rfl⟩
    refine ⟨fun hfresh => ?_, fun result _ _ ih hfresh => ?_⟩
    · obtain ⟨-, hrest⟩ := List.forall_mem_cons.mp hfresh
      have hnone := unselected rest hrest
      refine ⟨[guess], hguess, ?_, rfl⟩
      simpa [submittedGuesses, LlmProposal.submitted, hwords, hnumber] using hnone
    · obtain ⟨-, hrest⟩ := List.forall_mem_cons.mp hfresh
      obtain ⟨guesses, hmore, hsubmitted, hnumbers⟩ := ih hrest
      refine ⟨guess :: guesses, ?_, ?_, ?_⟩
      · rw [hmore, hguess, List.append_assoc, List.singleton_append]
      · rw [List.map_cons, ← hsubmitted, hwords, hnumber]
        simp [submittedGuesses, LlmProposal.submitted]
      · simp [hnumbers, LlmProposal.submitted]

/-- A proposal begins as not selected, under the number of its prompt. -/
theorem buildProposalEntries_fresh (proposalWords : List (Option (List String)))
    (categoryMap : List (ℕ × String)) (run : StrategyRun) (promptNumber : ℕ) :
    ∀ proposal ∈ buildProposalEntries proposalWords categoryMap run promptNumber,
      proposal.status = .notSelected ∧ proposal.promptNumber = promptNumber := by
  intro proposal hproposal
  obtain ⟨entry, hentry, hsome⟩ := List.mem_filterMap.mp hproposal
  obtain ⟨i, hi, rfl⟩ := List.mem_mapIdx.mp hentry
  simp only [id_eq] at hsome
  split at hsome
  · split at hsome
    · cases hsome
      exact ⟨rfl, rfl⟩
    · cases hsome
  · cases hsome

/-- The rows that a flush appends, next to what the loop goes on with. -/
structure CallRows.Appended (call : CallRows) (loop next : RunLoop) (batch : FlushBatch) :
    Prop where
  prompts : batch.prompts = [call.prompt]
  proposals : batch.proposals = call.proposals
  guesses : batch.guesses = call.guesses
  number : call.prompt.promptNumber = loop.globalPromptNumber + 1
  promptType : call.prompt.promptType = promptTypeAfter loop.state.lastFailedGuess
  linked : ∀ proposal ∈ call.proposals, proposal.promptNumber = call.prompt.promptNumber
  submitted : submittedGuesses call.proposals =
    call.guesses.map fun guess => (guess.words, some guess.sequenceNumber)
  callError : call.prompt.status = .callError → call.guesses = []
  nextNumber : next.globalPromptNumber = loop.globalPromptNumber + 1

/-- A handled reply appends the rows of one call. -/
theorem handleReply_appends (loop : RunLoop) (request : List ChatMessage)
    (data : SolveStepSuccess) :
    let reply := handleReply text limits loop now (promptTypeAfter loop.state.lastFailedGuess)
      request data
    ∃ call : CallRows, call.Appended loop reply.1 reply.2 := by
  unfold handleReply
  simp only
  split
  · exact ⟨⟨_, [], []⟩, ⟨rfl, rfl, rfl, rfl, rfl, by simp, rfl, by simp, rfl⟩⟩
  · generalize hentries : buildProposalEntries _ _ _ _ = entries
    have hfresh : ∀ proposal ∈ entries, proposal.status = .notSelected ∧
        proposal.promptNumber = loop.globalPromptNumber + 1 :=
      hentries ▸ buildProposalEntries_fresh _ _ _ _
    generalize hev : (⟨_, _, [], data.textIssues⟩ : Evaluation) = ev
    obtain ⟨guesses, hpending, hsubmitted, hnumbers⟩ :=
      evaluateProposals_submitted text limits loop.puzzle now ev entries fun proposal hproposal =>
        (hfresh proposal hproposal).1
    rw [← hev, List.nil_append] at hpending
    rw [hev] at hpending
    refine ⟨⟨_, _, guesses⟩, ⟨rfl, rfl, ?_, rfl, rfl, ?_, hsubmitted, by simp, rfl⟩⟩
    · split <;> exact hpending
    · intro proposal hproposal
      have hnumber := List.mem_map_of_mem (f := (·.promptNumber)) hproposal
      rw [hnumbers] at hnumber
      obtain ⟨entry, hentry, hsame⟩ := List.mem_map.mp hnumber
      exact hsame.symm.trans (hfresh entry hentry).2

/-- What a flushed iteration appends. -/
theorem runIteration_appends {loop next : RunLoop} {reservation : Option ℕ}
    {outcome : SolveStepOutcome} {batch : FlushBatch} {holds : List HoldRequest}
    (h : runIteration text limits loop now reservation outcome = .flush next batch holds) :
    ∃ call : CallRows, call.Appended loop next batch := by
  unfold runIteration at h
  split at h
  · cases h
  · cases outcome with
    | ok data =>
      cases h
      obtain ⟨call, hcall⟩ := handleReply_appends text limits now loop
        (loop.messages ++ [⟨.user, loop.prompt⟩]) data
      exact ⟨call, hcall.prompts, hcall.proposals, hcall.guesses, hcall.number, hcall.promptType,
        hcall.linked, hcall.submitted, hcall.callError, hcall.nextNumber⟩
    | error failure =>
      cases h
      exact ⟨⟨_, [], []⟩, rfl, rfl, rfl, rfl, rfl, by simp, rfl, by simp, rfl⟩

/-- A failed call leaves the last failed guess as it was. -/
theorem classifyFailedCall_lastFailedGuess (pool : Option ProviderPoolId)
    (freeTier : Option FreeTierConfig) (failure : SolveStepFailure) (run : StrategyRun)
    (state : LlmRunLoopState) :
    (classifyFailedCall limits pool freeTier now failure run state).2.2.lastFailedGuess =
      state.lastFailedGuess := by
  by_cases h : failure.code = .duplicateGroup
  · simp [classifyFailedCall, h]
  · exact congrArg RunHistory.lastFailedGuess
      (classifyFailedCall_history limits now pool freeTier failure run state h)

/-- Whatever the outcome, the loop goes on answering to the last guess of its batch. -/
theorem runIteration_lastFailedGuess {loop next : RunLoop} {reservation : Option ℕ}
    {outcome : SolveStepOutcome} {batch : FlushBatch} {holds : List HoldRequest}
    (h : runIteration text limits loop now reservation outcome = .flush next batch holds) :
    next.state.lastFailedGuess = lastFailedGuess loop.state.lastFailedGuess batch.guesses := by
  unfold runIteration at h
  split at h
  · cases h
  · cases outcome with
    | ok data =>
      cases h
      have hextends := handleReply_extends text limits now loop
        (promptTypeAfter loop.state.lastFailedGuess) (loop.messages ++ [⟨.user, loop.prompt⟩]) data
      have hlast := congrArg RunHistory.lastFailedGuess hextends.recorded
      rw [lastFailedGuess_foldl_record] at hlast
      exact hlast
    | error failure =>
      cases h
      exact classifyFailedCall_lastFailedGuess limits now _ _ failure loop.run loop.state

end Loop

namespace RunWorld

/-- The stored rows of a run, call by call, and a loop that goes on from them. -/
structure CallsRecorded (w : RunWorld) : Prop where
  stored : ∀ rows, w.rows = some rows → ∃ calls, Recorded calls ∧
    rows.prompts = calls.map (·.prompt) ∧ rows.proposals = calls.flatMap (·.proposals) ∧
    rows.guesses = calls.flatMap (·.guesses)
  live : ∀ rows loop, w.rows = some rows → w.worker = some (.looping loop) →
    loop.globalPromptNumber = rows.prompts.length ∧
      loop.state.lastFailedGuess = lastFailedGuess none rows.guesses

theorem callsRecorded_fresh : CallsRecorded fresh where
  stored := by simp [fresh]
  live := by simp [fresh]

/-- A step that appends nothing and leaves no loop keeps the rows. -/
theorem CallsRecorded.closed {w w' : RunWorld} (h : CallsRecorded w)
    (hrows : ∀ rows', w'.rows = some rows' → ∃ rows, w.rows = some rows ∧
      rows'.prompts = rows.prompts ∧ rows'.proposals = rows.proposals ∧
        rows'.guesses = rows.guesses)
    (hworker : ∀ loop, w'.worker ≠ some (.looping loop)) : CallsRecorded w' where
  stored rows' hrows' := by
    obtain ⟨rows, hrows, hprompts, hproposals, hguesses⟩ := hrows rows' hrows'
    rw [hprompts, hproposals, hguesses]
    exact h.stored rows hrows
  live _ loop _ hloop := absurd hloop (hworker loop)

section Steps

variable {text : TextOps} {limits : RunLimits} {puzzle : Puzzle} {strategyName : String}
  {runId trialNumber : ℕ}

/-- Every step keeps the rows recorded call by call. -/
theorem step_callsRecorded {w w' : RunWorld} {e : RunEvent} (h : CallsRecorded w)
    (hn : Numbered w)
    (hstep : step text limits puzzle strategyName runId trialNumber w e = some w') :
    CallsRecorded w' := by
  cases step_cases hstep with
  | created now model contextWindow budgetTier manualRetry maxOutputTokens hworker hrows =>
    refine ⟨?_, by simp⟩
    rintro rows ⟨⟩
    exact ⟨[], .nil, rfl, rfl, rfl⟩
  | loaded rows now model contextWindow budgetTier manualRetry maxOutputTokens hworker hrows =>
    exact h.closed (fun rows' hrows' => ⟨rows', hrows', rfl, rfl, rfl⟩) (by simp)
  | enteredTerminal =>
    exact h.closed (fun rows' hrows' => ⟨rows', hrows', rfl, rfl, rfl⟩) (by simp)
  | enteredHeld rows run model manualRetry maxOutputTokens now held hworker hrows =>
    refine h.closed ?_ (by simp)
    rintro _ ⟨⟩
    exact ⟨rows, hrows, rfl, rfl, rfl⟩
  | enteredLoop rows run model manualRetry maxOutputTokens now held hworker hrows =>
    refine ⟨h.stored, ?_⟩
    intro rows' loop hrows' hloop
    cases hloop
    obtain rfl : rows = rows' := Option.some.inj (hrows.symm.trans hrows')
    obtain ⟨calls, hcalls, hprompts, -, -⟩ := h.stored rows hrows
    have hstored : rows.guesses.map (·.sequenceNumber) = List.range' 1 rows.guesses.length := by
      simpa [guesses, hrows] using hn.stored
    constructor
    · rw [rebuiltLoop, hprompts, List.length_map]
      exact hcalls.lastPromptNumber
    · rw [rebuiltLoop, loadLlmGuessesForRun_of_numbered hstored]
      exact rebuildState_lastFailedGuess rows.guesses
  | parked rows loop now reservation outcome run hworker hrows =>
    refine h.closed ?_ (by simp)
    rintro _ ⟨⟩
    exact ⟨rows, hrows, rfl, rfl, rfl⟩
  | flushed rows loop next batch holds now reservation outcome hworker hrows hflush =>
    obtain ⟨calls, hcalls, hprompts, hproposals, hguesses⟩ := h.stored rows hrows
    obtain ⟨hnumber, hlast⟩ := h.live rows loop hrows hworker
    obtain ⟨call, hcall⟩ := runIteration_appends text limits now hflush
    have hnext := runIteration_lastFailedGuess text limits now hflush
    have hlength : rows.prompts.length = calls.length := by rw [hprompts, List.length_map]
    constructor
    · rintro _ ⟨⟩
      refine ⟨calls ++ [call], hcalls.snoc ⟨?_, ?_, hcall.linked, hcall.submitted,
        hcall.callError⟩, ?_, ?_, ?_⟩
      · rw [hcall.number, hnumber, hlength]
      · rw [hcall.promptType, hlast, hguesses]
      · simp [flushBatch, hprompts, hcall.prompts]
      · simp [flushBatch, hproposals, hcall.proposals]
      · simp [flushBatch, hguesses, hcall.guesses]
    · intro rows' after hrows' hafter
      cases hrows'
      cases (worker_flushed hafter).2
      constructor
      · simp [flushBatch, hcall.nextNumber, hnumber, hcall.prompts]
      · rw [hlast] at hnext
        rw [flushBatch, lastFailedGuess_append]
        exact hnext
  | crashed => exact h.closed (fun rows' hrows' => ⟨rows', hrows', rfl, rfl, rfl⟩) (by simp)
  | flipped rows run e hworker hrows =>
    refine h.closed ?_ (by simp [hworker])
    rintro _ ⟨⟩
    exact ⟨rows, hrows, rfl, rfl, rfl⟩

/-- Over every run, whatever the calls come back with, the rows are recorded call by call. -/
theorem reaches_callsRecorded {w : RunWorld} {ok : RunWorld → RunEvent → Prop}
    (h : Run.Reaches (step text limits puzzle strategyName runId trialNumber) ok fresh w) :
    CallsRecorded w := by
  induction h with
  | start => exact callsRecorded_fresh
  | snoc hreach _ hstep ih => exact step_callsRecorded ih (numbered_reaches hreach) hstep

end Steps

end RunWorld

end Connections
