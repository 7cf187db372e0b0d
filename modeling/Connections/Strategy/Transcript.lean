import Connections.Strategy.CallRecords
import Connections.Strategy.Alternation
import Connections.Strategy.BoardInvariant

/-!
# The transcripts of a run

What the runner writes as the text of a call is made from the words on the board, the solved groups,
the last failed guess and the turns so far.  A run that never takes up stored calls again tells them
from the first call on: its texts are those of one fold over its calls.
-/

namespace Connections

/-- What the next prompt and its transcript are made from. -/
structure Talk where
  availableWords : List String
  lockedInGroups : List (List String)
  lastFailedGuess : Option FailedGuess
  history : List ChatMessage
  deriving DecidableEq, Repr

namespace Talk

/-- Nothing was said about the board. -/
def start (board : List String) : Talk := ⟨board, [], none, []⟩

/-- The prompt of the next call. -/
def prompt (talk : Talk) : String :=
  let quarters := talk.availableWords.length
  match talk.lastFailedGuess with
  | some failed => buildRetryPrompt talk.availableWords talk.lockedInGroups failed quarters
  | none => buildInitialPrompt talk.availableWords quarters

/-- The turns sent with the next call. -/
def request (talk : Talk) : List ChatMessage := talk.history ++ [⟨.user, talk.prompt⟩]

/-- A reply closes the exchange; a call without one takes its prompt back. -/
def answer (talk : Talk) : Option String → Talk
  | some reply => { talk with history := talk.request ++ [⟨.assistant, reply⟩] }
  | none => talk

/-- Go on after a judged guess. -/
def guess (talk : Talk) (guess : Guess) : Talk :=
  if guess.result = .success then
    { talk with
      availableWords := talk.availableWords.filter (· ∉ guess.words)
      lockedInGroups := talk.lockedInGroups ++ [guess.words], lastFailedGuess := none }
  else { talk with lastFailedGuess := some (failedGuess guess.words guess.result) }

/-- Go on after a call: its reply, then the guesses that it led to. -/
def after (talk : Talk) (reply : Option String) (guesses : List Guess) : Talk :=
  guesses.foldl Talk.guess (talk.answer reply)

/-- The same but for the turns. -/
structure Alike (talk other : Talk) : Prop where
  availableWords : talk.availableWords = other.availableWords
  lockedInGroups : talk.lockedInGroups = other.lockedInGroups
  lastFailedGuess : talk.lastFailedGuess = other.lastFailedGuess

/-- A conversation is like itself. -/
theorem Alike.refl (talk : Talk) : talk.Alike talk := ⟨rfl, rfl, rfl⟩

/-- The turns do not decide the prompt. -/
theorem Alike.prompt {talk other : Talk} (h : talk.Alike other) : talk.prompt = other.prompt := by
  unfold Talk.prompt
  rw [h.availableWords, h.lockedInGroups, h.lastFailedGuess]

/-- Two conversations that are alike stay so over a guess. -/
theorem Alike.guess {talk other : Talk} (h : talk.Alike other) (g : Guess) :
    (talk.guess g).Alike (other.guess g) := by
  unfold Talk.guess
  split
  · exact ⟨by simp [h.availableWords], by simp [h.lockedInGroups], rfl⟩
  · exact ⟨h.availableWords, h.lockedInGroups, rfl⟩

/-- A reply leaves all but the turns as it was. -/
theorem answer_alike (talk : Talk) (reply : Option String) : (talk.answer reply).Alike talk := by
  cases reply <;> exact ⟨rfl, rfl, rfl⟩

/-- A guess adds no turn; the next prompt tells of it. -/
theorem guess_history (talk : Talk) (g : Guess) : (talk.guess g).history = talk.history := by
  unfold Talk.guess
  split <;> rfl

/-- They also stay so over a call, whatever each is replied. -/
theorem Alike.after {talk other : Talk} (h : talk.Alike other) (reply reply' : Option String)
    (guesses : List Guess) : (talk.after reply guesses).Alike (other.after reply' guesses) := by
  have hanswered : (talk.answer reply).Alike (other.answer reply') := by
    have h₁ := answer_alike talk reply
    have h₂ := answer_alike other reply'
    exact ⟨(h₁.availableWords.trans h.availableWords).trans h₂.availableWords.symm,
      (h₁.lockedInGroups.trans h.lockedInGroups).trans h₂.lockedInGroups.symm,
      (h₁.lastFailedGuess.trans h.lastFailedGuess).trans h₂.lastFailedGuess.symm⟩
  unfold Talk.after
  induction guesses generalizing talk other reply reply' with
  | nil => exact hanswered
  | cons g guesses ih => exact ih (hanswered.guess g) none none (hanswered.guess g)

/-- The guesses of a call add no turns to those of its reply. -/
theorem after_history (talk : Talk) (reply : Option String) (guesses : List Guess) :
    (talk.after reply guesses).history = (talk.answer reply).history := by
  unfold Talk.after
  generalize talk.answer reply = answered
  induction guesses generalizing answered with
  | nil => rfl
  | cons g guesses ih => exact (ih (answered.guess g)).trans (guess_history answered g)

/-- Of the guesses of a call the last failed one is remembered. -/
theorem after_lastFailedGuess (talk : Talk) (reply : Option String) (guesses : List Guess) :
    (talk.after reply guesses).lastFailedGuess =
      Connections.lastFailedGuess talk.lastFailedGuess guesses := by
  unfold Talk.after
  rw [← (answer_alike talk reply).lastFailedGuess]
  generalize talk.answer reply = answered
  induction guesses generalizing answered with
  | nil => rfl
  | cons g guesses ih =>
    rw [List.foldl_cons, ih, Connections.lastFailedGuess, Connections.lastFailedGuess,
      List.foldl_cons]
    congr 1
    unfold Talk.guess nextFailedGuess
    split <;> rfl

end Talk

/-- The text of a reply. -/
def SolveStepOutcome.response : SolveStepOutcome → Option String
  | ok data => some data.response
  | error _ => none

/-- What the runner keeps of a reply as the assistant's turn. -/
def SolveStepOutcome.echo : SolveStepOutcome → Option String
  | ok data => some (
      if data.groups.length ≠ 0 ∧ SolvePromptIssueTag.multipleProposals ∈ data.textIssues then
        formatCompactAnswer data.proposalWords data.categoryByGroup
      else data.response)
  | error _ => none

/-- The reply that a stored row shows. -/
def SolvePrompt.reply (prompt : SolvePrompt) : Option String :=
  if prompt.status = .callError then none else some (prompt.rawResponseText.getD "")

/-- A stored call and what it came back with. -/
structure ToldCall where
  rows : CallRows
  outcome : SolveStepOutcome

section Told

variable (kept : SolveStepOutcome → Option String) (board : List String)

/-- The talk after the calls, each remembered by what is kept of its outcome. -/
def told (calls : List ToldCall) : Talk :=
  calls.foldl (fun talk call => talk.after (kept call.outcome) call.rows.guesses)
    (Talk.start board)

@[simp] theorem told_nil : told kept board [] = Talk.start board := rfl

/-- A conversation is told call by call. -/
theorem told_snoc (calls : List ToldCall) (call : ToldCall) :
    told kept board (calls ++ [call]) =
      (told kept board calls).after (kept call.outcome) call.rows.guesses := by
  rw [told, List.foldl_append]
  rfl

/-- The failed guess remembered is the last of all guesses told. -/
theorem told_lastFailedGuess (calls : List ToldCall) :
    (told kept board calls).lastFailedGuess =
      lastFailedGuess none (calls.flatMap (·.rows.guesses)) := by
  induction calls using List.reverseRecOn with
  | nil => rfl
  | append_singleton calls call ih =>
    rw [told_snoc, Talk.after_lastFailedGuess, ih, List.flatMap_append, lastFailedGuess_append]
    simp

/-- Only what is kept of the calls matters. -/
theorem told_congr {kept' : SolveStepOutcome → Option String} {calls : List ToldCall}
    (h : ∀ call ∈ calls, kept call.outcome = kept' call.outcome) :
    told kept board calls = told kept' board calls := by
  induction calls using List.reverseRecOn with
  | nil => rfl
  | append_singleton calls call ih =>
    rw [told_snoc, told_snoc, ih fun c hc => h c (List.mem_append_left _ hc),
      h call (List.mem_append_right _ List.mem_cons_self)]

end Told

/-- The rows of a call tell what was sent and what came back. -/
structure ToldCall.Tells (call : ToldCall) (board : List String) (before : List ToldCall) :
    Prop where
  follows : call.rows.Follows (before.map (·.rows))
  promptText : call.rows.prompt.promptText =
    transcriptText (told SolveStepOutcome.echo board before).request
  reply : call.rows.prompt.reply = call.outcome.response

/-- The calls of a run that tell its whole conversation. -/
inductive Transcribed (board : List String) : List ToldCall → Prop
  | nil : Transcribed board []
  | snoc {before : List ToldCall} {call : ToldCall} : Transcribed board before →
      call.Tells board before → Transcribed board (before ++ [call])

/-- The calls of a transcript number their prompts in order. -/
theorem Transcribed.recorded {board : List String} {calls : List ToldCall}
    (h : Transcribed board calls) : Recorded (calls.map (·.rows)) := by
  induction h with
  | nil => exact .nil
  | snoc _ htells ih =>
    rw [List.map_append]
    exact ih.snoc htells.follows

/-! ### One iteration -/

/-- What a loop's next prompt and transcript are made from. -/
def RunLoop.talk (loop : RunLoop) : Talk :=
  ⟨loop.run.availableWords, loop.state.lockedInGroups, loop.state.lastFailedGuess, loop.messages⟩

/-- The request the loop makes is that of its conversation. -/
theorem RunLoop.talk_request (loop : RunLoop) : loop.talk.request = loop.request := rfl

section Loop

variable (text : TextOps) (limits : RunLimits) (now : ℕ)

/-- The part of an evaluation that a talk shows. -/
def Evaluation.talk (ev : Evaluation) (history : List ChatMessage) : Talk :=
  ⟨ev.run.availableWords, ev.state.lockedInGroups, ev.state.lastFailedGuess, history⟩

/-- A submitted guess is one more guess of the conversation. -/
theorem submitGuess_talk (puzzle : Puzzle) (ev : Evaluation) (words : List String)
    (result : GuessResult) (history : List ChatMessage) :
    ∃ guess : Guess, (submitGuess limits puzzle now ev words result).pendingGuesses =
        ev.pendingGuesses ++ [guess] ∧
      (submitGuess limits puzzle now ev words result).talk history =
        (ev.talk history).guess guess := by
  refine ⟨_, rfl, ?_⟩
  unfold Evaluation.talk Talk.guess submitGuess
  simp only [availableWords_applyGuess, LlmRunLoopState.record]
  by_cases hresult : result = .success
  · simp [hresult]
  · simp [hresult]

/-- An evaluation moves the talk on by the guesses it adds. -/
theorem evaluateProposals_talk (puzzle : Puzzle) (ev : Evaluation) (proposals : List LlmProposal)
    (history : List ChatMessage) :
    ∃ guesses, (evaluateProposals text limits puzzle now ev proposals).1.pendingGuesses =
        ev.pendingGuesses ++ guesses ∧
      (evaluateProposals text limits puzzle now ev proposals).1.talk history =
        guesses.foldl Talk.guess (ev.talk history) := by
  induction ev, proposals using evaluateProposals_induct text limits puzzle now with
  | nil ev => exact ⟨[], (List.append_nil _).symm, rfl⟩
  | skipped ev tagged proposal rest result htagged ih =>
    unfold Evaluation.talk at ih ⊢
    rwa [htagged.state, htagged.run, htagged.pendingGuesses] at ih
  | submitted ev tagged proposal rest words caseMismatch next htagged _ hnext =>
    subst hnext
    obtain ⟨guess, hguess, htalk⟩ := submitGuess_talk limits now puzzle tagged words
      (judgeGuess text puzzle ev.state.priorGuesses words) history
    have hsame : tagged.talk history = ev.talk history := by
      unfold Evaluation.talk
      rw [htagged.state, htagged.run]
    rw [htagged.pendingGuesses] at hguess
    rw [hsame] at htalk
    refine ⟨⟨[guess], hguess, htalk⟩, ?_⟩
    rintro result - - ⟨guesses, hmore, hrest⟩
    refine ⟨guess :: guesses, ?_, ?_⟩
    · rw [hmore, hguess, List.append_assoc, List.singleton_append]
    · rw [hrest, htalk, List.foldl_cons]

/-- A handled reply moves the talk on by what is kept of it and by its guesses. -/
theorem handleReply_talk (loop : RunLoop) (promptType : SolvePromptType)
    (data : SolveStepSuccess) :
    let result := handleReply text limits loop now promptType loop.request data
    result.1.talk = loop.talk.after (SolveStepOutcome.ok data).echo result.2.guesses := by
  unfold handleReply
  by_cases hgroups : data.groups.length = 0
  · have hwords := (countMalformed_run limits now
      { loop.run with
        modelName := loop.run.modelName.orElse fun _ => some data.model
        contextWindow := data.contextWindow.orElse fun _ => loop.run.contextWindow }
      { loop.state with
        consecutiveModelErrors := 0, rateLimitStreak := 0
        rateLimitStreakStartedAt := none }).availableWords
    simp only [hgroups, ↓reduceIte, RunLoop.talk, hwords, SolveStepOutcome.echo, ne_eq,
      not_true_eq_false, false_and]
    rfl
  · simp only [hgroups, ↓reduceIte]
    generalize hev : (⟨_, _, [], data.textIssues⟩ : Evaluation) = ev
    generalize buildProposalEntries _ _ _ _ = entries
    have hempty : ev.pendingGuesses = [] := by rw [← hev]
    obtain ⟨guesses, hguesses, htalk⟩ := evaluateProposals_talk text limits now loop.puzzle ev
      entries (loop.talk.answer (SolveStepOutcome.ok data).echo).history
    have hstart : ev.talk (loop.talk.answer (SolveStepOutcome.ok data).echo).history =
        loop.talk.answer (SolveStepOutcome.ok data).echo := by
      rw [← hev]
      rfl
    rw [hempty, List.nil_append] at hguesses
    rw [hstart] at htalk
    have hecho : (SolveStepOutcome.ok data).echo = some
        (if SolvePromptIssueTag.multipleProposals ∈ data.textIssues then
          formatCompactAnswer data.proposalWords data.categoryByGroup else data.response) := by
      simp [SolveStepOutcome.echo, hgroups]
    generalize (evaluateProposals text limits loop.puzzle now ev entries).1 = result
      at hguesses htalk ⊢
    rw [hguesses, Talk.after, ← htalk, hecho]
    unfold RunLoop.talk Evaluation.talk
    simp only
    split
    · rw [(countMalformed_run limits now _ _).availableWords]
      rfl
    · rfl

/-- The row of a reply shows the reply. -/
theorem handleReply_reply (loop : RunLoop) (promptType : SolvePromptType)
    (request : List ChatMessage) (data : SolveStepSuccess) :
    ∀ prompt ∈ (handleReply text limits loop now promptType request data).2.prompts,
      prompt.reply = (SolveStepOutcome.ok data).response := by
  unfold handleReply
  simp only
  split
  · intro prompt hprompt
    rw [List.mem_singleton.mp hprompt]
    rfl
  · intro prompt hprompt
    rw [List.mem_singleton.mp hprompt]
    rfl

/-- A failed call locks in no group. -/
theorem classifyFailedCall_lockedInGroups (pool : Option ProviderPoolId)
    (freeTier : Option FreeTierConfig) (failure : SolveStepFailure) (run : StrategyRun)
    (state : LlmRunLoopState) :
    (classifyFailedCall limits pool freeTier now failure run state).2.2.lockedInGroups =
      state.lockedInGroups := by
  by_cases h : failure.code = .duplicateGroup
  · simp [classifyFailedCall, h]
  · exact congrArg RunHistory.lockedInGroups
      (classifyFailedCall_history limits now pool freeTier failure run state h)

/-- A flushed iteration tells its call. -/
theorem runIteration_talk {loop next : RunLoop} {reservation : Option ℕ}
    {outcome : SolveStepOutcome} {batch : FlushBatch} {holds : List HoldRequest}
    (h : runIteration text limits loop now reservation outcome = .flush next batch holds) :
    next.talk = loop.talk.after outcome.echo batch.guesses ∧
      ∀ prompt ∈ batch.prompts, prompt.reply = outcome.response := by
  unfold runIteration at h
  split at h
  · cases h
  · cases outcome with
    | ok data =>
      cases h
      exact ⟨handleReply_talk text limits now loop _ data,
        handleReply_reply text limits now loop _ loop.request data⟩
    | error failure =>
      simp only [IterationResult.flush.injEq] at h
      obtain ⟨hnext, hbatch, -⟩ := h
      constructor
      · rw [← hnext, ← hbatch]
        simp only [handleFailure, RunLoop.talk,
          (classifyFailedCall_run limits now _ _ _ _ _).availableWords,
          classifyFailedCall_lockedInGroups, classifyFailedCall_lastFailedGuess]
        rfl
      · rw [← hbatch]
        intro prompt hprompt
        rw [List.mem_singleton.mp hprompt]
        rfl

end Loop

namespace RunWorld

/-- The outcome of an iteration that stored its call; one that was parked made none. -/
def completedCall (w : RunWorld) (e : RunEvent) (w' : RunWorld) : Option SolveStepOutcome :=
  match e with
  | .iterate _ _ outcome => if w.callCount < w'.callCount then some outcome else none
  | _ => none

/-- A step that stores no call leaves the log. -/
theorem log_of_callCount_eq {w w' : RunWorld} (log : List SolveStepOutcome) (e : RunEvent)
    (h : w'.callCount = w.callCount) : log ++ (completedCall w e w').toList = log := by
  have hnone : completedCall w e w' = none := by
    unfold completedCall
    split
    · simp [h]
    · rfl
  rw [hnone, Option.toList_none, List.append_nil]

/-- No execution takes up a run that has stored a call. -/
def unresumed (w : RunWorld) : RunEvent → Bool
  | .enter _ _ =>
    match w.worker, w.rows with
    | some (.loaded run _ _ _), some rows =>
      run.status ∈ terminalStatuses || rows.prompts.isEmpty
    | _, _ => true
  | _ => true

/-- The rows of a run are those of its calls, in their order. -/
structure StoredCalls (board : List String) (rows : RunRows) (log : List SolveStepOutcome)
    (calls : List ToldCall) : Prop where
  transcribed : Transcribed board calls
  outcomes : calls.map (·.outcome) = log
  prompts : rows.prompts = calls.map (·.rows.prompt)
  proposals : rows.proposals = calls.flatMap (·.rows.proposals)
  guesses : rows.guesses = calls.flatMap (·.rows.guesses)

/-- Where no prompt is stored no call was made. -/
theorem StoredCalls.eq_nil {board : List String} {rows : RunRows} {log : List SolveStepOutcome}
    {calls : List ToldCall} (h : StoredCalls board rows log calls) (hnone : rows.prompts = []) :
    calls = [] :=
  List.map_eq_nil_iff.mp (h.prompts.symm.trans hnone)

/-- A batch with one more call, told behind the calls before it. -/
theorem StoredCalls.snoc {board : List String} {rows : RunRows} {log : List SolveStepOutcome}
    {calls : List ToldCall} {loop next : RunLoop} {batch : FlushBatch} {call : CallRows}
    {outcome : SolveStepOutcome} (h : StoredCalls board rows log calls)
    (hcall : call.Appended loop next batch)
    (htells : (⟨call, outcome⟩ : ToldCall).Tells board calls) (now : ℕ) :
    StoredCalls board (flushBatch rows batch now) (log ++ [outcome])
      (calls ++ [⟨call, outcome⟩]) where
  transcribed := h.transcribed.snoc htells
  outcomes := by rw [List.map_append, h.outcomes, List.map_singleton]
  prompts := by simp [flushBatch, h.prompts, hcall.prompts]
  proposals := by simp [flushBatch, h.proposals, hcall.proposals]
  guesses := by simp [flushBatch, h.guesses, hcall.guesses]

/-- The stored calls tell the conversation, a loop goes on with it, and a run without calls has its
whole board. -/
structure Telling (board : List String) (w : RunWorld) (log : List SolveStepOutcome) : Prop where
  fresh : w.rows = none → log = []
  stored : ∀ rows, w.rows = some rows → ∃ calls, StoredCalls board rows log calls ∧
    ∀ loop, w.worker = some (.looping loop) →
      loop.talk = told SolveStepOutcome.echo board calls ∧ loop.globalPromptNumber = calls.length
  whole : ∀ rows, w.rows = some rows → rows.prompts = [] →
    rows.run.availableWords.map normalizePuzzleWord = board
  loaded : ∀ rows run model manualRetry maxOutputTokens, w.rows = some rows →
    w.worker = some (.loaded run model manualRetry maxOutputTokens) → rows.prompts = [] →
    run.availableWords.map normalizePuzzleWord = board

theorem telling_fresh (board : List String) : Telling board fresh [] where
  fresh _ := rfl
  stored _ h := by cases h
  whole _ h := by cases h
  loaded _ _ _ _ _ h := by cases h

/-- A step that appends nothing and leaves no worker keeps what is told. -/
theorem Telling.closed {board : List String} {w w' : RunWorld} {log : List SolveStepOutcome}
    (h : Telling board w log) {rows : RunRows} {run : StrategyRun} (hrows : w.rows = some rows)
    (hrows' : w'.rows = some { rows with run := run }) (hworker : w'.worker = none)
    (hwords : rows.prompts = [] → run.availableWords.map normalizePuzzleWord = board) :
    Telling board w' log where
  fresh hnone := by rw [hrows'] at hnone; cases hnone
  stored := by
    intro _ hsome
    obtain rfl := Option.some.inj (hrows'.symm.trans hsome)
    obtain ⟨calls, hcalls, -⟩ := h.stored rows hrows
    refine ⟨calls, ⟨hcalls.transcribed, hcalls.outcomes, hcalls.prompts, hcalls.proposals,
      hcalls.guesses⟩, ?_⟩
    intro loop hloop
    rw [hworker] at hloop
    cases hloop
  whole := by
    intro _ hsome
    obtain rfl := Option.some.inj (hrows'.symm.trans hsome)
    exact hwords
  loaded := by
    intro _ _ _ _ _ _ hloaded
    rw [hworker] at hloaded
    cases hloaded

section Runs

variable {text : TextOps} {limits : RunLimits} {puzzle : Puzzle} {strategyName : String}
  {runId trialNumber : ℕ}

/-- Words normalized already come back as they are. -/
theorem map_normalizePuzzleWord_idem (words : List String) :
    (words.map normalizePuzzleWord).map normalizePuzzleWord = words.map normalizePuzzleWord := by
  simp [normalizePuzzleWord_idem]

/-- A loop that is rebuilt for a run without calls starts the conversation. -/
theorem rebuiltLoop_talk (rows : RunRows) (run : StrategyRun) (model : Option String)
    (manualRetry : Bool) (maxOutputTokens : Option ℕ) (hprompts : rows.prompts = [])
    (hguesses : rows.guesses = []) :
    (rebuiltLoop puzzle.fixups rows (applyOneOffWordFixups run puzzle).1 model manualRetry
        maxOutputTokens).talk = Talk.start (run.availableWords.map normalizePuzzleWord) ∧
      (rebuiltLoop puzzle.fixups rows (applyOneOffWordFixups run puzzle).1 model manualRetry
        maxOutputTokens).globalPromptNumber = 0 := by
  have havailable : (rebuiltLoop puzzle.fixups rows (applyOneOffWordFixups run puzzle).1 model
      manualRetry maxOutputTokens).run.availableWords =
        run.availableWords.map normalizePuzzleWord := by
    unfold rebuiltLoop
    simp only
    split <;> rfl
  constructor
  · unfold RunLoop.talk
    rw [havailable]
    simp [rebuiltLoop, hguesses, hprompts, loadLlmGuessesForRun, rebuildState, latestRequestBody,
      reconstructMessages, Talk.start]
  · simp [rebuiltLoop, hprompts, lastPromptNumber]

/-- The rows of a call tell what its loop sent and what came back. -/
theorem tells_of_appended {board : List String} {calls : List ToldCall} {loop next : RunLoop}
    {reservation : Option ℕ} {outcome : SolveStepOutcome} {batch : FlushBatch}
    {holds : List HoldRequest} {now : ℕ} {call : CallRows}
    (htalk : loop.talk = told SolveStepOutcome.echo board calls)
    (hnumber : loop.globalPromptNumber = calls.length)
    (hflush : runIteration text limits loop now reservation outcome = .flush next batch holds)
    (hcall : call.Appended loop next batch) :
    (⟨call, outcome⟩ : ToldCall).Tells board calls := by
  have hprompt : call.prompt ∈ batch.prompts := by
    rw [hcall.prompts]
    exact List.mem_cons_self
  have hlast : loop.state.lastFailedGuess =
      lastFailedGuess none ((calls.map (·.rows)).flatMap (·.guesses)) := by
    have htold := congrArg Talk.lastFailedGuess htalk
    rw [told_lastFailedGuess] at htold
    rw [List.flatMap_map]
    exact htold
  refine ⟨⟨?_, ?_, hcall.linked, hcall.submitted, hcall.callError⟩, ?_,
    (runIteration_talk text limits now hflush).2 call.prompt hprompt⟩
  · rw [hcall.number, hnumber, List.length_map]
  · rw [hcall.promptType, hlast]
  · rw [(runIteration_prompts hflush call.prompt hprompt).1, ← RunLoop.talk_request, htalk]

/-- Every step of a run that is not resumed keeps telling its conversation. -/
theorem telling_step {w w' : RunWorld} {e : RunEvent} {log : List SolveStepOutcome}
    (h : Telling (startingOrder text puzzle strategyName) w log) (hok : unresumed w e = true)
    (hstep : step text limits puzzle strategyName runId trialNumber w e = some w') :
    Telling (startingOrder text puzzle strategyName) w'
      (log ++ (completedCall w e w').toList) := by
  cases step_cases hstep with
  | created now model contextWindow budgetTier manualRetry maxOutputTokens hworker hrows =>
    rw [h.fresh hrows]
    refine ⟨by simp, ?_, ?_, ?_⟩
    · rintro _ ⟨⟩
      exact ⟨[], ⟨.nil, rfl, rfl, rfl, rfl⟩, by simp⟩
    · rintro _ ⟨⟩ -
      rfl
    · rintro _ _ _ _ _ ⟨⟩ ⟨⟩ -
      rfl
  | loaded rows now model contextWindow budgetTier manualRetry maxOutputTokens hworker hrows =>
    rw [log_of_callCount_eq log _ (by rfl)]
    refine ⟨h.fresh, ?_, h.whole, ?_⟩
    · intro rows' hrows'
      obtain ⟨calls, hcalls, -⟩ := h.stored rows' hrows'
      exact ⟨calls, hcalls, by simp⟩
    · rintro rows' _ _ _ _ hrows' ⟨⟩ hnone
      obtain rfl := Option.some.inj (hrows.symm.trans hrows')
      exact h.whole rows hrows hnone
  | enteredTerminal rows run model manualRetry maxOutputTokens now held hworker hrows =>
    rw [log_of_callCount_eq log _ (by rfl)]
    exact h.closed hrows hrows rfl (h.whole rows hrows)
  | enteredHeld rows run model manualRetry maxOutputTokens now held hworker hrows =>
    rw [log_of_callCount_eq log _ (by simp [callCount, hrows, saveRun])]
    refine h.closed hrows rfl rfl fun hnone => ?_
    have hwords := h.loaded rows run _ _ _ hrows hworker hnone
    exact (map_normalizePuzzleWord_idem run.availableWords).trans hwords
  | enteredLoop rows run model manualRetry maxOutputTokens now held hworker hrows hstatus =>
    rw [log_of_callCount_eq log _ (by rfl)]
    have hnone : rows.prompts = [] := by
      simpa [unresumed, hworker, hrows, hstatus] using hok
    have hwords := h.loaded rows run _ _ _ hrows hworker hnone
    refine ⟨h.fresh, ?_, h.whole, by simp⟩
    intro rows' hrows'
    obtain rfl := Option.some.inj (hrows.symm.trans hrows')
    obtain ⟨calls, hcalls, -⟩ := h.stored rows hrows
    obtain rfl := hcalls.eq_nil hnone
    refine ⟨[], hcalls, ?_⟩
    rintro loop ⟨⟩
    rw [← hwords]
    exact rebuiltLoop_talk rows run model manualRetry maxOutputTokens hnone hcalls.guesses
  | parked rows loop now reservation outcome run hworker hrows hparked =>
    rw [log_of_callCount_eq log _ (by simp [callCount, hrows, saveRun])]
    refine h.closed hrows rfl rfl fun hnone => ?_
    obtain ⟨calls, hcalls, hlive⟩ := h.stored rows hrows
    obtain rfl := hcalls.eq_nil hnone
    have hboard : loop.run.availableWords = startingOrder text puzzle strategyName :=
      congrArg Talk.availableWords (hlive loop hworker).1
    rw [runIteration_parked_run text limits hparked]
    simp only [StrategyRun.finish, hboard]
    exact map_normalizePuzzleWord_idem _
  | flushed rows loop next batch holds now reservation outcome hworker hrows hflush =>
    obtain ⟨calls, hcalls, hlive⟩ := h.stored rows hrows
    obtain ⟨htalk, hnumber⟩ := hlive loop hworker
    obtain ⟨call, hcall⟩ := runIteration_appends text limits now hflush
    have htells := tells_of_appended htalk hnumber hflush hcall
    have hlog : completedCall w (.iterate now reservation outcome)
        ⟨some (flushBatch rows batch now), if next.run.status = .running then
          some (.looping { next with state := { next.state with rateLimitWaitMs := none } })
          else none, some next.state⟩ = some outcome := by
      simp [completedCall, callCount, hrows, flushBatch, hcall.prompts]
    rw [hlog, Option.toList_some]
    refine ⟨by simp, ?_, ?_, ?_⟩
    · rintro _ ⟨⟩
      refine ⟨calls ++ [⟨call, outcome⟩], hcalls.snoc hcall htells now, fun after hafter => ?_⟩
      cases (worker_flushed hafter).2
      refine ⟨?_, by simp [hcall.nextNumber, hnumber]⟩
      rw [told_snoc, ← htalk, ← hcall.guesses]
      exact (runIteration_talk text limits now hflush).1
    · rintro _ ⟨⟩ hnone
      simp [flushBatch, hcall.prompts] at hnone
    · rintro _ _ _ _ _ ⟨⟩ _ hnone
      simp [flushBatch, hcall.prompts] at hnone
  | crashed =>
    rw [log_of_callCount_eq log _ (by rfl)]
    refine ⟨h.fresh, ?_, h.whole, by simp⟩
    intro rows hrows
    obtain ⟨calls, hcalls, -⟩ := h.stored rows hrows
    exact ⟨calls, hcalls, by simp⟩
  | flipped rows run e hworker hrows hwords =>
    rw [log_of_callCount_eq log _ (by simp [callCount, hrows])]
    exact h.closed hrows rfl hworker fun hnone => hwords ▸ h.whole rows hrows hnone

/-- Over every run that is not resumed, whatever its calls come back with, the stored calls tell the
conversation. -/
theorem telling_reaches {s : RunWorld × List SolveStepOutcome}
    (h : Run.Reaches
      (Run.logged (step text limits puzzle strategyName runId trialNumber) completedCall)
      (fun s e => unresumed s.1 e = true) (RunWorld.fresh, []) s) :
    Telling (startingOrder text puzzle strategyName) s.1 s.2 := by
  induction h with
  | start => exact telling_fresh _
  | snoc _ hok hstep ih =>
    obtain ⟨w', hw', rfl⟩ := Option.map_eq_some_iff.mp hstep
    exact telling_step ih hok hw'

end Runs

end RunWorld

end Connections
