import Connections.Strategy.History

/-!
# A resumed run continues from the live state

Under the view that keeps the stored guesses, the live history and the history right after the
last flush, a run over its restarts is a process with a durable log.  What a resumed run
rebuilds is therefore what the loop had when it last flushed.
-/

namespace Connections

namespace RunWorld

/-- The stored guesses, or none before the run exists. -/
def guesses (w : RunWorld) : List Guess :=
  match w.rows with
  | some rows => rows.guesses
  | none => []

/-- The live loop, if there is one. -/
def loop? (w : RunWorld) : Option RunLoop :=
  match w.worker with
  | some (.looping loop) => some loop
  | _ => none

theorem loop?_eq_some {w : RunWorld} {loop : RunLoop} :
    w.loop? = some loop ↔ w.worker = some (.looping loop) := by
  unfold loop?
  split
  · simp_all
  · simp_all

/-- The calls that a run has stored. -/
def callCount (w : RunWorld) : ℕ := (w.rows.map (·.prompts.length)).getD 0

/-- The run as a process with a durable log of guesses. -/
def sourced (w : RunWorld) : EventLog.Sourced RunHistory Guess :=
  { log := w.guesses
    live := w.loop?.map (·.state.history)
    lastFlushed := w.lastFlushed.map (·.history) }

/-- The stored guesses are numbered `1..n`, and a live loop counts exactly these. -/
structure Numbered (w : RunWorld) : Prop where
  stored : w.guesses.map (·.sequenceNumber) = List.range' 1 w.guesses.length
  live : ∀ loop, w.loop? = some loop → loop.state.guessCount = w.guesses.length

theorem numbered_fresh : Numbered fresh where
  stored := rfl
  live loop h := by cases h

/-- Guesses numbered in order are loaded in the order they were stored. -/
theorem loadLlmGuessesForRun_of_numbered {guesses : List Guess}
    (h : guesses.map (·.sequenceNumber) = List.range' 1 guesses.length) :
    loadLlmGuessesForRun guesses = guesses := by
  apply List.Pairwise.insertionSort_eq
  have hsorted : (guesses.map (·.sequenceNumber)).Pairwise (· < ·) := by
    rw [h]
    exact List.pairwise_lt_range'
  exact (List.pairwise_map.mp hsorted).imp fun hlt => Nat.le_of_lt hlt

/-- The events of an orchestrator that never reports a duplicate group. -/
def producible : RunWorld → RunEvent → Prop
  | _, .iterate _ _ outcome => outcome.producible
  | _, _ => True

instance (w : RunWorld) (e : RunEvent) : Decidable (producible w e) :=
  match e with
  | .iterate _ _ (.error failure) => inferInstanceAs (Decidable (failure.code ≠ .duplicateGroup))
  | .iterate _ _ (.ok _) => .isTrue trivial
  | .load .. => .isTrue trivial
  | .enter .. => .isTrue trivial
  | .crash => .isTrue trivial
  | .resume .. => .isTrue trivial
  | .retry => .isTrue trivial
  | .markFailed .. => .isTrue trivial

section Simulation

variable {text : TextOps} {limits : RunLimits} {puzzle : Puzzle} {strategyName : String}
  {runId trialNumber : ℕ}

/-- A step that keeps the guesses and leaves no live loop keeps the numbering. -/
theorem Numbered.closed {w w' : RunWorld} (hn : Numbered w) (hguesses : w'.guesses = w.guesses)
    (hloop : w'.loop? = none) : Numbered w' where
  stored := hguesses ▸ hn.stored
  live loop h := by
    rw [hloop] at h
    cases h

/-- Every step keeps the numbering, whatever the orchestrator answers. -/
theorem numbered_step {w w' : RunWorld} {e : RunEvent} (hn : Numbered w)
    (h : step text limits puzzle strategyName runId trialNumber w e = some w') : Numbered w' := by
  cases step_cases h with
  | created _ _ _ _ _ _ hworker hrows => exact hn.closed (by simp [guesses, hrows]) rfl
  | loaded rows _ _ _ _ _ _ hworker hrows hmodel =>
    exact hn.closed (by simp [guesses, hrows]) rfl
  | enteredTerminal rows _ _ _ _ _ _ hworker hrows hterminal =>
    exact hn.closed (by simp [guesses]) rfl
  | enteredHeld rows _ _ _ _ _ _ hworker hrows hterminal =>
    exact hn.closed (by simp [guesses, hrows, saveRun]) rfl
  | enteredLoop rows run model manualRetry maxOutputTokens _ _ hworker hrows hterminal =>
    have hstored : rows.guesses.map (·.sequenceNumber) = List.range' 1 rows.guesses.length := by
      simpa [guesses, hrows] using hn.stored
    refine ⟨hn.stored, fun loop hloop => ?_⟩
    cases hloop
    simp [rebuiltLoop, loadLlmGuessesForRun_of_numbered hstored, rebuildState, guesses, hrows]
  | parked rows loop _ _ _ run hworker hrows hpark =>
    exact hn.closed (by simp [guesses, hrows, saveRun]) rfl
  | flushed rows loop next batch _ now _ _ hworker hrows hflush =>
    have hguesses : w.guesses = rows.guesses := by simp [guesses, hrows]
    have hcount : loop.state.guessCount = rows.guesses.length := by
      rw [← hguesses]
      exact hn.live loop (by simp [loop?, hworker])
    have hstored := hn.stored
    rw [hguesses] at hstored
    obtain ⟨hnumbered, hnext⟩ := runIteration_numbered text limits _ hflush
    refine ⟨?_, fun l hl => ?_⟩
    · change (rows.guesses ++ batch.guesses).map _ =
        List.range' 1 (rows.guesses ++ batch.guesses).length
      rw [List.map_append, hstored, hnumbered, hcount, Nat.add_comm _ 1, List.length_append]
      simp
    · change l.state.guessCount = (rows.guesses ++ batch.guesses).length
      rw [List.length_append, ← hcount, ← hnext]
      unfold loop? at hl
      simp only at hl
      split at hl
      · cases hl
        rename_i hworker'
        cases (worker_flushed hworker').2
        rfl
      · cases hl
  | crashed => exact hn.closed (by simp [guesses]) rfl
  | flipped rows run _ hworker hrows =>
    exact hn.closed (by simp [guesses, hrows]) (by simp [loop?, hworker])

/-- Over every run, the stored guesses are numbered `1..n`. -/
theorem numbered_reaches {w : RunWorld} {ok : RunWorld → RunEvent → Prop}
    (h : Run.Reaches (step text limits puzzle strategyName runId trialNumber) ok fresh w) :
    Numbered w :=
  h.invariant numbered_fresh fun _ _ _ hn _ hstep => numbered_step hn hstep

/-- A restart reopens the log. -/
theorem sourced_entered {w : RunWorld} {rows : RunRows} {run : StrategyRun}
    {model : Option String} {manualRetry : Bool} {maxOutputTokens : Option ℕ} {puzzle : Puzzle}
    (hrows : w.rows = some rows) (hn : Numbered w) :
    EventLog.step RunHistory.record RunHistory.start w.sourced .open =
      some (sourced { w with worker := some (.looping
        (rebuiltLoop puzzle rows run model manualRetry maxOutputTokens)) }) := by
  have hguesses : w.guesses = rows.guesses := by simp [guesses, hrows]
  have hstored := hn.stored
  rw [hguesses] at hstored
  simp only [EventLog.step, sourced, loop?, Option.map_some, rebuiltLoop,
    loadLlmGuessesForRun_of_numbered hstored, history_rebuildState, guesses, hrows]

/-- A flush appends its batch to the log; a worker that leaves the loop with it is gone. -/
theorem sourced_flushed {w : RunWorld} {rows : RunRows} {loop next : RunLoop}
    {batch : FlushBatch} {now : ℕ} (hrows : w.rows = some rows)
    (hworker : w.worker = some (.looping loop))
    (h : Extends loop.state.history next.state.history batch.guesses) (worker : Option RunWorker)
    (hnext : ∀ l, loop? ⟨none, worker, none⟩ = some l →
      l.state.history = next.state.history) :
    Run.Reaches (EventLog.step RunHistory.record RunHistory.start) Run.always w.sourced
      (sourced ⟨some (flushBatch rows batch now), worker, some next.state⟩) := by
  have happend : EventLog.step RunHistory.record RunHistory.start w.sourced
      (.append batch.guesses) = some
        { log := rows.guesses ++ batch.guesses, live := some next.state.history
          lastFlushed := some next.state.history } := by
    simp [EventLog.step, sourced, loop?, hworker, guesses, hrows, h.recorded]
  have hreach := Run.Reaches.start.snoc (show Run.always _ _ from trivial) happend
  have hview : sourced ⟨some (flushBatch rows batch now), worker, some next.state⟩ =
      { log := rows.guesses ++ batch.guesses
        live := (loop? ⟨none, worker, none⟩).map (·.state.history)
        lastFlushed := some next.state.history } := rfl
  cases hl : loop? ⟨none, worker, none⟩ with
  | some l =>
    rw [hview, hl, Option.map_some, hnext l hl]
    exact hreach
  | none =>
    rw [hview, hl]
    exact hreach.snoc (e := .crash) trivial rfl

/-- A step that keeps the guesses and leaves no live loop behind is a crash of the process. -/
theorem sourced_closed {w w' : RunWorld} (hguesses : w'.guesses = w.guesses)
    (hlast : w'.lastFlushed = w.lastFlushed) (hloop : w'.loop? = none) :
    Run.Reaches (EventLog.step RunHistory.record RunHistory.start) Run.always w.sourced
      w'.sourced :=
  Run.Reaches.start.snoc (e := .crash) trivial
    (by simp [EventLog.step, sourced, hguesses, hlast, hloop])

/-- Every step of the run is matched by the process with a durable log. -/
theorem sourced_step {w w' : RunWorld} {e : RunEvent} (hn : Numbered w) (hok : producible w e)
    (h : step text limits puzzle strategyName runId trialNumber w e = some w') :
    Run.Reaches (EventLog.step RunHistory.record RunHistory.start) Run.always w.sourced
      w'.sourced := by
  cases step_cases h with
  | created _ _ _ _ _ _ hworker hrows => exact sourced_closed (by simp [guesses, hrows]) rfl rfl
  | loaded rows _ _ _ _ _ _ hworker hrows hmodel =>
    exact sourced_closed (by simp [guesses, hrows]) rfl rfl
  | enteredTerminal rows _ _ _ _ _ _ hworker hrows hterminal =>
    exact sourced_closed (by simp [guesses]) rfl rfl
  | enteredHeld rows _ _ _ _ _ _ hworker hrows hterminal =>
    exact sourced_closed (by simp [guesses, hrows, saveRun]) rfl rfl
  | enteredLoop rows run model manualRetry maxOutputTokens _ _ hworker hrows hterminal =>
    exact Run.Reaches.start.snoc trivial (sourced_entered hrows hn)
  | parked rows loop _ _ _ run hworker hrows hpark =>
    exact sourced_closed (by simp [guesses, hrows, saveRun]) rfl rfl
  | flushed rows loop next batch _ _ _ _ hworker hrows hflush =>
    refine sourced_flushed hrows hworker (runIteration_extends text limits _ hok hflush) _
      fun l hl => ?_
    split at hl
    · cases hl
      rfl
    · cases hl
  | crashed => exact sourced_closed (by simp [guesses]) rfl rfl
  | flipped rows run _ hworker hrows =>
    exact sourced_closed (by simp [guesses, hrows]) rfl (by simp [loop?, hworker])

/-- Over every run, the process with a durable log is followed. -/
theorem sourced_reaches {w : RunWorld}
    (h : Run.Reaches (step text limits puzzle strategyName runId trialNumber) producible fresh w) :
    Run.Reaches (EventLog.step RunHistory.record RunHistory.start) Run.always
      EventLog.Sourced.fresh w.sourced :=
  (h.simulate numbered_fresh fun _ _ _ hn hok hstep =>
    ⟨numbered_step hn hstep, sourced_step hn hok hstep⟩).2

/-- Whenever a run is picked up again after a flush, the history it rebuilds is the one the loop
had right after that flush. -/
theorem resumed_history_eq {w w' : RunWorld} {now : ℕ} {held : Bool} {loop : RunLoop}
    {flushed : LlmRunLoopState}
    (hrun : Run.Reaches (step text limits puzzle strategyName runId trialNumber) producible
      fresh w)
    (hflushed : w.lastFlushed = some flushed)
    (henter : step text limits puzzle strategyName runId trialNumber w (.enter now held) = some w')
    (hloop : w'.worker = some (.looping loop)) :
    loop.state.guessCount = flushed.guessCount ∧
      loop.state.duplicateCount = flushed.duplicateCount ∧
      loop.state.failedGuessCount = flushed.failedGuessCount ∧
      loop.state.lockedInGroups = flushed.lockedInGroups ∧
      loop.state.lastFailedGuess = flushed.lastFailedGuess ∧
      loop.state.priorGuesses = flushed.priorGuesses := by
  have hentered := sourced_step (e := .enter now held) (numbered_reaches hrun) trivial henter
  have hafter := EventLog.reaches_faithful _ _ ((sourced_reaches hrun).append hentered)
  have hlast : w'.lastFlushed = some flushed := by
    cases step_cases henter <;> exact hflushed
  have hlive := hafter.live loop.state.history (by simp [sourced, loop?, hloop])
  have hkept := hafter.lastFlushed flushed.history (by simp [sourced, hlast])
  have heq : loop.state.history = flushed.history := hlive.trans hkept.symm
  simp only [LlmRunLoopState.history, RunHistory.mk.injEq] at heq
  exact heq

end Simulation

/-- A board of two groups. -/
def insectsAndTrees : Puzzle :=
  ⟨1, "2023-06-12", [⟨[⟨"ANT", 0⟩, ⟨"BEE", 1⟩, ⟨"FLY", 2⟩, ⟨"GNAT", 3⟩]⟩,
    ⟨[⟨"ASH", 4⟩, ⟨"ELM", 5⟩, ⟨"FIR", 6⟩, ⟨"OAK", 7⟩]⟩]⟩

/-- A worker that dies after a reply with a solved group and a miss; the next job picks the run
up with both guesses counted. -/
theorem resumed_history_eq_after_miss :
    let advance := step asciiText defaultLimits insectsAndTrees "llm-openai" 1 1
    ∃ w w' loop flushed, flushed.guessCount = 2 ∧ w.lastFlushed = some flushed ∧
      advance w (.enter 3 false) = some w' ∧ w'.worker = some (.looping loop) ∧
      loop.state.guessCount = flushed.guessCount ∧
      loop.state.lastFailedGuess = flushed.lastFailedGuess := by
  intro advance
  let events : List RunEvent :=
    [.load 0 (some "gpt-5-mini") none none false none, .enter 0 false,
      .iterate 1 none (plainReply [["ant", "BEE", "FLY", "GNAT"], ["ASH", "ELM", "OAK", "OAK"]]),
      .crash, .load 2 (some "gpt-5-mini") none none false none]
  obtain ⟨w, hrun, hlast⟩ := Run.exists_reaches advance producible fresh events
    (fun w => (w.lastFlushed.map (·.guessCount) = some 2) &&
      (advance w (.enter 3 false)).any fun w' => w'.loop?.isSome) (by decide)
  simp only [Bool.and_eq_true, decide_eq_true_eq, Option.any_eq_true] at hlast
  obtain ⟨hcount, w', henter, hloop⟩ := hlast
  obtain ⟨flushed, hflushed, htwo⟩ := Option.map_eq_some_iff.mp hcount
  obtain ⟨loop, hl⟩ := Option.isSome_iff_exists.mp hloop
  have hworker : w'.worker = some (.looping loop) := loop?_eq_some.mp hl
  have hsame := resumed_history_eq hrun hflushed henter hworker
  exact ⟨w, w', loop, flushed, htwo, hflushed, henter, hworker, hsame.1, hsame.2.2.2.2.1⟩

end RunWorld

end Connections
