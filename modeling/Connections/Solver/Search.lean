import Connections.Library.Checkpoint
import Connections.Solver.DeterministicSolver
import Connections.Strategy.Resume

/-!
# The search behind an enumerating run

What an enumerating strategy goes on with is its cursor, the words left, the status and the number
of guesses; from these it emits one guess after the other.  The stored run is a checkpoint of this
search: however often its worker is cut short, the stored guesses are the search's own.
-/

namespace Connections

open Checkpoint

/-- What an enumerating strategy goes on with. -/
structure Search where
  runId : ℕ
  availableWords : List String
  currentCombination : List ℕ
  status : StrategyRunStatus
  guessCount : ℕ
  deriving DecidableEq, Repr

/-- The search of a run after a number of guesses. -/
def StrategyRun.search (run : StrategyRun) (guessCount : ℕ) : Search :=
  ⟨run.id, run.availableWords, run.currentCombination, run.status, guessCount⟩

section Next

variable (text : TextOps) (puzzle : Puzzle)

/-- The search after a judged guess. -/
def Search.after (s : Search) (words : List String) (result : GuessResult) : Search :=
  if result = .success then
    let availableWords := s.availableWords.filter (· ∉ words)
    { s with
      availableWords := availableWords
      currentCombination := firstCombination groupSize
      status := if availableWords.length = 0 then .completed else s.status
      guessCount := s.guessCount + 1 }
  else
    match nextCombination s.currentCombination s.availableWords.length with
    | none => { s with status := .failed, guessCount := s.guessCount + 1 }
    | some next => { s with currentCombination := next, guessCount := s.guessCount + 1 }

/-- The guess that a search makes of some words. -/
def Search.guess (s : Search) (words : List String) : Guess where
  puzzleId := puzzle.id
  strategyRunId := s.runId
  words := words
  result := evaluateGuessOnPuzzle text puzzle words
  sequenceNumber := s.guessCount + 1
  source := .strategy

/-- The next guess of a running search. -/
def Search.next (s : Search) : Option (Guess × Search) :=
  if s.status = .running then
    ((combinationToWords s.currentCombination s.availableWords).mapM id).map fun words =>
      (s.guess text puzzle words, s.after words (evaluateGuessOnPuzzle text puzzle words))
  else none

end Next

variable {text : TextOps} {puzzle : Puzzle} {strategyName : String}

/-- A guess leaves the search running or ends it. -/
theorem Search.status_after (s : Search) (words : List String) (result : GuessResult) :
    (s.after words result).status = s.status ∨
      (s.after words result).status ∈ terminalStatuses := by
  unfold Search.after
  split
  · simp only
    split
    · exact .inr (by decide)
    · exact .inl rfl
  · split
    · exact .inr (by simp [terminalStatuses])
    · exact .inl rfl

@[simp] theorem Search.guessCount_after (s : Search) (words : List String)
    (result : GuessResult) : (s.after words result).guessCount = s.guessCount + 1 := by
  unfold Search.after
  split
  · rfl
  · split <;> rfl

/-- A search that goes on is running, and its combination names words. -/
theorem Search.next_eq_some {s s' : Search} {guess : Guess}
    (h : s.next text puzzle = some (guess, s')) :
    s.status = .running ∧ ∃ words,
      (combinationToWords s.currentCombination s.availableWords).mapM id = some words ∧
        guess = s.guess text puzzle words ∧
          s' = s.after words (evaluateGuessOnPuzzle text puzzle words) := by
  unfold Search.next at h
  split at h
  · rename_i hrunning
    obtain ⟨words, hwords, heq⟩ := Option.map_eq_some_iff.mp h
    cases heq
    exact ⟨hrunning, words, hwords, rfl, rfl⟩
  · cases h

theorem search_afterGuess (henum : strategyName ∈ enumeratingStrategies) (now : ℕ)
    (run : StrategyRun) (guessCount : ℕ) (words : List String) (result : GuessResult) :
    (afterGuess strategyName now run words result).search (guessCount + 1) =
      (run.search guessCount).after words result := by
  have hshuffle : strategyName ∉ shuffleStrategies := by
    simp only [enumeratingStrategies, shuffleStrategies, List.mem_cons, List.not_mem_nil,
      or_false] at henum ⊢
    rcases henum with rfl | rfl | rfl | rfl <;> decide
  unfold afterGuess Search.after StrategyRun.search
  by_cases hresult : result = .success
  · simp only [hresult, ↓reduceIte]
    split <;> rfl
  · simp only [hresult, ↓reduceIte, hshuffle, not_false_eq_true]
    cases nextCombination run.currentCombination run.availableWords.length <;> rfl

variable (text puzzle) in
/-- A pass of the loop of an enumerating strategy is the next step of its search. -/
theorem guess_eq_next (henum : strategyName ∈ enumeratingStrategies) {loop : SolverLoop}
    (hrunning : loop.run.status = .running) (now : ℕ) (sample : Option (List String)) :
    (loop.guess text puzzle strategyName now sample).map (fun next =>
        (next.pendingGuesses, next.run.search next.guessCount)) =
      ((loop.run.search loop.guessCount).next text puzzle).map fun (guess, after) =>
        (loop.pendingGuesses ++ [guess], after) := by
  have hstatus : (loop.run.search loop.guessCount).status = .running := hrunning
  unfold SolverLoop.guess pickWords Search.next
  rw [if_pos henum, if_pos hstatus]
  simp only [StrategyRun.search]
  cases (combinationToWords loop.run.currentCombination loop.run.availableWords).mapM id with
  | none => rfl
  | some words =>
    have hafter := search_afterGuess henum now loop.run loop.guessCount words
      (evaluateGuessOnPuzzle text puzzle words)
    simp only [Option.map_some, Option.some.injEq, Prod.mk.injEq]
    exact ⟨rfl, hafter⟩

namespace SolverWorld

variable {runId trialNumber : ℕ}

/-- The guesses stored for the run. -/
def guesses (w : SolverWorld) : List Guess := (w.rows.map (·.guesses)).getD []

/-- The stored status of the run. -/
def status (w : SolverWorld) : Option StrategyRunStatus := w.rows.map (·.run.status)

/-- The search that a created run begins with. -/
def firstSearch (text : TextOps) (puzzle : Puzzle) (strategyName : String) (runId : ℕ) : Search :=
  ⟨runId, computeInitialWordOrder text puzzle strategyName, firstCombination groupSize, .running, 0⟩

/-- The stored run and its worker as a checkpoint of the search. -/
def checkpoint (first : Search) (w : SolverWorld) : Store Search Guess :=
  match w.rows with
  | none => ⟨first, [], none⟩
  | some rows =>
    { saved := rows.run.search rows.guesses.length
      log := rows.guesses
      live := match w.worker with
        | some (.looping loop) => some (loop.run.search loop.guessCount, loop.pendingGuesses)
        | _ => none }

/-- What a worker holds agrees with the stored run. -/
structure Attached (w : SolverWorld) : Prop where
  model : ∀ rows, w.rows = some rows → rows.run.modelName = none
  stored : ∀ rows, w.rows = some rows →
    rows.run.status = .running ∨ rows.run.status ∈ terminalStatuses
  loaded : ∀ run, w.worker = some (.loaded run) → ∃ rows, w.rows = some rows ∧ rows.run = run
  looping : ∀ loop, w.worker = some (.looping loop) → ∃ rows, w.rows = some rows ∧
    loop.run.status = .running ∧ loop.run.modelName = none ∧
      loop.guessCount = rows.guesses.length + loop.pendingGuesses.length

theorem attached_fresh : Attached fresh where
  model := by simp [fresh]
  stored := by simp [fresh]
  loaded := by simp [fresh]
  looping := by simp [fresh]

/-- The worker is gone. -/
theorem Attached.dismiss {w : SolverWorld} (h : Attached w) : Attached { w with worker := none } :=
  ⟨h.model, h.stored, by simp, by simp⟩

/-- A pass keeps its guesses in memory, commits them, or ends with the commit. -/
inductive PassCase (w : SolverWorld) (rows : SolverRows) (next : SolverLoop) (now : ℕ) :
    SolverWorld → Prop
  | kept : next.run.status = .running →
      PassCase w rows next now { w with worker := some (.looping next) }
  | flushed : next.run.status = .running →
      PassCase w rows next now
        ⟨some (flushBatch rows next now), some (.looping { next with pendingGuesses := [] })⟩
  | ended : next.run.status ≠ .running →
      PassCase w rows next now ⟨some (flushBatch rows next now), none⟩

theorem afterPass_cases (w : SolverWorld) (rows : SolverRows) (next : SolverLoop) (now : ℕ) :
    PassCase w rows next now (w.afterPass rows next now) := by
  unfold afterPass
  by_cases hrunning : next.run.status = .running
  · simp only [hrunning, ne_eq, not_true_eq_false, or_false, ↓reduceIte]
    split
    · exact .flushed hrunning
    · exact .kept hrunning
  · simp only [hrunning, ne_eq, not_false_eq_true, or_true, ↓reduceIte]
    exact .ended hrunning

theorem modelName_guess {loop next : SolverLoop} {now : ℕ} {sample : Option (List String)}
    (h : loop.guess text puzzle strategyName now sample = some next) :
    next.run.modelName = loop.run.modelName := by
  unfold SolverLoop.guess at h
  split at h
  · cases h
  · cases h
    rfl
  · cases h
    rfl
  · cases h
    simp only [afterGuess]
    split
    · split <;> rfl
    · split
      · split <;> rfl
      · rfl

/-- The pass of an enumerating strategy, as a step of its search. -/
theorem next_of_guess (henum : strategyName ∈ enumeratingStrategies) {loop next : SolverLoop}
    (hrunning : loop.run.status = .running) {now : ℕ} {sample : Option (List String)}
    (h : loop.guess text puzzle strategyName now sample = some next) :
    ∃ guess, (loop.run.search loop.guessCount).next text puzzle =
        some (guess, next.run.search next.guessCount) ∧
      next.pendingGuesses = loop.pendingGuesses ++ [guess] ∧
      next.guessCount = loop.guessCount + 1 ∧
      (next.run.status = .running ∨ next.run.status ∈ terminalStatuses) := by
  have hnext := guess_eq_next text puzzle henum hrunning now sample
  rw [h] at hnext
  obtain ⟨⟨guess, after⟩, hsome, heq⟩ := Option.map_eq_some_iff.mp hnext.symm
  simp only [Prod.mk.injEq] at heq
  obtain ⟨hpending, hafter⟩ := heq
  obtain ⟨-, words, -, -, hsearch⟩ := Search.next_eq_some hsome
  rw [hafter] at hsearch
  have hcount : next.guessCount = loop.guessCount + 1 :=
    (congrArg Search.guessCount hsearch).trans (Search.guessCount_after _ _ _)
  have hstatus := Search.status_after (loop.run.search loop.guessCount) words
    (evaluateGuessOnPuzzle text puzzle words)
  rw [← hsearch, show (loop.run.search loop.guessCount).status = .running from hrunning] at hstatus
  exact ⟨guess, hafter ▸ hsome, hpending.symm, hcount, hstatus⟩

/-- What is committed goes on from the count of the stored guesses. -/
theorem flushBatch_search {rows : SolverRows} {next : SolverLoop} (now : ℕ)
    (hcount : next.guessCount = rows.guesses.length + next.pendingGuesses.length) :
    (flushBatch rows next now).run.search (flushBatch rows next now).guesses.length =
      next.run.search next.guessCount := by
  simp [flushBatch, StrategyRun.search, hcount]

/-- A pass of the worker emits a guess of the search, commits what is pending now and then, and
stops with the search. -/
theorem checkpoint_pass (henum : strategyName ∈ enumeratingStrategies) {w : SolverWorld}
    {loop next : SolverLoop} {rows : SolverRows} {now : ℕ} {sample : Option (List String)}
    (hw : Attached w) (hworker : w.worker = some (.looping loop)) (hrows : w.rows = some rows)
    (hguess : loop.guess text puzzle strategyName now sample = some next) :
    Attached (w.afterPass rows next now) ∧
      Run.Reaches (Checkpoint.step (Search.next text puzzle)) Run.always
        (checkpoint (firstSearch text puzzle strategyName runId) w)
        (checkpoint (firstSearch text puzzle strategyName runId) (w.afterPass rows next now)) := by
  obtain ⟨rows', hrows', hrunning, hmodel, hcount⟩ := hw.looping loop hworker
  obtain rfl : rows = rows' := Option.some.inj (hrows.symm.trans hrows')
  obtain ⟨guess, hnext, hpending, hmore, hstatus⟩ := next_of_guess henum hrunning hguess
  have hmodel' := (modelName_guess hguess).trans hmodel
  have hcount' : next.guessCount = rows.guesses.length + next.pendingGuesses.length := by
    rw [hmore, hpending, List.length_append, List.length_singleton, hcount]
    omega
  have hsearch := flushBatch_search now hcount'
  have hview : checkpoint (firstSearch text puzzle strategyName runId) w =
      ⟨rows.run.search rows.guesses.length, rows.guesses,
        some (loop.run.search loop.guessCount, loop.pendingGuesses)⟩ := by
    simp only [checkpoint, hrows, hworker]
  have hemit : Run.Reaches (Checkpoint.step (Search.next text puzzle)) Run.always
      (checkpoint (firstSearch text puzzle strategyName runId) w)
      ⟨rows.run.search rows.guesses.length, rows.guesses,
        some (next.run.search next.guessCount, next.pendingGuesses)⟩ := by
    rw [hview]
    refine Run.Reaches.start.snoc (e := .emit) trivial ?_
    simp [Checkpoint.step, hnext, hpending]
  have hflush := hemit.snoc (e := .flush)
    (u := ⟨next.run.search next.guessCount, (flushBatch rows next now).guesses,
      some (next.run.search next.guessCount, [])⟩) trivial rfl
  have hpass := afterPass_cases w rows next now
  generalize w.afterPass rows next now = after at hpass ⊢
  cases hpass with
  | kept hgoes =>
    refine ⟨⟨hw.model, hw.stored, by simp, ?_⟩, ?_⟩
    · rintro _ ⟨⟩
      exact ⟨rows, hrows, hgoes, hmodel', hcount'⟩
    · simpa only [checkpoint, hrows] using hemit
  | flushed hgoes =>
    refine ⟨⟨?_, ?_, by simp, ?_⟩, ?_⟩
    · rintro _ ⟨⟩
      exact hmodel'
    · rintro _ ⟨⟩
      exact hstatus
    · rintro _ ⟨⟩
      refine ⟨_, rfl, hgoes, hmodel', ?_⟩
      simp [flushBatch, hcount']
    · simpa only [checkpoint, hsearch] using hflush
  | ended hends =>
    refine ⟨⟨?_, ?_, by simp, by simp⟩, ?_⟩
    · rintro _ ⟨⟩
      exact hmodel'
    · rintro _ ⟨⟩
      exact hstatus
    · have hstop := hflush.snoc (e := .stop)
        (u := ⟨next.run.search next.guessCount, (flushBatch rows next now).guesses, none⟩)
        trivial rfl
      simpa only [checkpoint, hsearch] using hstop

/-- A step of the run, as steps of the checkpointed search. -/
theorem checkpoint_step (henum : strategyName ∈ enumeratingStrategies) {w w' : SolverWorld}
    {e : SolverEvent} (hw : Attached w)
    (hstep : step text puzzle strategyName runId trialNumber w e = some w') :
    Attached w' ∧ Run.Reaches (Checkpoint.step (Search.next text puzzle)) Run.always
      (checkpoint (firstSearch text puzzle strategyName runId) w)
      (checkpoint (firstSearch text puzzle strategyName runId) w') := by
  cases step_cases hstep with
  | created now run hworker hrows hrun =>
    have hsearch : run.search 0 = firstSearch text puzzle strategyName runId := hrun ▸ rfl
    refine ⟨⟨?_, ?_, ?_, by simp⟩, ?_⟩
    · rintro _ ⟨⟩
      exact hrun ▸ rfl
    · rintro _ ⟨⟩
      exact .inl (hrun ▸ rfl)
    · rintro _ ⟨⟩
      exact ⟨_, rfl, rfl⟩
    · simp only [checkpoint, hrows, List.length_nil, hsearch]
      exact .start
  | loaded now rows hworker hrows hmodel =>
    refine ⟨⟨hw.model, hw.stored, ?_, by simp⟩, ?_⟩
    · rintro _ ⟨⟩
      exact ⟨rows, hrows, rfl⟩
    · simp only [checkpoint, hrows, hworker]
      exact .start
  | enteredTerminal run rows hworker hrows hstatus =>
    refine ⟨hw.dismiss, ?_⟩
    simp only [checkpoint, hrows, hworker]
    exact .start
  | entered run rows hworker hrows hstatus =>
    obtain ⟨rows', hrows', rfl⟩ := hw.loaded run hworker
    obtain rfl : rows = rows' := Option.some.inj (hrows.symm.trans hrows')
    refine ⟨⟨hw.model, hw.stored, by simp, ?_⟩, ?_⟩
    · rintro _ ⟨⟩
      exact ⟨rows, hrows, (hw.stored rows hrows).resolve_right hstatus, hw.model rows hrows, rfl⟩
    · simp only [checkpoint, hrows, hworker]
      exact Run.Reaches.start.snoc (e := .start) trivial rfl
  | threw now sample loop rows hworker hrows hguess =>
    refine ⟨hw.dismiss, ?_⟩
    simp only [checkpoint, hrows, hworker]
    exact Run.Reaches.start.snoc (e := .stop) trivial rfl
  | passed now sample loop next rows hworker hrows hguess =>
    exact checkpoint_pass henum hw hworker hrows hguess
  | crashed =>
    refine ⟨hw.dismiss, ?_⟩
    cases hrows : w.rows with
    | none =>
      simp only [checkpoint, hrows]
      exact .start
    | some rows =>
      simp only [checkpoint, hrows]
      exact Run.Reaches.start.snoc (e := .stop) trivial rfl

/-- In every state reached the stored run is a faithful checkpoint of its search. -/
theorem faithful_of_reaches (henum : strategyName ∈ enumeratingStrategies)
    {ok : SolverWorld → SolverEvent → Prop} {start w : SolverWorld} {first : Search}
    (hattached : Attached start)
    (hfirst : checkpoint (firstSearch text puzzle strategyName runId) start = ⟨first, [], none⟩)
    (hrun : Run.Reaches (step text puzzle strategyName runId trialNumber) ok start w) :
    Attached w ∧ Faithful (Search.next text puzzle) first
      (checkpoint (firstSearch text puzzle strategyName runId) w) := by
  have hsimulated : Attached w ∧ Run.Reaches (Checkpoint.step (Search.next text puzzle)) Run.always
      (checkpoint (firstSearch text puzzle strategyName runId) start)
      (checkpoint (firstSearch text puzzle strategyName runId) w) :=
    hrun.simulate hattached fun v e u hv _ hstep => checkpoint_step henum hv hstep
  rw [hfirst] at hsimulated
  exact ⟨hsimulated.1, Checkpoint.reaches_faithful _ hsimulated.2⟩

/-- The stored guesses of a run are what its search emits, up to the stored cursor. -/
theorem emits_of_reaches (henum : strategyName ∈ enumeratingStrategies)
    {ok : SolverWorld → SolverEvent → Prop} {start w : SolverWorld} {first : Search}
    {rows : SolverRows} (hattached : Attached start)
    (hfirst : checkpoint (firstSearch text puzzle strategyName runId) start = ⟨first, [], none⟩)
    (hrun : Run.Reaches (step text puzzle strategyName runId trialNumber) ok start w)
    (hrows : w.rows = some rows) :
    Emits (Search.next text puzzle) first rows.guesses (rows.run.search rows.guesses.length) := by
  have hlog := (faithful_of_reaches henum hattached hfirst hrun).2.log
  simpa only [checkpoint, hrows] using hlog

/-- A worker in its loop carries the search to its end, whatever the clock shows: as many passes as
guesses are left, and the run ends with them stored. -/
theorem follow (henum : strategyName ∈ enumeratingStrategies) {rest : List Guess}
    {final : Search} (hend : final.status ≠ .running) {w : SolverWorld} {loop : SolverLoop}
    {rows : SolverRows} (hworker : w.worker = some (.looping loop)) (hrows : w.rows = some rows)
    (hrunning : loop.run.status = .running)
    (hemits : Emits (Search.next text puzzle) (loop.run.search loop.guessCount) rest final)
    {times : List ℕ} (htimes : times.length = rest.length) :
    ∃ rows', Run.exec (step text puzzle strategyName runId trialNumber) Run.always w
        (times.map (.guess · none)) = some ⟨some rows', none⟩ ∧
      rows'.guesses = rows.guesses ++ loop.pendingGuesses ++ rest ∧
        rows'.run.status = final.status := by
  induction rest generalizing w loop rows times with
  | nil =>
    cases hemits
    exact absurd hrunning hend
  | cons guess rest ih =>
    obtain ⟨now, times, rfl⟩ := List.exists_cons_of_length_eq_add_one htimes
    cases hemits with
    | cons hnext hrest =>
    have hpass := guess_eq_next text puzzle henum hrunning now none
    rw [hnext] at hpass
    obtain ⟨next, hguess, heq⟩ := Option.map_eq_some_iff.mp hpass
    simp only [Prod.mk.injEq] at heq
    obtain ⟨hpending, rfl⟩ := heq
    have hstep : step text puzzle strategyName runId trialNumber w (.guess now none) =
        some (w.afterPass rows next now) := by
      simp [step, hworker, hrows, canSample, hguess]
    have htimes' : times.length = rest.length := by simpa using htimes
    simp only [List.map_cons, Run.exec, Run.always, ↓reduceIte, hstep, Option.bind_some]
    have hcase := afterPass_cases w rows next now
    generalize w.afterPass rows next now = after at hcase ⊢
    cases hcase with
    | kept hgoes =>
      obtain ⟨rows', hexec, hguesses, hstatus⟩ :=
        ih (w := { w with worker := some (.looping next) }) rfl hrows hgoes hrest htimes'
      refine ⟨rows', hexec, ?_, hstatus⟩
      simpa [hpending] using hguesses
    | flushed hgoes =>
      obtain ⟨rows', hexec, hguesses, hstatus⟩ := ih
        (w := ⟨some (flushBatch rows next now), some (.looping { next with pendingGuesses := [] })⟩)
        rfl rfl hgoes hrest htimes'
      refine ⟨rows', hexec, ?_, hstatus⟩
      simpa [flushBatch, hpending] using hguesses
    | ended hends =>
      have hnone : (next.run.search next.guessCount).next text puzzle = none := if_neg hends
      cases hrest with
      | cons hmore => rw [hnone] at hmore; cases hmore
      | nil =>
        obtain rfl := List.length_eq_zero_iff.mp htimes'
        refine ⟨flushBatch rows next now, rfl, ?_, rfl⟩
        simp [flushBatch, hpending]

/-- A run that has ended. -/
def Ended (w : SolverWorld) : Prop := ∃ rows, w.rows = some rows ∧ rows.run.status ≠ .running

/-- A worker in the loop of a run can bring it to its end, if its search has one. -/
theorem looping_ends (henum : strategyName ∈ enumeratingStrategies) {guesses : List Guess}
    {final : Search} (hsearch : Emits (Search.next text puzzle)
      (firstSearch text puzzle strategyName runId) guesses final)
    (hend : final.status ≠ .running) {w : SolverWorld} {loop : SolverLoop}
    (hrun : Run.Reaches (step text puzzle strategyName runId trialNumber) Run.always fresh w)
    (hworker : w.worker = some (.looping loop)) :
    ∃ w', Run.Reaches (step text puzzle strategyName runId trialNumber) Run.always w w' ∧
      w'.Ended := by
  obtain ⟨hattached, hfaithful⟩ := faithful_of_reaches henum attached_fresh rfl hrun
  obtain ⟨rows, hrows, hrunning, -, -⟩ := hattached.looping loop hworker
  have hsofar := hfaithful.log.append (hfaithful.live (loop.run.search loop.guessCount)
    loop.pendingGuesses (by simp [checkpoint, hrows, hworker]))
  obtain ⟨rest, -, hrest⟩ :=
    hsofar.continues hsearch (hsearch.prefix_of_ended (if_neg hend) hsofar).length_le
  obtain ⟨rows', hexec, -, hstatus⟩ :=
    follow henum hend hworker hrows hrunning hrest (List.length_replicate (a := 0))
  exact ⟨_, Run.exec_reaches hexec, rows', rfl, hstatus ▸ hend⟩

/-- From every state a run whose search has an end can come to its end. -/
theorem ends (henum : strategyName ∈ enumeratingStrategies) {guesses : List Guess}
    {final : Search} (hsearch : Emits (Search.next text puzzle)
      (firstSearch text puzzle strategyName runId) guesses final)
    (hend : final.status ≠ .running) {w : SolverWorld}
    (hrun : Run.Reaches (step text puzzle strategyName runId trialNumber) Run.always fresh w) :
    ∃ w', Run.Reaches (step text puzzle strategyName runId trialNumber) Run.always w w' ∧
      w'.Ended := by
  -- Whoever has the row in hand enters the loop, unless the run has ended.
  have loaded : ∀ {v : SolverWorld} {run : StrategyRun},
      Run.Reaches (step text puzzle strategyName runId trialNumber) Run.always fresh v →
      v.worker = some (.loaded run) →
      ∃ w', Run.Reaches (step text puzzle strategyName runId trialNumber) Run.always v w' ∧
        w'.Ended := by
    intro v run hv hworker
    obtain ⟨rows, hrows, rfl⟩ :=
      (faithful_of_reaches henum attached_fresh rfl hv).1.loaded run hworker
    by_cases hstatus : rows.run.status ∈ terminalStatuses
    · refine ⟨v, .start, rows, hrows, ?_⟩
      intro hrunning
      rw [hrunning] at hstatus
      revert hstatus
      decide
    · have henter : step text puzzle strategyName runId trialNumber v .enter =
          some { v with worker := some (.looping (enteredLoop strategyName rows rows.run)) } := by
        simp [step, hworker, hrows, hstatus]
      obtain ⟨w', hreach, hended⟩ := looping_ends henum hsearch hend (hv.snoc trivial henter) rfl
      exact ⟨w', (Run.Reaches.start.snoc trivial henter).append hreach, hended⟩
  cases hworker : w.worker with
  | some worker =>
    cases worker with
    | loaded run => exact loaded hrun hworker
    | looping loop => exact looping_ends henum hsearch hend hrun hworker
  | none =>
    obtain ⟨v, run, hload, hv⟩ : ∃ v run,
        step text puzzle strategyName runId trialNumber w (.load 0) = some v ∧
          v.worker = some (.loaded run) := by
      cases hrows : w.rows with
      | none => exact ⟨_, _, by simp only [step, hworker, hrows]; rfl, rfl⟩
      | some rows =>
        have hmodel :=
          (faithful_of_reaches henum attached_fresh rfl hrun).1.model rows hrows
        exact ⟨_, _, by simp only [step, hworker, hrows, hmodel, ↓reduceIte]; rfl, rfl⟩
    obtain ⟨w', hreach, hended⟩ := loaded (hrun.snoc trivial hload) hv
    exact ⟨w', (Run.Reaches.start.snoc trivial hload).append hreach, hended⟩

/-- Crashes leave no trace: at any time the stored guesses are the first ones of the uninterrupted
run, the run can still come to its end, and when it has ended it has all of them and the same
status. -/
theorem crashes_leave_no_trace (henum : strategyName ∈ enumeratingStrategies)
    {w w' : SolverWorld}
    (hcrashing : Run.Reaches (step text puzzle strategyName runId trialNumber) Run.always fresh w)
    (hsmooth : Run.Reaches (step text puzzle strategyName runId trialNumber)
      (fun _ e => e ≠ .crash) fresh w') (hended : w'.Ended) :
    w.guesses <+: w'.guesses ∧
      (∃ v, Run.Reaches (step text puzzle strategyName runId trialNumber) Run.always w v ∧
        v.Ended) ∧
      (w.Ended → w.guesses = w'.guesses ∧ w.status = w'.status) := by
  obtain ⟨rows', hrows', hstatus'⟩ := hended
  have hsmooth' := emits_of_reaches henum attached_fresh rfl hsmooth hrows'
  have hend' : (rows'.run.search rows'.guesses.length).next text puzzle = none := if_neg hstatus'
  refine ⟨?_, ends henum hsmooth' hstatus' hcrashing, ?_⟩
  · cases hrows : w.rows with
    | none => simp [guesses, hrows]
    | some rows =>
      have hemits := emits_of_reaches henum attached_fresh rfl hcrashing hrows
      have hprefix := hsmooth'.prefix_of_ended hend' hemits
      simpa only [guesses, hrows, hrows', Option.map_some, Option.getD_some] using hprefix
  · rintro ⟨rows, hrows, hstatus⟩
    have hend : (rows.run.search rows.guesses.length).next text puzzle = none := if_neg hstatus
    obtain ⟨hguesses, hsearch⟩ := hsmooth'.unique_of_ended hend'
      (emits_of_reaches henum attached_fresh rfl hcrashing hrows) hend
    have hsame : rows.run.status = rows'.run.status := congrArg Search.status hsearch
    simp only [guesses, status, hrows, hrows', Option.map_some, Option.getD_some, hguesses, hsame,
      and_self]

/-- A worker that dies with a solved group in memory; the next one solves it again. -/
theorem crash_before_flush_leaves_no_trace :
    ∃ w w' : SolverWorld, w.guesses.length = 2 ∧ w.guesses = w'.guesses ∧
      w.status = some .completed := by
  let advance := step asciiText RunWorld.insectsAndTrees "order" 1 0
  obtain ⟨w, hcrashing, hw⟩ := Run.exists_reaches advance Run.always fresh
    [.load 0, .enter, .guess 1 none, .crash, .load 2, .enter, .guess 3 none, .guess 4 none]
    (fun w => w.status = some .completed && w.guesses.length = 2) (by decide)
  obtain ⟨w', hsmooth, hw'⟩ := Run.exists_reaches advance (fun _ e => e ≠ .crash) fresh
    [.load 0, .enter, .guess 1 none, .guess 2 none]
    (fun w => w.rows.any fun rows => rows.run.status ≠ .running) (by decide)
  simp only [Bool.and_eq_true, decide_eq_true_eq] at hw
  have ended : ∀ v : SolverWorld, v.status = some .completed → v.Ended := by
    intro v hv
    obtain ⟨rows, hrows, hstatus⟩ := Option.map_eq_some_iff.mp hv
    exact ⟨rows, hrows, by simp [hstatus]⟩
  have hended' : w'.Ended := by
    obtain ⟨rows, hrows, hstatus⟩ := (Option.any_eq_true _ _).mp hw'
    exact ⟨rows, hrows, by simpa using hstatus⟩
  have hsame := crashes_leave_no_trace (by decide) hcrashing hsmooth hended'
  exact ⟨w, w', hw.2, (hsame.2.2 (ended w hw.1)).1, hw.1⟩

end SolverWorld

end Connections
