import Connections.Game.Puzzle
import Connections.Solver.Combinatorics
import Connections.Strategy.RunMachine

/-!
# The deterministic solver

The strategies without a model: four that enumerate the combinations of the words left, and two
that sample them.  A worker loads or creates the run, passes the gate, and guesses until the run
has ended, committing its guesses in batches; it can be cut short anywhere.
-/

namespace Connections

/-- Guesses are flushed in batches of this size, or when the run ends. -/
def batchSize : ℕ := 50

/-- The strategies that enumerate combinations. -/
def enumeratingStrategies : List String :=
  ["alphabetical", "reverse-alphabetical", "order", "reverse-order"]

/-- The strategies that sample groups and remember the ones they tried. -/
def shuffleStrategies : List String := ["shuffle-smart", "shuffle-foolish"]

/-- The key of a group among the tried ones. -/
def groupKey (words : List String) : String :=
  "|".intercalate (words.insertionSort (· ≤ ·))

/-- What one execution carries from guess to guess. -/
structure SolverLoop where
  run : StrategyRun
  guessCount : ℕ
  triedGroups : List String
  pendingGuesses : List Guess
  deriving DecidableEq, Repr

/-- What a strategy comes up with for its next guess. -/
inductive SolverPick
  | words (words : List String) (isDuplicate : Bool)
  /-- Every possible group has been proposed. -/
  | noMoreGroups
  /-- A position beyond the pool, or an unknown strategy. -/
  | throws
  deriving DecidableEq, Repr

/-- The next guess; a sampling strategy takes the sample from outside. -/
def pickWords (strategyName : String) (loop : SolverLoop) (sample : Option (List String)) :
    SolverPick :=
  if strategyName ∈ enumeratingStrategies then
    match (combinationToWords loop.run.currentCombination loop.run.availableWords).mapM id with
    | some words => .words words false
    | none => .throws
  else if strategyName = "shuffle-smart" then
    match sample with
    | some words => .words words false
    | none => .noMoreGroups
  else if strategyName = "shuffle-foolish" then
    match sample with
    | some words => .words words (groupKey words ∈ loop.triedGroups)
    | none => .throws
  else .throws

/-- What a sampling strategy can draw: four words of the pool, and for the smart one a group it has
not tried; or nothing. -/
def canSample (strategyName : String) (loop : SolverLoop) : Option (List String) → Bool
  | none => true
  | some words => words.length = groupSize && words.Subperm loop.run.availableWords &&
    (strategyName ≠ "shuffle-smart" || groupKey words ∉ loop.triedGroups)

section Guess

variable (text : TextOps) (puzzle : Puzzle) (strategyName : String)

/-- The run after a judged guess that is not a repeated sample. -/
def afterGuess (now : ℕ) (run : StrategyRun) (words : List String) (result : GuessResult) :
    StrategyRun :=
  if result = .success then
    let run : StrategyRun := { run with
      availableWords := run.availableWords.filter (· ∉ words)
      currentCombination := firstCombination groupSize }
    if run.availableWords.length = 0 then
      { run with status := .completed, finishedAt := some now }
    else run
  else if strategyName ∉ shuffleStrategies then
    match nextCombination run.currentCombination run.availableWords.length with
    | none => { run with status := .failed, finishedAt := some now }
    | some next => { run with currentCombination := next }
  else run

/-- Stage a guess in memory. -/
def SolverLoop.stage (loop : SolverLoop) (words : List String) (result : GuessResult) :
    SolverLoop :=
  { loop with
    guessCount := loop.guessCount + 1
    pendingGuesses := loop.pendingGuesses ++
      [{ puzzleId := puzzle.id, strategyRunId := loop.run.id, words := words, result := result
         sequenceNumber := loop.guessCount + 1, source := .strategy }] }

/-- One pass of the loop up to the flush; none when it throws. -/
def SolverLoop.guess (loop : SolverLoop) (now : ℕ) (sample : Option (List String)) :
    Option SolverLoop :=
  match pickWords strategyName loop sample with
  | .throws => none
  | .noMoreGroups => some { loop with
      run := { loop.run with status := .failed, finishedAt := some now } }
  | .words words true => some (loop.stage puzzle words .duplicate)
  | .words words false =>
    let result := evaluateGuessOnPuzzle text puzzle words
    let staged := loop.stage puzzle words result
    some { staged with
      run := afterGuess strategyName now loop.run words result
      triedGroups := if strategyName ∈ shuffleStrategies then
        groupKey words :: loop.triedGroups else loop.triedGroups }

end Guess

/-- The rows that belong to a run. -/
structure SolverRows where
  run : StrategyRun
  guesses : List Guess
  deriving DecidableEq, Repr

/-- How far a worker has come with the run. -/
inductive SolverWorker
  | loaded (run : StrategyRun)
  | looping (loop : SolverLoop)
  deriving DecidableEq, Repr

/-- The stored run and its worker. -/
structure SolverWorld where
  rows : Option SolverRows
  worker : Option SolverWorker
  deriving DecidableEq, Repr

/-- What can happen to a run. -/
inductive SolverEvent
  /-- A job starts: the run is loaded, or created when there is none. -/
  | load (now : ℕ)
  /-- The gate, and behind it the counters rebuilt from the stored guesses. -/
  | enter
  /-- One pass of the loop with its flush. -/
  | guess (now : ℕ) (sample : Option (List String))
  /-- The worker is gone, with everything it had not flushed. -/
  | crash
  deriving DecidableEq, Repr

namespace SolverWorld

/-- No row yet. -/
def fresh : SolverWorld := ⟨none, none⟩

/-- The loop that a worker starts with. -/
def enteredLoop (strategyName : String) (rows : SolverRows) (run : StrategyRun) : SolverLoop where
  run := run
  guessCount := rows.guesses.length
  triedGroups := if strategyName ∈ shuffleStrategies then
    rows.guesses.map fun guess => groupKey guess.words else []
  pendingGuesses := []

/-- Commit the staged guesses with the run. -/
def flushBatch (rows : SolverRows) (loop : SolverLoop) (now : ℕ) : SolverRows :=
  { run := { loop.run with updatedAt := now }, guesses := rows.guesses ++ loop.pendingGuesses }

/-- A pass of the loop has ended: flush when the batch is full or the run has ended, and leave when
it has. -/
def afterPass (w : SolverWorld) (rows : SolverRows) (loop : SolverLoop) (now : ℕ) : SolverWorld :=
  let isFinished := loop.run.status ≠ .running
  if batchSize ≤ loop.pendingGuesses.length ∨ isFinished then
    { rows := some (flushBatch rows loop now)
      worker := if isFinished then none else
        some (.looping { loop with pendingGuesses := [] }) }
  else { w with worker := some (.looping loop) }

section Step

variable (text : TextOps) (puzzle : Puzzle) (strategyName : String) (runId trialNumber : ℕ)

/-- One step of the run; an event that cannot happen is refused. -/
def step (w : SolverWorld) : SolverEvent → Option SolverWorld
  | .load now =>
    match w.worker, w.rows with
    | none, none =>
      let run := RunWorld.createdRun text puzzle strategyName runId trialNumber now none none none
      some ⟨some ⟨run, []⟩, some (.loaded run)⟩
    | none, some rows =>
      -- A row of a model makes the job throw.
      if rows.run.modelName = none then some { w with worker := some (.loaded rows.run) } else none
    | some _, _ => none
  | .enter =>
    match w.worker, w.rows with
    | some (.loaded run), some rows =>
      if run.status ∈ terminalStatuses then some { w with worker := none }
      else some { w with worker := some (.looping (enteredLoop strategyName rows run)) }
    | _, _ => none
  | .guess now sample =>
    match w.worker, w.rows with
    | some (.looping loop), some rows =>
      if canSample strategyName loop sample then
        match loop.guess text puzzle strategyName now sample with
        | none => some { w with worker := none }
        | some next => some (w.afterPass rows next now)
      else none
    | _, _ => none
  | .crash => if w.worker.isSome then some { w with worker := none } else none

/-- What one step can do, branch by branch. -/
inductive StepCase (w : SolverWorld) : SolverEvent → SolverWorld → Prop
  | created (now : ℕ) (run : StrategyRun) : w.worker = none → w.rows = none →
      run = RunWorld.createdRun text puzzle strategyName runId trialNumber now none none none →
      StepCase w (.load now) ⟨some ⟨run, []⟩, some (.loaded run)⟩
  | loaded (now : ℕ) (rows : SolverRows) : w.worker = none → w.rows = some rows →
      rows.run.modelName = none →
      StepCase w (.load now) { w with worker := some (.loaded rows.run) }
  | enteredTerminal (run : StrategyRun) (rows : SolverRows) : w.worker = some (.loaded run) →
      w.rows = some rows → run.status ∈ terminalStatuses →
      StepCase w .enter { w with worker := none }
  | entered (run : StrategyRun) (rows : SolverRows) : w.worker = some (.loaded run) →
      w.rows = some rows → run.status ∉ terminalStatuses →
      StepCase w .enter { w with worker := some (.looping (enteredLoop strategyName rows run)) }
  | threw (now : ℕ) (sample : Option (List String)) (loop : SolverLoop) (rows : SolverRows) :
      w.worker = some (.looping loop) → w.rows = some rows →
      loop.guess text puzzle strategyName now sample = none →
      StepCase w (.guess now sample) { w with worker := none }
  | passed (now : ℕ) (sample : Option (List String)) (loop next : SolverLoop)
      (rows : SolverRows) : w.worker = some (.looping loop) → w.rows = some rows →
      loop.guess text puzzle strategyName now sample = some next →
      StepCase w (.guess now sample) (w.afterPass rows next now)
  | crashed : StepCase w .crash { w with worker := none }

variable {text puzzle strategyName runId trialNumber}

/-- Every step is one of the branches. -/
theorem step_cases {w w' : SolverWorld} {e : SolverEvent}
    (h : step text puzzle strategyName runId trialNumber w e = some w') :
    StepCase text puzzle strategyName runId trialNumber w e w' := by
  obtain ⟨rows, worker⟩ := w
  cases e with
  | load now =>
    rcases worker with _ | worker <;> rcases rows with _ | rows <;>
      simp only [step, reduceCtorEq] at h
    · cases h
      exact .created now _ rfl rfl rfl
    · split at h
      · cases h
        exact .loaded now rows rfl rfl ‹_›
      · cases h
  | enter =>
    rcases worker with _ | run | loop <;> rcases rows with _ | rows <;>
      simp only [step, reduceCtorEq] at h
    split at h
    · cases h
      exact .enteredTerminal run rows rfl rfl ‹_›
    · cases h
      exact .entered run rows rfl rfl ‹_›
  | guess now sample =>
    rcases worker with _ | run | loop <;> rcases rows with _ | rows <;>
      simp only [step, reduceCtorEq] at h
    split at h
    · split at h
      · cases h
        exact .threw now sample loop rows rfl rfl ‹_›
      · cases h
        exact .passed now sample loop _ rows rfl rfl ‹_›
    · cases h
  | crash =>
    simp only [step] at h
    split at h
    · cases h
      exact .crashed
    · cases h

end Step

end SolverWorld

end Connections
