import Connections.Library.Retry
import Connections.Solver.Search

/-!
# The attempts of a run-strategy job

A job is attempted several times, by the runner of its strategy, and after every attempt that
throws the worker's hook marks the run as failed if it is still running.  The next attempt finds the
mark at its gate.
-/

namespace Connections

open Retry

/-- What the hook writes on a row. -/
def markFailedIfStillRunning (now : ℕ) (run : StrategyRun) : StrategyRun :=
  if run.status = .running then run.finish .failed now else run

@[simp] theorem status_markFailedIfStillRunning (now : ℕ) (run : StrategyRun) :
    (markFailedIfStillRunning now run).status =
      if run.status = .running then .failed else run.status := by
  unfold markFailedIfStillRunning
  split <;> rfl

/-- The steps that a job makes by itself. -/
def RunEvent.isWork : RunEvent → Bool
  | .load .. | .enter .. | .iterate .. => true
  | _ => false

namespace RunWorld

/-- The stored status of the run. -/
def status (w : RunWorld) : Option StrategyRunStatus := w.rows.map (·.run.status)

section Attempt

variable (text : TextOps) (limits : RunLimits) (puzzle : Puzzle) (strategyName : String)
  (runId trialNumber : ℕ)

/-- What `runLlmStrategy` returns with a step: the status of the entity in its hands. -/
def returns (w : RunWorld) : RunEvent → Option StrategyRunStatus
  | .enter _ held =>
    match w.worker with
    | some (.loaded run model _ _) =>
      if run.status ∈ terminalStatuses then some run.status
      else if gateHolds strategyName model held then some .rateLimitedDaily else none
    | _ => none
  | .iterate now reservation outcome =>
    match w.worker with
    | some (.looping loop) =>
      match runIteration text limits loop now reservation outcome with
      | .parked run => some run.status
      | .flush next _ _ => if next.run.status = .running then none else some next.run.status
    | _ => none
  | _ => none

/-- An attempt at a run of a model. -/
def attempt : Body RunWorld RunEvent StrategyRunStatus where
  step w e := if e.isWork then step text limits puzzle strategyName runId trialNumber w e else none
  returns := returns text limits strategyName
  drop w := { w with worker := none }
  status := status
  hooked := .running
  hook now w := { w with
    rows := w.rows.map fun rows => { rows with run := markFailedIfStillRunning now rows.run } }

/-- The hook is the step of a job that ran out of attempts. -/
theorem step_markFailed {w w' : RunWorld} {now : ℕ}
    (h : step text limits puzzle strategyName runId trialNumber w (.markFailed now) = some w') :
    w' = (attempt text limits puzzle strategyName runId trialNumber).hook now w := by
  obtain ⟨rows, worker, lastFlushed⟩ := w
  rcases worker with _ | worker <;> rcases rows with _ | rows <;>
    simp only [step, reduceCtorEq] at h
  split at h
  · cases h
    simp [attempt, markFailedIfStillRunning, *]
  · cases h

end Attempt

variable {text : TextOps} {limits : RunLimits} {puzzle : Puzzle} {strategyName : String}
  {runId trialNumber : ℕ}

/-- What a job has loaded is what is stored. -/
def LoadedStored (w : RunWorld) : Prop :=
  ∀ run model manualRetry maxOutputTokens,
    w.worker = some (.loaded run model manualRetry maxOutputTokens) → w.status = some run.status

theorem loadedStored_of_unloaded {w : RunWorld}
    (h : ∀ run model manualRetry maxOutputTokens,
      w.worker ≠ some (.loaded run model manualRetry maxOutputTokens)) : w.LoadedStored :=
  fun run model manualRetry maxOutputTokens hworker =>
    absurd hworker (h run model manualRetry maxOutputTokens)

/-- A failed run, which no job has passed the gate with. -/
structure Failed (w : RunWorld) : Prop where
  status : w.status = some .failed
  loaded : w.LoadedStored
  gate : ∀ loop, w.worker ≠ some (.looping loop)

/-- A step of an attempt keeps the loaded row in line, and what it returns is stored. -/
theorem attempt_step_loadedStored {w w' : RunWorld} {e : RunEvent} (hw : w.LoadedStored)
    (h : step text limits puzzle strategyName runId trialNumber w e = some w') (hwork : e.isWork) :
    w'.LoadedStored ∧
      ∀ result, returns text limits strategyName w e = some result → w'.status = some result := by
  obtain ⟨rows, worker, lastFlushed⟩ := w
  cases e with
  | load now model contextWindow budgetTier manualRetry maxOutputTokens =>
    refine ⟨?_, by simp [returns]⟩
    cases step_cases h with
    | created =>
      rintro run _ _ _ ⟨⟩
      rfl
    | loaded rows _ _ _ _ _ _ _ hrows _ =>
      rintro run _ _ _ ⟨⟩
      exact congrArg (Option.map (·.run.status)) hrows
    | flipped _ _ _ hworker =>
      rintro run _ _ _ hloaded
      rw [hworker] at hloaded
      cases hloaded
  | enter now held =>
    rcases worker with _ | ⟨run, model, manualRetry, maxOutputTokens⟩ | loop <;>
      rcases rows with _ | rows <;> simp only [step, reduceCtorEq] at h
    have hstored : rows.run.status = run.status :=
      Option.some.inj (hw run model manualRetry maxOutputTokens rfl)
    split at h
    · rename_i hterminal
      cases h
      refine ⟨loadedStored_of_unloaded (by simp), fun result hresult => ?_⟩
      have hterminal' : run.status ∈ terminalStatuses := hterminal
      simp only [returns, hterminal', ↓reduceIte, Option.some.injEq] at hresult
      simp [status, hstored, hresult]
    · rename_i hrunning
      have hrunning' : run.status ∉ terminalStatuses := hrunning
      split at h
      · rename_i hheld
        cases h
        refine ⟨loadedStored_of_unloaded (by simp), fun result hresult => ?_⟩
        simp only [returns, hrunning', hheld, ↓reduceIte, Option.some.injEq] at hresult
        simp [status, saveRun, StrategyRun.finish, hresult]
      · rename_i hfree
        cases h
        refine ⟨loadedStored_of_unloaded (by simp), fun result hresult => ?_⟩
        simp [returns, hrunning', hfree] at hresult
  | iterate now reservation outcome =>
    rcases worker with _ | ⟨run, model, manualRetry, maxOutputTokens⟩ | loop <;>
      rcases rows with _ | rows <;> simp only [step, reduceCtorEq] at h
    split at h
    · rename_i run hparked
      cases h
      refine ⟨loadedStored_of_unloaded (by simp), fun result hresult => ?_⟩
      simp only [returns, hparked, Option.some.injEq] at hresult
      simp [status, saveRun, hresult]
    · rename_i next batch holds hflush
      cases h
      refine ⟨loadedStored_of_unloaded ?_, fun result hresult => ?_⟩
      · split <;> simp
      · simp only [returns, hflush] at hresult
        split at hresult
        · cases hresult
        · have hrun := runIteration_batch_run text limits hflush
          simp only [Option.some.injEq] at hresult
          simp [status, flushBatch, hrun, hresult]
  | crash => cases hwork
  | resume => cases hwork
  | retry => cases hwork
  | markFailed => cases hwork

/-- An attempt at a failed run leaves it failed, and does not pass the gate. -/
theorem attempt_step_failed {w w' : RunWorld} {e : RunEvent} (hw : w.Failed)
    (h : step text limits puzzle strategyName runId trialNumber w e = some w') (hwork : e.isWork) :
    w'.Failed := by
  have hloaded := (attempt_step_loadedStored hw.loaded h hwork).1
  have hterminal : ∀ run model manualRetry maxOutputTokens,
      w.worker = some (.loaded run model manualRetry maxOutputTokens) →
      run.status ∈ terminalStatuses := by
    intro run model manualRetry maxOutputTokens hworker
    have hstored := hw.loaded run model manualRetry maxOutputTokens hworker
    rw [hw.status, Option.some.injEq] at hstored
    rw [← hstored]
    decide
  cases step_cases h with
  | created now model contextWindow budgetTier manualRetry maxOutputTokens hworker hrows =>
    have hstatus := hw.status
    simp [status, hrows] at hstatus
  | loaded => exact ⟨hw.status, hloaded, by simp⟩
  | enteredTerminal => exact ⟨hw.status, hloaded, by simp⟩
  | enteredHeld rows run model manualRetry maxOutputTokens now held hworker hrows hrunning =>
    exact absurd (hterminal _ _ _ _ hworker) hrunning
  | enteredLoop rows run model manualRetry maxOutputTokens now held hworker hrows hrunning =>
    exact absurd (hterminal _ _ _ _ hworker) hrunning
  | parked rows loop now reservation outcome run hworker => exact absurd hworker (hw.gate loop)
  | flushed rows loop next batch holds now reservation outcome hworker =>
    exact absurd hworker (hw.gate loop)
  | crashed => cases hwork
  | flipped rows run e hworker hrows hwords hbefore =>
    have hstatus := hw.status
    simp only [status, hrows, Option.map_some, Option.some.injEq] at hstatus
    rw [hstatus] at hbefore
    simp at hbefore

/-- The attempts at a run of a model obey the rules of retried jobs. -/
theorem attempt_laws : (attempt text limits puzzle strategyName runId trialNumber).Laws .failed
    LoadedStored Failed where
  step_inv := by
    intro w e w' hw h
    obtain ⟨hwork, h⟩ := Option.ite_none_right_eq_some.mp h
    exact attempt_step_loadedStored hw h hwork
  drop_inv w := loadedStored_of_unloaded (by simp [attempt])
  hook_inv now w := loadedStored_of_unloaded (by simp [attempt])
  hook_stuck now w hrunning := by
    refine ⟨?_, loadedStored_of_unloaded (by simp [attempt]), by simp [attempt]⟩
    obtain ⟨rows, hrows, hstatus⟩ := Option.map_eq_some_iff.mp hrunning
    have hrows' : w.rows = some rows := hrows
    have hstatus' : rows.run.status = .running := hstatus
    simp [attempt, status, hrows', hstatus']
  hook_other now w hother := by
    obtain ⟨rows, worker, lastFlushed⟩ := w
    cases rows with
    | none => rfl
    | some rows =>
      have hstatus : rows.run.status ≠ .running := fun h => hother (congrArg some h)
      simp [attempt, markFailedIfStillRunning, hstatus]
  stuck_step := by
    intro w e w' hw h
    obtain ⟨hwork, h⟩ := Option.ite_none_right_eq_some.mp h
    exact attempt_step_failed hw h hwork
  stuck_drop hw := ⟨hw.status, loadedStored_of_unloaded (by simp [attempt]), by simp [attempt]⟩
  stuck_status hw := hw.status

end RunWorld

namespace SolverWorld

section Attempt

variable (text : TextOps) (puzzle : Puzzle) (strategyName : String) (runId trialNumber : ℕ)

/-- An attempt throws with a pass of its loop, or is cut short. -/
def throws (w : SolverWorld) : SolverEvent → Bool
  | .guess now sample =>
    match w.worker with
    | some (.looping loop) => (loop.guess text puzzle strategyName now sample).isNone
    | _ => false
  | .crash => true
  | _ => false

/-- What `runDeterministicStrategy` returns with a step. -/
def returns (w : SolverWorld) : SolverEvent → Option StrategyRunStatus
  | .enter =>
    match w.worker with
    | some (.loaded run) => if run.status ∈ terminalStatuses then some run.status else none
    | _ => none
  | .guess now sample =>
    match w.worker with
    | some (.looping loop) =>
      match loop.guess text puzzle strategyName now sample with
      | some next => if next.run.status = .running then none else some next.run.status
      | none => none
    | _ => none
  | _ => none

/-- An attempt at a run without a model. -/
def attempt : Body SolverWorld SolverEvent StrategyRunStatus where
  step w e :=
    if throws text puzzle strategyName w e then none
    else step text puzzle strategyName runId trialNumber w e
  returns := returns text puzzle strategyName
  drop w := { w with worker := none }
  status := status
  hooked := .running
  hook now w := { w with
    rows := w.rows.map fun rows => { rows with run := markFailedIfStillRunning now rows.run } }

end Attempt

variable {text : TextOps} {puzzle : Puzzle} {strategyName : String} {runId trialNumber : ℕ}

/-- What a job has loaded is what is stored. -/
def LoadedStored (w : SolverWorld) : Prop :=
  ∀ run, w.worker = some (.loaded run) → w.status = some run.status

/-- A failed run, which no job has passed the gate with. -/
structure Failed (w : SolverWorld) : Prop where
  status : w.status = some .failed
  loaded : w.LoadedStored
  gate : ∀ loop, w.worker ≠ some (.looping loop)

theorem loadedStored_of_unloaded {w : SolverWorld} (h : ∀ run, w.worker ≠ some (.loaded run)) :
    w.LoadedStored :=
  fun run hworker => absurd hworker (h run)

/-- A step of an attempt keeps the loaded row in line, and what it returns is stored. -/
theorem attempt_step_loadedStored {w w' : SolverWorld} {e : SolverEvent} (hw : w.LoadedStored)
    (h : step text puzzle strategyName runId trialNumber w e = some w') :
    w'.LoadedStored ∧
      ∀ result, returns text puzzle strategyName w e = some result → w'.status = some result := by
  cases step_cases h with
  | created now run hworker hrows hrun =>
    refine ⟨?_, by simp [returns]⟩
    rintro _ ⟨⟩
    rfl
  | loaded now rows hworker hrows hmodel =>
    refine ⟨?_, by simp [returns]⟩
    rintro _ ⟨⟩
    exact congrArg (Option.map (·.run.status)) hrows
  | enteredTerminal run rows hworker hrows hterminal =>
    refine ⟨loadedStored_of_unloaded (by simp), fun result hresult => ?_⟩
    simp only [returns, hworker, hterminal, ↓reduceIte] at hresult
    exact (hw run hworker).trans hresult
  | entered run rows hworker hrows hrunning =>
    refine ⟨loadedStored_of_unloaded (by simp), fun result hresult => ?_⟩
    simp [returns, hworker, hrunning] at hresult
  | threw now sample loop rows hworker hrows hguess =>
    refine ⟨loadedStored_of_unloaded (by simp), fun result hresult => ?_⟩
    simp [returns, hworker, hguess] at hresult
  | passed now sample loop next rows hworker hrows hguess =>
    have hreturns : returns text puzzle strategyName w (.guess now sample) =
        if next.run.status = .running then none else some next.run.status := by
      simp only [returns, hworker, hguess]
    rw [hreturns]
    have hpass := afterPass_cases w rows next now
    generalize w.afterPass rows next now = after at hpass ⊢
    cases hpass with
    | kept hrunning => exact ⟨loadedStored_of_unloaded (by simp), by simp [hrunning]⟩
    | flushed hrunning => exact ⟨loadedStored_of_unloaded (by simp), by simp [hrunning]⟩
    | ended hended =>
      refine ⟨loadedStored_of_unloaded (by simp), fun result hresult => ?_⟩
      rw [if_neg hended] at hresult
      exact hresult
  | crashed => exact ⟨loadedStored_of_unloaded (by simp), by simp [returns]⟩

/-- An attempt at a failed run leaves it failed, and does not pass the gate. -/
theorem attempt_step_failed {w w' : SolverWorld} {e : SolverEvent} (hw : w.Failed)
    (h : step text puzzle strategyName runId trialNumber w e = some w') : w'.Failed := by
  have hloaded := (attempt_step_loadedStored hw.loaded h).1
  cases step_cases h with
  | created now run hworker hrows =>
    have hstatus := hw.status
    simp [status, hrows] at hstatus
  | loaded => exact ⟨hw.status, hloaded, by simp⟩
  | enteredTerminal => exact ⟨hw.status, hloaded, by simp⟩
  | entered run rows hworker hrows hrunning =>
    have hstored := hw.loaded run hworker
    rw [hw.status, Option.some.injEq] at hstored
    rw [← hstored] at hrunning
    exact absurd (by decide) hrunning
  | threw => exact ⟨hw.status, hloaded, by simp⟩
  | passed now sample loop next rows hworker => exact absurd hworker (hw.gate loop)
  | crashed => exact ⟨hw.status, hloaded, by simp⟩

/-- The attempts at a run without a model obey the rules of retried jobs. -/
theorem attempt_laws : (attempt text puzzle strategyName runId trialNumber).Laws .failed
    LoadedStored Failed where
  step_inv := by
    intro w e w' hw h
    exact attempt_step_loadedStored hw (Option.ite_none_left_eq_some.mp h).2
  drop_inv w := loadedStored_of_unloaded (by simp [attempt])
  hook_inv now w := loadedStored_of_unloaded (by simp [attempt])
  hook_stuck now w hrunning := by
    refine ⟨?_, loadedStored_of_unloaded (by simp [attempt]), by simp [attempt]⟩
    obtain ⟨rows, hrows, hstatus⟩ := Option.map_eq_some_iff.mp hrunning
    have hrows' : w.rows = some rows := hrows
    have hstatus' : rows.run.status = .running := hstatus
    simp [attempt, status, hrows', hstatus']
  hook_other now w hother := by
    obtain ⟨rows, worker⟩ := w
    cases rows with
    | none => rfl
    | some rows =>
      have hstatus : rows.run.status ≠ .running := fun h => hother (congrArg some h)
      simp [attempt, markFailedIfStillRunning, hstatus]
  stuck_step := by
    intro w e w' hw h
    exact attempt_step_failed hw (Option.ite_none_left_eq_some.mp h).2
  stuck_drop hw := ⟨hw.status, loadedStored_of_unloaded (by simp [attempt]), by simp [attempt]⟩
  stuck_status hw := hw.status

end SolverWorld

/-- For every number of attempts and every way they end, the hook of a job does not defeat its
retries exactly when no attempt that threw over a running row is followed by one that returned;
and after such a throw the row stays failed. -/
theorem retries_survive_hook_iff (text : TextOps) (limits : RunLimits) (puzzle : Puzzle)
    (strategyName : String) (runId trialNumber attempts : ℕ) :
    (∀ (w : RunWorld) (job : Job RunWorld StrategyRunStatus), w.worker = none →
      let body := RunWorld.attempt text limits puzzle strategyName runId trialNumber
      Run.Reaches (body.next attempts) Run.always (Job.new w) job →
        (job.Sound body ↔ job.Retryable body) ∧
          (.threw (some .running) ∈ job.past → job.store.status = some .failed)) ∧
      ∀ (w : SolverWorld) (job : Job SolverWorld StrategyRunStatus), w.worker = none →
        let body := SolverWorld.attempt text puzzle strategyName runId trialNumber
        Run.Reaches (body.next attempts) Run.always (Job.new w) job →
          (job.Sound body ↔ job.Retryable body) ∧
            (.threw (some .running) ∈ job.past → job.store.status = some .failed) := by
  constructor
  · intro w job hidle body hrun
    have hstored : w.LoadedStored := RunWorld.loadedStored_of_unloaded (by simp [hidle])
    exact sound_iff RunWorld.attempt_laws hstored hrun
  · intro w job hidle body hrun
    have hstored : w.LoadedStored := SolverWorld.loadedStored_of_unloaded (by simp [hidle])
    exact sound_iff SolverWorld.attempt_laws hstored hrun

open RunWorld (insectsAndTrees defaultLimits plainReply)

/-- The first attempt throws before there is a row, and the second one solves the puzzle. -/
theorem retry_survives_early_throw :
    ∃ job : Job RunWorld StrategyRunStatus, job.past = [.threw none, .returned .completed] ∧
      job.Sound (RunWorld.attempt asciiText defaultLimits insectsAndTrees "llm-openai" 1 1) := by
  let body := RunWorld.attempt asciiText defaultLimits insectsAndTrees "llm-openai" 1 1
  let reply := plainReply [["ANT", "BEE", "FLY", "GNAT"], ["ASH", "ELM", "FIR", "OAK"]]
  let events : List (Event RunEvent) :=
    [.start, .throw 0, .start, .work (.load 1 (some "gpt-5-mini") none none false none),
      .work (.enter 1 false), .work (.iterate 2 none reply), .finish]
  obtain ⟨job, hrun, hpast⟩ := Run.exists_reaches (body.next 3) Run.always
    (Job.new RunWorld.fresh) events (fun job => job.past = [.threw none, .returned .completed])
    (by decide)
  rw [decide_eq_true_eq] at hpast
  have hsound := ((retries_survive_hook_iff asciiText defaultLimits insectsAndTrees "llm-openai"
    1 1 3).1 RunWorld.fresh job rfl hrun).1
  refine ⟨job, hpast, hsound.mpr ?_⟩
  rw [Job.Retryable, hpast]
  simp

/-- The first of three attempts throws over a running row; the hook marks the row, and the second
attempt returns from the gate without having made a call. -/
theorem hook_defeats_second_attempt :
    ∃ job : Job RunWorld StrategyRunStatus,
      let body := RunWorld.attempt asciiText defaultLimits insectsAndTrees "llm-openai" 1 1
      Run.Reaches (body.next 3) Run.always (Job.new RunWorld.fresh) job ∧
        job.past = [.threw (some .running), .returned .failed] ∧ job.hookWrites = 1 ∧
        ¬ job.Sound body := by
  let body := RunWorld.attempt asciiText defaultLimits insectsAndTrees "llm-openai" 1 1
  let load : Event RunEvent := .work (.load 0 (some "gpt-5-mini") none none false none)
  let enter : Event RunEvent := .work (.enter 0 false)
  obtain ⟨job, hrun, hjob⟩ := Run.exists_reaches (body.next 3) Run.always
    (Job.new RunWorld.fresh) [.start, load, enter, .throw 1, .start, load, enter, .finish]
    (fun job => job.past = [.threw (some .running), .returned .failed] && job.hookWrites = 1)
    (by decide)
  simp only [Bool.and_eq_true, decide_eq_true_eq] at hjob
  obtain ⟨hpast, hwrites⟩ := hjob
  refine ⟨job, hrun, hpast, hwrites, fun hsound => ?_⟩
  have hthrew := hsound.hook (hwrites ▸ Nat.one_pos) (.returned .failed) (by simp [hpast])
  cases hthrew

end Connections
