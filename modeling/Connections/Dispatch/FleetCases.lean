import Connections.Dispatch.RunFleet

/-!
# The ways a fleet can step

Every event that happens passes its guards and leaves one of these fleets behind.  What an event
does to the jobs, the rows, the workers and the operations is read off here, without another look
at the step function.
-/

namespace Connections

open JobQueue

namespace RunFleet

variable {env : FleetEnv}

/-- What an event does, with the guards that it passes. -/
inductive StepCase (env : FleetEnv) (w : RunFleet) : FleetEvent → RunFleet → Prop
  | tick (ms : ℕ) : StepCase env w (.tick ms) { w with now := w.now + ms }
  | call (puzzleId : ℕ) (e : CallStep) (world : TrialWorld) :
      (w.trialWorld puzzleId).callStep puzzleId env.strategyName env.limit e = some world →
      StepCase env w (.call puzzleId e)
        { w.setCall puzzleId world.call with queue := world.queue }
  | pick (j : Job String JobData) : j ∈ w.queue.jobs → j.state.live →
      StepCase env w (.pick j.id)
        { w with
          queue := w.queue.relist { j with state := .active }
          workers := ⟨j.id, none, false⟩ :: w.workers }
  | promote (j : Job String JobData) : j ∈ w.queue.jobs → j.state = .delayed →
      StepCase env w (.promote j.id) { w with queue := w.queue.relist { j with state := .waiting } }
  | loadRow (allWords : List String) (contextWindow : Option ℕ) (k : JobWorker)
      (j : Job String JobData) (data : RunStrategyJobData) (run : StrategyRun) :
      k ∈ w.workers → k.jobId = j.id → j ∈ w.queue.jobs → j.data = .runStrategy data →
      data.strategyName = env.strategyName → w.row ⟨data.puzzleId, data.trialNumber⟩ = some run →
      k.run = none → run.modelName = data.model →
      StepCase env w (.load j.id allWords contextWindow) (w.workerLoad j.id run)
  | createRow (allWords : List String) (contextWindow : Option ℕ) (k : JobWorker)
      (j : Job String JobData) (data : RunStrategyJobData) :
      k ∈ w.workers → k.jobId = j.id → j ∈ w.queue.jobs → j.data = .runStrategy data →
      data.strategyName = env.strategyName → w.row ⟨data.puzzleId, data.trialNumber⟩ = none →
      k.run = none →
      StepCase env w (.load j.id allWords contextWindow)
        ({ w with
          nextId := w.nextId + 1
          runs := w.createdRun env data allWords contextWindow :: w.runs }.workerLoad j.id
            (w.createdRun env data allWords contextWindow))
  | flush (jobId : String) (availableWords : List String) (run : StrategyRun) :
      w.workerRun jobId = some run →
      StepCase env w (.flush jobId availableWords)
        (w.workerSave jobId (run.flushed availableWords) false)
  | park (jobId : String) (run : StrategyRun) : w.workerRun jobId = some run →
      StepCase env w (.park jobId) (w.workerSave jobId (run.parked w.now) true)
  | finish (jobId : String) (status : StrategyRunStatus) (availableWords : List String)
      (run : StrategyRun) : status ∈ terminalStatuses → w.workerRun jobId = some run →
      StepCase env w (.finish jobId status availableWords)
        (w.workerSave jobId (run.finished w.now status availableWords) true)
  | complete (k : JobWorker) (j : Job String JobData) : k ∈ w.workers → k.jobId = j.id →
      k.done → j ∈ w.queue.jobs → j.state = .active →
      StepCase env w (.complete j.id)
        { w.dismiss j.id with
          queue := (w.queue.relist { j with state := .completed }).trim .completed
            removeOnCompleteCount }
  | retried (k : JobWorker) (j : Job String JobData) : j ∈ w.queue.jobs → j.state = .active →
      j.attemptsMade + 1 < queueAttempts → k ∈ w.workers → k.jobId = j.id →
      StepCase env w (.throws j.id)
        { w.dismiss j.id with
          queue := w.queue.relist
            { j with attemptsMade := j.attemptsMade + 1, state := .delayed }
          failing := (jobKey env j.data).toList ++ w.failing }
  | gaveUp (k : JobWorker) (j : Job String JobData) : j ∈ w.queue.jobs → j.state = .active →
      ¬ j.attemptsMade + 1 < queueAttempts → k ∈ w.workers → k.jobId = j.id →
      StepCase env w (.throws j.id)
        { w.dismiss j.id with
          queue := (w.queue.relist
            { j with attemptsMade := j.attemptsMade + 1, state := .failed }).trim .failed
              removeOnFailCount
          failing := (jobKey env j.data).toList ++ w.failing }
  | mark (key : RunKey) (entity : StrategyRun) : w.failedRun key = some entity →
      key ∈ w.failing →
      StepCase env w (.markFailed key)
        ({ w with failing := w.failing.erase key }.save entity |>.noteWrite entity)
  | unmark (key : RunKey) : w.failedRun key = none → key ∈ w.failing →
      StepCase env w (.markFailed key) { w with failing := w.failing.erase key }
  | crash (k : JobWorker) : k ∈ w.workers → StepCase env w (.crash k.jobId) (w.dismiss k.jobId)
  | stall (j : Job String JobData) : (∀ k ∈ w.workers, k.jobId ≠ j.id) → j ∈ w.queue.jobs →
      j.state = .active →
      StepCase env w (.stall j.id) { w with queue := w.queue.relist { j with state := .waiting } }
  | beginResume (triggerJobId : String) (held : List String) (freeTier : FreeTierConfig) :
      (providerPool env.strategyName).bind ProviderPoolId.freeTier = some freeTier →
      StepCase env w (.beginResume triggerJobId held)
        (w.beginOp (resumeKind freeTier) (resumeStamp env w.now freeTier triggerJobId)
          (w.resumeTodo freeTier held))
  | beginBudgetResume (budgetTier : String) (models : List String) (limit : ℕ) :
      StepCase env w (.beginBudgetResume budgetTier models limit)
        (w.beginOp .budget "" (w.budgetParked budgetTier models limit))
  | beginRetry (runId : ℕ) (run : StrategyRun) : w.erroredRun runId = some run →
      StepCase env w (.beginRetry runId) (w.beginOp .manualRetry "" [run])
  | beginSweep (role : WorkerRole) :
      StepCase env w (.beginSweep role)
        (w.beginOp .sweep (env.dateStampInTz "UTC" w.now) (w.sweepTodo env role))
  | opEnd (op : ResumeOp) : w.ops.find? (·.id = op.id) = some op → op.todo = [] →
      StepCase env w (.opStep op.id) (w.endOp op.id)
  | opAdd (op : ResumeOp) (run : StrategyRun) : w.ops.find? (·.id = op.id) = some op →
      op.todo.head? = some run → op.adds →
      StepCase env w (.opStep op.id) ((w.addResumeJob env op run).setOp op.next)
  | opSave (op : ResumeOp) (run : StrategyRun) : w.ops.find? (·.id = op.id) = some op →
      op.todo.head? = some run → op.adds = false →
      StepCase env w (.opStep op.id) ((w.save (op.kind.resumed run)).setOp op.next)
  | opSkip (op : ResumeOp) : op ∈ w.ops → op.kind = .accountPool →
      StepCase env w (.opFail op.id)
        (w.setOp { op with todo := op.todo.tail, half := false, written := none })
  | opAbort (op : ResumeOp) : op ∈ w.ops → StepCase env w (.opFail op.id) (w.endOp op.id)
  | delete (run : StrategyRun) : run ∈ w.runs → run.status ≠ .running →
      StepCase env w (.deleteRun run.id) { w with runs := w.runs.filter (·.id ≠ run.id) }

/-- A worker takes up a job that is to run. -/
theorem pick_cases {w w' : RunFleet} {jobId : String}
    (h : step env w (.pick jobId) = some w') : StepCase env w (.pick jobId) w' := by
  obtain ⟨j, hj, h⟩ := Option.bind_eq_some_iff.mp h
  obtain ⟨hmem, rfl⟩ := Queue.lookup_eq_some.mp hj
  split at h
  · rename_i hst
    cases h
    refine .pick j hmem ?_
    rcases hst with hst | hst <;> rw [hst] <;> rfl
  · cases h

/-- A job whose lock ran out goes back to the queue while its worker works on. -/
theorem stall_cases {w w' : RunFleet} {jobId : String}
    (h : step env w (.stall jobId) = some w') : StepCase env w (.stall jobId) w' := by
  simp only [step] at h
  split at h
  · cases h
  · rename_i hnone
    obtain ⟨queue, hqueue, rfl⟩ := Option.map_eq_some_iff.mp h
    obtain ⟨j, hj, rfl, hst, rfl⟩ := Queue.move_eq_some.mp hqueue
    exact .stall j (by simpa using hnone) hj hst

/-- A worker loads the run of its job, with its row or without one. -/
theorem load_cases {w w' : RunFleet} {jobId : String} {allWords : List String}
    {contextWindow : Option ℕ} (h : step env w (.load jobId allWords contextWindow) = some w') :
    StepCase env w (.load jobId allWords contextWindow) w' := by
  obtain ⟨j, hj, h⟩ := Option.bind_eq_some_iff.mp h
  obtain ⟨hmem, rfl⟩ := Queue.lookup_eq_some.mp hj
  obtain ⟨k, hk, h⟩ := Option.bind_eq_some_iff.mp h
  have hkmem := List.mem_of_find?_eq_some hk
  have hkid : k.jobId = j.id := by simpa using List.find?_some hk
  split at h
  · rename_i data hidle hdata
    split at h
    · cases h
    · rename_i hstrategy
      have hown := not_not.mp hstrategy
      split at h
      · rename_i run hrow
        split at h
        · cases h
        · rename_i hmodel
          cases h
          exact .loadRow allWords contextWindow k j data run hkmem hkid hmem hdata hown hrow hidle
            (not_not.mp hmodel)
      · rename_i hrow
        cases h
        exact .createRow allWords contextWindow k j data hkmem hkid hmem hdata hown hrow hidle
  · cases h

/-- A worker writes the end of its run. -/
theorem finish_cases {w w' : RunFleet} {jobId : String} {status : StrategyRunStatus}
    {availableWords : List String}
    (h : step env w (.finish jobId status availableWords) = some w') :
    StepCase env w (.finish jobId status availableWords) w' := by
  simp only [step] at h
  split at h
  · rename_i hstatus
    obtain ⟨run, hrun, rfl⟩ := Option.map_eq_some_iff.mp h
    exact .finish jobId status availableWords run hstatus hrun
  · cases h

/-- A job completes once its worker is done. -/
theorem complete_cases {w w' : RunFleet} {jobId : String}
    (h : step env w (.complete jobId) = some w') : StepCase env w (.complete jobId) w' := by
  obtain ⟨k, hk, h⟩ := Option.bind_eq_some_iff.mp h
  have hkmem := List.mem_of_find?_eq_some hk
  split at h
  · rename_i hdone
    obtain ⟨queue, hqueue, rfl⟩ := Option.map_eq_some_iff.mp h
    obtain ⟨moved, hmoved, rfl⟩ := Option.map_eq_some_iff.mp hqueue
    obtain ⟨j, hj, rfl, hactive, rfl⟩ := Queue.move_eq_some.mp hmoved
    exact .complete k j hkmem (by simpa using List.find?_some hk) hdone hj hactive
  · cases h

/-- A failed attempt is retried or was the last one. -/
theorem throws_cases {w w' : RunFleet} {jobId : String}
    (h : step env w (.throws jobId) = some w') : StepCase env w (.throws jobId) w' := by
  obtain ⟨k, hk, h⟩ := Option.bind_eq_some_iff.mp h
  obtain ⟨j, hj, h⟩ := Option.bind_eq_some_iff.mp h
  have hkmem := List.mem_of_find?_eq_some hk
  obtain ⟨queue, hqueue, rfl⟩ := Option.map_eq_some_iff.mp h
  obtain ⟨hmem, rfl⟩ := Queue.lookup_eq_some.mp hj
  have hkid : k.jobId = j.id := by simpa using List.find?_some hk
  simp only [Queue.failAttempt, hj, Option.bind_some] at hqueue
  split at hqueue
  · rename_i hactive
    split at hqueue
    · rename_i hleft
      cases hqueue
      exact .retried k j hmem hactive hleft hkmem hkid
    · rename_i hlast
      cases hqueue
      exact .gaveUp k j hmem hactive hlast hkmem hkid
  · cases hqueue

/-- The hook of a failed attempt ends the row of its key. -/
theorem markFailed_cases {w w' : RunFleet} {key : RunKey}
    (h : step env w (.markFailed key) = some w') : StepCase env w (.markFailed key) w' := by
  simp only [step] at h
  split at h
  · rename_i hfailing
    cases h
    split
    · rename_i entity hentity
      exact .mark key entity hentity hfailing
    · rename_i hnone
      exact .unmark key hnone hfailing
  · cases h

/-- An operation's next half adds a job or saves a run; with no run left the operation ends. -/
theorem opStep_cases {w w' : RunFleet} {opId : ℕ} (h : step env w (.opStep opId) = some w') :
    StepCase env w (.opStep opId) w' := by
  obtain ⟨op, hop, rfl⟩ := Option.map_eq_some_iff.mp h
  obtain rfl : op.id = opId := by simpa using List.find?_some hop
  unfold opStep
  split
  · rename_i htodo
    exact .opEnd op hop htodo
  · rename_i run rest htodo
    have hhead : op.todo.head? = some run := by rw [htodo]; rfl
    split
    · rename_i hadds
      exact .opAdd op run hop hhead hadds
    · rename_i hadds
      exact .opSave op run hop hhead (by simpa using hadds)

/-- An operation that throws goes on with its next run or ends. -/
theorem opFail_cases {w w' : RunFleet} {opId : ℕ} (h : step env w (.opFail opId) = some w') :
    StepCase env w (.opFail opId) w' := by
  obtain ⟨op, hop, rfl⟩ := Option.map_eq_some_iff.mp h
  have hmem := List.mem_of_find?_eq_some hop
  obtain rfl : op.id = opId := by simpa using List.find?_some hop
  unfold opFail
  split
  · rename_i run rest hkind htodo
    have hskip : StepCase env w (.opFail op.id)
        (w.setOp { op with todo := op.todo.tail, half := false, written := none }) :=
      .opSkip op hmem hkind
    rwa [htodo] at hskip
  · exact .opAbort op hmem

/-- A deletion takes the row and leaves the jobs. -/
theorem deleteRun_cases {w w' : RunFleet} {runId : ℕ}
    (h : step env w (.deleteRun runId) = some w') : StepCase env w (.deleteRun runId) w' := by
  obtain ⟨run, hrun, h⟩ := Option.bind_eq_some_iff.mp h
  obtain rfl : run.id = runId := by simpa using List.find?_some hrun
  split at h
  · cases h
  · rename_i hended
    cases h
    exact .delete run (List.mem_of_find?_eq_some hrun) hended

/-- Every event that happens is one of the cases. -/
theorem step_cases {w w' : RunFleet} {e : FleetEvent} (h : step env w e = some w') :
    StepCase env w e w' := by
  cases e with
  | tick ms =>
    cases h
    exact .tick ms
  | call puzzleId call =>
    obtain ⟨world, hworld, rfl⟩ := Option.map_eq_some_iff.mp h
    exact .call puzzleId call world hworld
  | pick jobId => exact pick_cases h
  | promote jobId =>
    obtain ⟨queue, hqueue, rfl⟩ := Option.map_eq_some_iff.mp h
    obtain ⟨j, hj, rfl, hst, rfl⟩ := Queue.move_eq_some.mp hqueue
    exact .promote j hj hst
  | stall jobId => exact stall_cases h
  | load jobId allWords contextWindow => exact load_cases h
  | flush jobId availableWords =>
    obtain ⟨run, hrun, rfl⟩ := Option.map_eq_some_iff.mp h
    exact .flush jobId availableWords run hrun
  | park jobId =>
    obtain ⟨run, hrun, rfl⟩ := Option.map_eq_some_iff.mp h
    exact .park jobId run hrun
  | finish jobId status availableWords => exact finish_cases h
  | complete jobId => exact complete_cases h
  | throws jobId => exact throws_cases h
  | crash jobId =>
    obtain ⟨k, hk, rfl⟩ := Option.map_eq_some_iff.mp h
    obtain rfl : k.jobId = jobId := by simpa using List.find?_some hk
    exact .crash k (List.mem_of_find?_eq_some hk)
  | markFailed key => exact markFailed_cases h
  | beginResume triggerJobId held =>
    obtain ⟨freeTier, htier, rfl⟩ := Option.map_eq_some_iff.mp h
    exact .beginResume triggerJobId held freeTier htier
  | beginBudgetResume budgetTier models limit =>
    cases h
    exact .beginBudgetResume budgetTier models limit
  | beginRetry runId =>
    obtain ⟨run, hrun, rfl⟩ := Option.map_eq_some_iff.mp h
    exact .beginRetry runId run hrun
  | beginSweep role =>
    cases h
    exact .beginSweep role
  | opStep opId => exact opStep_cases h
  | opFail opId => exact opFail_cases h
  | deleteRun runId => exact deleteRun_cases h

end RunFleet

end Connections
