import Connections.Dispatch.FleetSteps

/-!
# The rows and the workers of a fleet

Where a row and a worker come from after an event, and the bookkeeping that every run without
deletions keeps: one row a key, and entities in memory that belong to a row.
-/

namespace Connections

open JobQueue

/-- The job that an event is about. -/
def FleetEvent.worksOn : FleetEvent → Option String
  | .load jobId _ _ | .flush jobId _ | .park jobId | .finish jobId _ _ | .complete jobId
  | .throws jobId | .crash jobId | .stall jobId => some jobId
  | _ => none

namespace RunFleet

variable {env : FleetEnv}

/-! ### Rows -/

/-- The entity that an event saves. -/
def saves (w : RunFleet) : FleetEvent → Option StrategyRun
  | .opStep opId => (w.ops.find? (·.id = opId)).bind fun op =>
    if op.adds then none else op.todo.head?.map op.kind.resumed
  | e => w.writes e

/-- How an event changes the rows. -/
inductive RowsChange (env : FleetEnv) (w w' : RunFleet) : FleetEvent → Prop
  | kept (e : FleetEvent) : w.saves e = none → w'.runs = w.runs → w.nextId ≤ w'.nextId →
      RowsChange env w w' e
  | saved (e : FleetEvent) (entity : StrategyRun) : w.saves e = some entity →
      w'.runs = (w.save entity).runs → w'.nextId = w.nextId → RowsChange env w w' e
  | created (jobId : String) (allWords : List String) (contextWindow : Option ℕ)
      (data : RunStrategyJobData) (k : JobWorker) (j : Job String JobData) : k ∈ w.workers →
      k.jobId = jobId → j ∈ w.queue.jobs → j.id = jobId → j.data = .runStrategy data →
      data.strategyName = env.strategyName →
      w.row ⟨data.puzzleId, data.trialNumber⟩ = none →
      w'.runs = w.createdRun env data allWords contextWindow :: w.runs →
      w'.nextId = w.nextId + 1 →
      RowsChange env w w' (.load jobId allWords contextWindow)
  | deleted (runId : ℕ) : w'.runs = w.runs.filter (·.id ≠ runId) → w'.nextId = w.nextId →
      RowsChange env w w' (.deleteRun runId)

/-- A row after a save is another's as it was, or the entity with its time. -/
theorem mem_save {w : RunFleet} {entity row : StrategyRun} (h : row ∈ (w.save entity).runs) :
    row ∈ w.runs ∧ row.id ≠ entity.id ∨
      ∃ updatedAt, row = { entity with updatedAt := updatedAt } := by
  unfold save at h
  split at h
  · obtain ⟨old, hold, rfl⟩ := List.mem_map.mp h
    split
    · right
      unfold savedRow
      split
      · exact ⟨entity.updatedAt, rfl⟩
      · exact ⟨w.now, rfl⟩
    · exact .inl ⟨hold, ‹_›⟩
  · rename_i hnone
    rcases List.mem_cons.mp h with rfl | h
    · exact .inr ⟨w.now, rfl⟩
    · refine .inl ⟨h, fun hid => hnone ?_⟩
      simpa using ⟨row, h, hid⟩

theorem save_runs_of_failing (w : RunFleet) (failing : List RunKey) (entity : StrategyRun) :
    ({ w with failing := failing }.save entity).runs = (w.save entity).runs := by
  unfold save
  split <;> rfl

/-- Every event changes the rows in one of these ways. -/
theorem step_rows {w w' : RunFleet} {e : FleetEvent} (h : step env w e = some w') :
    RowsChange env w w' e := by
  have hworker {jobId : String} {entity : StrategyRun} {done : Bool}
      (hsaves : w.saves e = some entity) : RowsChange env w (w.workerSave jobId entity done) e :=
    .saved e entity hsaves (workerSave_runs _ _ _ _) (workerSave_nextId _ _ _ _)
  cases step_cases h with
  | createRow allWords contextWindow k j data hk hkid hj hdata hown hrow =>
    exact .created j.id allWords contextWindow data k j hk hkid hj rfl hdata hown hrow rfl rfl
  | flush jobId availableWords run hrun => exact hworker (by simp [saves, writes, hrun])
  | park jobId run hrun => exact hworker (by simp [saves, writes, hrun])
  | finish jobId status availableWords run _ hrun => exact hworker (by simp [saves, writes, hrun])
  | mark key entity hentity =>
    exact .saved _ entity hentity (save_runs_of_failing w _ entity) (save_nextId _ _)
  | unmark key hnone => exact .kept _ hnone rfl (Nat.le_refl _)
  | beginResume | beginBudgetResume | beginRetry | beginSweep =>
    exact .kept _ rfl rfl (Nat.le_succ _)
  | opEnd op hop htodo => exact .kept _ (by simp [saves, hop, htodo]) rfl (Nat.le_refl _)
  | opAdd op run hop _ hadds => exact .kept _ (by simp [saves, hop, hadds]) rfl (Nat.le_refl _)
  | opSave op run hop hhead hadds =>
    have hsaves : w.saves (.opStep op.id) = some (op.kind.resumed run) := by
      simp [saves, hop, hadds, hhead]
    exact .saved _ _ hsaves rfl (save_nextId _ _)
  | delete run => exact .deleted run.id rfl rfl
  | _ => exact .kept _ rfl rfl (Nat.le_refl _)

/-! ### Workers -/

/-- Where a worker after an event comes from. -/
inductive WorkerOrigin (env : FleetEnv) (w w' : RunFleet) : FleetEvent → JobWorker → Prop
  | kept (e : FleetEvent) (k : JobWorker) : k ∈ w.workers → e.worksOn ≠ some k.jobId →
      WorkerOrigin env w w' e k
  | picked (j : Job String JobData) : j ∈ w.queue.jobs →
      { j with state := .active } ∈ w'.queue.jobs →
      WorkerOrigin env w w' (.pick j.id) ⟨j.id, none, false⟩
  | loaded (jobId : String) (allWords : List String) (contextWindow : Option ℕ)
      (k : JobWorker) (j : Job String JobData) (run : StrategyRun) : k ∈ w.workers →
      k.jobId = jobId → j ∈ w.queue.jobs → j.id = jobId → jobKey env j.data = some run.key →
      run ∈ w'.runs → (w.row run.key = some run ∨ run.status = .running) →
      WorkerOrigin env w w' (.load jobId allWords contextWindow)
        ⟨jobId, some run, decide (run.status ∈ terminalStatuses)⟩
  | saved (e : FleetEvent) (jobId : String) (k : JobWorker) (run entity : StrategyRun)
      (done : Bool) : k ∈ w.workers → k.jobId = jobId → e.worksOn = some jobId →
      k.done = false → k.run = some run → w.writes e = some entity → entity.id = run.id →
      entity.key = run.key → (done = false ↔ entity.status = .running) →
      WorkerOrigin env w w' e ⟨jobId, w'.runs.find? (·.id = entity.id), done⟩

/-- An event that no worker takes part in keeps each one as it is. -/
theorem workers_of_eq {w w' : RunFleet} {e : FleetEvent} (h : w'.workers = w.workers)
    (he : e.worksOn = none) : ∀ k ∈ w'.workers, WorkerOrigin env w w' e k := fun k hk =>
  .kept e k (h ▸ hk) (by simp [he])

/-- A worker that is dismissed is gone; the others stay as they are. -/
theorem workers_of_dismiss {w w' : RunFleet} {e : FleetEvent} {jobId : String}
    (h : w'.workers = (w.dismiss jobId).workers) (he : e.worksOn = some jobId) :
    ∀ k ∈ w'.workers, WorkerOrigin env w w' e k := fun k hk => by
  rw [h] at hk
  obtain ⟨hmem, hne⟩ := List.mem_filter.mp hk
  refine .kept e k hmem fun hsame => of_decide_eq_true hne ?_
  exact Option.some.inj (hsame.symm.trans he)

/-- The run of a worker is the entity it holds while it works. -/
theorem workerRun_eq_some {w : RunFleet} {jobId : String} {run : StrategyRun}
    (h : w.workerRun jobId = some run) :
    ∃ k ∈ w.workers, k.jobId = jobId ∧ k.done = false ∧ k.run = some run := by
  obtain ⟨k, hk, hrun⟩ := Option.bind_eq_some_iff.mp h
  split at hrun
  · cases hrun
  · rename_i hdone
    exact ⟨k, List.mem_of_find?_eq_some hk, by simpa using List.find?_some hk, by simpa using hdone,
      hrun⟩

/-- A worker that saves holds what it wrote, for the same run. -/
theorem workers_of_workerSave {w : RunFleet} {e : FleetEvent} {jobId : String}
    {run entity : StrategyRun} {done : Bool} (hrun : w.workerRun jobId = some run)
    (he : e.worksOn = some jobId) (hwrites : w.writes e = some entity)
    (hid : entity.id = run.id) (hkey : entity.key = run.key)
    (hstatus : done = false ↔ entity.status = .running) :
    ∀ k ∈ (w.workerSave jobId entity done).workers,
      WorkerOrigin env w (w.workerSave jobId entity done) e k := by
  obtain ⟨k, hk, hkid, hdone, hkrun⟩ := workerRun_eq_some hrun
  intro k' hk'
  obtain ⟨old, hold, rfl⟩ := List.mem_map.mp hk'
  split
  · have horigin : WorkerOrigin env w (w.workerSave jobId entity done) e
        ⟨jobId, (w.workerSave jobId entity done).runs.find? (·.id = entity.id), done⟩ :=
      .saved e jobId k run entity done hk hkid he hdone hkrun hwrites hid hkey hstatus
    simpa [workerSave] using horigin
  · rename_i hne
    exact .kept e old (by simpa [workerSave] using hold) fun hsame =>
      hne (Option.some.inj (hsame.symm.trans he))

/-- A worker that loads a run goes on with it, the other workers stay. -/
theorem workers_of_workerLoad {w v : RunFleet} {allWords : List String}
    {contextWindow : Option ℕ} {worker : JobWorker} {j : Job String JobData} {run : StrategyRun}
    (hworkers : v.workers = w.workers) (hworker : worker ∈ w.workers)
    (hid : worker.jobId = j.id) (hj : j ∈ w.queue.jobs) (hkey : jobKey env j.data = some run.key)
    (hrun : run ∈ v.runs) (hfrom : w.row run.key = some run ∨ run.status = .running) :
    ∀ k ∈ (v.workerLoad j.id run).workers, WorkerOrigin env w (v.workerLoad j.id run)
      (.load j.id allWords contextWindow) k := by
  intro k hk
  obtain ⟨old, hold, rfl⟩ := List.mem_map.mp hk
  split
  · exact .loaded j.id allWords contextWindow worker j run hworker hid hj rfl hkey hrun hfrom
  · rename_i hne
    exact .kept _ old (hworkers ▸ hold) fun hsame => hne (Option.some.inj hsame).symm

/-- The run that a job of the strategy executes. -/
theorem jobKey_runStrategy {j : Job String JobData} {data : RunStrategyJobData}
    (hdata : j.data = .runStrategy data) (hown : data.strategyName = env.strategyName) :
    jobKey env j.data = some ⟨data.puzzleId, data.trialNumber⟩ := by
  simp [hdata, jobKey, hown]

/-- Every worker after an event comes from one of these places. -/
theorem step_workers {w w' : RunFleet} {e : FleetEvent} (h : step env w e = some w') :
    ∀ k ∈ w'.workers, WorkerOrigin env w w' e k := by
  cases step_cases h with
  | pick j hj =>
    rintro k (_ | ⟨_, hk⟩)
    · exact .picked j hj (Queue.mem_relist.mpr (.inl rfl))
    · exact .kept _ k hk (by simp [FleetEvent.worksOn])
  | loadRow allWords contextWindow worker j data run hworker hid hj hdata hown hrow =>
    have hkey : run.key = ⟨data.puzzleId, data.trialNumber⟩ := by
      simpa using List.find?_some hrow
    exact workers_of_workerLoad rfl hworker hid hj
      ((jobKey_runStrategy hdata hown).trans (congrArg some hkey.symm))
      (List.mem_of_find?_eq_some hrow) (.inl (hkey ▸ hrow))
  | createRow allWords contextWindow worker j data hworker hid hj hdata hown =>
    exact workers_of_workerLoad rfl hworker hid hj (jobKey_runStrategy hdata hown)
      List.mem_cons_self (.inr rfl)
  | flush jobId availableWords run hrun =>
    exact workers_of_workerSave hrun rfl (by simp [writes, hrun]) rfl rfl
      (by simp [StrategyRun.flushed])
  | park jobId run hrun =>
    exact workers_of_workerSave hrun rfl (by simp [writes, hrun]) rfl rfl
      (by simp [StrategyRun.parked])
  | finish jobId status availableWords run hterminal hrun =>
    refine workers_of_workerSave hrun rfl (by simp [writes, hrun]) rfl rfl ?_
    simp only [Bool.true_eq_false, StrategyRun.finished, false_iff]
    rintro rfl
    simp [terminalStatuses] at hterminal
  | complete | retried | gaveUp | crash => exact workers_of_dismiss rfl rfl
  | mark | opSave => exact workers_of_eq (save_workers _ _) rfl
  | stall j hnone =>
    exact fun k hk => .kept _ k hk fun hsame => hnone k hk (Option.some.inj hsame).symm
  | _ => exact workers_of_eq rfl rfl

/-! ### Entities in memory -/

/-- What a run keeps for life. -/
def identity (run : StrategyRun) : ℕ × RunKey × String := (run.id, run.key, run.strategyName)

/-- An entity in the table, with a worker, or loaded by an operation. -/
def Held (w : RunFleet) (run : StrategyRun) : Prop :=
  run ∈ w.runs ∨ (∃ k ∈ w.workers, k.run = some run) ∨ ∃ op ∈ w.ops, run ∈ op.todo

/-- What an operation loads is stored. -/
theorem mem_loads {w : RunFleet} {e : FleetEvent} {run : StrategyRun}
    (h : run ∈ w.loads env e) : run ∈ w.runs := by
  cases e with
  | beginResume triggerJobId held =>
    simp only [loads] at h
    cases htier : (providerPool env.strategyName).bind ProviderPoolId.freeTier with
    | none =>
      rw [htier] at h
      cases h
    | some freeTier =>
      rw [htier] at h
      exact (status_of_mem_withStatus (mem_resumeTodo h)).1
  | beginBudgetResume budgetTier models limit =>
    exact (status_of_mem_withStatus (mem_budgetParked h)).1
  | beginRetry runId =>
    have hfind := Option.mem_toList.mp h
    exact (status_of_mem_withStatus (List.mem_of_find?_eq_some hfind)).1
  | beginSweep role =>
    simp only [loads, sweepTodo] at h
    split at h
    · exact (status_of_mem_withStatus (List.mem_filter.mp h).1).1
    · cases h
  | _ => cases h

/-- An operation that goes on takes up no run it did not load. -/
theorem mem_next_todo {op : ResumeOp} {run : StrategyRun} (h : run ∈ op.next.todo) :
    run ∈ op.todo := by
  unfold ResumeOp.next at h
  split at h
  · exact List.mem_of_mem_tail h
  · exact h

/-- The hook ends a row that is stored as running. -/
theorem failedRun_eq_some {w : RunFleet} {key : RunKey} {entity : StrategyRun}
    (h : w.failedRun key = some entity) :
    ∃ run ∈ w.runs, run.key = key ∧ run.status = .running ∧
      entity = run.finished w.now .failed run.availableWords := by
  obtain ⟨run, hrow, hentity⟩ := Option.bind_eq_some_iff.mp h
  split at hentity
  · cases hentity
    exact ⟨run, List.mem_of_find?_eq_some hrow, by simpa using List.find?_some hrow, ‹_›, rfl⟩
  · cases hentity

/-- A worker's write is to its own run, the mark of a failed job to a row. -/
theorem writes_identity {w : RunFleet} {e : FleetEvent} {entity : StrategyRun}
    (h : w.writes e = some entity) : ∃ run, w.Held run ∧ identity entity = identity run := by
  have hworker {jobId : String} {change : StrategyRun → StrategyRun}
      (h : (w.workerRun jobId).map change = some entity)
      (hchange : ∀ run, identity (change run) = identity run) :
      ∃ run, w.Held run ∧ identity entity = identity run := by
    obtain ⟨run, hrun, rfl⟩ := Option.map_eq_some_iff.mp h
    obtain ⟨k, hk, -, -, hkrun⟩ := workerRun_eq_some hrun
    exact ⟨run, .inr (.inl ⟨k, hk, hkrun⟩), hchange run⟩
  cases e with
  | flush jobId availableWords => exact hworker h fun _ => rfl
  | park jobId => exact hworker h fun _ => rfl
  | finish jobId status availableWords => exact hworker h fun _ => rfl
  | markFailed key =>
    obtain ⟨run, hrun, -, -, rfl⟩ := failedRun_eq_some h
    exact ⟨run, .inl hrun, rfl⟩
  | _ => cases h

/-- A save of an operation writes the first of its runs as resumed. -/
theorem saves_opStep {w : RunFleet} {opId : ℕ} {entity : StrategyRun}
    (h : w.saves (.opStep opId) = some entity) :
    ∃ op ∈ w.ops, op.id = opId ∧ op.adds = false ∧
      ∃ run, op.todo.head? = some run ∧ entity = op.kind.resumed run := by
  obtain ⟨op, hop, hentity⟩ := Option.bind_eq_some_iff.mp h
  have hmem := List.mem_of_find?_eq_some hop
  have hid : op.id = opId := by simpa using List.find?_some hop
  split at hentity
  · cases hentity
  · rename_i hadds
    obtain ⟨run, hrun, rfl⟩ := Option.map_eq_some_iff.mp hentity
    exact ⟨op, hmem, hid, by simpa using hadds, run, hrun, rfl⟩

/-- A resume leaves what a run keeps for life. -/
@[simp] theorem identity_resumed (kind : ResumeKind) (run : StrategyRun) :
    identity (kind.resumed run) = identity run := by
  cases kind <;> rfl

/-- Every save is of an entity that was in memory or in the table. -/
theorem saves_identity {w : RunFleet} {e : FleetEvent} {entity : StrategyRun}
    (h : w.saves e = some entity) : ∃ run, w.Held run ∧ identity entity = identity run := by
  cases e with
  | opStep opId =>
    obtain ⟨op, hop, -, -, run, hrun, rfl⟩ := saves_opStep h
    exact ⟨run, .inr (.inr ⟨op, hop, List.mem_of_mem_head? hrun⟩), identity_resumed _ _⟩
  | _ => exact writes_identity (by simpa only [saves] using h)

/-- A step adds a job only for the operation it belongs to, for the first of its runs. -/
theorem addsFor_eq_some {w : RunFleet} {e : FleetEvent} {op : ResumeOp} {run : StrategyRun}
    (h : w.addsFor e = some (op, run)) : e = .opStep op.id ∧
      w.ops.find? (·.id = op.id) = some op ∧ op.adds ∧ op.todo.head? = some run := by
  cases e with
  | opStep opId =>
    obtain ⟨found, hop, hfound⟩ := Option.bind_eq_some_iff.mp h
    obtain rfl : found.id = opId := by simpa using List.find?_some hop
    split at hfound
    · rename_i hadds
      obtain ⟨head, hhead, hpair⟩ := Option.map_eq_some_iff.mp hfound
      cases hpair
      exact ⟨rfl, hop, hadds, hhead⟩
    · cases hfound
  | _ => cases h

/-- The run a job is added for was loaded and is held. -/
theorem held_of_addsFor {w : RunFleet} {e : FleetEvent} {op : ResumeOp} {run : StrategyRun}
    (h : w.addsFor e = some (op, run)) : w.Held run := by
  obtain ⟨-, hop, -, hhead⟩ := addsFor_eq_some h
  exact .inr (.inr ⟨op, List.mem_of_find?_eq_some hop, List.mem_of_mem_head? hhead⟩)

/-- An entity after an event was one before it, or it is the row that a worker created. -/
theorem held_step {w w' : RunFleet} {e : FleetEvent} {run' : StrategyRun}
    (h : step env w e = some w') (hheld : w'.Held run') :
    (∃ run, w.Held run ∧ identity run' = identity run) ∨
      run' ∈ w'.runs ∧ run'.strategyName = env.strategyName := by
  have hrow : ∀ row ∈ w'.runs, (∃ run, w.Held run ∧ identity row = identity run) ∨
      row ∈ w'.runs ∧ row.strategyName = env.strategyName := by
    intro row hrow
    have hmem := hrow
    cases step_rows h with
    | kept _ _ hruns => exact .inl ⟨row, .inl (hruns ▸ hrow), rfl⟩
    | saved _ entity hsaves hruns =>
      rcases mem_save (hruns ▸ hrow) with ⟨hmem, -⟩ | ⟨updatedAt, rfl⟩
      · exact .inl ⟨row, .inl hmem, rfl⟩
      · obtain ⟨run, hheld, hsame⟩ := saves_identity hsaves
        exact .inl ⟨run, hheld, hsame⟩
    | created jobId allWords contextWindow data _ _ _ _ _ _ _ _ _ hruns =>
      rw [hruns] at hrow
      rcases List.mem_cons.mp hrow with rfl | hold
      · exact .inr ⟨hmem, rfl⟩
      · exact .inl ⟨row, .inl hold, rfl⟩
    | deleted runId hruns =>
      rw [hruns] at hrow
      exact .inl ⟨row, .inl (List.mem_filter.mp hrow).1, rfl⟩
  rcases hheld with hmem | ⟨k, hk, hrun⟩ | ⟨op, hop, hrun⟩
  · exact hrow run' hmem
  · cases step_workers h k hk with
    | kept _ _ hk => exact .inl ⟨run', .inr (.inl ⟨k, hk, hrun⟩), rfl⟩
    | picked => cases hrun
    | loaded _ _ _ _ _ run _ _ _ _ _ hmem _ =>
      cases hrun
      exact hrow _ hmem
    | saved => exact hrow run' (List.mem_of_find?_eq_some hrun)
  · cases step_ops h op hop with
    | kept _ op _ hop hnoted =>
      rw [hnoted.same] at hrun
      exact .inl ⟨run', .inr (.inr ⟨op, hop, hrun⟩), rfl⟩
    | began => exact .inl ⟨run', .inl (mem_loads hrun), rfl⟩
    | stepped op _ hfind =>
      have hbefore := List.mem_of_find?_eq_some hfind
      exact .inl ⟨run', .inr (.inr ⟨op, hbefore, mem_next_todo hrun⟩), rfl⟩
    | failed op hbefore =>
      exact .inl ⟨run', .inr (.inr ⟨op, hbefore, List.mem_of_mem_tail hrun⟩), rfl⟩

/-- Every entity is of the fleet's strategy. -/
def OwnRuns (env : FleetEnv) (w : RunFleet) : Prop :=
  ∀ run, w.Held run → run.strategyName = env.strategyName

/-- No step brings in an entity of another strategy. -/
theorem OwnRuns.step {w w' : RunFleet} {e : FleetEvent} (hown : OwnRuns env w)
    (h : RunFleet.step env w e = some w') : OwnRuns env w' := fun run hheld => by
  rcases held_step h hheld with ⟨before, hbefore, hsame⟩ | hnew
  · have hname : run.strategyName = before.strategyName := congrArg (·.2.2) hsame
    exact hname.trans (hown before hbefore)
  · exact hnew.2

/-! ### Well-formed fleets -/

/-- Identities under distinct ids, all used up, and under distinct keys. -/
structure Distinct (identities : List (ℕ × RunKey × String)) (nextId : ℕ) : Prop where
  ids_nodup : (identities.map (·.1)).Nodup
  keys_nodup : (identities.map (·.2.1)).Nodup
  ids_fresh : ∀ i ∈ identities, i.1 < nextId

/-- One more identity under a fresh id and key. -/
theorem Distinct.cons {identities : List (ℕ × RunKey × String)} {nextId : ℕ} {key : RunKey}
    {name : String} (h : Distinct identities nextId) (hnew : key ∉ identities.map (·.2.1)) :
    Distinct ((nextId, key, name) :: identities) (nextId + 1) := by
  refine ⟨List.nodup_cons.mpr ⟨fun hmem => ?_, h.ids_nodup⟩,
    List.nodup_cons.mpr ⟨hnew, h.keys_nodup⟩, ?_⟩
  · obtain ⟨i, hi, heq⟩ := List.mem_map.mp hmem
    exact Nat.lt_irrefl _ (heq ▸ h.ids_fresh i hi)
  · rintro i (_ | ⟨_, hi⟩)
    · exact Nat.lt_succ_self _
    · exact (h.ids_fresh i hi).trans (Nat.lt_succ_self _)

/-- A key has one row. -/
theorem Distinct.row_unique {runs : List StrategyRun} {nextId : ℕ} {row other : StrategyRun}
    (h : Distinct (runs.map identity) nextId) (hrow : row ∈ runs) (hother : other ∈ runs)
    (hkey : row.key = other.key) : row = other := by
  have hkeys := h.keys_nodup
  rw [List.map_map] at hkeys
  exact List.inj_on_of_nodup_map hkeys hrow hother hkey

/-- An id has one row. -/
theorem Distinct.row_unique_id {runs : List StrategyRun} {nextId : ℕ} {row other : StrategyRun}
    (h : Distinct (runs.map identity) nextId) (hrow : row ∈ runs) (hother : other ∈ runs)
    (hid : row.id = other.id) : row = other := by
  have hids := h.ids_nodup
  rw [List.map_map] at hids
  exact List.inj_on_of_nodup_map hids hrow hother hid

/-- One row a key, every entity in memory with its row, every worker with its live job. -/
structure WellFormed (env : FleetEnv) (w : RunFleet) : Prop where
  distinct : Distinct (w.runs.map identity) w.nextId
  own : OwnRuns env w
  held_rows : ∀ run, w.Held run → identity run ∈ w.runs.map identity
  worker_job : ∀ k ∈ w.workers, ∃ data, w.Live k.jobId data ∧
    ∀ run, k.run = some run → jobKey env data = some run.key

namespace WellFormed

variable {w w' : RunFleet} {e : FleetEvent}

/-- An entity in memory belongs to the row with its key. -/
theorem id_eq_of_key_eq (h : WellFormed env w) {run row : StrategyRun} (hheld : w.Held run)
    (hrow : row ∈ w.runs) (hkey : row.key = run.key) : row.id = run.id := by
  obtain ⟨other, hother, hsame⟩ := List.mem_map.mp (h.held_rows run hheld)
  have hotherkey : other.key = run.key := congrArg (·.2.1) hsame
  have hotherid : other.id = run.id := congrArg (·.1) hsame
  rw [h.distinct.row_unique hrow hother (hkey.trans hotherkey.symm)]
  exact hotherid

/-- The row that a key is looked up at. -/
theorem row_eq_some (h : WellFormed env w) {row : StrategyRun} (hrow : row ∈ w.runs) :
    w.row row.key = some row := by
  cases hfind : w.row row.key with
  | none =>
    have hnone := List.find?_eq_none.mp hfind row hrow
    simp at hnone
  | some other =>
    have hkey : other.key = row.key := by simpa using List.find?_some hfind
    rw [h.distinct.row_unique (List.mem_of_find?_eq_some hfind) hrow hkey]

/-- A save of an entity with a row leaves every row's identity. -/
theorem save_identity (h : WellFormed env w) {entity : StrategyRun}
    (hentity : identity entity ∈ w.runs.map identity) :
    (w.save entity).runs.map identity = w.runs.map identity := by
  obtain ⟨own, hown, hsame⟩ := List.mem_map.mp hentity
  have hid : own.id = entity.id := congrArg (·.1) hsame
  have hknown : w.runs.any (·.id = entity.id) :=
    List.any_eq_true.mpr ⟨own, hown, by simpa using hid⟩
  simp only [save, hknown, ↓reduceIte, List.map_map]
  refine List.map_congr_left fun row hrow => ?_
  simp only [Function.comp_apply]
  split
  · rename_i heq
    obtain rfl : row = own := h.distinct.row_unique_id hrow hown (heq.trans hid.symm)
    rw [hsame]
    unfold savedRow
    split <;> rfl
  · rfl

/-- The identities after an event: the same ones, or one more under a fresh id and key. -/
theorem identities_step (h : WellFormed env w) (hstep : step env w e = some w')
    (he : ∀ runId, e ≠ .deleteRun runId) :
    (w'.runs.map identity = w.runs.map identity ∧ w.nextId ≤ w'.nextId) ∨
      ∃ key, key ∉ (w.runs.map identity).map (·.2.1) ∧ w'.nextId = w.nextId + 1 ∧
        w'.runs.map identity = (w.nextId, key, env.strategyName) :: w.runs.map identity := by
  cases step_rows hstep with
  | kept _ _ hruns hnext => exact .inl ⟨by rw [hruns], hnext⟩
  | saved _ entity hsaves hruns hnext =>
    obtain ⟨run, hheld, hsame⟩ := saves_identity hsaves
    refine .inl ⟨?_, Nat.le_of_eq hnext.symm⟩
    rw [hruns]
    exact h.save_identity (hsame ▸ h.held_rows run hheld)
  | created jobId allWords contextWindow data _ _ _ _ _ _ _ _ hnone hruns hnext =>
    refine .inr ⟨⟨data.puzzleId, data.trialNumber⟩, fun hmem => ?_, hnext, by rw [hruns]; rfl⟩
    rw [List.map_map] at hmem
    obtain ⟨row, hrow, hkey⟩ := List.mem_map.mp hmem
    have hno := List.find?_eq_none.mp hnone row hrow
    exact hno (decide_eq_true hkey)
  | deleted runId => exact absurd rfl (he runId)

/-- Only a deletion takes a row away. -/
theorem mem_identities_step (h : WellFormed env w) (hstep : step env w e = some w')
    (he : ∀ runId, e ≠ .deleteRun runId) {run : StrategyRun}
    (hrun : identity run ∈ w.runs.map identity) : identity run ∈ w'.runs.map identity := by
  rcases h.identities_step hstep he with ⟨hsame, -⟩ | ⟨key, -, -, hcons⟩
  · exact hsame ▸ hrun
  · exact hcons ▸ List.mem_cons_of_mem _ hrun

/-- A worker's job is live after an event that is not about it, or only saves or loads. -/
theorem worker_live (h : WellFormed env w) (hstep : step env w e = some w') {k : JobWorker}
    (hk : k ∈ w.workers) (hends : w.endsJob e ≠ some k.jobId) : ∃ data, w'.Live k.jobId data ∧
      ∀ run, k.run = some run → jobKey env data = some run.key := by
  obtain ⟨data, hlive, hkey⟩ := h.worker_job k hk
  refine ⟨data, (step_jobs hstep).live (fun jobId hjob hsame => hends ?_) hlive, hkey⟩
  rw [hjob, hsame]

end WellFormed

/-- A job is ended by its own worker. -/
theorem endsJob_worksOn {w : RunFleet} {e : FleetEvent} {jobId : String}
    (h : w.endsJob e = some jobId) : e.worksOn = some jobId := by
  cases e with
  | complete => exact h
  | throws =>
    simp only [endsJob] at h
    split at h
    · exact h
    · cases h
  | _ => cases h

/-- No event both writes a row and ends a job. -/
theorem endsJob_of_writes {w : RunFleet} {e : FleetEvent} {entity : StrategyRun}
    (h : w.writes e = some entity) : w.endsJob e = none := by
  cases e with
  | complete | throws => cases h
  | _ => rfl

/-- Every event but a deletion keeps a fleet well-formed. -/
theorem WellFormed.step {w w' : RunFleet} {e : FleetEvent} (h : WellFormed env w)
    (hstep : RunFleet.step env w e = some w') (he : ∀ runId, e ≠ .deleteRun runId) :
    WellFormed env w' := by
  have hdistinct : Distinct (w'.runs.map identity) w'.nextId := by
    rcases h.identities_step hstep he with ⟨hsame, hnext⟩ | ⟨key, hnew, hnext, hcons⟩
    · rw [hsame]
      exact ⟨h.distinct.ids_nodup, h.distinct.keys_nodup,
        fun i hi => (h.distinct.ids_fresh i hi).trans_le hnext⟩
    · rw [hcons, hnext]
      exact h.distinct.cons hnew
  have hheld : ∀ run, w'.Held run → identity run ∈ w'.runs.map identity := by
    intro run hrun
    rcases held_step hstep hrun with ⟨before, hbefore, hsame⟩ | ⟨hmem, -⟩
    · rw [hsame]
      exact h.mem_identities_step hstep he (h.held_rows before hbefore)
    · exact List.mem_map_of_mem hmem
  refine ⟨hdistinct, h.own.step hstep, hheld, fun k hk => ?_⟩
  cases step_workers hstep k hk with
  | kept _ _ hbefore hother =>
    exact h.worker_live hstep hbefore fun hends => hother (endsJob_worksOn hends)
  | picked j _ hafter =>
    exact ⟨j.data, ⟨_, hafter, rfl, rfl, rfl⟩, fun run hrun => nomatch hrun⟩
  | loaded jobId _ _ old j run hold hid hj hjid hkey =>
    subst hid
    obtain ⟨data, hlive, -⟩ := h.worker_job old hold
    refine ⟨data, (step_jobs hstep).live (fun jobId hjob => nomatch hjob) hlive, ?_⟩
    rintro _ ⟨⟩
    rwa [← hlive.data_eq hj hjid]
  | saved _ jobId old run entity done hold hid hworks hdone hrun hwrites hentity hkey =>
    subst hid
    obtain ⟨data, hlive, hdata⟩ := h.worker_live hstep hold (by simp [endsJob_of_writes hwrites])
    refine ⟨data, hlive, fun saved hsaved => ?_⟩
    have hmem := List.mem_of_find?_eq_some hsaved
    have hid : saved.id = entity.id := by simpa using List.find?_some hsaved
    have hrunrow := h.mem_identities_step hstep he (h.held_rows run (.inr (.inl ⟨old, hold, hrun⟩)))
    obtain ⟨row, hrow, hsame⟩ := List.mem_map.mp hrunrow
    have hrowid : row.id = run.id := congrArg (·.1) hsame
    have hrowkey : row.key = run.key := congrArg (·.2.1) hsame
    obtain rfl := hdistinct.row_unique_id hmem hrow (hid.trans (hentity.trans hrowid.symm))
    rw [hrowkey]
    exact hdata run hrun

end RunFleet

end Connections
