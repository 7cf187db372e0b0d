import Connections.Dispatch.FleetCases

/-!
# What a fleet's step does to jobs, rows and operations

The live jobs of a run change in three ways only: one of them ends, a dispatch adds the first job
of a new trial, or an operation adds a job for the run it has come to.  The rows, the workers'
entities and the entities of the operations keep describing the same runs as long as no run is
deleted.
-/

namespace Connections

open JobQueue

namespace RunFleet

variable {env : FleetEnv}

/-! ### Projections -/

section Projections

variable (w : RunFleet) (entity : StrategyRun) (jobId : String) (op : ResumeOp)

/-- A save touches the stored rows only: no job is added or moved. -/
@[simp] theorem save_queue : (w.save entity).queue = w.queue := by
  unfold save
  split <;> rfl

/-- A save leaves the workers with the entities they hold. -/
@[simp] theorem save_workers : (w.save entity).workers = w.workers := by
  unfold save
  split <;> rfl

@[simp] theorem save_ops : (w.save entity).ops = w.ops := by
  unfold save
  split <;> rfl

@[simp] theorem save_nextId : (w.save entity).nextId = w.nextId := by
  unfold save
  split <;> rfl

@[simp] theorem save_calls : (w.save entity).calls = w.calls := by
  unfold save
  split <;> rfl

@[simp] theorem save_failing : (w.save entity).failing = w.failing := by
  unfold save
  split <;> rfl

@[simp] theorem noteWrite_queue : (w.noteWrite entity).queue = w.queue := rfl
@[simp] theorem noteWrite_runs : (w.noteWrite entity).runs = w.runs := rfl
@[simp] theorem noteWrite_workers : (w.noteWrite entity).workers = w.workers := rfl
@[simp] theorem noteWrite_nextId : (w.noteWrite entity).nextId = w.nextId := rfl

/-- A worker's flush does not touch its job. -/
@[simp] theorem workerSave_queue (done : Bool) :
    (w.workerSave jobId entity done).queue = w.queue := by
  simp [workerSave]

/-- Of the stored rows, a worker's save writes its own entity. -/
@[simp] theorem workerSave_runs (done : Bool) :
    (w.workerSave jobId entity done).runs = (w.save entity).runs := by
  simp [workerSave]

/-- Each operation that has the saved row loaded takes note of what was written. -/
@[simp] theorem workerSave_ops (done : Bool) :
    (w.workerSave jobId entity done).ops = (w.noteWrite entity).ops := by
  simp [workerSave, noteWrite]

/-- A worker's save begins no operation. -/
@[simp] theorem workerSave_nextId (done : Bool) :
    (w.workerSave jobId entity done).nextId = w.nextId := by
  simp [workerSave]

@[simp] theorem setOp_queue : (w.setOp op).queue = w.queue := rfl
@[simp] theorem setOp_runs : (w.setOp op).runs = w.runs := rfl
@[simp] theorem setOp_workers : (w.setOp op).workers = w.workers := rfl
@[simp] theorem setOp_nextId : (w.setOp op).nextId = w.nextId := rfl
@[simp] theorem endOp_queue (opId : ℕ) : (w.endOp opId).queue = w.queue := rfl

end Projections

/-! ### Live jobs -/

/-- A job that is queued or executing, with what it carries. -/
def Live (w : RunFleet) (id : String) (data : JobData) : Prop :=
  ∃ j ∈ w.queue.jobs, j.id = id ∧ j.data = data ∧ j.state.live

/-- A job of a run that is queued or executing, under its id. -/
def LiveJob (env : FleetEnv) (w : RunFleet) (key : RunKey) (id : String) : Prop :=
  ∃ data, w.Live id data ∧ jobKey env data = some key

/-- Whether any job of a run is queued or executing. -/
def hasLiveJob (env : FleetEnv) (w : RunFleet) (key : RunKey) : Bool :=
  w.queue.jobs.any fun j => j.state.live && jobKey env j.data = some key

/-- A run has a live job exactly if going through the queue finds one. -/
theorem hasLiveJob_iff {w : RunFleet} {key : RunKey} :
    w.hasLiveJob env key ↔ ∃ id, LiveJob env w key id := by
  simp only [hasLiveJob, List.any_eq_true, Bool.and_eq_true, decide_eq_true_eq]
  constructor
  · rintro ⟨j, hj, hlive, hkey⟩
    exact ⟨j.id, j.data, ⟨j, hj, rfl, rfl, hlive⟩, hkey⟩
  · rintro ⟨id, data, ⟨j, hj, -, rfl, hlive⟩, hkey⟩
    exact ⟨j, hj, hlive, hkey⟩

/-- The job that an event takes off the queue for good, if any. -/
def endsJob (w : RunFleet) : FleetEvent → Option String
  | .complete jobId => some jobId
  | .throws jobId =>
    if (w.queue.lookup jobId).any fun j => queueAttempts ≤ j.attemptsMade + 1 then some jobId
    else none
  | _ => none

/-- The operation that adds a job in an event, with the run that the job is for. -/
def addsFor (w : RunFleet) : FleetEvent → Option (ResumeOp × StrategyRun)
  | .opStep opId => (w.ops.find? (·.id = opId)).bind fun op =>
    if op.adds then op.todo.head?.map fun run => (op, run) else none
  | _ => none

/-- How an event changes the live jobs. -/
inductive JobChange (env : FleetEnv) (w w' : RunFleet) : FleetEvent → Prop
  | kept (e : FleetEvent) : (∀ id data, w'.Live id data ↔ w.Live id data) → JobChange env w w' e
  | ended (e : FleetEvent) (jobId : String) : w.endsJob e = some jobId →
      (∀ id data, w'.Live id data ↔ w.Live id data ∧ id ≠ jobId) → JobChange env w w' e
  | dispatched (puzzleId number : ℕ) (c : TrialCall) : w.callOn puzzleId = some c →
      c.pending.finished → c.active.finished →
      c.decision env.strategyName env.limit = .ok (some number) →
      (∀ id data, w'.Live id data ↔ w.Live id data ∨
        id = runStrategyJobId puzzleId env.strategyName (some c.model) number ∧
          data = .runStrategy (c.jobData puzzleId env.strategyName number) ∧
          w.queue.lookup id = none) →
      JobChange env w w' (.call puzzleId .conclude)
  | resumed (e : FleetEvent) (op : ResumeOp) (run : StrategyRun) : w.addsFor e = some (op, run) →
      (∀ id data, w'.Live id data ↔ w.Live id data ∨
        id = resumeJobId w.now op run ∧ data = .runStrategy (resumeJobData env op run) ∧
          w.queue.lookup id = none) →
      JobChange env w w' e

/-- Whether a job is live depends on the queue alone. -/
theorem live_of_queue_eq {w w' : RunFleet} (h : w'.queue = w.queue) (id : String)
    (data : JobData) : w'.Live id data ↔ w.Live id data := by
  simp only [Live, h]

/-- Moving a live job to another live state. -/
theorem live_relist {w w' : RunFleet} {j k : Job String JobData}
    (hqueue : w'.queue = w.queue.relist k) (hj : j ∈ w.queue.jobs) (hid : k.id = j.id)
    (hdata : k.data = j.data) (hlive : j.state.live) (hst : k.state.live) (id : String)
    (data : JobData) : w'.Live id data ↔ w.Live id data := by
  simp only [Live, hqueue, Queue.mem_relist]
  constructor
  · rintro ⟨i, rfl | ⟨hi, -⟩, rfl, rfl, hilive⟩
    · exact ⟨j, hj, hid.symm, hdata.symm, hlive⟩
    · exact ⟨i, hi, rfl, rfl, hilive⟩
  · rintro ⟨i, hi, rfl, rfl, hilive⟩
    by_cases hsame : i.id = k.id
    · obtain rfl := w.queue.eq_of_id_eq hi hj (hsame.trans hid)
      exact ⟨k, .inl rfl, hid, hdata, hst⟩
    · exact ⟨i, .inr ⟨hi, hsame⟩, rfl, rfl, hilive⟩

/-- A job that ends, while older finished jobs may drop out. -/
theorem live_end {w w' : RunFleet} {j k : Job String JobData} {st : JobState} {keep : ℕ}
    (hqueue : w'.queue = (w.queue.relist k).trim st keep) (hst : k.state.live = false)
    (hfinished : st.live = false) (hid : k.id = j.id) (id : String) (data : JobData) :
    w'.Live id data ↔ w.Live id data ∧ id ≠ j.id := by
  simp only [Live, hqueue]
  constructor
  · rintro ⟨i, hi, rfl, rfl, hilive⟩
    rcases Queue.mem_relist.mp (Queue.mem_of_mem_trim hi) with rfl | ⟨hi, hne⟩
    · rw [hst] at hilive
      cases hilive
    · exact ⟨⟨i, hi, rfl, rfl, hilive⟩, hid ▸ hne⟩
  · rintro ⟨⟨i, hi, rfl, rfl, hilive⟩, hne⟩
    refine ⟨i, Queue.mem_trim_of_ne (Queue.mem_relist.mpr (.inr ⟨hi, hid.symm ▸ hne⟩)) ?_, rfl,
      rfl, hilive⟩
    rintro rfl
    rw [hfinished] at hilive
    cases hilive

/-- A job under an id that the queue does not know. -/
theorem live_add {w w' : RunFleet} {jobId : String} {added : JobData}
    (hqueue : w'.queue = w.queue.add jobId added .waiting) (id : String) (data : JobData) :
    w'.Live id data ↔ w.Live id data ∨
      id = jobId ∧ data = added ∧ w.queue.lookup id = none := by
  simp only [Live, hqueue, Queue.mem_add]
  constructor
  · rintro ⟨i, hi | ⟨rfl, hnone⟩, rfl, rfl, hilive⟩
    · exact .inl ⟨i, hi, rfl, rfl, hilive⟩
    · exact .inr ⟨rfl, rfl, hnone⟩
  · rintro (⟨i, hi, rfl, rfl, hilive⟩ | ⟨rfl, rfl, hnone⟩)
    · exact ⟨i, .inl hi, rfl, rfl, hilive⟩
    · exact ⟨_, .inr ⟨rfl, hnone⟩, rfl, rfl, rfl⟩

/-- A live job is known to the queue. -/
theorem Live.lookup_ne_none {w : RunFleet} {id : String} {data : JobData} (h : w.Live id data) :
    w.queue.lookup id ≠ none := by
  obtain ⟨j, hj, rfl, -⟩ := h
  exact fun hnone => Queue.lookup_eq_none.mp hnone j hj rfl

/-- The queue knows one job for an id. -/
theorem Live.data_eq {w : RunFleet} {id : String} {data : JobData} {j : Job String JobData}
    (h : w.Live id data) (hj : j ∈ w.queue.jobs) (hid : j.id = id) : j.data = data := by
  obtain ⟨k, hk, hkid, rfl, -⟩ := h
  rw [w.queue.eq_of_id_eq hj hk (hid.trans hkid.symm)]

/-- A live job is found under its id, so it carries one data. -/
theorem Live.data_unique {w : RunFleet} {id : String} {data data' : JobData}
    (h : w.Live id data) (h' : w.Live id data') : data' = data := by
  obtain ⟨j, hj, hid, rfl, -⟩ := h'
  exact h.data_eq hj hid

/-- A job that a resume adds is one of the fleet if the loaded row is, and it is for the key of that
row. -/
theorem jobKey_resumeJobData {op : ResumeOp} {run : StrategyRun} {key : RunKey} :
    jobKey env (.runStrategy (resumeJobData env op run)) = some key ↔
      run.strategyName = env.strategyName ∧ key = run.key := by
  simp only [jobKey, resumeJobData, StrategyRun.key]
  by_cases hstrategy : run.strategyName = env.strategyName
  · simp [hstrategy, eq_comm]
  · simp [hstrategy]

/-- An operation's add puts its job on the queue, unless the queue knows the id. -/
theorem live_addsFor {w w' : RunFleet} {e : FleetEvent} {op : ResumeOp} {run : StrategyRun}
    (hfor : w.addsFor e = some (op, run)) (h : step env w e = some w') (id : String)
    (data : JobData) : w'.Live id data ↔ w.Live id data ∨
      id = resumeJobId w.now op run ∧ data = .runStrategy (resumeJobData env op run) ∧
        w.queue.lookup id = none := by
  cases step_cases h with
  | opAdd found head hop hhead hadds =>
    obtain ⟨rfl, rfl⟩ : found = op ∧ head = run := by simpa [addsFor, hop, hhead, hadds] using hfor
    exact live_add rfl id data
  | opEnd found hop htodo => simp [addsFor, hop, htodo] at hfor
  | opSave found head hop hhead hadds => simp [addsFor, hop, hadds] at hfor
  | _ => cases hfor

/-- A step that leaves the queue alone changes no job. -/
theorem jobChange_of_queue_eq {w w' : RunFleet} {e : FleetEvent} (h : w'.queue = w.queue) :
    JobChange env w w' e :=
  .kept e (live_of_queue_eq h)

/-- A call adds a job at its end only, under the number that it has decided on. -/
theorem callStep_queue {world world' : TrialWorld} {puzzleId limit : ℕ} {strategyName : String}
    {e : CallStep} (h : world.callStep puzzleId strategyName limit e = some world') :
    world'.queue = world.queue ∨ e = .conclude ∧ ∃ c number, world.call = some c ∧
      c.pending.finished ∧ c.active.finished ∧ c.decision strategyName limit = .ok (some number) ∧
        world'.queue = world.queue.add
          (runStrategyJobId puzzleId strategyName (some c.model) number)
          (.runStrategy (c.jobData puzzleId strategyName number)) .waiting := by
  cases TrialWorld.callStep_cases h with
  | conclude c hcall hpending hactive =>
    unfold TrialWorld.conclude
    split
    · rename_i number hdecision
      exact .inr ⟨rfl, c, number, hcall, hpending, hactive, hdecision, rfl⟩
    · exact .inl rfl
  | _ => exact .inl rfl

/-- Every event changes the live jobs in one of these ways. -/
theorem step_jobs {w w' : RunFleet} {e : FleetEvent} (h : step env w e = some w') :
    JobChange env w w' e := by
  cases step_cases h with
  | call puzzleId call world hworld =>
    rcases callStep_queue hworld with hqueue | ⟨rfl, c, number, hcall, hpending, hactive,
      hdecision, hqueue⟩
    · exact jobChange_of_queue_eq hqueue
    · exact .dispatched puzzleId number c hcall hpending hactive hdecision (live_add hqueue)
  | pick j hj hlive => exact .kept _ (live_relist rfl hj rfl rfl hlive rfl)
  | promote j hj hst => exact .kept _ (live_relist rfl hj rfl rfl (by rw [hst]; rfl) rfl)
  | stall j _ hj hst => exact .kept _ (live_relist rfl hj rfl rfl (by rw [hst]; rfl) rfl)
  | retried k j hj hst => exact .kept _ (live_relist rfl hj rfl rfl (by rw [hst]; rfl) rfl)
  | complete k j => exact .ended _ j.id rfl (live_end rfl rfl rfl rfl)
  | gaveUp k j hj _ hlast =>
    refine .ended _ j.id ?_ (live_end rfl rfl rfl rfl)
    have hlookup : w.queue.lookup j.id = some j := Queue.lookup_eq_some.mpr ⟨hj, rfl⟩
    simpa [endsJob, hlookup] using Nat.le_of_not_lt hlast
  | opAdd op run hop hhead hadds =>
    have hfor : w.addsFor (.opStep op.id) = some (op, run) := by
      simp [addsFor, hop, hadds, hhead]
    exact .resumed _ op run hfor (live_addsFor hfor h)
  | flush | park | finish | mark | opSave => exact jobChange_of_queue_eq (by simp)
  | _ => exact jobChange_of_queue_eq rfl

/-- A live job stays live in an event that does not end it. -/
theorem JobChange.live {w w' : RunFleet} {e : FleetEvent} {id : String} {data : JobData}
    (h : JobChange env w w' e) (hends : ∀ jobId, w.endsJob e = some jobId → id ≠ jobId)
    (hlive : w.Live id data) : w'.Live id data := by
  cases h with
  | kept _ hsame => exact (hsame id data).mpr hlive
  | ended _ jobId hend hsame => exact (hsame id data).mpr ⟨hlive, hends jobId hend⟩
  | dispatched _ _ _ _ _ _ _ hsame => exact (hsame id data).mpr (.inl hlive)
  | resumed _ _ _ _ hsame => exact (hsame id data).mpr (.inl hlive)

/-! ### Failed jobs -/

/-- A failed job is noted until its run is marked. -/
theorem step_failing {w w' : RunFleet} {e : FleetEvent} {key : RunKey}
    (h : step env w e = some w') (hkey : key ∈ w.failing) (he : e ≠ .markFailed key) :
    key ∈ w'.failing := by
  have herase {other : RunKey} (he : FleetEvent.markFailed other ≠ .markFailed key) :
      key ∈ w.failing.erase other :=
    (List.mem_erase_of_ne fun hsame => he (congrArg _ hsame.symm)).mpr hkey
  cases step_cases h with
  | mark other => simpa [noteWrite] using herase he
  | unmark other => exact herase he
  | retried | gaveUp => exact List.mem_append_right _ hkey
  | flush | park | finish | opSave => simpa [workerSave, noteWrite, setOp] using hkey
  | _ => exact hkey

/-- A failed attempt of a job leaves its run to be marked. -/
theorem failing_of_throws {w w' : RunFleet} {jobId : String} {j : Job String JobData}
    {key : RunKey} (h : step env w (.throws jobId) = some w')
    (hj : w.queue.lookup jobId = some j) (hkey : jobKey env j.data = some key) :
    key ∈ w'.failing := by
  obtain ⟨worker, -, h⟩ := Option.bind_eq_some_iff.mp h
  simp only [hj, Option.bind_some] at h
  obtain ⟨queue, -, rfl⟩ := Option.map_eq_some_iff.mp h
  simp [hkey]

/-! ### Calls -/

/-- Only a call's own steps move it. -/
theorem step_calls {w w' : RunFleet} {e : FleetEvent} (h : step env w e = some w')
    (he : ∀ puzzleId call, e ≠ .call puzzleId call) : w'.calls = w.calls := by
  cases step_cases h with
  | call puzzleId call => exact absurd rfl (he puzzleId call)
  | flush | park | finish | mark | opSave => simp [workerSave, noteWrite, setOp]
  | _ => rfl

/-! ### Operations -/

/-- The runs that an event loads into a new operation. -/
def loads (env : FleetEnv) (w : RunFleet) : FleetEvent → List StrategyRun
  | .beginResume _ held =>
    (((providerPool env.strategyName).bind ProviderPoolId.freeTier).map fun freeTier =>
      w.resumeTodo freeTier held).getD []
  | .beginBudgetResume budgetTier models limit => w.budgetParked budgetTier models limit
  | .beginRetry runId => (w.erroredRun runId).toList
  | .beginSweep role => w.sweepTodo env role
  | _ => []

/-- The operation that an event begins. -/
def begun (env : FleetEnv) (w : RunFleet) : FleetEvent → Option ResumeOp
  | .beginResume triggerJobId held =>
    ((providerPool env.strategyName).bind ProviderPoolId.freeTier).map fun freeTier =>
      ⟨w.nextId, resumeKind freeTier, resumeStamp env w.now freeTier triggerJobId,
        w.resumeTodo freeTier held, false, none⟩
  | .beginBudgetResume budgetTier models limit =>
    some ⟨w.nextId, .budget, "", w.budgetParked budgetTier models limit, false, none⟩
  | .beginRetry runId => (w.erroredRun runId).map fun run =>
    ⟨w.nextId, .manualRetry, "", [run], false, none⟩
  | .beginSweep role =>
    some ⟨w.nextId, .sweep, env.dateStampInTz "UTC" w.now, w.sweepTodo env role, false, none⟩
  | _ => none

/-- The entity that a worker writes in an event. -/
def writes (w : RunFleet) : FleetEvent → Option StrategyRun
  | .flush jobId availableWords => (w.workerRun jobId).map (·.flushed availableWords)
  | .park jobId => (w.workerRun jobId).map (·.parked w.now)
  | .finish jobId status availableWords =>
    (w.workerRun jobId).map (·.finished w.now status availableWords)
  | .markFailed key => w.failedRun key
  | _ => none

/-- An operation that has not moved, with its note of a worker's write brought up to date. -/
structure Noted (w : RunFleet) (e : FleetEvent) (op op' : ResumeOp) : Prop where
  same : op' = { op with written := op'.written }
  note : op'.written = op.written ∨ ∃ entity, w.writes e = some entity ∧
    op'.written = some (entity.status, entity.availableWords) ∧
      ∃ run, op.todo.head? = some run ∧ run.id = entity.id

/-- Where an operation in progress after an event comes from. -/
inductive OpOrigin (env : FleetEnv) (w : RunFleet) : FleetEvent → ResumeOp → Prop
  | kept (e : FleetEvent) (op op' : ResumeOp) : op ∈ w.ops → Noted w e op op' →
      (∀ opId, e = .opStep opId ∨ e = .opFail opId → op.id ≠ opId) → OpOrigin env w e op'
  | began (e : FleetEvent) (kind : ResumeKind) (stamp : String) :
      (kind = .manualRetry → ∃ runId, e = .beginRetry runId) →
      w.begun env e = some ⟨w.nextId, kind, stamp, w.loads env e, false, none⟩ →
      OpOrigin env w e ⟨w.nextId, kind, stamp, w.loads env e, false, none⟩
  | stepped (op : ResumeOp) (run : StrategyRun) : w.ops.find? (·.id = op.id) = some op →
      op.todo.head? = some run → OpOrigin env w (.opStep op.id) op.next
  | failed (op : ResumeOp) : op ∈ w.ops →
      OpOrigin env w (.opFail op.id)
        { op with todo := op.todo.tail, half := false, written := none }

/-- An operation keeps its id while it goes on. -/
@[simp] theorem next_id (op : ResumeOp) : op.next.id = op.id := by
  unfold ResumeOp.next
  split <;> rfl

/-- An operation keeps its kind while it goes on. -/
@[simp] theorem next_kind (op : ResumeOp) : op.next.kind = op.kind := by
  unfold ResumeOp.next
  split <;> rfl

/-- An operation that is left alone has noted nothing new. -/
theorem noted_refl (w : RunFleet) (e : FleetEvent) (op : ResumeOp) : Noted w e op op :=
  ⟨rfl, .inl rfl⟩

/-- Events that move no operation on. -/
def SparesOps (e : FleetEvent) : Prop := ∀ opId, ¬ (e = .opStep opId ∨ e = .opFail opId)

/-- An event that belongs to no operation keeps each one as it is. -/
theorem origin_of_ops_eq {w w' : RunFleet} {e : FleetEvent} (h : w'.ops = w.ops)
    (he : SparesOps e) : ∀ op ∈ w'.ops, OpOrigin env w e op := fun op hop =>
  .kept e op op (h ▸ hop) (noted_refl w e op) fun opId hop => absurd hop (he opId)

/-- A write is noted by each operation under way, and begins none. -/
theorem origin_noteWrite {w w' : RunFleet} {e : FleetEvent} {entity : StrategyRun}
    (h : w'.ops = w.ops) (hwrites : w.writes e = some entity) (he : SparesOps e) :
    ∀ op ∈ (w'.noteWrite entity).ops, OpOrigin env w e op := by
  intro op' hop'
  obtain ⟨op, hop, rfl⟩ := List.mem_map.mp hop'
  rw [h] at hop
  refine .kept e op _ hop ?_ fun opId hop => absurd hop (he opId)
  split
  · rename_i hmine
    obtain ⟨run, hrun, hid⟩ : ∃ run, op.todo.head? = some run ∧ run.id = entity.id := by
      simpa [Option.any_eq_true] using hmine.2
    exact ⟨rfl, .inr ⟨entity, hwrites, rfl, run, hrun, hid⟩⟩
  · exact noted_refl w e op

/-- An operation that begins has loaded its rows; the others stay as they are. -/
theorem origin_beginOp {w : RunFleet} {e : FleetEvent} {kind : ResumeKind} {stamp : String}
    {todo : List StrategyRun} (htodo : w.loads env e = todo)
    (hkind : kind = .manualRetry → ∃ runId, e = .beginRetry runId)
    (hbegun : w.begun env e = some ⟨w.nextId, kind, stamp, todo, false, none⟩)
    (he : SparesOps e) : ∀ op ∈ (w.beginOp kind stamp todo).ops, OpOrigin env w e op := by
  subst htodo
  rintro op (_ | ⟨_, hop⟩)
  · exact .began e kind stamp hkind hbegun
  · exact .kept e op op hop (noted_refl w e op) fun opId hop => absurd hop (he opId)

/-- The operation an event belongs to goes on; the others stay as they are. -/
theorem origin_setOp {w w' : RunFleet} {e : FleetEvent} {op : ResumeOp} (h : w'.ops = w.ops)
    (horigin : OpOrigin env w e op)
    (he : ∀ opId, e = .opStep opId ∨ e = .opFail opId → op.id = opId) :
    ∀ o ∈ (w'.setOp op).ops, OpOrigin env w e o := by
  intro o ho
  obtain ⟨o', ho', rfl⟩ := List.mem_map.mp ho
  split
  · exact horigin
  · rename_i hne
    exact .kept e o' o' (h ▸ ho') (noted_refl w e o') fun opId hop => he opId hop ▸ hne

/-- The operation an event belongs to ends; the others stay as they are. -/
theorem origin_endOp {w : RunFleet} {e : FleetEvent} {op : ResumeOp}
    (he : ∀ opId, e = .opStep opId ∨ e = .opFail opId → op.id = opId) :
    ∀ o ∈ (w.endOp op.id).ops, OpOrigin env w e o := by
  intro o ho
  obtain ⟨hmem, hne⟩ := List.mem_filter.mp ho
  refine .kept e o o hmem (noted_refl w e o) fun opId hop => ?_
  rw [← he opId hop]
  exact of_decide_eq_true hne

/-- A query by status finds stored rows in that status. -/
theorem status_of_mem_withStatus {w : RunFleet} {status : StrategyRunStatus} {run : StrategyRun}
    (h : run ∈ w.withStatus status) : run ∈ w.runs ∧ run.status = status := by
  obtain ⟨hmem, hstatus⟩ := List.mem_filter.mp h
  exact ⟨hmem, of_decide_eq_true hstatus⟩

/-- A pool resume takes up rows that are parked for the day. -/
theorem mem_resumeTodo {w : RunFleet} {freeTier : FreeTierConfig} {held : List String}
    {run : StrategyRun} (h : run ∈ w.resumeTodo freeTier held) :
    run ∈ w.withStatus .rateLimitedDaily := by
  unfold resumeTodo at h
  split at h
  · exact (List.mem_filter.mp h).1
  · split at h
    · exact h
    · cases h

/-- The budget resume takes up rows that are parked for the day. -/
theorem mem_budgetParked {w : RunFleet} {budgetTier : String} {models : List String} {limit : ℕ}
    {run : StrategyRun} (h : run ∈ w.budgetParked budgetTier models limit) :
    run ∈ w.withStatus .rateLimitedDaily :=
  (List.mem_filter.mp (List.mem_mergeSort.mp (List.mem_of_mem_take h))).1

/-- Every operation in progress after an event comes from one of these places. -/
theorem step_ops {w w' : RunFleet} {e : FleetEvent} (h : step env w e = some w') :
    ∀ op ∈ w'.ops, OpOrigin env w e op := by
  have hworker {jobId : String} {entity : StrategyRun} {done : Bool}
      (hwrites : w.writes e = some entity) (he : SparesOps e) :
      ∀ op ∈ (w.workerSave jobId entity done).ops, OpOrigin env w e op := by
    simp only [workerSave_ops]
    exact origin_noteWrite rfl hwrites he
  cases step_cases h with
  | flush jobId availableWords run hrun =>
    exact hworker (by simp [writes, hrun]) (by simp [SparesOps])
  | park jobId run hrun => exact hworker (by simp [writes, hrun]) (by simp [SparesOps])
  | finish jobId status availableWords run _ hrun =>
    exact hworker (by simp [writes, hrun]) (by simp [SparesOps])
  | mark key entity hentity =>
    exact origin_noteWrite (save_ops _ _) hentity (by simp [SparesOps])
  | beginResume triggerJobId held freeTier htier =>
    refine origin_beginOp (by simp only [loads, htier]; rfl) (fun hkind => ?_)
      (by simp only [begun, htier]; rfl) (by simp [SparesOps])
    unfold resumeKind at hkind
    split at hkind <;> cases hkind
  | beginBudgetResume | beginSweep =>
    exact origin_beginOp rfl (fun hkind => nomatch hkind) rfl (by simp [SparesOps])
  | beginRetry runId run hrun =>
    exact origin_beginOp (by simp [loads, hrun]) (fun _ => ⟨runId, rfl⟩) (by simp [begun, hrun])
      (by simp [SparesOps])
  | opEnd op | opAbort op => exact origin_endOp (by simp)
  | opAdd op run hop hhead => exact origin_setOp rfl (.stepped op run hop hhead) (by simp)
  | opSave op run hop hhead =>
    exact origin_setOp (save_ops _ _) (.stepped op run hop hhead) (by simp)
  | opSkip op hop => exact origin_setOp rfl (.failed op hop) (by simp)
  | _ => exact origin_of_ops_eq rfl (by simp [SparesOps])

end RunFleet

end Connections
