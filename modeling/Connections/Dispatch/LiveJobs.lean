import Connections.Dispatch.LoadedRuns
import Connections.Dispatch.DispatchQueues

/-!
# Live jobs of a run

A run has at most one job that is queued or executing as long as the rows tell the truth to every
operation that loads its runs, and nothing adds or hides a job of a loaded run until the operation
has come to it.  That an operation then finds the run without a job follows.  The age of a row does
not tell the truth about a worker that flushes an unchanged board.
-/

namespace Connections

open JobQueue

/-- An added job takes no trial out of a call's sight. -/
theorem TrialWorld.sees_add {world world' : TrialWorld} {puzzleId : ℕ} {strategyName id : String}
    {data : JobData} {c : TrialCall} {t : QueuedTrial} (hrows : world'.rows = world.rows)
    (hqueue : world'.queue = world.queue.add id data .waiting)
    (h : world.sees puzzleId strategyName c t) : world'.sees puzzleId strategyName c t := by
  have hunread {states : List JobState} {read : PageRead}
      (ht : t ∈ world.unread puzzleId strategyName states read) :
      t ∈ world'.unread puzzleId strategyName states read := by
    by_cases hfinished : read.finished
    · simp [unread, hfinished] at ht
    · simp only [unread, hfinished, Bool.false_eq_true, ↓reduceIte, List.mem_flatMap] at ht ⊢
      obtain ⟨st, hst, ht⟩ := ht
      obtain ⟨j, hj, hjt⟩ := mem_trialsOf.mp ht
      refine ⟨st, hst, mem_trialsOf.mpr ⟨j, ?_, hjt⟩⟩
      rw [hqueue]
      exact Queue.mem_drop_ofState_add hj
  rw [sees_iff] at h ⊢
  rcases h with hread | ⟨hnone, hrow⟩ | hpending | hactive
  · exact .inl hread
  · exact .inr (.inl ⟨hnone, hrows ▸ hrow⟩)
  · exact .inr (.inr (.inl (hunread hpending)))
  · exact .inr (.inr (.inr (hunread hactive)))

/-- What a call sees depends on the rows and the queue only. -/
theorem TrialWorld.sees_congr {world world' : TrialWorld} {puzzleId : ℕ} {strategyName : String}
    (hrows : world'.rows = world.rows) (hqueue : world'.queue = world.queue) (c : TrialCall)
    (t : QueuedTrial) :
    world'.sees puzzleId strategyName c t = world.sees puzzleId strategyName c t := by
  rw [Bool.eq_iff_iff, sees_iff, sees_iff]
  simp only [unread, hrows, hqueue]

/-- A call writes no row. -/
theorem TrialWorld.callStep_rows {world world' : TrialWorld} {puzzleId limit : ℕ}
    {strategyName : String} {e : CallStep}
    (h : world.callStep puzzleId strategyName limit e = some world') :
    world'.rows = world.rows := by
  cases callStep_cases h with
  | conclude =>
    unfold conclude
    split <;> rfl
  | _ => rfl

namespace RunFleet

variable (env : FleetEnv)

/-- A job that an operation adds under a new id is for a run without a live job. -/
def addsAlone (w : RunFleet) (e : FleetEvent) : Bool :=
  (w.addsFor e).all fun (op, run) =>
    w.queue.lookup (resumeJobId w.now op run) = none → w.hasLiveJob env run.key = false

/-- An operation has loaded a run and is still to add its job. -/
def awaits (w : RunFleet) (key : RunKey) : Bool :=
  w.ops.any fun op => op.pending.any fun run => run.key = key

/-- Every call in progress has read each live job of its puzzle and the row of each run that an
operation is still to add, or still has it ahead of it. -/
def callsSeeRuns (w : RunFleet) : Bool :=
  w.calls.all fun (puzzleId, c) =>
    let live := w.queue.jobs.filter (·.state.live)
    let loaded := (w.trialWorld puzzleId).rows.filter fun trial =>
      w.awaits ⟨puzzleId, trial.trialNumber⟩
    (TrialWorld.trialsOf puzzleId env.strategyName live ++ loaded).all fun trial =>
      (w.trialWorld puzzleId).sees puzzleId env.strategyName c trial

/-- Steps next to the calls after which no call in progress has missed a live job or the row of a
loaded run. -/
def hidesNoRun (w : RunFleet) : FleetEvent → Bool
  | .call _ _ => true
  | e => (step env w e).all (callsSeeRuns env)

/-- Events that delete no run. -/
def keepsRows : FleetEvent → Bool
  | .deleteRun _ => false
  | _ => true

/-- What has to hold at each event: operations load their runs on true columns, between a load and
its adds nothing else adds a job for the run, no call loses sight of it and no row is deleted. -/
def inOrder (w : RunFleet) (e : FleetEvent) : Bool :=
  loadsIdle env w e && addsApart w e && hidesNoRun env w e && keepsRows e

/-- No run has two jobs that are both queued or executing. -/
def OneLiveJob (w : RunFleet) : Prop :=
  ∀ key id id', LiveJob env w key id → LiveJob env w key id' → id = id'

variable {env}

/-- An add under a new id finds the run without a live job. -/
theorem addsAlone_iff {w : RunFleet} {e : FleetEvent} :
    addsAlone env w e ↔ ∀ op run, w.addsFor e = some (op, run) →
      w.queue.lookup (resumeJobId w.now op run) = none → ∀ id, ¬ LiveJob env w run.key id := by
  have hno (key : RunKey) : w.hasLiveJob env key = false ↔ ∀ id, ¬ LiveJob env w key id := by
    rw [← Bool.not_eq_true, hasLiveJob_iff, not_exists]
  unfold addsAlone
  cases w.addsFor e with
  | none => simp
  | some p =>
    simp only [Option.all_some, decide_eq_true_eq, hno]
    constructor
    · rintro halone op run ⟨⟩
      exact halone
    · exact fun halone => halone p.1 p.2 rfl

/-! ### What a call knows -/

/-- A call has read each live job of its puzzle and each run that an operation is still to add, or
still has it ahead of it. -/
structure CallSight (env : FleetEnv) (w : RunFleet) (puzzleId : ℕ) (c : TrialCall) : Prop where
  sees_jobs : ∀ id data t, w.Live id data → trialOf puzzleId env.strategyName data = some t →
    (w.trialWorld puzzleId).sees puzzleId env.strategyName c t
  sees_loaded : ∀ op ∈ w.ops, ∀ run ∈ op.pending, run.puzzleId = puzzleId →
    ∃ t, t.trialNumber = run.trialNumber ∧
      (w.trialWorld puzzleId).sees puzzleId env.strategyName c t
  begins : c.RowsFirst

/-- A call that is set is the one found on its puzzle. -/
theorem callOn_setCall (w : RunFleet) (puzzleId other : ℕ) (call : Option TrialCall) :
    (w.setCall puzzleId call).callOn other = if other = puzzleId then call else w.callOn other := by
  have hothers : (w.calls.filter (·.1 ≠ puzzleId)).find? (·.1 = other) =
      if other = puzzleId then none else w.calls.find? (·.1 = other) := by
    rw [List.find?_filter]
    split
    · rename_i heq
      subst heq
      simp
    · rename_i hne
      congr 1
      funext p
      by_cases hp : p.1 = other <;> simp [hp, hne]
  unfold callOn setCall
  cases call with
  | none =>
    simp only [Option.map_none, Option.toList_none, List.nil_append, hothers]
    split <;> rfl
  | some c =>
    simp only [Option.map_some, Option.toList_some, List.singleton_append, List.find?_cons]
    by_cases heq : other = puzzleId
    · simp [heq]
    · have hne : ¬ puzzleId = other := fun h => heq h.symm
      simp only [hne, decide_false, hothers, heq, ↓reduceIte]

/-- The call on a puzzle is among those in progress. -/
theorem mem_calls_of_callOn {w : RunFleet} {puzzleId : ℕ} {c : TrialCall}
    (h : w.callOn puzzleId = some c) : (puzzleId, c) ∈ w.calls := by
  obtain ⟨p, hp, rfl⟩ := Option.map_eq_some_iff.mp h
  have hmem := List.mem_of_find?_eq_some hp
  obtain rfl : p.1 = puzzleId := by simpa using List.find?_some hp
  exact hmem

/-- A call that has missed nothing has the trial of each live job in sight. -/
theorem sees_of_callsSeeRuns {w : RunFleet} {puzzleId : ℕ} {c : TrialCall} {id : String}
    {data : JobData} {t : QueuedTrial} (h : w.callsSeeRuns env)
    (hcall : w.callOn puzzleId = some c) (hlive : w.Live id data)
    (ht : trialOf puzzleId env.strategyName data = some t) :
    (w.trialWorld puzzleId).sees puzzleId env.strategyName c t := by
  obtain ⟨j, hj, rfl, rfl, hjlive⟩ := hlive
  have hall := List.all_eq_true.mp h _ (mem_calls_of_callOn hcall)
  exact List.all_eq_true.mp hall t (List.mem_append_left _
    (TrialWorld.mem_trialsOf.mpr ⟨j, List.mem_filter.mpr ⟨hj, hjlive⟩, ht⟩))

/-- The row of a run is a trial of its puzzle. -/
theorem mem_trialWorld_rows {w : RunFleet} {row : StrategyRun} (hrow : row ∈ w.runs) :
    ⟨row.trialNumber, row.modelName⟩ ∈ (w.trialWorld row.puzzleId).rows :=
  List.mem_map.mpr ⟨row, List.mem_filter.mpr ⟨hrow, decide_eq_true rfl⟩, rfl⟩

/-- A run that an operation has loaded has its row. -/
theorem WellFormed.row_of_loaded {w : RunFleet} {op : ResumeOp} {run : StrategyRun}
    (h : WellFormed env w) (hop : op ∈ w.ops) (hrun : run ∈ op.todo) :
    ∃ row ∈ w.runs, row.key = run.key := by
  obtain ⟨row, hrow, hsame⟩ := List.mem_map.mp (h.held_rows run (.inr (.inr ⟨op, hop, hrun⟩)))
  exact ⟨row, hrow, congrArg (·.2.1) hsame⟩

/-- It also has in sight the row of each run that an operation is still to add. -/
theorem sees_loaded_of_callsSeeRuns {w : RunFleet} {puzzleId : ℕ} {c : TrialCall} {op : ResumeOp}
    {run : StrategyRun} (h : w.callsSeeRuns env) (hwf : WellFormed env w)
    (hcall : w.callOn puzzleId = some c) (hop : op ∈ w.ops) (hrun : run ∈ op.pending)
    (hpuzzle : run.puzzleId = puzzleId) : ∃ t, t.trialNumber = run.trialNumber ∧
      (w.trialWorld puzzleId).sees puzzleId env.strategyName c t := by
  obtain ⟨row, hrow, hkey⟩ := hwf.row_of_loaded hop (mem_todo_of_pending hrun)
  obtain ⟨hrowpuzzle, hnumber⟩ := RunKey.mk.inj hkey
  have hall := List.all_eq_true.mp h _ (mem_calls_of_callOn hcall)
  refine ⟨⟨row.trialNumber, row.modelName⟩, hnumber, List.all_eq_true.mp hall _ ?_⟩
  have hmem := mem_trialWorld_rows hrow
  rw [hrowpuzzle, hpuzzle] at hmem
  refine List.mem_append_right _ (List.mem_filter.mpr ⟨hmem, ?_⟩)
  refine List.any_eq_true.mpr ⟨op, hop, List.any_eq_true.mpr ⟨run, hrun, decide_eq_true ?_⟩⟩
  rw [← hkey, StrategyRun.key, hrowpuzzle, hpuzzle]

/-- The trial of a live job of a run. -/
theorem trialOf_of_jobKey {data : JobData} {key : RunKey} (h : jobKey env data = some key) :
    ∃ model, trialOf key.puzzleId env.strategyName data = some ⟨key.trialNumber, model⟩ := by
  cases data with
  | evaluateCategory => cases h
  | runStrategy run =>
    simp only [jobKey] at h
    split at h
    · rename_i hstrategy
      cases h
      exact ⟨run.model, by simp [trialOf, hstrategy]⟩
    · cases h

/-- The number that a call decides on is above every number that it has seen. -/
theorem lt_of_sees {w : RunFleet} {puzzleId number : ℕ} {c : TrialCall} {t : QueuedTrial}
    (ht : (w.trialWorld puzzleId).sees puzzleId env.strategyName c t) (hbegins : c.RowsFirst)
    (hpending : c.pending.finished) (hactive : c.active.finished)
    (hdecision : c.decision env.strategyName env.limit = .ok (some number)) :
    t.trialNumber < number := by
  have hread := TrialWorld.mem_recorded_of_sees ht hbegins hpending hactive
  have hnumber : t.trialNumber ∈ c.trialModels.map (·.trialNumber) :=
    mem_numbers_foldl_setTrial.mpr (.inr (List.mem_map_of_mem hread))
  have hlt : t.trialNumber < c.nextTrialNumber := Nat.lt_succ_of_le (le_foldl_max (.inr hnumber))
  rwa [(TrialCall.decision_eq_some.mp hdecision).2] at hlt

/-- The number that a call decides on belongs to no live job. -/
theorem CallSight.decision_fresh {w : RunFleet} {puzzleId number : ℕ} {c : TrialCall} {id : String}
    (h : CallSight env w puzzleId c) (hpending : c.pending.finished) (hactive : c.active.finished)
    (hdecision : c.decision env.strategyName env.limit = .ok (some number)) :
    ¬ LiveJob env w ⟨puzzleId, number⟩ id := by
  rintro ⟨data, hlive, hkey⟩
  obtain ⟨model, ht⟩ := trialOf_of_jobKey hkey
  have hlt := lt_of_sees (h.sees_jobs id data _ hlive ht) h.begins hpending hactive hdecision
  exact Nat.lt_irrefl _ hlt

/-- The number that a call decides on belongs to no run that an operation is still to add. -/
theorem CallSight.decision_ne_loaded {w : RunFleet} {puzzleId number : ℕ} {c : TrialCall}
    {op : ResumeOp} {run : StrategyRun} (h : CallSight env w puzzleId c)
    (hpending : c.pending.finished) (hactive : c.active.finished)
    (hdecision : c.decision env.strategyName env.limit = .ok (some number)) (hop : op ∈ w.ops)
    (hrun : run ∈ op.pending) : run.key ≠ ⟨puzzleId, number⟩ := by
  intro hkey
  obtain ⟨hpuzzle, hnumber⟩ := RunKey.mk.inj hkey
  obtain ⟨t, htnumber, ht⟩ := h.sees_loaded op hop run hrun hpuzzle
  have hlt := lt_of_sees ht h.begins hpending hactive hdecision
  exact Nat.ne_of_lt hlt (htnumber.trans hnumber)

/-! ### One live job -/

/-- Every live job of a run that an operation is still to add has the id that the operation is
going to use. -/
def LoadedIdle (env : FleetEnv) (w : RunFleet) : Prop :=
  ∀ op ∈ w.ops, ∀ run ∈ op.pending, ∀ id, LiveJob env w run.key id → op.uses run id

/-- What holds while everything happens in order. -/
structure JobsApart (env : FleetEnv) (w : RunFleet) : Prop where
  wf : WellFormed env w
  one_job : OneLiveJob env w
  idle : LoadedIdle env w
  loaded_once : LoadedOnce w
  sight : ∀ puzzleId c, w.callOn puzzleId = some c → CallSight env w puzzleId c

/-- One more live job of a run that had none. -/
theorem OneLiveJob.insert {w w' : RunFleet} {key : RunKey} {added : String} {data : JobData}
    (h : OneLiveJob env w) (hkey : ∀ key', jobKey env data = some key' → key' = key)
    (hlive : ∀ id d, w'.Live id d ↔ w.Live id d ∨
      id = added ∧ d = data ∧ w.queue.lookup id = none)
    (halone : w.queue.lookup added = none → ∀ id, ¬ LiveJob env w key id) :
    OneLiveJob env w' := by
  rintro key' id id' ⟨d, hid, hd⟩ ⟨d', hid', hd'⟩
  rcases (hlive id d).mp hid with hid | ⟨rfl, rfl, hnone⟩
  · rcases (hlive id' d').mp hid' with hid' | ⟨rfl, rfl, hnone⟩
    · exact h key' id id' ⟨d, hid, hd⟩ ⟨d', hid', hd'⟩
    · obtain rfl := hkey key' hd'
      exact absurd ⟨d, hid, hd⟩ (halone hnone id)
  · rcases (hlive id' d').mp hid' with hid' | ⟨rfl, -, -⟩
    · obtain rfl := hkey key' hd
      exact absurd ⟨d', hid', hd'⟩ (halone hnone id')
    · rfl

/-- An operation that comes to a run finds no live job of it but under its own id. -/
theorem LoadedIdle.addsAlone {w : RunFleet} (h : LoadedIdle env w) (e : FleetEvent) :
    addsAlone env w e := by
  rw [addsAlone_iff]
  intro op run hfor hnone id hlive
  obtain ⟨-, hop, hadds, hhead⟩ := addsFor_eq_some hfor
  have hpending := mem_pending_of_adds hadds hhead
  have huses := h op (List.mem_of_find?_eq_some hop) run hpending id hlive
  obtain ⟨data, hlive, -⟩ := hlive
  exact hlive.lookup_ne_none (((uses_iff w.now).mp huses).2 ▸ hnone)

/-- A step adds no second live job: a call decides on a number that no live job has, and an
operation comes to runs without one. -/
theorem JobsApart.oneLiveJob_step {w w' : RunFleet} {e : FleetEvent} (h : JobsApart env w)
    (hstep : step env w e = some w') : OneLiveJob env w' := by
  cases step_jobs hstep with
  | kept _ hlive =>
    rintro key id id' ⟨d, hid, hd⟩ ⟨d', hid', hd'⟩
    exact h.one_job key id id' ⟨d, (hlive id d).mp hid, hd⟩ ⟨d', (hlive id' d').mp hid', hd'⟩
  | ended _ jobId _ hlive =>
    rintro key id id' ⟨d, hid, hd⟩ ⟨d', hid', hd'⟩
    exact h.one_job key id id' ⟨d, ((hlive id d).mp hid).1, hd⟩
      ⟨d', ((hlive id' d').mp hid').1, hd'⟩
  | dispatched puzzleId number c hcall hpending hactive hdecision hlive =>
    have hkey : ∀ key', jobKey env (.runStrategy (c.jobData puzzleId env.strategyName number)) =
        some key' → key' = ⟨puzzleId, number⟩ := by
      simp [jobKey, TrialCall.jobData, eq_comm]
    exact h.one_job.insert hkey hlive fun _ id =>
      (h.sight puzzleId c hcall).decision_fresh hpending hactive hdecision
  | resumed _ op run hfor hlive =>
    have hkey : ∀ key', jobKey env (.runStrategy (resumeJobData env op run)) = some key' →
        key' = run.key := fun key' h => (jobKey_resumeJobData.mp h).2
    exact h.one_job.insert hkey hlive (addsAlone_iff.mp (h.idle.addsAlone e) op run hfor)

/-! ### Loaded runs -/

/-- An operation that is not moved on keeps finding its runs idle. -/
theorem JobsApart.idle_kept {w w' : RunFleet} {e : FleetEvent} {op : ResumeOp} {run : StrategyRun}
    {id : String} (h : JobsApart env w) (hapart : addsApart w e)
    (hstep : step env w e = some w') (hop : op ∈ w.ops)
    (hother : ∀ opId, e = .opStep opId ∨ e = .opFail opId → op.id ≠ opId)
    (hrun : run ∈ op.pending) (hlive : LiveJob env w' run.key id) : op.uses run id := by
  obtain ⟨data, hid, hdata⟩ := hlive
  cases step_jobs hstep with
  | kept _ hsame => exact h.idle op hop run hrun id ⟨data, (hsame id data).mp hid, hdata⟩
  | ended _ _ _ hsame => exact h.idle op hop run hrun id ⟨data, ((hsame id data).mp hid).1, hdata⟩
  | dispatched puzzleId number c hcall hpending hactive hdecision hsame =>
    rcases (hsame id data).mp hid with hid | ⟨-, rfl, -⟩
    · exact h.idle op hop run hrun id ⟨data, hid, hdata⟩
    · have hkey : run.key = ⟨puzzleId, number⟩ := by
        simpa [jobKey, TrialCall.jobData, eq_comm] using hdata
      exact absurd hkey ((h.sight puzzleId c hcall).decision_ne_loaded hpending hactive hdecision
        hop hrun)
  | resumed _ adding added hfor hsame =>
    rcases (hsame id data).mp hid with hid | ⟨rfl, rfl, hnone⟩
    · exact h.idle op hop run hrun id ⟨data, hid, hdata⟩
    · exact addsApart_iff.mp hapart adding added hfor hnone op hop
        (hother adding.id (.inl (addsFor_eq_some hfor).1)) run hrun
        (jobKey_resumeJobData.mp hdata).2

/-- An operation that moves on has added the job of its first run, which it has once. -/
theorem JobsApart.idle_next {w w' : RunFleet} {op : ResumeOp} {run : StrategyRun} {id : String}
    (h : JobsApart env w) (hstep : step env w (.opStep op.id) = some w')
    (hfind : w.ops.find? (·.id = op.id) = some op) (hrun : run ∈ op.next.pending)
    (hlive : LiveJob env w' run.key id) : op.uses run id := by
  have hop := List.mem_of_find?_eq_some hfind
  have hbefore : run ∈ op.pending := by
    rw [next_pending] at hrun
    split at hrun
    · exact mem_pending_of_tail hrun
    · exact hrun
  obtain ⟨data, hid, hdata⟩ := hlive
  cases step_jobs hstep with
  | kept _ hsame => exact h.idle op hop run hbefore id ⟨data, (hsame id data).mp hid, hdata⟩
  | ended _ _ hend => cases hend
  | resumed _ adding added hfor hsame =>
    rcases (hsame id data).mp hid with hid | ⟨-, rfl, -⟩
    · exact h.idle op hop run hbefore id ⟨data, hid, hdata⟩
    · obtain ⟨heq, hadding, hadds, hhead⟩ := addsFor_eq_some hfor
      obtain rfl : adding = op := by
        rw [← FleetEvent.opStep.inj heq, hfind] at hadding
        exact (Option.some.inj hadding).symm
      rw [next_pending, if_pos hadds] at hrun
      have honce := h.loaded_once adding hop
      rw [← List.cons_head?_tail hhead, List.map_cons, List.nodup_cons] at honce
      have hsamekey : run.key = added.key := (jobKey_resumeJobData.mp hdata).2
      exact absurd (List.mem_map.mpr ⟨run, hrun, hsamekey⟩) honce.1

/-- What an operation has loaded stays without a live job until its job is added. -/
theorem JobsApart.idle_step {w w' : RunFleet} {e : FleetEvent} (h : JobsApart env w)
    (hidle : loadsIdle env w e) (hapart : addsApart w e) (hstep : step env w e = some w') :
    LoadedIdle env w' := by
  intro op' hop' run hrun id hlive
  cases step_ops hstep op' hop' with
  | kept _ op _ hop hnoted hother =>
    rw [hnoted.same] at hrun ⊢
    have huses : op.uses run id := h.idle_kept hapart hstep hop hother hrun hlive
    exact huses
  | began _ kind stamp _ hbegun =>
    obtain ⟨data, hid, hdata⟩ := hlive
    have hbefore := (live_of_queue_eq (queue_of_begun hbegun hstep) id data).mp hid
    exact loadsIdle_iff.mp hidle _ hbegun run (mem_todo_of_pending hrun) id ⟨data, hbefore, hdata⟩
  | stepped op head hfind =>
    rw [next_uses]
    exact h.idle_next hstep hfind hrun hlive
  | failed op hop =>
    obtain ⟨data, hid, hdata⟩ := hlive
    have hbefore := (live_of_queue_eq (queue_of_opFail hstep) id data).mp hid
    exact h.idle op hop run (mem_pending_of_tail hrun) id ⟨data, hbefore, hdata⟩

/-! ### Calls -/

/-- A call that begins has everything ahead of it, and one that reads on loses nothing. -/
theorem sees_trialWorld_callStep {w : RunFleet} {world : TrialWorld} {puzzleId : ℕ} {e : CallStep}
    {c' : TrialCall} {t : QueuedTrial}
    (hsees : ∀ c, w.callOn puzzleId = some c → c.RowsFirst ∧
      (w.trialWorld puzzleId).sees puzzleId env.strategyName c t)
    (hthere : w.callOn puzzleId = none →
      t ∈ (w.trialWorld puzzleId).trials puzzleId env.strategyName)
    (hworld : (w.trialWorld puzzleId).callStep puzzleId env.strategyName env.limit e = some world)
    (hcall' : world.call = some c') : world.sees puzzleId env.strategyName c' t := by
  cases hcall : w.callOn puzzleId with
  | some c =>
    have hc := hsees c hcall
    exact TrialWorld.sees_callStep hworld hcall hcall' hc.1 hc.2
  | none =>
    have hnone : (w.trialWorld puzzleId).call = none := hcall
    cases TrialWorld.callStep_cases hworld with
    | acquire =>
      cases hcall'
      exact TrialWorld.sees_fresh (hthere hcall)
    | readRows c hsome | readPending c hsome | readActive c hsome | conclude c hsome
    | abandon c hsome =>
      rw [hnone] at hsome
      cases hsome

/-- The call that steps goes on seeing what it has to. -/
theorem JobsApart.sight_same {w : RunFleet} {world : TrialWorld} {puzzleId : ℕ} {e : CallStep}
    {c' : TrialCall} (h : JobsApart env w)
    (hworld : (w.trialWorld puzzleId).callStep puzzleId env.strategyName env.limit e = some world)
    (hcall' : world.call = some c') :
    (∀ id data t, w.Live id data → trialOf puzzleId env.strategyName data = some t →
      world.sees puzzleId env.strategyName c' t) ∧
    ∀ op ∈ w.ops, ∀ run ∈ op.pending, run.puzzleId = puzzleId →
      ∃ t, t.trialNumber = run.trialNumber ∧ world.sees puzzleId env.strategyName c' t := by
  refine ⟨fun id data t hlive ht => ?_, fun op hop run hrun hpuzzle => ?_⟩
  · refine sees_trialWorld_callStep (fun c hcall => ?_) (fun _ => ?_) hworld hcall'
    · have hc := h.sight puzzleId c hcall
      exact ⟨hc.begins, hc.sees_jobs id data t hlive ht⟩
    · obtain ⟨j, hj, rfl, rfl, hjlive⟩ := hlive
      exact TrialWorld.mem_trials.mpr (.inr ⟨j, hj, hjlive, ht⟩)
  · cases hcall : w.callOn puzzleId with
    | some c =>
      have hc := h.sight puzzleId c hcall
      obtain ⟨t, hnumber, ht⟩ := hc.sees_loaded op hop run hrun hpuzzle
      exact ⟨t, hnumber, TrialWorld.sees_callStep hworld hcall hcall' hc.begins ht⟩
    | none =>
      obtain ⟨row, hrow, hkey⟩ := h.wf.row_of_loaded hop (mem_todo_of_pending hrun)
      obtain ⟨hrowpuzzle, hnumber⟩ := RunKey.mk.inj hkey
      have hmem := mem_trialWorld_rows hrow
      rw [hrowpuzzle, hpuzzle] at hmem
      refine ⟨⟨row.trialNumber, row.modelName⟩, hnumber, ?_⟩
      refine sees_trialWorld_callStep (fun c hc => ?_) (fun _ => ?_) hworld hcall'
      · rw [hcall] at hc
        cases hc
      · exact TrialWorld.mem_trials.mpr (.inl hmem)

/-- The fleet after a step of one call. -/
def afterCall (w : RunFleet) (puzzleId : ℕ) (world : TrialWorld) : RunFleet :=
  { w.setCall puzzleId world.call with queue := world.queue }

/-- The call that steps knows what it has to know afterwards. -/
theorem JobsApart.sight_own_call {w : RunFleet} {world : TrialWorld} {puzzleId : ℕ} {e : CallStep}
    {c' : TrialCall} (h : JobsApart env w)
    (hworld : (w.trialWorld puzzleId).callStep puzzleId env.strategyName env.limit e = some world)
    (hcall' : world.call = some c') :
    CallSight env (w.afterCall puzzleId world) puzzleId c' := by
  -- A call that goes on has changed nothing but itself.
  have hkept : world.queue = w.queue := by
    rcases callStep_queue hworld with hkept | ⟨rfl, -⟩
    · exact hkept
    · cases TrialWorld.callStep_cases hworld with
      | conclude =>
        rw [TrialWorld.conclude_call] at hcall'
        cases hcall'
  have hrows : ((w.afterCall puzzleId world).trialWorld puzzleId).rows = world.rows :=
    (TrialWorld.callStep_rows hworld).symm
  have hsees (t : QueuedTrial) (ht : world.sees puzzleId env.strategyName c' t) :
      ((w.afterCall puzzleId world).trialWorld puzzleId).sees puzzleId env.strategyName c' t :=
    (TrialWorld.sees_congr hrows rfl c' t).trans ht
  obtain ⟨hjobs, hloaded⟩ := h.sight_same hworld hcall'
  refine ⟨fun id data t hlive ht => ?_, fun op hop run hrun hpuzzle => ?_, ?_⟩
  · exact hsees t (hjobs id data t ((live_of_queue_eq hkept id data).mp hlive) ht)
  · obtain ⟨t, hnumber, ht⟩ := hloaded op hop run hrun hpuzzle
    exact ⟨t, hnumber, hsees t ht⟩
  · exact TrialWorld.rowsFirst_callStep hworld hcall'

/-- A call on another puzzle keeps what it knows: of the steps of a call only an add changes the
queue, and that is for the call's own puzzle. -/
theorem CallSight.other_call {w : RunFleet} {world : TrialWorld} {puzzleId other : ℕ}
    {e : CallStep} {c : TrialCall} (h : CallSight env w other c) (hother : other ≠ puzzleId)
    (hworld : (w.trialWorld puzzleId).callStep puzzleId env.strategyName env.limit e =
      some world) : CallSight env (w.afterCall puzzleId world) other c := by
  have hsees (t : QueuedTrial) (ht : (w.trialWorld other).sees other env.strategyName c t) :
      ((w.afterCall puzzleId world).trialWorld other).sees other env.strategyName c t := by
    have hrows : ((w.afterCall puzzleId world).trialWorld other).rows =
        (w.trialWorld other).rows := rfl
    rcases callStep_queue hworld with hkept | ⟨rfl, adding, number, -, -, -, -, hadded⟩
    · exact (TrialWorld.sees_congr hrows hkept c t).trans ht
    · exact TrialWorld.sees_add hrows hadded ht
  refine ⟨fun id data t hlive ht => ?_, fun op hop run hrun hpuzzle => ?_, h.begins⟩
  · rcases callStep_queue hworld with hkept | ⟨rfl, adding, number, -, -, -, -, hadded⟩
    · exact hsees t (h.sees_jobs id data t ((live_of_queue_eq hkept id data).mp hlive) ht)
    · rcases (live_add hadded id data).mp hlive with hlive | ⟨-, rfl, -⟩
      · exact hsees t (h.sees_jobs id data t hlive ht)
      · simp [trialOf, TrialCall.jobData, Ne.symm hother] at ht
  · obtain ⟨t, hnumber, ht⟩ := h.sees_loaded op hop run hrun hpuzzle
    exact ⟨t, hnumber, hsees t ht⟩

/-- A step of one call keeps what the calls know. -/
theorem JobsApart.sight_call {w w' : RunFleet} {puzzleId : ℕ} {e : CallStep}
    (h : JobsApart env w) (hstep : step env w (.call puzzleId e) = some w') (other : ℕ)
    (c' : TrialCall) (hcall' : w'.callOn other = some c') : CallSight env w' other c' := by
  obtain ⟨world, hworld, rfl⟩ := Option.map_eq_some_iff.mp hstep
  have hcalls : (if other = puzzleId then world.call else w.callOn other) = some c' := by
    rw [← callOn_setCall, ← hcall']
    rfl
  by_cases hsame : other = puzzleId
  · subst hsame
    rw [if_pos rfl] at hcalls
    exact h.sight_own_call hworld hcalls
  · rw [if_neg hsame] at hcalls
    exact (h.sight other c' hcalls).other_call hsame hworld

/-- An event in order keeps the runs apart. -/
theorem JobsApart.step {w w' : RunFleet} {e : FleetEvent} (h : JobsApart env w)
    (hok : inOrder env w e) (hstep : RunFleet.step env w e = some w') : JobsApart env w' := by
  simp only [inOrder, Bool.and_eq_true] at hok
  obtain ⟨⟨⟨hidle, hapart⟩, hhides⟩, hkeeps⟩ := hok
  have hwf : WellFormed env w' := h.wf.step hstep (by rintro runId rfl; cases hkeeps)
  have hkeys : (w.runs.map (·.key)).Nodup := by
    have hkeys := h.wf.distinct.keys_nodup
    rwa [List.map_map] at hkeys
  refine ⟨hwf, h.oneLiveJob_step hstep, h.idle_step hidle hapart hstep,
    h.loaded_once.step hkeys hstep, fun puzzleId c hcall => ?_⟩
  by_cases he : ∃ puzzleId call, e = .call puzzleId call
  · obtain ⟨puzzleId', call, rfl⟩ := he
    exact h.sight_call hstep puzzleId c hcall
  · have hcalls := step_calls hstep fun puzzleId call heq => he ⟨puzzleId, call, heq⟩
    have hsees : callsSeeRuns env w' := by
      cases e with
      | call puzzleId call => exact absurd ⟨puzzleId, call, rfl⟩ he
      | _ => simpa only [hidesNoRun, hstep, Option.all_some] using hhides
    have hbefore : w.callOn puzzleId = some c := by rwa [callOn, ← hcalls]
    exact ⟨fun id data t hlive ht => sees_of_callsSeeRuns hsees hcall hlive ht,
      fun op hop run hrun hpuzzle =>
        sees_loaded_of_callsSeeRuns hsees hwf hcall hop hrun hpuzzle,
      (h.sight puzzleId c hbefore).begins⟩

/-- No entity exists yet. -/
theorem not_held_fresh (run : StrategyRun) : ¬ fresh.Held run := by
  rintro (hrun | ⟨k, hk, -⟩ | ⟨op, hop, -⟩)
  · cases hrun
  · cases hk
  · cases hop

theorem fresh_wellFormed : WellFormed env fresh where
  distinct := ⟨List.nodup_nil, List.nodup_nil, nofun⟩
  own := fun run hrun => absurd hrun (not_held_fresh run)
  held_rows := fun run hrun => absurd hrun (not_held_fresh run)
  worker_job := nofun

/-- A strategy whose account-wide hold is lifted by a fixed cron. -/
def openrouterEnv : FleetEnv :=
  ⟨"llm-openrouter", 3, fun _ _ => "2023-06-12", fun _ => "2023-06-12"⟩

end RunFleet

end Connections
