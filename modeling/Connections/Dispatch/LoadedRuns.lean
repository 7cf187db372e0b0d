import Connections.Dispatch.FleetRows

/-!
# Runs that an operation has loaded

An operation takes a run without a job from the columns of its row: a status, and for the sweep
the age of its last change.  It adds the job later, when it comes to the run.  What follows are the
runs whose job an operation is still to add, and what has to be true when it reads them and until
it adds their jobs.
-/

namespace Connections

open JobQueue

/-- Whether an operation has added the job of its first run and not yet saved the run. -/
def ResumeOp.between (op : ResumeOp) : Bool := op.half && op.kind.savesAfterAdd

/-- The runs whose jobs an operation is still to add. -/
def ResumeOp.pending (op : ResumeOp) : List StrategyRun :=
  if op.between then op.todo.tail else op.todo

/-- Operations that stamp their job ids as they load their runs, and not at each add. -/
def ResumeKind.stampsAtLoad : ResumeKind → Bool
  | .modelPool | .accountPool | .sweep => true
  | .budget | .manualRetry => false

/-- The columns that an operation takes a row up by: its status, and for the sweep the time of its
last change. -/
def ResumeKind.reads (now : ℕ) (run : StrategyRun) : ResumeKind → Bool
  | .modelPool | .accountPool | .budget => run.status = .rateLimitedDaily
  | .manualRetry => run.status = .error
  | .sweep => run.status = .running ∧ run.updatedAt < now - staleRunThresholdMs

/-- A job id is the one that an operation with a stamp has for a run: its add finds the id taken. -/
def ResumeKind.uses (kind : ResumeKind) (stamp : String) (run : StrategyRun) (id : String) : Bool :=
  kind.stampsAtLoad && id =
    runStrategyJobId run.puzzleId run.strategyName run.modelName run.trialNumber ++
      s!"-{kind.suffix}-{stamp}"

/-- A job id is the one that an operation is going to use for a run. -/
def ResumeOp.uses (op : ResumeOp) : StrategyRun → String → Bool := op.kind.uses op.stamp

section Pending

variable {op : ResumeOp} {run : StrategyRun}

/-- A run that is to be added is one the operation loaded. -/
theorem mem_todo_of_pending (h : run ∈ op.pending) : run ∈ op.todo := by
  unfold ResumeOp.pending at h
  split at h
  · exact List.mem_of_mem_tail h
  · exact h

/-- Every run after the first is still to be added. -/
theorem mem_pending_of_tail (h : run ∈ op.todo.tail) : run ∈ op.pending := by
  unfold ResumeOp.pending
  split
  · exact h
  · exact List.mem_of_mem_tail h

/-- The run that an operation adds a job for was still to be added. -/
theorem mem_pending_of_adds (hadds : op.adds) (hhead : op.todo.head? = some run) :
    run ∈ op.pending := by
  have hbetween : op.between = false := by
    unfold ResumeOp.adds at hadds
    unfold ResumeOp.between
    cases hkind : op.kind <;> simp_all [ResumeKind.savesAfterAdd]
  rw [ResumeOp.pending, hbetween]
  exact List.mem_of_mem_head? hhead

/-- An add takes the first run off the pending ones, a save none. -/
theorem next_pending (op : ResumeOp) :
    op.next.pending = if op.adds then op.todo.tail else op.pending := by
  obtain ⟨id, kind, stamp, todo, half, written⟩ := op
  cases kind <;> cases half <;> rfl

/-- An operation uses the id that its add will give, if it stamps its ids at the load. -/
theorem uses_iff {id : String} (now : ℕ) :
    op.uses run id ↔ op.kind.stampsAtLoad ∧ id = RunFleet.resumeJobId now op run := by
  unfold ResumeOp.uses ResumeKind.uses RunFleet.resumeJobId
  cases op.kind <;> simp [ResumeKind.stampsAtLoad]

theorem next_uses (op : ResumeOp) (run : StrategyRun) (id : String) :
    op.next.uses run id = op.uses run id := by
  unfold ResumeOp.next
  split <;> rfl

end Pending

namespace RunFleet

variable (env : FleetEnv)

/-- The jobs of a run that are queued or executing. -/
def liveIds (w : RunFleet) (key : RunKey) : List String :=
  (w.queue.jobs.filter fun j => j.state.live && jobKey env j.data = some key).map (·.id)

/-- The columns that a new operation goes by tell the truth: a run that it reads as parked, as
errored or as untouched for an hour has no queued or executing job, unless under the id that the
operation itself is going to use. -/
def loadsIdle (w : RunFleet) (e : FleetEvent) : Bool :=
  (w.begun env e).all fun op => op.todo.all fun run => (w.liveIds env run.key).all (op.uses run)

/-- An operation that adds a job under a new id does so for no run that another one has loaded and
is still to add, unless under the id that the other one is going to use. -/
def addsApart (w : RunFleet) (e : FleetEvent) : Bool :=
  (w.addsFor e).all fun (op, run) => w.queue.lookup (resumeJobId w.now op run) = none →
    w.ops.all fun other => other.id ≠ op.id → other.pending.all fun loaded =>
      loaded.key = run.key → other.uses loaded (resumeJobId w.now op run)

variable {env}

/-- The ids are those of the live jobs of the key. -/
theorem mem_liveIds {w : RunFleet} {key : RunKey} {id : String} :
    id ∈ w.liveIds env key ↔ LiveJob env w key id := by
  simp only [liveIds, List.mem_map, List.mem_filter, Bool.and_eq_true, decide_eq_true_eq]
  constructor
  · rintro ⟨j, ⟨hj, hlive, hkey⟩, rfl⟩
    exact ⟨j.data, ⟨j, hj, rfl, rfl, hlive⟩, hkey⟩
  · rintro ⟨data, ⟨j, hj, rfl, rfl, hlive⟩, hkey⟩
    exact ⟨j, ⟨hj, hlive, hkey⟩, rfl⟩

/-- The guard spelled out: a run has no live job at the load, but under an id the load stamps. -/
theorem loadsIdle_iff {w : RunFleet} {e : FleetEvent} :
    loadsIdle env w e ↔ ∀ op, w.begun env e = some op → ∀ run ∈ op.todo,
      ∀ id, LiveJob env w run.key id → op.uses run id := by
  simp only [loadsIdle, Option.all_eq_true, List.all_eq_true, mem_liveIds]

/-- The guard spelled out: an add under a new id is for no run that another operation has still to
add, unless under that same id. -/
theorem addsApart_iff {w : RunFleet} {e : FleetEvent} :
    addsApart w e ↔ ∀ op run, w.addsFor e = some (op, run) →
      w.queue.lookup (resumeJobId w.now op run) = none → ∀ other ∈ w.ops, other.id ≠ op.id →
        ∀ loaded ∈ other.pending, loaded.key = run.key →
          other.uses loaded (resumeJobId w.now op run) := by
  unfold addsApart
  cases w.addsFor e with
  | none => simp
  | some p =>
    simp only [Option.all_some, decide_eq_true_eq, List.all_eq_true]
    constructor
    · rintro hapart op run ⟨⟩
      exact hapart
    · exact fun hapart => hapart p.1 p.2 rfl

/-- What an operation loads is the rows that read as ones to take up. -/
theorem reads_of_begun {w : RunFleet} {e : FleetEvent} {op : ResumeOp} {run : StrategyRun}
    (hbegun : w.begun env e = some op) (hrun : run ∈ op.todo) :
    run ∈ w.runs ∧ op.kind.reads w.now run := by
  cases e with
  | beginResume triggerJobId held =>
    obtain ⟨freeTier, -, rfl⟩ := Option.map_eq_some_iff.mp hbegun
    obtain ⟨hmem, hstatus⟩ := status_of_mem_withStatus (mem_resumeTodo hrun)
    refine ⟨hmem, ?_⟩
    unfold resumeKind
    split <;> exact decide_eq_true hstatus
  | beginBudgetResume budgetTier models limit =>
    cases hbegun
    obtain ⟨hmem, hstatus⟩ := status_of_mem_withStatus (mem_budgetParked hrun)
    exact ⟨hmem, decide_eq_true hstatus⟩
  | beginRetry runId =>
    obtain ⟨errored, herrored, rfl⟩ := Option.map_eq_some_iff.mp hbegun
    obtain rfl := List.mem_singleton.mp hrun
    obtain ⟨hmem, hstatus⟩ := status_of_mem_withStatus (List.mem_of_find?_eq_some herrored)
    exact ⟨hmem, decide_eq_true hstatus⟩
  | beginSweep role =>
    cases hbegun
    simp only [sweepTodo] at hrun
    split at hrun
    · obtain ⟨hrunning, hstale⟩ := List.mem_filter.mp hrun
      obtain ⟨hmem, hstatus⟩ := status_of_mem_withStatus hrunning
      exact ⟨hmem, decide_eq_true ⟨hstatus, of_decide_eq_true hstale⟩⟩
    · cases hrun
  | _ => cases hbegun

/-- A new operation goes by true columns if no row that reads as one to take up has a live job. -/
theorem loadsIdle_of_reads {w : RunFleet} {e : FleetEvent}
    (h : ∀ op, w.begun env e = some op → ∀ row ∈ w.runs, op.kind.reads w.now row →
      ∀ id, LiveJob env w row.key id → op.uses row id) : loadsIdle env w e :=
  loadsIdle_iff.mpr fun op hbegun run hrun =>
    h op hbegun run (reads_of_begun hbegun hrun).1 (reads_of_begun hbegun hrun).2

/-- What the sweep goes by is the age of a row: it loads no run with a live job, other than its
own one of the day, exactly when each such row has been changed within the hour. -/
theorem loadsIdle_beginSweep {w : RunFleet} {role : WorkerRole} :
    loadsIdle env w (.beginSweep role) ↔ (sweepOwns env role → ∀ row ∈ w.runs,
      row.status = .running → ∀ id, LiveJob env w row.key id →
        ResumeKind.sweep.uses (env.dateStampInTz "UTC" w.now) row id = false →
        w.now - staleRunThresholdMs ≤ row.updatedAt) := by
  simp only [loadsIdle_iff, begun, Option.some.injEq, forall_eq', sweepTodo, ResumeOp.uses]
  constructor
  · intro hidle howns row hrow hrunning id hlive hother
    by_contra hold
    have hstale : row ∈ w.staleRuns := by
      simpa [staleRuns, withStatus, hrow, hrunning] using Nat.lt_of_not_le hold
    have huses := hidle row (by simpa [howns] using hstale) id hlive
    rw [hother] at huses
    cases huses
  · intro hfresh run hrun id hlive
    split at hrun
    · rename_i howns
      obtain ⟨hrunning, hstale⟩ := List.mem_filter.mp hrun
      obtain ⟨hmem, hstatus⟩ := status_of_mem_withStatus hrunning
      by_contra hother
      refine Nat.not_le.mpr (of_decide_eq_true hstale) (hfresh howns run hmem hstatus id hlive ?_)
      simpa using hother
    · cases hrun

/-! ### What an operation loads -/

/-- An operation that begins reads the queue and leaves it as it is. -/
theorem queue_of_begun {w w' : RunFleet} {e : FleetEvent} {op : ResumeOp}
    (hbegun : w.begun env e = some op) (h : step env w e = some w') : w'.queue = w.queue := by
  cases step_cases h with
  | beginResume | beginBudgetResume | beginRetry | beginSweep => rfl
  | _ => cases hbegun

/-- An operation that fails leaves the queue as it is. -/
theorem queue_of_opFail {w w' : RunFleet} {opId : ℕ} (h : step env w (.opFail opId) = some w') :
    w'.queue = w.queue := by
  cases step_cases h with
  | opSkip | opAbort => rfl

/-- An operation loads each run once, as the rows have distinct keys. -/
theorem nodup_loads {w : RunFleet} {e : FleetEvent} (h : (w.runs.map (·.key)).Nodup) :
    ((w.loads env e).map (·.key)).Nodup := by
  have hstatus (status : StrategyRunStatus) : ((w.withStatus status).map (·.key)).Nodup :=
    h.sublist (List.filter_sublist.map _)
  cases e with
  | beginResume triggerJobId held =>
    unfold loads
    cases (providerPool env.strategyName).bind ProviderPoolId.freeTier with
    | none => exact List.nodup_nil
    | some freeTier =>
      simp only [Option.map_some, Option.getD_some, resumeTodo]
      split
      · exact (hstatus _).sublist (List.filter_sublist.map _)
      · split
        · exact hstatus _
        · exact List.nodup_nil
  | beginBudgetResume budgetTier models limit =>
    refine List.Nodup.sublist ((List.take_sublist _ _).map _) ?_
    refine ((List.mergeSort_perm _ _).map _).nodup_iff.mpr ?_
    exact (hstatus _).sublist (List.filter_sublist.map _)
  | beginRetry runId =>
    simp only [loads]
    cases w.erroredRun runId with
    | none => exact List.nodup_nil
    | some run => exact List.nodup_singleton _
  | beginSweep role =>
    simp only [loads, sweepTodo]
    split
    · exact (hstatus _).sublist (List.filter_sublist.map _)
    · exact List.nodup_nil
  | _ => exact List.nodup_nil

/-- No operation has a run twice. -/
def LoadedOnce (w : RunFleet) : Prop := ∀ op ∈ w.ops, (op.todo.map (·.key)).Nodup

/-- With one row for each key, what is loaded differs, and no step has an operation load a run
twice. -/
theorem LoadedOnce.step {w w' : RunFleet} {e : FleetEvent} (h : LoadedOnce w)
    (hkeys : (w.runs.map (·.key)).Nodup) (hstep : RunFleet.step env w e = some w') :
    LoadedOnce w' := by
  intro op' hop'
  have htail {op : ResumeOp} (hop : op ∈ w.ops) : (op.todo.tail.map (·.key)).Nodup :=
    (h op hop).sublist ((List.tail_sublist _).map _)
  cases step_ops hstep op' hop' with
  | kept _ op _ hop hnoted =>
    rw [hnoted.same]
    exact h op hop
  | began => exact nodup_loads hkeys
  | stepped op run hfind =>
    have hop := List.mem_of_find?_eq_some hfind
    unfold ResumeOp.next
    split
    · exact htail hop
    · exact h op hop
  | failed op hop => exact htail hop

end RunFleet

end Connections
