import Connections.Dispatch.LiveJobs

/-!
# Jobs of resumed runs

A run that a sweep counts as resumed has a live job when the id of the added job was free and the
job outlives the gap between its add and the save of its run.  The stamp in the id is meant to
keep it free, and does not: a job resumed under a date stays in the queue after it has completed.
-/

namespace Connections

open JobQueue

theorem between_next {op : ResumeOp} (h : op.next.between) :
    op.adds ∧ op.kind.savesAfterAdd ∧ op.next.todo = op.todo := by
  by_cases hlast : op.lastHalf
  · simp [ResumeOp.between, ResumeOp.next, hlast] at h
  · simp only [ResumeOp.between, ResumeOp.next, hlast, Bool.false_eq_true, ↓reduceIte,
      Bool.true_and] at h ⊢
    refine ⟨?_, h, trivial⟩
    unfold ResumeOp.lastHalf at hlast
    unfold ResumeOp.adds
    cases hkind : op.kind <;> simp_all [ResumeKind.savesAfterAdd]

/-- An operation that a step leaves between its halves has just added the job of its first run. -/
theorem addsFor_of_between {w : RunFleet} {op : ResumeOp} {head run : StrategyRun}
    (hfind : w.ops.find? (·.id = op.id) = some op) (hhead : op.todo.head? = some head)
    (hbetween : op.next.between) (hrun : op.next.todo.head? = some run) :
    w.addsFor (.opStep op.id) = some (op, run) ∧ op.kind.savesAfterAdd := by
  obtain ⟨hadds, hkind, htodo⟩ := between_next hbetween
  obtain rfl : head = run := Option.some.inj (hhead.symm.trans (htodo ▸ hrun))
  exact ⟨by simp [RunFleet.addsFor, hfind, hadds, hhead], hkind⟩

/-- The last half of an operation that is not a manual retry: a sweep's add, or a resume's save. -/
theorem between_of_lastHalf {op : ResumeOp} (hlast : op.lastHalf) (hkind : op.kind ≠ .manualRetry) :
    op.adds ∨ op.between := by
  unfold ResumeOp.lastHalf at hlast
  unfold ResumeOp.adds ResumeOp.between
  cases hop : op.kind <;> simp_all [ResumeKind.savesAfterAdd]

namespace RunFleet

variable (env : FleetEnv)

/-- The run that a sweep counts as resumed or re-dispatched in an event. -/
def counted (w : RunFleet) : FleetEvent → Option StrategyRun
  | .opStep opId => (w.ops.find? (·.id = opId)).bind fun op =>
    if op.lastHalf ∧ op.kind ≠ .manualRetry then op.todo.head? else none
  | _ => none

/-- A sweep that adds a job finds its id free, or a live job of the run. -/
def addsTake (w : RunFleet) (e : FleetEvent) : Bool :=
  (w.addsFor e).all fun (op, run) => op.kind = .manualRetry ∨
    w.queue.lookup (resumeJobId w.now op run) = none ∨ w.hasLiveJob env run.key

/-- A job that ends is not the only live one of a run whose resume is still to save it. -/
def endsNoResumeJob (w : RunFleet) (e : FleetEvent) : Bool :=
  (w.endsJob e).all fun jobId => w.ops.all fun op => op.between → op.todo.head?.all fun run =>
    w.queue.jobs.any fun j => j.id ≠ jobId && j.state.live && jobKey env j.data = some run.key

/-- Every run that a resume is about to save has a live job. -/
structure ResumesBacked (w : RunFleet) : Prop where
  own : OwnRuns env w
  backed : ∀ op ∈ w.ops, op.between → ∀ run, op.todo.head? = some run →
    ∃ id, LiveJob env w run.key id

variable {env}

/-- The guard spelled out: the add of a resume takes its id, or finds a live job of the run. -/
theorem addsTake_iff {w : RunFleet} {e : FleetEvent} :
    addsTake env w e ↔ ∀ op run, w.addsFor e = some (op, run) → op.kind ≠ .manualRetry →
      w.queue.lookup (resumeJobId w.now op run) = none ∨ ∃ id, LiveJob env w run.key id := by
  unfold addsTake
  cases w.addsFor e with
  | none => simp
  | some p =>
    simp only [Option.all_some, decide_eq_true_eq, hasLiveJob_iff]
    constructor
    · rintro htake op run ⟨⟩ hkind
      exact htake.resolve_left hkind
    · intro htake
      by_cases hkind : p.1.kind = .manualRetry
      · exact .inl hkind
      · exact .inr (htake p.1 p.2 rfl hkind)

theorem endsNoResumeJob_iff {w : RunFleet} {e : FleetEvent} :
    endsNoResumeJob env w e ↔ ∀ jobId, w.endsJob e = some jobId → ∀ op ∈ w.ops, op.between →
      ∀ run, op.todo.head? = some run → ∃ id, id ≠ jobId ∧ LiveJob env w run.key id := by
  have hother (jobId : String) (run : StrategyRun) :
      (w.queue.jobs.any fun j =>
        j.id ≠ jobId && j.state.live && jobKey env j.data = some run.key) ↔
        ∃ id, id ≠ jobId ∧ LiveJob env w run.key id := by
    simp only [List.any_eq_true, Bool.and_eq_true, decide_eq_true_eq]
    constructor
    · rintro ⟨j, hj, ⟨hne, hlive⟩, hkey⟩
      exact ⟨j.id, hne, j.data, ⟨j, hj, rfl, rfl, hlive⟩, hkey⟩
    · rintro ⟨id, hne, data, ⟨j, hj, rfl, rfl, hlive⟩, hkey⟩
      exact ⟨j, hj, ⟨hne, hlive⟩, hkey⟩
  unfold endsNoResumeJob
  cases w.endsJob e with
  | none => simp
  | some jobId =>
    simp only [Option.all_some, List.all_eq_true, decide_eq_true_eq, Option.all_eq_true, hother,
      Option.some.injEq]
    constructor
    · rintro hends _ rfl op hop hbetween run hrun
      exact hends op hop hbetween run hrun
    · exact fun hends op hop hbetween run hrun => hends jobId rfl op hop hbetween run hrun

/-- A run keeps a live job that an event does not end. -/
theorem LiveJob.step {w w' : RunFleet} {e : FleetEvent} {key : RunKey} {id : String}
    (h : LiveJob env w key id) (hends : ∀ jobId, w.endsJob e = some jobId → id ≠ jobId)
    (hstep : RunFleet.step env w e = some w') : LiveJob env w' key id := by
  obtain ⟨data, hlive, hkey⟩ := h
  exact ⟨data, (step_jobs hstep).live hends hlive, hkey⟩

/-- After a sweep's add its run has a live job. -/
theorem liveJob_of_addsTake {w w' : RunFleet} {e : FleetEvent} {op : ResumeOp} {run : StrategyRun}
    (hown : OwnRuns env w) (htake : addsTake env w e) (hfor : w.addsFor e = some (op, run))
    (hkind : op.kind ≠ .manualRetry) (hstep : step env w e = some w') :
    ∃ id, LiveJob env w' run.key id := by
  have hadded := live_addsFor hfor hstep
  rcases addsTake_iff.mp htake op run hfor hkind with hnone | ⟨id, data, hlive, hkey⟩
  · have hrun : run.strategyName = env.strategyName := hown run (held_of_addsFor hfor)
    exact ⟨_, _, (hadded _ _).mpr (.inr ⟨rfl, rfl, hnone⟩), jobKey_resumeJobData.mpr ⟨hrun, rfl⟩⟩
  · exact ⟨id, data, (hadded _ _).mpr (.inl hlive), hkey⟩

/-- A guarded step leaves a live job behind every run between add and save. -/
theorem ResumesBacked.step {w w' : RunFleet} {e : FleetEvent} (h : ResumesBacked env w)
    (htake : addsTake env w e) (hends : endsNoResumeJob env w e)
    (hstep : RunFleet.step env w e = some w') : ResumesBacked env w' := by
  refine ⟨h.own.step hstep, fun op' hop' hbetween run hrun => ?_⟩
  cases step_ops hstep op' hop' with
  | kept _ op _ hop hnoted =>
    rw [hnoted.same] at hbetween hrun
    cases hend : w.endsJob e with
    | none =>
      obtain ⟨id, hlive⟩ := h.backed op hop hbetween run hrun
      exact ⟨id, hlive.step (by simp [hend]) hstep⟩
    | some jobId =>
      obtain ⟨id, hne, hlive⟩ := endsNoResumeJob_iff.mp hends jobId hend op hop hbetween run hrun
      refine ⟨id, hlive.step (fun other hother => ?_) hstep⟩
      rw [hend, Option.some.injEq] at hother
      exact hother ▸ hne
  | began => simp [ResumeOp.between] at hbetween
  | stepped op head hfind hhead =>
    obtain ⟨hfor, hkind⟩ := addsFor_of_between hfind hhead hbetween hrun
    refine liveJob_of_addsTake h.own htake hfor (fun hmanual => ?_) hstep
    rw [hmanual] at hkind
    cases hkind
  | failed => simp [ResumeOp.between] at hbetween

/-- While every add of a sweep takes effect or finds a live job, and no job ends that a resume
still relies on, each run that a sweep counts has a live job at that moment. -/
theorem counted_run_has_job {w₀ w w' : RunFleet} {e : FleetEvent} {run : StrategyRun}
    (hown : OwnRuns env w₀) (hops : w₀.ops = [])
    (h : Run.Reaches (step env) (fun w e => addsTake env w e && endsNoResumeJob env w e) w₀ w)
    (hok : addsTake env w e && endsNoResumeJob env w e) (hstep : step env w e = some w')
    (hcounted : w.counted e = some run) : w'.hasLiveJob env run.key := by
  have hfirst : ResumesBacked env w₀ := ⟨hown, by simp [hops]⟩
  have hw : ResumesBacked env w := h.invariant hfirst fun _ _ _ hw hok hstep =>
    have hok := Bool.and_eq_true_iff.mp hok
    hw.step hok.1 hok.2 hstep
  rw [hasLiveJob_iff]
  cases e with
  | opStep opId =>
    obtain ⟨op, hop, hcounted⟩ := Option.bind_eq_some_iff.mp hcounted
    split at hcounted
    · rename_i hlast
      rcases between_of_lastHalf hlast.1 hlast.2 with hadds | hbetween
      · have hfor : w.addsFor (.opStep opId) = some (op, run) := by
          simp [addsFor, hop, hadds, hcounted]
        exact liveJob_of_addsTake hw.own (Bool.and_eq_true_iff.mp hok).1 hfor hlast.2 hstep
      · obtain ⟨id, hlive⟩ :=
          hw.backed op (List.mem_of_find?_eq_some hop) hbetween run hcounted
        exact ⟨id, hlive.step (by simp [endsJob]) hstep⟩
    · cases hcounted
  | _ => cases hcounted

/-- A run that was parked, resumed under a date, and whose resume job waits. -/
theorem counted_run_has_job_once :
    ∃ w w' run, step openrouterEnv w (.opStep 2) = some w' ∧ w.counted (.opStep 2) = some run ∧
      w'.hasLiveJob openrouterEnv run.key := by
  let id := "run-1-llm-openrouter-a-1"
  obtain ⟨w, hrun, hready⟩ := Run.exists_reaches (step openrouterEnv)
    (fun w e => addsTake openrouterEnv w e && endsNoResumeJob openrouterEnv w e) fresh
    (wholeCall 1 "a" ++ [.pick id, .load id ["ANT", "BEE", "FLY", "GNAT"] none, .park id,
      .complete id, .beginResume "cron" [], .opStep 2])
    (fun w => addsTake openrouterEnv w (.opStep 2) && endsNoResumeJob openrouterEnv w (.opStep 2) &&
      (step openrouterEnv w (.opStep 2)).isSome && (w.counted (.opStep 2)).isSome) (by decide)
  simp only [Bool.and_eq_true, Option.isSome_iff_exists] at hready
  obtain ⟨⟨hok, w', hstep⟩, run, hcounted⟩ := hready
  exact ⟨w, w', run, hstep, hcounted,
    counted_run_has_job fresh_wellFormed.own rfl hrun (Bool.and_eq_true_iff.mpr hok) hstep hcounted⟩

/-- A run that is parked again on the day of its resume: the second resume's add finds the first
resume's job, which has completed, and the run is counted and saved as running with no job. -/
theorem resumed_twice_a_day_has_no_job :
    ∃ w w' run, Run.Reaches (step openrouterEnv) Run.always fresh w ∧
      step openrouterEnv w (.opStep 3) = some w' ∧ w.counted (.opStep 3) = some run ∧
      w'.hasLiveJob openrouterEnv run.key = false ∧
      ∃ row ∈ w'.runs, row.id = run.id ∧ row.status = .running := by
  let id := "run-1-llm-openrouter-a-1"
  let again := "run-1-llm-openrouter-a-1-resume-2023-06-12"
  let words := ["ANT", "BEE", "FLY", "GNAT"]
  obtain ⟨w, hrun, hlost⟩ := Run.exists_reaches (step openrouterEnv) Run.always fresh
    (wholeCall 1 "a" ++ [.pick id, .load id words none, .park id, .complete id,
      .beginResume "cron" [], .opStep 2, .opStep 2, .opStep 2, .pick again,
      .load again words none, .park again, .complete again, .beginResume "startup" [],
      .opStep 3])
    (fun w => (step openrouterEnv w (.opStep 3)).any fun w' =>
      (w.counted (.opStep 3)).any fun run => w'.hasLiveJob openrouterEnv run.key = false &&
        w'.runs.any fun row => row.id = run.id ∧ row.status = .running) (by decide)
  simp only [Option.any_eq_true, Bool.and_eq_true, decide_eq_true_eq, List.any_eq_true] at hlost
  obtain ⟨w', hstep, run, hcounted, hnone, hrow⟩ := hlost
  exact ⟨w, w', run, hrun, hstep, hcounted, hnone, hrow⟩

end RunFleet

end Connections
