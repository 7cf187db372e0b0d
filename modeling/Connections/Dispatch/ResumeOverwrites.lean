import Connections.Dispatch.ResumedJobs

/-!
# What a resume writes over a worker

A resume saves the entity that it loaded before it added the run's job.  The save keeps what a
worker has written in between exactly when that is a running row with the words as loaded; a run
that its job parks or ends in between goes back to running, with no job left to execute it.
-/

namespace Connections

open JobQueue

namespace RunFleet

section Guards

variable (env : FleetEnv)

/-- What a worker writes to a run between a resume's add and its save is what the save writes. -/
def writesKeep (w : RunFleet) (e : FleetEvent) : Bool :=
  (w.writes e).all fun entity => w.ops.all fun op => op.between → op.todo.head?.all fun run =>
    run.id = entity.id → (entity.status, entity.availableWords) = (.running, run.availableWords)

/-- A live job of the run whose workers have neither ended nor parked it. -/
def unfinished (w : RunFleet) (key : RunKey) : Bool :=
  w.queue.jobs.any fun j => j.state.live && jobKey env j.data = some key &&
    w.workers.all fun k => k.jobId = j.id → k.done = false

/-- An event in which a job of a run stops executing it: its worker ends the run, parks it or finds
it ended, or its last attempt fails. -/
def finishes (w : RunFleet) (key : RunKey) : FleetEvent → Bool
  | .park jobId | .finish jobId _ _ => (w.workerRun jobId).any (·.key = key)
  | .throws jobId => (w.endsJob (.throws jobId)).isSome &&
    (w.queue.lookup jobId).any fun j => jobKey env j.data = some key
  | .load jobId _ _ => ((w.queue.lookup jobId).any fun j => jobKey env j.data = some key) &&
    (w.row key).any (·.status ∈ terminalStatuses)
  | _ => false

/-- The events of resumes, sweeps, dispatches and workers. -/
def resumesOrWorks : FleetEvent → Bool
  | .beginRetry _ | .deleteRun _ => false
  | _ => true

/-- The add of a resume takes effect, or finds a live job that goes on with the run; and no job
stops executing a run between its add and its save. -/
def gapsKept (w : RunFleet) (e : FleetEvent) : Bool :=
  ((w.addsFor e).all fun (op, run) => op.kind.savesAfterAdd →
    w.queue.lookup (resumeJobId w.now op run) = none ∨ w.unfinished env run.key) &&
  w.ops.all fun op => op.between → op.todo.head?.all fun run => !finishes env w run.key e

end Guards

variable {env : FleetEnv}

/-! ### The save -/

/-- After a save the row is stored. -/
theorem exists_mem_save (w : RunFleet) (entity : StrategyRun) :
    ∃ row ∈ (w.save entity).runs, row.id = entity.id := by
  unfold save
  split
  · rename_i hknown
    obtain ⟨row, hrow, hid⟩ := List.any_eq_true.mp hknown
    refine ⟨_, List.mem_map_of_mem hrow, ?_⟩
    simp only [of_decide_eq_true hid, ↓reduceIte]
    unfold savedRow
    split <;> rfl
  · exact ⟨_, List.mem_cons_self, rfl⟩

/-- Between its add and its save an operation does not add. -/
theorem adds_of_between {op : ResumeOp} (h : op.between) : op.adds = false := by
  obtain ⟨hhalf, hkind⟩ := Bool.and_eq_true_iff.mp h
  unfold ResumeOp.adds
  cases hop : op.kind <;> simp_all [ResumeKind.savesAfterAdd]

/-- An operation that saves next, a manual retry apart, has added its job. -/
theorem between_of_saves {op : ResumeOp} (h : op.adds = false) (hkind : op.kind ≠ .manualRetry) :
    op.between := by
  unfold ResumeOp.adds at h
  unfold ResumeOp.between
  cases hop : op.kind <;> simp_all [ResumeKind.savesAfterAdd]

/-- Every kind of resume writes the row as running. -/
theorem resumed_status (kind : ResumeKind) (run : StrategyRun) :
    (kind.resumed run).status = .running := by
  cases kind <;> rfl

/-- The words on the board are written back as they were loaded. -/
theorem resumed_availableWords (kind : ResumeKind) (run : StrategyRun) :
    (kind.resumed run).availableWords = run.availableWords := by
  cases kind <;> rfl

/-- The save of a resume keeps what a worker wrote exactly when it is what the save writes. -/
theorem save_keeps_write_iff {w w' : RunFleet} {op : ResumeOp} {run : StrategyRun}
    {note : StrategyRunStatus × List String} (hop : w.ops.find? (·.id = op.id) = some op)
    (hbetween : op.between) (hhead : op.todo.head? = some run)
    (hstep : step env w (.opStep op.id) = some w') :
    (∀ row ∈ w'.runs, row.id = run.id → (row.status, row.availableWords) = note) ↔
      note = (.running, run.availableWords) := by
  have hsaves : w.saves (.opStep op.id) = some (op.kind.resumed run) := by
    simp [saves, hop, adds_of_between hbetween, hhead]
  have hid : (op.kind.resumed run).id = run.id := congrArg (·.1) (identity_resumed op.kind run)
  have hruns : w'.runs = (w.save (op.kind.resumed run)).runs := by
    cases step_rows hstep with
    | kept _ hnone => simp [hnone] at hsaves
    | saved _ entity hentity hruns =>
      rw [hsaves, Option.some.injEq] at hentity
      rw [hruns, hentity]
  have hrow : ∀ row ∈ w'.runs, row.id = run.id →
      (row.status, row.availableWords) = (.running, run.availableWords) := by
    intro row hrow hsame
    rcases mem_save (hruns ▸ hrow) with ⟨-, hne⟩ | ⟨updatedAt, rfl⟩
    · exact absurd (hsame.trans hid.symm) hne
    · rw [resumed_status, resumed_availableWords]
  constructor
  · intro hkeeps
    obtain ⟨row, hmem, hsame⟩ := exists_mem_save w (op.kind.resumed run)
    have hmem : row ∈ w'.runs := hruns ▸ hmem
    have hsame := hsame.trans hid
    exact (hkeeps row hmem hsame).symm.trans (hrow row hmem hsame)
  · rintro rfl
    exact hrow

/-- Each note of a worker's write is what the resume will save. -/
def NotesKept (w : RunFleet) : Prop :=
  ∀ op ∈ w.ops, op.between → ∀ run, op.todo.head? = some run → ∀ note, op.written = some note →
    note = (.running, run.availableWords)

/-- The guard spelled out: what is written between add and save is what the save writes again. -/
theorem writesKeep_iff {w : RunFleet} {e : FleetEvent} :
    writesKeep w e ↔ ∀ entity, w.writes e = some entity → ∀ op ∈ w.ops, op.between →
      ∀ run, op.todo.head? = some run → run.id = entity.id →
        (entity.status, entity.availableWords) = (.running, run.availableWords) := by
  simp only [writesKeep, Option.all_eq_true, List.all_eq_true, decide_eq_true_eq]

/-- A run that is done with leaves no note for the next. -/
theorem written_next (op : ResumeOp) : op.next.written = none := by
  unfold ResumeOp.next
  split <;> rfl

/-- A guarded step leaves every note one that the coming save repeats. -/
theorem NotesKept.step {w w' : RunFleet} {e : FleetEvent} (h : NotesKept w)
    (hkeep : writesKeep w e) (hstep : RunFleet.step env w e = some w') : NotesKept w' := by
  intro op' hop' hbetween run hrun note hnote
  cases step_ops hstep op' hop' with
  | kept _ op _ hop hnoted =>
    rw [hnoted.same] at hbetween hrun
    rcases hnoted.note with hold | ⟨entity, hwrites, hnew, head, hhead, hid⟩
    · exact h op hop hbetween run hrun note (hold ▸ hnote)
    · obtain rfl : head = run := Option.some.inj (hhead.symm.trans hrun)
      obtain rfl : (entity.status, entity.availableWords) = note :=
        Option.some.inj (hnew.symm.trans hnote)
      exact writesKeep_iff.mp hkeep entity hwrites op hop hbetween head hhead hid
  | began => simp [ResumeOp.between] at hbetween
  | stepped => simp [written_next] at hnote
  | failed => cases hnote

/-! ### Runs left running -/

/-- A live job of the run whose workers have neither ended nor parked it. -/
def Unfinished (env : FleetEnv) (w : RunFleet) (key : RunKey) : Prop :=
  ∃ id, LiveJob env w key id ∧ ∀ k ∈ w.workers, k.jobId = id → k.done = false

/-- Going through the queue and the workers finds a job at work if there is one. -/
theorem unfinished_iff {w : RunFleet} {key : RunKey} :
    w.unfinished env key ↔ Unfinished env w key := by
  simp only [unfinished, List.any_eq_true, Bool.and_eq_true, List.all_eq_true, decide_eq_true_eq]
  constructor
  · rintro ⟨j, hj, ⟨hlive, hkey⟩, hworkers⟩
    exact ⟨j.id, ⟨j.data, ⟨j, hj, rfl, rfl, hlive⟩, hkey⟩, hworkers⟩
  · rintro ⟨id, ⟨data, ⟨j, hj, rfl, rfl, hlive⟩, hkey⟩, hworkers⟩
    exact ⟨j, hj, ⟨hlive, hkey⟩, hworkers⟩

/-- A job completes once its worker is done. -/
theorem done_of_complete {w w' : RunFleet} {jobId : String}
    (h : step env w (.complete jobId) = some w') :
    ∃ k ∈ w.workers, k.jobId = jobId ∧ k.done = true := by
  obtain ⟨worker, hworker, h⟩ := Option.bind_eq_some_iff.mp h
  split at h
  · exact ⟨worker, List.mem_of_find?_eq_some hworker, by simpa using List.find?_some hworker, ‹_›⟩
  · cases h

/-- A live job is found by its id. -/
theorem Live.lookup {w : RunFleet} {id : String} {data : JobData} (h : w.Live id data) :
    ∃ j, w.queue.lookup id = some j ∧ j.data = data := by
  obtain ⟨j, hj, hid, hdata, -⟩ := h
  exact ⟨j, Queue.lookup_eq_some.mpr ⟨hj, hid⟩, hdata⟩

/-- A job goes on with its run until it finishes it. -/
theorem unfinished_step {w w' : RunFleet} {e : FleetEvent} {key : RunKey} (hw : WellFormed env w)
    (h : Unfinished env w key) (hstep : step env w e = some w') :
    Unfinished env w' key ∨ finishes env w key e = true := by
  obtain ⟨id, ⟨data, hlive, hkey⟩, hworkers⟩ := h
  obtain ⟨j, hj, hjdata⟩ := hlive.lookup
  by_cases hends : w.endsJob e = some id
  · right
    cases e with
    | complete jobId =>
      cases hends
      obtain ⟨k, hk, hid, hdone⟩ := done_of_complete hstep
      rw [hworkers k hk hid] at hdone
      cases hdone
    | throws jobId =>
      obtain rfl : jobId = id := by
        simpa [FleetEvent.worksOn] using endsJob_worksOn hends
      simp [finishes, hends, hj, hjdata, hkey]
    | _ => cases hends
  · by_cases hfinishes : finishes env w key e
    · exact .inr hfinishes
    have hlive' : w'.Live id data := (step_jobs hstep).live
      (fun jobId hjob hsame => hends (hsame ▸ hjob)) hlive
    refine .inl ⟨id, ⟨data, hlive', hkey⟩, fun k' hk' hid => ?_⟩
    cases step_workers hstep k' hk' with
    | kept _ _ hk => exact hworkers k' hk hid
    | picked => rfl
    | loaded jobId allWords contextWindow k i run hk _ hi hiid hikey hrun hfrom =>
      subst hid
      rw [hlive.data_eq hi hiid, hkey, Option.some.injEq] at hikey
      refine decide_eq_false fun hterminal => hfinishes ?_
      rcases hfrom with hrow | hrunning
      · simp [finishes, hj, hjdata, hkey, hikey, hrow, hterminal]
      · simp [hrunning, terminalStatuses] at hterminal
    | saved _ jobId k run entity done hk hkid hworks _ hkrun hwrites _ hsame hdone =>
      subst hid
      refine hdone.mpr ?_
      by_contra hrunning
      refine hfinishes ?_
      -- The worker's own run is the one that its job is for.
      obtain ⟨data', hdata', hdatakey⟩ := hw.worker_job k hk
      obtain rfl := hlive.data_unique (hkid ▸ hdata')
      have hentity : entity.key = key :=
        hsame.trans (Option.some.inj ((hdatakey run hkrun).symm.trans hkey))
      cases e with
      | flush =>
        obtain ⟨before, -, rfl⟩ := Option.map_eq_some_iff.mp hwrites
        exact absurd rfl hrunning
      | park | finish =>
        cases hworks
        obtain ⟨before, hbefore, rfl⟩ := Option.map_eq_some_iff.mp hwrites
        have hbeforekey : before.key = key := hentity
        simp [finishes, hbefore, hbeforekey]
      | load | complete | throws | crash | stall => cases hwrites
      | _ => cases hworks

/-! ### Attended runs -/

/-- Every running row has a job that goes on with it or is about to be marked, and so does every
row that a resume is about to save. -/
structure Attended (env : FleetEnv) (w : RunFleet) : Prop where
  wf : WellFormed env w
  running : ∀ row ∈ w.runs, row.status = .running →
    Unfinished env w row.key ∨ row.key ∈ w.failing
  resumes : ∀ op ∈ w.ops, op.between → ∀ run, op.todo.head? = some run →
    Unfinished env w run.key
  no_retry : ∀ op ∈ w.ops, op.kind ≠ .manualRetry

/-- The guard spelled out: an add finds its id free or a job at work, and no such job ends before
the save. -/
theorem gapsKept_iff {w : RunFleet} {e : FleetEvent} :
    gapsKept env w e ↔ (∀ op run, w.addsFor e = some (op, run) → op.kind.savesAfterAdd →
        w.queue.lookup (resumeJobId w.now op run) = none ∨ Unfinished env w run.key) ∧
      ∀ op ∈ w.ops, op.between → ∀ run, op.todo.head? = some run →
        finishes env w run.key e = false := by
  simp only [gapsKept, Bool.and_eq_true, Option.all_eq_true, List.all_eq_true, decide_eq_true_eq,
    unfinished_iff, Bool.not_eq_true', Prod.forall]

/-- A running row that an event does not write stays attended. -/
theorem Attended.running_kept {w w' : RunFleet} {e : FleetEvent} {row : StrategyRun}
    (h : Attended env w) (hstep : step env w e = some w') (hrow : row ∈ w.runs)
    (hrunning : row.status = .running)
    (hother : ∀ entity, w.saves e = some entity → row.id ≠ entity.id) :
    Unfinished env w' row.key ∨ row.key ∈ w'.failing := by
  have hrowkey := h.wf.row_eq_some hrow
  have hkept (jobId : String) (change : StrategyRun → StrategyRun)
      (hsaves : w.saves e = (w.workerRun jobId).map change)
      (hchange : ∀ run, (change run).id = run.id) :
      (w.workerRun jobId).any (·.key = row.key) = false := by
    cases hrun : w.workerRun jobId with
    | none => rfl
    | some run =>
      obtain ⟨k, hk, -, -, hkrun⟩ := workerRun_eq_some hrun
      refine decide_eq_false fun hkey => ?_
      refine hother (change run) (by rw [hsaves, hrun]; rfl) ?_
      rw [hchange run]
      exact h.wf.id_eq_of_key_eq (.inr (.inl ⟨k, hk, hkrun⟩)) hrow hkey.symm
  rcases h.running row hrow hrunning with hunfinished | hfailing
  · rcases unfinished_step h.wf hunfinished hstep with hstill | hfinishes
    · exact .inl hstill
    · right
      cases e with
      | park jobId =>
        rw [finishes, hkept jobId _ rfl fun _ => rfl] at hfinishes
        cases hfinishes
      | finish jobId status availableWords =>
        rw [finishes, hkept jobId _ rfl fun _ => rfl] at hfinishes
        cases hfinishes
      | throws jobId =>
        simp only [finishes, Bool.and_eq_true, Option.any_eq_true, decide_eq_true_eq] at hfinishes
        obtain ⟨-, j, hj, hkey⟩ := hfinishes
        exact failing_of_throws hstep hj hkey
      | load jobId allWords contextWindow =>
        simp only [finishes, hrowkey, Option.any_some, hrunning, Bool.and_eq_true,
          decide_eq_true_eq] at hfinishes
        simp [terminalStatuses] at hfinishes
      | _ => cases hfinishes
  · by_cases he : e = .markFailed row.key
    · subst he
      exact absurd rfl (hother (row.finished w.now .failed row.availableWords)
        (by simp [saves, writes, failedRun, hrowkey, hrunning]))
    · exact .inr (step_failing hstep hfailing he)

/-- The worker of a job that it has flushed goes on. -/
theorem unfinished_of_flush {w w' : RunFleet} {jobId : String} {availableWords : List String}
    {run : StrategyRun} (hw : WellFormed env w) (hrun : w.workerRun jobId = some run)
    (hstep : step env w (.flush jobId availableWords) = some w') : Unfinished env w' run.key := by
  obtain ⟨k, hk, rfl, -, hkrun⟩ := workerRun_eq_some hrun
  obtain ⟨data, hlive, hkey⟩ := hw.worker_live hstep hk (by simp [endsJob])
  refine ⟨k.jobId, ⟨data, hlive, hkey run hkrun⟩, fun k' hk' hid => ?_⟩
  cases step_workers hstep k' hk' with
  | kept _ _ _ hother => exact absurd (congrArg some hid.symm) hother
  | saved _ _ _ _ entity done _ _ _ _ _ hwrites _ _ hdone =>
    obtain ⟨before, -, rfl⟩ := Option.map_eq_some_iff.mp hwrites
    exact hdone.mpr rfl

/-- The worker that created a row goes on with it. -/
theorem unfinished_of_created {w w' : RunFleet} {jobId : String} {allWords : List String}
    {contextWindow : Option ℕ} {data : RunStrategyJobData} {k : JobWorker}
    {j : Job String JobData} {row : StrategyRun} (hw : WellFormed env w)
    (hstep : step env w (.load jobId allWords contextWindow) = some w') (hk : k ∈ w.workers)
    (hkid : k.jobId = jobId) (hj : j ∈ w.queue.jobs) (hjid : j.id = jobId)
    (hdata : j.data = .runStrategy data) (hstrategy : data.strategyName = env.strategyName)
    (hrow : row ∈ w'.runs) (hrunning : row.status = .running)
    (hkey : row.key = ⟨data.puzzleId, data.trialNumber⟩) : Unfinished env w' row.key := by
  have hw' : WellFormed env w' := hw.step hstep (by simp)
  subst hkid
  obtain ⟨data', hlive, -⟩ := hw.worker_job k hk
  obtain rfl := hlive.data_eq hj hjid
  have hjobkey : jobKey env j.data = some row.key := by
    rw [hdata, hkey]
    simp [jobKey, hstrategy]
  refine ⟨k.jobId, ⟨j.data, (step_jobs hstep).live (by simp [endsJob]) hlive, hjobkey⟩,
    fun k' hk' hid => ?_⟩
  cases step_workers hstep k' hk' with
  | kept _ _ _ hother => exact absurd (congrArg some hid.symm) hother
  | loaded _ _ _ _ i run _ _ hi hiid hikey hrun =>
    rw [hlive.data_eq hi hiid, hjobkey, Option.some.injEq] at hikey
    rw [← hw'.distinct.row_unique hrow hrun hikey, hrunning]
    rfl
  | saved _ _ _ _ _ _ _ _ _ _ _ hwrites => cases hwrites

/-- Every running row stays attended while the gaps of the resumes are kept. -/
theorem Attended.running_step {w w' : RunFleet} {e : FleetEvent} (h : Attended env w)
    (hscope : resumesOrWorks e) (hstep : RunFleet.step env w e = some w') (row : StrategyRun)
    (hrow : row ∈ w'.runs) (hrunning : row.status = .running) :
    Unfinished env w' row.key ∨ row.key ∈ w'.failing := by
  cases step_rows hstep with
  | kept _ hnone hruns =>
    exact h.running_kept hstep (hruns ▸ hrow) hrunning (by simp [hnone])
  | saved _ entity hsaves hruns =>
    rcases mem_save (hruns ▸ hrow) with ⟨hmem, hne⟩ | ⟨updatedAt, rfl⟩
    · refine h.running_kept hstep hmem hrunning fun other hother => ?_
      rw [hsaves, Option.some.injEq] at hother
      exact hother ▸ hne
    · left
      cases e with
      | flush jobId availableWords =>
        obtain ⟨run, hrun, rfl⟩ := Option.map_eq_some_iff.mp hsaves
        have hflushed := unfinished_of_flush h.wf hrun hstep
        exact hflushed
      | park jobId =>
        obtain ⟨run, -, rfl⟩ := Option.map_eq_some_iff.mp hsaves
        cases hrunning
      | finish jobId status availableWords =>
        obtain ⟨run, -, rfl⟩ := Option.map_eq_some_iff.mp hsaves
        obtain rfl : status = .running := hrunning
        cases hstep
      | markFailed key =>
        obtain ⟨run, -, -, -, rfl⟩ := failedRun_eq_some hsaves
        cases hrunning
      | opStep opId =>
        obtain ⟨op, hop, -, hadds, run, hhead, rfl⟩ := saves_opStep hsaves
        have hbetween := between_of_saves hadds (h.no_retry op hop)
        have hkey : (op.kind.resumed run).key = run.key :=
          congrArg (·.2.1) (identity_resumed op.kind run)
        rcases unfinished_step h.wf (h.resumes op hop hbetween run hhead) hstep with hstill | hnot
        · exact hkey.symm ▸ hstill
        · cases hnot
      | _ => cases hsaves
  | created jobId allWords contextWindow data k j hk hkid hj hjid hdata hstrategy hnone hruns =>
    have hmem := hrow
    rw [hruns] at hmem
    rcases List.mem_cons.mp hmem with rfl | hold
    · exact .inl (unfinished_of_created h.wf hstep hk hkid hj hjid hdata hstrategy hrow rfl rfl)
    · exact h.running_kept hstep hold hrunning (by simp [saves, writes])
  | deleted => cases hscope

/-- A resume that has added a job is backed by one that goes on with the run. -/
theorem Attended.resumes_step {w w' : RunFleet} {e : FleetEvent} (h : Attended env w)
    (hgaps : gapsKept env w e) (hstep : RunFleet.step env w e = some w') (op' : ResumeOp)
    (hop' : op' ∈ w'.ops) (hbetween : op'.between) (run : StrategyRun)
    (hrun : op'.todo.head? = some run) : Unfinished env w' run.key := by
  obtain ⟨hadd, hgap⟩ := gapsKept_iff.mp hgaps
  cases step_ops hstep op' hop' with
  | kept _ op _ hop hnoted =>
    rw [hnoted.same] at hbetween hrun
    rcases unfinished_step h.wf (h.resumes op hop hbetween run hrun) hstep with hstill | hnot
    · exact hstill
    · rw [hgap op hop hbetween run hrun] at hnot
      cases hnot
  | began => simp [ResumeOp.between] at hbetween
  | stepped op head hfind hhead =>
    obtain ⟨hfor, hkind⟩ := addsFor_of_between hfind hhead hbetween hrun
    rcases hadd op run hfor hkind with hnone | hunfinished
    · have hown : run.strategyName = env.strategyName := h.wf.own run (held_of_addsFor hfor)
      refine ⟨_, ⟨_, (live_addsFor hfor hstep _ _).mpr (.inr ⟨rfl, rfl, hnone⟩),
        jobKey_resumeJobData.mpr ⟨hown, rfl⟩⟩, fun k hk hid => ?_⟩
      -- A worker has a job that the queue knows.
      cases step_workers hstep k hk with
      | kept _ _ hbefore =>
        obtain ⟨data, hlive, -⟩ := h.wf.worker_job k hbefore
        exact absurd hnone (hid ▸ hlive.lookup_ne_none)
      | saved _ _ _ _ _ _ _ _ hworks => cases hworks
    · rcases unfinished_step h.wf hunfinished hstep with hstill | hnot
      · exact hstill
      · cases hnot
  | failed => simp [ResumeOp.between] at hbetween

/-- A guarded step leaves every running row to a job or to an operation. -/
theorem Attended.step {w w' : RunFleet} {e : FleetEvent} (h : Attended env w)
    (hscope : resumesOrWorks e) (hgaps : gapsKept env w e)
    (hstep : RunFleet.step env w e = some w') : Attended env w' := by
  have hkeeps : ∀ runId, e ≠ .deleteRun runId := by
    rintro runId rfl
    cases hscope
  refine ⟨h.wf.step hstep hkeeps, h.running_step hscope hstep, h.resumes_step hgaps hstep,
    fun op' hop' => ?_⟩
  cases step_ops hstep op' hop' with
  | kept _ op _ hop hnoted =>
    rw [hnoted.same]
    exact h.no_retry op hop
  | began _ kind _ hkind =>
    intro hretry
    obtain ⟨runId, rfl⟩ := hkind hretry
    cases hscope
  | stepped op _ hfind =>
    rw [next_kind]
    exact h.no_retry op (List.mem_of_find?_eq_some hfind)
  | failed op hop => exact h.no_retry op hop

/-- A resume's save keeps what a worker has written since the add exactly when that is a running
row with the words as loaded, which holds throughout while the workers write nothing else in the
gaps.  Where moreover the adds take effect and no job stops in a gap, a fleet without live jobs and
operations, whose failed jobs are marked, has no running row. -/
theorem resume_keeps_writes {w₀ : RunFleet} (hstart : Attended env w₀) (hops : w₀.ops = []) :
    (∀ w w' op run note, Run.Reaches (step env) Run.always w₀ w →
      w.ops.find? (·.id = op.id) = some op → op.between → op.todo.head? = some run →
      op.written = some note → step env w (.opStep op.id) = some w' →
      ((∀ row ∈ w'.runs, row.id = run.id → (row.status, row.availableWords) = note) ↔
        note = (.running, run.availableWords))) ∧
    (∀ w w' op run note, Run.Reaches (step env) (fun w e => writesKeep w e) w₀ w →
      w.ops.find? (·.id = op.id) = some op → op.between → op.todo.head? = some run →
      op.written = some note → step env w (.opStep op.id) = some w' →
      ∀ row ∈ w'.runs, row.id = run.id → (row.status, row.availableWords) = note) ∧
    ∀ w, Run.Reaches (step env) (fun w e => resumesOrWorks e && gapsKept env w e) w₀ w →
      w.ops = [] → w.failing = [] → (∀ key id, ¬ LiveJob env w key id) →
      ∀ row ∈ w.runs, row.status ≠ .running := by
  refine ⟨fun w w' op run note _ hop hbetween hhead _ hstep =>
    save_keeps_write_iff hop hbetween hhead hstep, ?_, ?_⟩
  · intro w w' op run note h hop hbetween hhead hnote hstep
    have hfirst : NotesKept w₀ := by simp [NotesKept, hops]
    have hw : NotesKept w := h.invariant hfirst fun _ _ _ hw hok hstep => hw.step hok hstep
    exact (save_keeps_write_iff hop hbetween hhead hstep).mpr
      (hw op (List.mem_of_find?_eq_some hop) hbetween run hhead note hnote)
  · intro w h hnone hfailing hlive row hrow hrunning
    have hw : Attended env w := h.invariant hstart fun _ _ _ hw hok hstep =>
      have hok := Bool.and_eq_true_iff.mp hok
      hw.step hok.1 hok.2 hstep
    rcases hw.running row hrow hrunning with ⟨id, hjob, -⟩ | hmark
    · exact hlive row.key id hjob
    · simp [hfailing] at hmark

theorem fresh_attended : Attended env fresh where
  wf := fresh_wellFormed
  running := fun row hrow => by cases hrow
  resumes := fun op hop => by cases hop
  no_retry := fun op hop => by cases hop

/-- A run that is parked for the day. -/
def parkedRun : List FleetEvent :=
  let id := "run-1-llm-openrouter-a-1"
  wholeCall 1 "a" ++ [.pick id, .load id ["ANT", "BEE", "FLY", "GNAT"] none, .park id,
    .complete id]

/-- A worker that flushes an unchanged board before the save, and one that ends after it. -/
theorem resume_keeps_writes_unchanged :
    (∃ w w', ∃ op : ResumeOp, ∃ run : StrategyRun, step openrouterEnv w (.opStep op.id) = some w' ∧
      op.written = some (.running, ["ANT", "BEE", "FLY", "GNAT"]) ∧
      ∀ row ∈ w'.runs, row.id = run.id →
        (row.status, row.availableWords) = (.running, ["ANT", "BEE", "FLY", "GNAT"])) ∧
    ∃ w : RunFleet, (∃ row ∈ w.runs, row.status = .completed) ∧
      ∀ row ∈ w.runs, row.status ≠ .running := by
  let id := "run-1-llm-openrouter-a-1-resume-2023-06-12"
  let words := ["ANT", "BEE", "FLY", "GNAT"]
  constructor
  · obtain ⟨w, hrun, hgap⟩ := Run.exists_reaches (step openrouterEnv) (fun w e => writesKeep w e)
      fresh (parkedRun ++ [.beginResume "cron" [], .opStep 2, .pick id, .load id words none,
        .flush id words])
      (fun w => w.ops.any fun op => w.ops.find? (·.id = op.id) = some op ∧ op.between ∧
        op.written = some (.running, words) ∧ op.todo.head?.isSome ∧
          (step openrouterEnv w (.opStep op.id)).isSome) (by decide)
    simp only [List.any_eq_true, decide_eq_true_eq, Option.isSome_iff_exists] at hgap
    obtain ⟨op, -, hop, hbetween, hnote, ⟨run, hhead⟩, w', hstep⟩ := hgap
    exact ⟨w, w', op, run, hstep, hnote, (resume_keeps_writes fresh_attended rfl).2.1 w w' op run _
      hrun hop hbetween hhead hnote hstep⟩
  · obtain ⟨w, hrun, hend⟩ := Run.exists_reaches (step openrouterEnv)
      (fun w e => resumesOrWorks e && gapsKept openrouterEnv w e) fresh
      (parkedRun ++ [.beginResume "cron" [], .opStep 2, .pick id, .load id words none, .opStep 2,
        .opStep 2, .finish id .completed [], .complete id])
      (fun w => (∃ row ∈ w.runs, row.status = .completed) ∧ w.ops = [] ∧ w.failing = [] ∧
        ∀ j ∈ w.queue.jobs, j.state.live = false) (by decide)
    obtain ⟨hended, hops, hfailing, hdead⟩ := of_decide_eq_true hend
    refine ⟨w, hended, (resume_keeps_writes fresh_attended rfl).2.2 w hrun hops hfailing ?_⟩
    rintro key id' ⟨data, ⟨j, hj, -, -, hlive⟩, -⟩
    rw [hdead j hj] at hlive
    cases hlive

/-- A run that its resumed job completes before the resume has saved it: the save puts it back to
running, and once the resume has ended nothing is left to execute it. -/
theorem save_reopens_completed_run :
    ∃ w w' w'' op run, Run.Reaches (step openrouterEnv) Run.always fresh w ∧
      w.ops.find? (·.id = 2) = some op ∧ op.between ∧ op.todo.head? = some run ∧
      op.written = some (.completed, []) ∧ step openrouterEnv w (.opStep 2) = some w' ∧
      (∃ row ∈ w'.runs, row.id = run.id ∧ row.status = .running ∧ row.availableWords ≠ []) ∧
      step openrouterEnv w' (.opStep 2) = some w'' ∧ w''.ops = [] ∧ w''.failing = [] ∧
      (∀ j ∈ w''.queue.jobs, j.state.live = false) ∧ ∃ row ∈ w''.runs, row.status = .running := by
  let id := "run-1-llm-openrouter-a-1-resume-2023-06-12"
  obtain ⟨w, hrun, hlost⟩ := Run.exists_reaches (step openrouterEnv) Run.always fresh
    (parkedRun ++ [.beginResume "cron" [], .opStep 2, .pick id,
      .load id ["ANT", "BEE", "FLY", "GNAT"] none, .finish id .completed [], .complete id])
    (fun w => (w.ops.find? (·.id = 2)).any fun op => op.between ∧
      op.written = some (.completed, []) ∧ op.todo.head?.any fun run =>
      (step openrouterEnv w (.opStep 2)).any fun w' =>
        (∃ row ∈ w'.runs, row.id = run.id ∧ row.status = .running ∧ row.availableWords ≠ []) ∧
        (step openrouterEnv w' (.opStep 2)).any fun w'' => w''.ops = [] ∧ w''.failing = [] ∧
          (∀ j ∈ w''.queue.jobs, j.state.live = false) ∧ ∃ row ∈ w''.runs, row.status = .running)
    (by decide)
  simp only [Option.any_eq_true, decide_eq_true_eq] at hlost
  obtain ⟨op, hop, hbetween, hwritten, run, hhead, w', hstep, hrow, w'', hend, hrest⟩ := hlost
  exact ⟨w, w', w'', op, run, hrun, hop, hbetween, hhead, hwritten, hstep, hrow, hend, hrest⟩

end RunFleet

end Connections
