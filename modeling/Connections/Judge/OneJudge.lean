import Connections.Judge.EvaluationRows

/-!
# One judge a proposal

While no dispatch forces, the jobs of a proposal all have one id, so the proposal has one worker at
a time, a worker that asks the model is about a proposal without an evaluation, and a save adds a
row and changes none.
-/

namespace Connections

open JobQueue KeyedTable

/-- A phase before the save of a worker that judges. -/
def JudgePhase.judging : JudgePhase → Bool
  | .checked _ | .calling .. => true
  | .started | .done _ => false

namespace JudgeFleet

variable {env : JudgeEnv}

/-- No dispatch forces. -/
def unforced (_ : JudgeFleet) : JudgeEvent → Prop
  | .dispatch _ force => force = false
  | _ => True

instance (w : JudgeFleet) (e : JudgeEvent) : Decidable (unforced w e) := by
  cases e <;> unfold unforced <;> infer_instance

/-- What holds while no dispatch forces: the job id of a proposal is the plain one, and a proposal
that is being judged has no evaluation. -/
structure Collapsed (w : JudgeFleet) : Prop where
  staffed : Staffed w
  dispatches : ∀ d ∈ w.dispatches, d.force = false
  jobs : ∀ j ∈ w.queue.jobs, ∀ id force, j.data = .evaluateCategory id force →
    j.id = categoryEvalJobId id ∧ force = false
  judging : ∀ k ∈ w.workers, k.phase.judging = true →
    k.phase.existing = none ∧ w.evaluations.lookup k.llmProposalId = none

theorem collapsed_fresh : Collapsed fresh where
  staffed := staffed_fresh
  dispatches := by simp [fresh]
  jobs := by simp [fresh, Queue.empty]
  judging := by simp [fresh]

/-- A worker's job has the plain id of its proposal. -/
theorem Collapsed.worker {w : JudgeFleet} (h : Collapsed w) {k : JudgeWorker}
    (hk : k ∈ w.workers) : k.jobId = categoryEvalJobId k.llmProposalId ∧ k.force = false := by
  obtain ⟨j, hj, hid, -, hdata⟩ := h.staffed.active k hk
  rw [← hid]
  exact h.jobs j hj _ _ hdata

/-- A proposal has one worker. -/
theorem Collapsed.eq_of_llmProposalId_eq {w : JudgeFleet} (h : Collapsed w) {a b : JudgeWorker}
    (ha : a ∈ w.workers) (hb : b ∈ w.workers) (hid : a.llmProposalId = b.llmProposalId) :
    a = b := by
  apply h.staffed.eq_of_jobId_eq ha hb
  rw [(h.worker ha).1, (h.worker hb).1, hid]

/-- Dispatches stay unforced. -/
theorem Collapsed.dispatches_step {w w' : JudgeFleet} {e : JudgeEvent} (h : Collapsed w)
    (hok : unforced w e) (hstep : step env w e = some w') :
    ∀ d ∈ w'.dispatches, d.force = false := by
  intro d hd
  rcases dispatch_origin hstep hd with ⟨old, hold, hforce, -⟩ | ⟨limit, rfl, -⟩
  · rw [← hforce]
    exact h.dispatches old hold
  · exact hok

/-- Jobs keep the plain id. -/
theorem Collapsed.jobs_step {w w' : JudgeFleet} {e : JudgeEvent} (h : Collapsed w)
    (hstep : step env w e = some w') : ∀ j ∈ w'.queue.jobs, ∀ id force,
      j.data = .evaluateCategory id force → j.id = categoryEvalJobId id ∧ force = false := by
  intro j hj id force hdata
  rcases job_origin hstep hj with ⟨i, hi, hid, hsame⟩ | ⟨d, hd, other, -, -, rfl⟩ | ⟨data, hrun⟩
  · rw [← hid]
    exact h.jobs i hi id force (hsame.trans hdata)
  · cases hdata
    rw [h.dispatches d hd]
    exact ⟨rfl, rfl⟩
  · rw [hrun] at hdata
    cases hdata

/-- Rows that go leave a key without an evaluation as it was. -/
theorem lookup_none_of_subset {t t' : Table ℕ CategoryEvaluation} {key : ℕ}
    (hrows : t'.rows ⊆ t.rows) (h : t.lookup key = none) : t'.lookup key = none :=
  Table.lookup_eq_none.mpr fun row hrow => Table.lookup_eq_none.mp h row (hrows hrow)

/-- Workers that judge after a step without a save judged before it. -/
theorem Collapsed.judging_of {w w' : JudgeFleet} (h : Collapsed w)
    (hworkers : ∀ k ∈ w'.workers, k.phase.judging = true → k ∈ w.workers)
    (hrows : w'.evaluations.rows ⊆ w.evaluations.rows) :
    ∀ k ∈ w'.workers, k.phase.judging = true →
      k.phase.existing = none ∧ w'.evaluations.lookup k.llmProposalId = none := by
  intro k hk hjudging
  obtain ⟨hexisting, hfree⟩ := h.judging k (hworkers k hk hjudging) hjudging
  exact ⟨hexisting, lookup_none_of_subset hrows hfree⟩

/-- A worker that moves on judges a proposal without an evaluation, if it judges. -/
theorem Collapsed.judging_setPhase {w : JudgeFleet} (h : Collapsed w) {k : JudgeWorker}
    (hk : k ∈ w.workers) {phase : JudgePhase}
    (hphase : phase.judging = true →
      phase.existing = none ∧ w.evaluations.lookup k.llmProposalId = none) :
    ∀ i ∈ (w.setPhase k.jobId phase).workers, i.phase.judging = true →
      i.phase.existing = none ∧ w.evaluations.lookup i.llmProposalId = none := by
  intro i hi hjudging
  obtain ⟨old, hold, rfl⟩ := mem_setPhase.mp hi
  split at hjudging
  · rename_i hjob
    obtain rfl := h.staffed.eq_of_jobId_eq hold hk hjob
    rw [if_pos rfl]
    exact hphase hjudging
  · rename_i hjob
    rw [if_neg hjob]
    exact h.judging old hold hjudging

/-- A save without a row read before adds one. -/
theorem Collapsed.save_rows {w : JudgeFleet} (h : Collapsed w) {k : JudgeWorker}
    (hk : k ∈ w.workers) {existing : Option ℕ} {row : StoredProposal} {category : String}
    {group : AnswerGroup} (hphase : k.phase = .calling existing row category group)
    {columns : CategoryEvaluation} {evaluations : Table ℕ CategoryEvaluation}
    (hsave : w.saveEvaluation existing k.llmProposalId columns = some evaluations) :
    evaluations.rows =
      ⟨w.evaluations.nextId, k.llmProposalId, columns⟩ :: w.evaluations.rows := by
  obtain rfl : existing = none := by
    have hnone := (h.judging k hk (by rw [hphase]; rfl)).1
    rwa [hphase] at hnone
  rcases saveEvaluation_cases hsave with ⟨id, hread, -⟩ | ⟨id, ⟨⟨⟩⟩ | ⟨-, rfl⟩, -, hinsert⟩
  · cases hread
  · exact (Table.insert_eq_some hinsert).1

/-- What is judged after a step has no evaluation then. -/
theorem Collapsed.judging_step {w w' : JudgeFleet} {e : JudgeEvent} (h : Collapsed w)
    (hstep : step env w e = some w') : ∀ k ∈ w'.workers, k.phase.judging = true →
      k.phase.existing = none ∧ w'.evaluations.lookup k.llmProposalId = none := by
  cases step_cases hstep with
  | find k hworker hphase =>
    have hk := (worker_eq_some hworker).1
    refine h.judging_setPhase hk fun hjudging => ?_
    unfold checkedPhase at hjudging ⊢
    -- An unforced worker that finds an evaluation is done.
    rw [(h.worker hk).2] at hjudging ⊢
    cases hfound : w.evaluations.lookup k.llmProposalId with
    | none => simp [JudgePhase.existing]
    | some row => simp [hfound, JudgePhase.judging] at hjudging
  | load k existing hworker hphase =>
    have hk := (worker_eq_some hworker).1
    obtain ⟨hexisting, hfree⟩ := h.judging k hk (by rw [hphase]; rfl)
    rw [hphase] at hexisting
    refine h.judging_setPhase hk fun hjudging => ⟨?_, hfree⟩
    unfold loadedPhase at hjudging ⊢
    split at hjudging
    · exact hexisting
    · cases hjudging
    · cases hjudging
  | save k existing row category group outcome evaluations hworker hphase hsave =>
    have hk := (worker_eq_some hworker).1
    intro i hi hjudging
    obtain ⟨old, hold, rfl⟩ := mem_setPhase.mp hi
    split at hjudging
    · cases hjudging
    · rename_i hother
      rw [if_neg hother]
      obtain ⟨hexisting, hfree⟩ := h.judging old hold hjudging
      refine ⟨hexisting, Table.lookup_eq_none.mpr fun e he => ?_⟩
      rw [h.save_rows hk hphase hsave] at he
      rcases List.mem_cons.mp he with rfl | he
      · exact fun hsame => hother (congrArg (·.jobId) (h.eq_of_llmProposalId_eq hk hold hsame)).symm
      · exact Table.lookup_eq_none.mp hfree e he
  | pick j id force =>
    refine h.judging_of (fun k hk hjudging => ?_) (List.Subset.refl _)
    rcases List.mem_cons.mp hk with rfl | hk
    · cases hjudging
    · exact hk
  | complete k | retried k | gaveUp k | crash k =>
    exact h.judging_of (fun i hi _ => (mem_dismiss.mp hi).1) (List.Subset.refl _)
  | deleteRun =>
    exact h.judging_of (fun _ hk _ => hk) (List.filter_sublist.trans List.filter_sublist).subset
  | deleteProposals | deleteRunEvaluations | deleteFailedEvaluations =>
    exact h.judging_of (fun _ hk _ => hk) List.filter_sublist.subset
  | _ => exact h.judging_of (fun _ hk _ => hk) (List.Subset.refl _)

/-- Every event but a forced dispatch keeps the invariant. -/
theorem Collapsed.step {w w' : JudgeFleet} {e : JudgeEvent} (h : Collapsed w)
    (hok : unforced w e) (hstep : step env w e = some w') : Collapsed w' where
  staffed := h.staffed.step hstep
  dispatches := h.dispatches_step hok hstep
  jobs := h.jobs_step hstep
  judging := h.judging_step hstep

/-- Every state that unforced runs reach. -/
theorem collapsed_of_reaches {w : JudgeFleet} (h : Run.Reaches (step env) unforced fresh w) :
    Collapsed w :=
  h.invariant collapsed_fresh fun _ _ _ hs hok hstep => hs.step hok hstep

end JudgeFleet

end Connections
