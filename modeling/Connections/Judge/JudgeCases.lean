import Connections.Judge.JudgeFleet

/-!
# The ways the judge's tables, queue and workers can step

Every event that happens passes its guards and leaves one of these states behind.
-/

namespace Connections

open JobQueue KeyedTable

namespace JudgeFleet

variable {env : JudgeEnv}

/-- What an event does, with the guards that it passes. -/
inductive StepCase (env : JudgeEnv) (w : JudgeFleet) : JudgeEvent → JudgeFleet → Prop
  | tick (ms : ℕ) : StepCase env w (.tick ms) { w with now := w.now + ms }
  | record (proposal : LlmProposal) (guess : Option Guess) :
      StepCase env w (.record proposal guess)
        { w with proposals := w.proposals.add proposal guess }
  | dispatch (limit : Option ℚ) (force : Bool) :
      StepCase env w (.dispatch limit force)
        { w with dispatches :=
          w.dispatches ++ [⟨force, (w.selectPending force).take (clampLimit limit)⟩] }
  | add (call : ℕ) (d : JudgeDispatch) (id : ℕ) (rest : List ℕ) : w.dispatches[call]? = some d →
      d.todo = id :: rest →
      StepCase env w (.add call)
        { w with
          queue := w.queue.add (judgeJobId d.force w.now id) (.evaluateCategory id d.force)
            .waiting
          dispatches := w.dispatches.set call { d with todo := rest } }
  | addFails (call : ℕ) (d : JudgeDispatch) : w.dispatches[call]? = some d →
      StepCase env w (.addFails call)
        { w with dispatches := w.dispatches.set call { d with todo := [] } }
  | addRun (jobId : String) (data : RunStrategyJobData) : "run-".toList <+: jobId.toList →
      StepCase env w (.addRun jobId data)
        { w with queue := w.queue.add jobId (.runStrategy data) .waiting }
  | pick (j : Job String JudgeJobData) (id : ℕ) (force : Bool) : j ∈ w.queue.jobs →
      j.state = .waiting → j.data = .evaluateCategory id force →
      StepCase env w (.pick j.id)
        { w with
          queue := w.queue.relist { j with state := .active }
          workers := ⟨j.id, id, force, .started⟩ :: w.workers }
  | pickRun (j : Job String JudgeJobData) (data : RunStrategyJobData) : j ∈ w.queue.jobs →
      j.state = .waiting → j.data = .runStrategy data →
      StepCase env w (.pick j.id) { w with queue := w.queue.relist { j with state := .active } }
  | promote (j : Job String JudgeJobData) : j ∈ w.queue.jobs → j.state = .delayed →
      StepCase env w (.promote j.id) { w with queue := w.queue.relist { j with state := .waiting } }
  | find (k : JudgeWorker) : w.worker k.jobId = some k → k.phase = .started →
      StepCase env w (.findEvaluation k.jobId) (w.setPhase k.jobId (w.checkedPhase k))
  | load (k : JudgeWorker) (existing : Option ℕ) : w.worker k.jobId = some k →
      k.phase = .checked existing →
      StepCase env w (.loadProposal k.jobId) (w.setPhase k.jobId (w.loadedPhase env k existing))
  | save (k : JudgeWorker) (existing : Option ℕ) (row : StoredProposal) (category : String)
      (group : AnswerGroup) (outcome : JudgeCategoryOutcome)
      (evaluations : Table ℕ CategoryEvaluation) : w.worker k.jobId = some k →
      k.phase = .calling existing row category group →
      w.saveEvaluation existing k.llmProposalId
        (evaluationColumns env row category group outcome w.now) = some evaluations →
      StepCase env w (.save k.jobId outcome)
        { w.setPhase k.jobId (.done outcome.result) with evaluations := evaluations }
  | complete (k : JudgeWorker) (result : EvaluateProposalResult) (j : Job String JudgeJobData) :
      w.worker j.id = some k → k.jobId = j.id → k.phase = .done result → j ∈ w.queue.jobs →
      j.state = .active →
      StepCase env w (.complete j.id)
        { w.dismiss j.id with
          queue := (w.queue.relist { j with state := .completed }).trim .completed
            removeOnCompleteCount }
  | retried (k : JudgeWorker) (j : Job String JudgeJobData) : w.worker j.id = some k →
      k.jobId = j.id → j ∈ w.queue.jobs → j.state = .active → j.attemptsMade + 1 < queueAttempts →
      StepCase env w (.throws j.id)
        { w.dismiss j.id with
          queue := w.queue.relist { j with state := .delayed, attemptsMade := j.attemptsMade + 1 } }
  | gaveUp (k : JudgeWorker) (j : Job String JudgeJobData) : w.worker j.id = some k →
      k.jobId = j.id → j ∈ w.queue.jobs → j.state = .active →
      ¬ j.attemptsMade + 1 < queueAttempts →
      StepCase env w (.throws j.id)
        { w.dismiss j.id with
          queue := (w.queue.relist
            { j with state := .failed, attemptsMade := j.attemptsMade + 1 }).trim .failed
              removeOnFailCount }
  | completeRun (j : Job String JudgeJobData) (data : RunStrategyJobData) : j ∈ w.queue.jobs →
      j.state = .active → j.data = .runStrategy data →
      StepCase env w (.completeRun j.id)
        { w with
          queue := (w.queue.relist { j with state := .completed }).trim .completed
            removeOnCompleteCount }
  | retriedRun (j : Job String JudgeJobData) (data : RunStrategyJobData) : j ∈ w.queue.jobs →
      j.state = .active → j.data = .runStrategy data → j.attemptsMade + 1 < queueAttempts →
      StepCase env w (.throwRun j.id)
        { w with
          queue := w.queue.relist { j with state := .delayed, attemptsMade := j.attemptsMade + 1 } }
  | gaveUpRun (j : Job String JudgeJobData) (data : RunStrategyJobData) : j ∈ w.queue.jobs →
      j.state = .active → j.data = .runStrategy data → ¬ j.attemptsMade + 1 < queueAttempts →
      StepCase env w (.throwRun j.id)
        { w with
          queue := (w.queue.relist
            { j with state := .failed, attemptsMade := j.attemptsMade + 1 }).trim .failed
              removeOnFailCount }
  | crash (k : JudgeWorker) : w.worker k.jobId = some k →
      StepCase env w (.crash k.jobId) (w.dismiss k.jobId)
  | stall (j : Job String JudgeJobData) : (∀ k ∈ w.workers, k.jobId ≠ j.id) → j ∈ w.queue.jobs →
      j.state = .active →
      StepCase env w (.stall j.id) { w with queue := w.queue.relist { j with state := .waiting } }
  | deleteRun (runId : ℕ) :
      StepCase env w (.deleteRun runId)
        ((w.dropEvaluations (·.strategyRunId = runId)).dropProposals
          (·.proposal.strategyRunId = runId))
  | deleteProposals (ids : List ℕ) :
      StepCase env w (.deleteProposals ids) (w.dropProposals (·.id ∈ ids))
  | deleteRunEvaluations (runId : ℕ) :
      StepCase env w (.deleteRunEvaluations runId) (w.dropEvaluations (·.strategyRunId = runId))
  | deleteFailedEvaluations :
      StepCase env w .deleteFailedEvaluations (w.dropEvaluations (·.status = .callError))

/-- The worker that a job's event is about. -/
theorem worker_eq_some {w : JudgeFleet} {jobId : String} {k : JudgeWorker}
    (h : w.worker jobId = some k) : k ∈ w.workers ∧ k.jobId = jobId :=
  ⟨List.mem_of_find?_eq_some h, by simpa using List.find?_some h⟩

/-- A dispatch adds the job of its first proposal. -/
theorem add_cases {w w' : JudgeFleet} {call : ℕ} (h : step env w (.add call) = some w') :
    StepCase env w (.add call) w' := by
  obtain ⟨d, hd, h⟩ := Option.bind_eq_some_iff.mp h
  split at h
  · cases h
  · rename_i id rest htodo
    cases h
    exact .add call d id rest hd htodo

/-- A worker picks up a job of either kind. -/
theorem pick_cases {w w' : JudgeFleet} {jobId : String} (h : step env w (.pick jobId) = some w') :
    StepCase env w (.pick jobId) w' := by
  obtain ⟨j, hj, h⟩ := Option.bind_eq_some_iff.mp h
  obtain ⟨hmem, rfl⟩ := Queue.lookup_eq_some.mp hj
  split at h
  · rename_i hst
    have hnext := Option.some.inj h
    split at hnext
    · rename_i id force hdata
      cases hnext
      exact .pick j id force hmem hst hdata
    · rename_i data hdata
      cases hnext
      exact .pickRun j data hmem hst hdata
  · cases h

/-- A worker looks for an evaluation of its proposal. -/
theorem findEvaluation_cases {w w' : JudgeFleet} {jobId : String}
    (h : step env w (.findEvaluation jobId) = some w') :
    StepCase env w (.findEvaluation jobId) w' := by
  obtain ⟨k, hk, h⟩ := Option.bind_eq_some_iff.mp h
  obtain ⟨-, rfl⟩ := worker_eq_some hk
  split at h
  · rename_i hphase
    cases h
    exact .find k hk hphase
  · cases h

/-- A worker loads its proposal. -/
theorem loadProposal_cases {w w' : JudgeFleet} {jobId : String}
    (h : step env w (.loadProposal jobId) = some w') :
    StepCase env w (.loadProposal jobId) w' := by
  obtain ⟨k, hk, h⟩ := Option.bind_eq_some_iff.mp h
  obtain ⟨-, rfl⟩ := worker_eq_some hk
  split at h
  · rename_i existing hphase
    cases h
    exact .load k existing hk hphase
  · cases h

/-- A worker that has called saves what came of it. -/
theorem save_cases {w w' : JudgeFleet} {jobId : String} {outcome : JudgeCategoryOutcome}
    (h : step env w (.save jobId outcome) = some w') : StepCase env w (.save jobId outcome) w' := by
  obtain ⟨k, hk, h⟩ := Option.bind_eq_some_iff.mp h
  obtain ⟨-, rfl⟩ := worker_eq_some hk
  split at h
  · rename_i existing row category group hphase
    obtain ⟨evaluations, hsave, rfl⟩ := Option.map_eq_some_iff.mp h
    exact .save k existing row category group outcome evaluations hk hphase hsave
  · cases h

/-- A job completes once its worker is done. -/
theorem complete_cases {w w' : JudgeFleet} {jobId : String}
    (h : step env w (.complete jobId) = some w') : StepCase env w (.complete jobId) w' := by
  obtain ⟨k, hk, h⟩ := Option.bind_eq_some_iff.mp h
  split at h
  · rename_i result hphase
    obtain ⟨queue, hqueue, rfl⟩ := Option.map_eq_some_iff.mp h
    obtain ⟨j, hj, rfl, hst, rfl⟩ := Queue.complete_eq_some.mp hqueue
    exact .complete k result j hk (worker_eq_some hk).2 hphase hj hst
  · cases h

/-- A failed attempt is retried or was the last one. -/
theorem throws_cases {w w' : JudgeFleet} {jobId : String}
    (h : step env w (.throws jobId) = some w') : StepCase env w (.throws jobId) w' := by
  obtain ⟨k, hk, h⟩ := Option.bind_eq_some_iff.mp h
  obtain ⟨queue, hqueue, rfl⟩ := Option.map_eq_some_iff.mp h
  obtain ⟨j, hj, rfl, hst, ⟨hleft, rfl⟩ | ⟨hlast, rfl⟩⟩ := Queue.failAttempt_eq_some.mp hqueue
  · exact .retried k j hk (worker_eq_some hk).2 hj hst hleft
  · exact .gaveUp k j hk (worker_eq_some hk).2 hj hst hlast

theorem completeRun_cases {w w' : JudgeFleet} {jobId : String}
    (h : step env w (.completeRun jobId) = some w') : StepCase env w (.completeRun jobId) w' := by
  obtain ⟨j, hj, h⟩ := Option.bind_eq_some_iff.mp h
  obtain ⟨hmem, rfl⟩ := Queue.lookup_eq_some.mp hj
  split at h
  · rename_i data hdata
    obtain ⟨queue, hqueue, rfl⟩ := Option.map_eq_some_iff.mp h
    obtain ⟨i, hi, hid, hst, rfl⟩ := Queue.complete_eq_some.mp hqueue
    obtain rfl := w.queue.eq_of_id_eq hi hmem hid
    exact .completeRun i data hmem hst hdata
  · cases h

/-- A failed attempt of another job on the queue is retried or was the last one. -/
theorem throwRun_cases {w w' : JudgeFleet} {jobId : String}
    (h : step env w (.throwRun jobId) = some w') : StepCase env w (.throwRun jobId) w' := by
  obtain ⟨j, hj, h⟩ := Option.bind_eq_some_iff.mp h
  obtain ⟨hmem, rfl⟩ := Queue.lookup_eq_some.mp hj
  split at h
  · rename_i data hdata
    obtain ⟨queue, hqueue, rfl⟩ := Option.map_eq_some_iff.mp h
    obtain ⟨i, hi, hid, hst, hend⟩ := Queue.failAttempt_eq_some.mp hqueue
    obtain rfl := w.queue.eq_of_id_eq hi hmem hid
    rcases hend with ⟨hleft, rfl⟩ | ⟨hlast, rfl⟩
    · exact .retriedRun i data hmem hst hdata hleft
    · exact .gaveUpRun i data hmem hst hdata hlast
  · cases h

/-- A job whose lock ran out goes back to the queue. -/
theorem stall_cases {w w' : JudgeFleet} {jobId : String} (h : step env w (.stall jobId) = some w') :
    StepCase env w (.stall jobId) w' := by
  simp only [step] at h
  split at h
  · cases h
  · rename_i hidle
    obtain ⟨queue, hqueue, rfl⟩ := Option.map_eq_some_iff.mp h
    obtain ⟨j, hj, rfl, hst, rfl⟩ := Queue.move_eq_some.mp hqueue
    exact .stall j (by simpa using hidle) hj hst

/-- Every event that happens is one of the cases. -/
theorem step_cases {w w' : JudgeFleet} {e : JudgeEvent} (h : step env w e = some w') :
    StepCase env w e w' := by
  cases e with
  | tick ms =>
    cases h
    exact .tick ms
  | record proposal guess =>
    cases h
    exact .record proposal guess
  | dispatch limit force =>
    cases h
    exact .dispatch limit force
  | add call => exact add_cases h
  | addFails call =>
    obtain ⟨d, hd, rfl⟩ := Option.map_eq_some_iff.mp h
    exact .addFails call d hd
  | addRun jobId data =>
    simp only [step] at h
    split at h
    · rename_i hrun
      cases h
      exact .addRun jobId data hrun
    · cases h
  | pick jobId => exact pick_cases h
  | promote jobId =>
    obtain ⟨queue, hqueue, rfl⟩ := Option.map_eq_some_iff.mp h
    obtain ⟨j, hj, rfl, hst, rfl⟩ := Queue.move_eq_some.mp hqueue
    exact .promote j hj hst
  | findEvaluation jobId => exact findEvaluation_cases h
  | loadProposal jobId => exact loadProposal_cases h
  | save jobId outcome => exact save_cases h
  | complete jobId => exact complete_cases h
  | throws jobId => exact throws_cases h
  | completeRun jobId => exact completeRun_cases h
  | throwRun jobId => exact throwRun_cases h
  | crash jobId =>
    obtain ⟨k, hk, rfl⟩ := Option.map_eq_some_iff.mp h
    obtain ⟨-, rfl⟩ := worker_eq_some hk
    exact .crash k hk
  | stall jobId => exact stall_cases h
  | deleteRun runId =>
    cases h
    exact .deleteRun runId
  | deleteProposals ids =>
    cases h
    exact .deleteProposals ids
  | deleteRunEvaluations runId =>
    cases h
    exact .deleteRunEvaluations runId
  | deleteFailedEvaluations =>
    cases h
    exact .deleteFailedEvaluations

/-! ### Where things come from -/

/-- A save overwrites the row read before, or inserts one for a proposal that is there. -/
theorem saveEvaluation_cases {w : JudgeFleet} {existing : Option ℕ} {llmProposalId : ℕ}
    {columns : CategoryEvaluation} {evaluations : Table ℕ CategoryEvaluation}
    (h : w.saveEvaluation existing llmProposalId columns = some evaluations) :
    (∃ id, existing = some id ∧ evaluations = w.evaluations.update id
        fun old => { columns with evaluatedAt := old.evaluatedAt }) ∨
      ∃ id, (existing = some id ∨ existing = none ∧ id = w.evaluations.nextId) ∧
        (∃ row ∈ w.proposals.rows, row.id = llmProposalId) ∧
        w.evaluations.insert id llmProposalId columns = some evaluations := by
  have there (hsome : (w.proposals.lookup llmProposalId).isSome = true) :
      ∃ row ∈ w.proposals.rows, row.id = llmProposalId := by
    obtain ⟨row, hrow⟩ := Option.isSome_iff_exists.mp hsome
    exact ⟨row, ProposalTable.lookup_eq_some.mp hrow⟩
  cases existing with
  | some id =>
    simp only [saveEvaluation] at h
    split at h
    · exact .inl ⟨id, rfl, (Option.some.inj h).symm⟩
    · split at h
      · rename_i hsome
        exact .inr ⟨id, .inl rfl, there hsome, h⟩
      · cases h
  | none =>
    simp only [saveEvaluation] at h
    split at h
    · rename_i hsome
      exact .inr ⟨_, .inr ⟨rfl, rfl⟩, there hsome, h⟩
    · cases h

/-- A job is one that was there, in whatever state, one that a dispatch adds, or a run's. -/
theorem job_origin {w w' : JudgeFleet} {e : JudgeEvent} (h : step env w e = some w')
    {j : Job String JudgeJobData} (hj : j ∈ w'.queue.jobs) :
    (∃ i ∈ w.queue.jobs, i.id = j.id ∧ i.data = j.data) ∨
      (∃ d ∈ w.dispatches, ∃ id ∈ d.todo, w.queue.lookup (judgeJobId d.force w.now id) = none ∧
        j = ⟨judgeJobId d.force w.now id, .evaluateCategory id d.force, .waiting, 0⟩) ∨
      ∃ data, j.data = .runStrategy data := by
  have kept (hj : j ∈ w.queue.jobs) : ∃ i ∈ w.queue.jobs, i.id = j.id ∧ i.data = j.data :=
    ⟨j, hj, rfl, rfl⟩
  have relisted {i top : Job String JudgeJobData} (hi : i ∈ w.queue.jobs)
      (hj : j = top ∨ j ∈ w.queue.jobs ∧ j.id ≠ top.id) (hid : i.id = top.id)
      (hdata : i.data = top.data) : ∃ i ∈ w.queue.jobs, i.id = j.id ∧ i.data = j.data := by
    rcases hj with rfl | ⟨hj, -⟩
    · exact ⟨i, hi, hid, hdata⟩
    · exact kept hj
  cases step_cases h with
  | add call d id rest hd htodo =>
    rcases Queue.mem_add.mp hj with hj | ⟨rfl, hfree⟩
    · exact .inl (kept hj)
    · exact .inr (.inl ⟨d, List.mem_of_getElem? hd, id, by simp [htodo], hfree, rfl⟩)
  | addRun jobId data =>
    rcases Queue.mem_add.mp hj with hj | ⟨rfl, -⟩
    · exact .inl (kept hj)
    · exact .inr (.inr ⟨data, rfl⟩)
  | pick i _ _ hi | pickRun i _ hi | promote i hi | stall i _ hi =>
    exact .inl (relisted hi (Queue.mem_relist.mp hj) rfl rfl)
  | retried _ i _ _ hi | retriedRun i _ hi =>
    exact .inl (relisted hi (Queue.mem_relist.mp hj) rfl rfl)
  | complete _ _ i _ _ _ hi | gaveUp _ i _ _ hi | completeRun i _ hi | gaveUpRun i _ hi =>
    exact .inl (relisted hi (Queue.eq_or_mem_of_mem_trim_relist hj) rfl rfl)
  | _ => exact .inl (kept hj)

/-- A dispatch is one that was there, with no more to do, or has just selected. -/
theorem dispatch_origin {w w' : JudgeFleet} {e : JudgeEvent} (h : step env w e = some w')
    {d : JudgeDispatch} (hd : d ∈ w'.dispatches) :
    (∃ old ∈ w.dispatches, old.force = d.force ∧ d.todo ⊆ old.todo) ∨
      ∃ limit, e = .dispatch limit d.force ∧
        d.todo = (w.selectPending d.force).take (clampLimit limit) := by
  have kept (hd : d ∈ w.dispatches) :
      ∃ old ∈ w.dispatches, old.force = d.force ∧ d.todo ⊆ old.todo :=
    ⟨d, hd, rfl, List.Subset.refl _⟩
  cases step_cases h with
  | dispatch limit force =>
    rcases List.mem_append.mp hd with hd | hd
    · exact .inl (kept hd)
    · obtain rfl := List.mem_singleton.mp hd
      exact .inr ⟨limit, rfl, rfl⟩
  | add call old id rest hold htodo =>
    rcases List.mem_or_eq_of_mem_set hd with hd | rfl
    · exact .inl (kept hd)
    · exact .inl ⟨old, List.mem_of_getElem? hold, rfl, by simp [htodo]⟩
  | addFails call old hold =>
    rcases List.mem_or_eq_of_mem_set hd with hd | rfl
    · exact .inl (kept hd)
    · exact .inl ⟨old, List.mem_of_getElem? hold, rfl, by simp⟩
  | _ => exact .inl (kept hd)

/-- A proposal with an evaluation had one before or has a worker that calls the model. -/
theorem evaluation_origin {w w' : JudgeFleet} {e : JudgeEvent} (h : step env w e = some w')
    {row : Row ℕ CategoryEvaluation} (hrow : row ∈ w'.evaluations.rows) :
    (∃ old ∈ w.evaluations.rows, old.key = row.key) ∨
      ∃ k ∈ w.workers, k.llmProposalId = row.key ∧
        ∃ existing loaded category group, k.phase = .calling existing loaded category group := by
  cases step_cases h with
  | save k existing loaded category group outcome evaluations hworker hphase hsave =>
    rcases saveEvaluation_cases hsave with ⟨id, -, rfl⟩ | ⟨id, -, -, hinsert⟩
    · obtain ⟨old, hold, rfl⟩ := Table.mem_update.mp hrow
      exact .inl ⟨old, hold, by simp⟩
    · rw [show _ = _ from (Table.insert_eq_some hinsert).1] at hrow
      rcases List.mem_cons.mp hrow with rfl | hrow
      · exact .inr ⟨k, (worker_eq_some hworker).1, rfl, existing, loaded, category, group, hphase⟩
      · exact .inl ⟨row, hrow, rfl⟩
  | deleteRun =>
    exact .inl ⟨row, (List.filter_sublist.trans List.filter_sublist).subset hrow, rfl⟩
  | deleteProposals | deleteRunEvaluations | deleteFailedEvaluations =>
    exact .inl ⟨row, List.filter_sublist.subset hrow, rfl⟩
  | _ => exact .inl ⟨row, hrow, rfl⟩

end JudgeFleet

end Connections
