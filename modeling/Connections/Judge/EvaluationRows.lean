import Connections.Judge.JudgeCases

/-!
# What the stored evaluations say

Whatever the order of dispatches, judge calls, saves, deletions and crashes, each stored evaluation
is about a used proposal with a successful guess that is still there, and the coverage counts are
those of the backlog.
-/

namespace Connections

open JobQueue KeyedTable

namespace JudgeFleet

variable {env : JudgeEnv}

/-! ### Workers and their jobs -/

/-- Each worker has an active job of its own, and the job names the worker's proposal. -/
structure Staffed (w : JudgeFleet) : Prop where
  distinct : (w.workers.map (·.jobId)).Nodup
  active : ∀ k ∈ w.workers, ∃ j ∈ w.queue.jobs, j.id = k.jobId ∧ j.state = .active ∧
    j.data = .evaluateCategory k.llmProposalId k.force

/-- A job id has one worker. -/
theorem Staffed.eq_of_jobId_eq {w : JudgeFleet} (h : Staffed w) {a b : JudgeWorker}
    (ha : a ∈ w.workers) (hb : b ∈ w.workers) (hid : a.jobId = b.jobId) : a = b :=
  List.inj_on_of_nodup_map h.distinct ha hb hid

/-- A worker's job is the job under its id. -/
theorem Staffed.job_eq {w : JudgeFleet} (h : Staffed w) {k : JudgeWorker}
    {j : Job String JudgeJobData} (hk : k ∈ w.workers) (hj : j ∈ w.queue.jobs)
    (hid : k.jobId = j.id) :
    j.state = .active ∧ j.data = .evaluateCategory k.llmProposalId k.force := by
  obtain ⟨i, hi, hik, hst, hdata⟩ := h.active k hk
  obtain rfl := w.queue.eq_of_id_eq hi hj (hik.trans hid)
  exact ⟨hst, hdata⟩

/-- A job that is not active, or that runs a strategy, has no judging worker. -/
theorem Staffed.ne_of_job {w : JudgeFleet} (h : Staffed w) {k : JudgeWorker}
    {j : Job String JudgeJobData} (hk : k ∈ w.workers) (hj : j ∈ w.queue.jobs)
    (hother : j.state ≠ .active ∨ ∃ data, j.data = .runStrategy data) : k.jobId ≠ j.id := by
  intro hid
  obtain ⟨hst, hdata⟩ := h.job_eq hk hj hid
  rcases hother with hst' | ⟨data, hrun⟩
  · exact hst' hst
  · rw [hdata] at hrun
    cases hrun

/-- A phase is written over the workers of one job. -/
theorem mem_setPhase {w : JudgeFleet} {jobId : String} {phase : JudgePhase} {k : JudgeWorker} :
    k ∈ (w.setPhase jobId phase).workers ↔
      ∃ old ∈ w.workers, (if old.jobId = jobId then { old with phase := phase } else old) = k :=
  List.mem_map

theorem jobIds_setPhase (w : JudgeFleet) (jobId : String) (phase : JudgePhase) :
    (w.setPhase jobId phase).workers.map (·.jobId) = w.workers.map (·.jobId) := by
  rw [setPhase, List.map_map]
  apply List.map_congr_left
  intro k _
  simp only [Function.comp_apply]
  split <;> rfl

theorem mem_dismiss {w : JudgeFleet} {jobId : String} {k : JudgeWorker} :
    k ∈ (w.dismiss jobId).workers ↔ k ∈ w.workers ∧ k.jobId ≠ jobId := by
  simp [dismiss]

/-- The jobs of the workers stay active when the queue keeps them. -/
theorem Staffed.of_queue {w w' : JudgeFleet} (h : Staffed w) (hworkers : w'.workers = w.workers)
    (hqueue : ∀ k ∈ w.workers, ∀ j ∈ w.queue.jobs, j.id = k.jobId → j.state = .active →
      j ∈ w'.queue.jobs) : Staffed w' where
  distinct := by rw [hworkers]; exact h.distinct
  active := by
    intro k hk
    rw [hworkers] at hk
    obtain ⟨j, hj, hid, hst, hdata⟩ := h.active k hk
    exact ⟨j, hqueue k hk j hj hid hst, hid, hst, hdata⟩

/-- Writing a phase keeps the workers' jobs. -/
theorem Staffed.setPhase {w : JudgeFleet} (h : Staffed w) (jobId : String) (phase : JudgePhase) :
    Staffed (w.setPhase jobId phase) where
  distinct := by rw [jobIds_setPhase]; exact h.distinct
  active := by
    intro k hk
    obtain ⟨old, hold, rfl⟩ := mem_setPhase.mp hk
    obtain ⟨j, hj, hid, hst, hdata⟩ := h.active old hold
    split <;> exact ⟨j, hj, hid, hst, hdata⟩

/-- A worker that leaves takes nothing from the others when the queue keeps their jobs. -/
theorem Staffed.dismiss {w w' : JudgeFleet} {jobId : String} (h : Staffed w)
    (hworkers : w'.workers = (w.dismiss jobId).workers)
    (hqueue : ∀ j ∈ w.queue.jobs, j.id ≠ jobId → j.state = .active → j ∈ w'.queue.jobs) :
    Staffed w' where
  distinct := by
    rw [hworkers]
    exact h.distinct.sublist (List.filter_sublist.map _)
  active := by
    intro k hk
    rw [hworkers] at hk
    obtain ⟨hk, hne⟩ := mem_dismiss.mp hk
    obtain ⟨j, hj, hid, hst, hdata⟩ := h.active k hk
    exact ⟨j, hqueue j hj (hid ▸ hne) hst, hid, hst, hdata⟩

theorem staffed_fresh : Staffed fresh := ⟨List.nodup_nil, by simp [fresh]⟩

theorem Staffed.step {w w' : JudgeFleet} {e : JudgeEvent} (h : Staffed w)
    (hstep : step env w e = some w') : Staffed w' := by
  cases step_cases hstep with
  | add | addRun => exact h.of_queue rfl fun _ _ j hj _ _ => Queue.mem_add.mpr (.inl hj)
  | pick j id force hj hst hdata =>
    have hidle : ∀ k ∈ w.workers, k.jobId ≠ j.id := fun k hk =>
      h.ne_of_job hk hj (.inl (by simp [hst]))
    refine ⟨List.nodup_cons.mpr ⟨?_, h.distinct⟩, ?_⟩
    · intro hmem
      obtain ⟨k, hk, hid⟩ := List.mem_map.mp hmem
      exact hidle k hk hid
    · intro k hk
      rcases List.mem_cons.mp hk with rfl | hk
      · exact ⟨{ j with state := .active }, Queue.mem_relist.mpr (.inl rfl), rfl, rfl, hdata⟩
      · obtain ⟨i, hi, hid, hist, hidata⟩ := h.active k hk
        refine ⟨i, Queue.mem_relist.mpr (.inr ⟨hi, ?_⟩), hid, hist, hidata⟩
        exact fun hsame => hidle k hk (hid.symm.trans hsame)
  | pickRun j data hj hst | promote j hj hst =>
    refine h.of_queue rfl fun k hk i hi hid _ => Queue.mem_relist.mpr (.inr ⟨hi, fun hsame => ?_⟩)
    exact h.ne_of_job hk hj (.inl (by simp [hst])) (hid.symm.trans hsame)
  | find | load => exact h.setPhase _ _
  | save k existing row category group outcome =>
    have hphase := h.setPhase k.jobId (.done outcome.result)
    exact ⟨hphase.distinct, hphase.active⟩
  | complete k result j | gaveUp k j =>
    refine h.dismiss rfl fun i hi hne hist => Queue.mem_trim_relist_of_ne hi hne ?_
    simp [hist]
  | retried k j => exact h.dismiss rfl fun i hi hne _ => Queue.mem_relist.mpr (.inr ⟨hi, hne⟩)
  | completeRun j data hj _ hdata | gaveUpRun j data hj _ hdata =>
    refine h.of_queue rfl fun k hk i hi hid hist =>
      Queue.mem_trim_relist_of_ne hi (fun hsame => ?_) (by simp [hist])
    exact h.ne_of_job hk hj (.inr ⟨data, hdata⟩) (hid.symm.trans hsame)
  | retriedRun j data hj _ hdata =>
    refine h.of_queue rfl fun k hk i hi hid _ => Queue.mem_relist.mpr (.inr ⟨hi, fun hsame => ?_⟩)
    exact h.ne_of_job hk hj (.inr ⟨data, hdata⟩) (hid.symm.trans hsame)
  | crash k => exact h.dismiss rfl fun i hi _ _ => hi
  | stall j hidle hj =>
    refine h.of_queue rfl fun k hk i hi hid _ => Queue.mem_relist.mpr (.inr ⟨hi, fun hsame => ?_⟩)
    exact hidle k hk (hid.symm.trans hsame)
  | _ => exact ⟨h.distinct, h.active⟩

/-! ### What the judge is asked -/

/-- The judge is asked about a used proposal with a successful guess, under the proposal's category,
and for the answer group that its words name. -/
structure Asked (env : JudgeEnv) (row : StoredProposal) (guess : Guess) (category : String)
    (group : AnswerGroup) : Prop where
  eligible : row.eligible = true
  loaded : row.guess = some guess
  group : ∃ puzzle, env.puzzle guess.puzzleId = some puzzle ∧
    matchAnswerGroup env.upper guess.words puzzle = some group
  category : category = row.proposal.category

/-- An evaluation says what the judge was asked about a proposal, and has a verdict exactly when the
call gave one. -/
structure Describes (env : JudgeEnv) (row : StoredProposal) (value : CategoryEvaluation) :
    Prop where
  asked : ∃ guess group, Asked env row guess value.proposedCategory group ∧
    (value.answerGroupId, value.actualCategory) = env.groupRow guess.puzzleId group
  run : value.strategyRunId = row.proposal.strategyRunId
  verdict : value.verdict.isSome = true ↔ value.status = .judged

/-- The decision to judge is made about an eligible proposal whose words name a group. -/
theorem decision_eq_judge {existing force : Bool} {row : StoredProposal} {category : String}
    {group : AnswerGroup} :
    env.decision existing force (some row) = .judge category group ↔
      ((existing && !force) = false ∧ ∃ guess, Asked env row guess category group) := by
  cases hguess : row.guess with
  | none =>
    constructor
    · intro h
      simp only [JudgeEnv.decision, evaluateProposal, Option.map_some, hguess] at h
      split at h <;> cases h
    · rintro ⟨-, guess, hasked⟩
      rw [hasked.loaded] at hguess
      cases hguess
  | some guess =>
    simp only [JudgeEnv.decision, evaluateProposal, Option.map_some, Option.bind_some, hguess]
    constructor
    · intro h
      split at h
      · cases h
      · rename_i hnew
        split at h
        · cases h
        · rename_i hused
          split at h
          · rename_i found hfound
            cases h
            refine ⟨by simpa using hnew, guess, ?_, hguess, ?_, rfl⟩
            · simpa [StoredProposal.eligible, hguess] using hused
            · exact Option.bind_eq_some_iff.mp hfound
          · cases h
    · rintro ⟨hnew, other, hasked⟩
      obtain rfl : guess = other := Option.some.inj (hguess.symm.trans hasked.loaded)
      obtain ⟨puzzle, hpuzzle, hgroup⟩ := hasked.group
      have hused : ¬ (row.proposal.status ≠ .used ∨ guess.result ≠ .success) := by
        simpa [StoredProposal.eligible, hguess] using hasked.eligible
      rw [if_neg (by simp [hnew]), if_neg hused, hpuzzle, Option.bind_some, hgroup,
        ← hasked.category]

/-- The columns that a judge call leaves say what it was asked. -/
theorem Asked.describes {row : StoredProposal} {guess : Guess} {category : String}
    {group : AnswerGroup} (h : Asked env row guess category group)
    (outcome : JudgeCategoryOutcome) (now : ℕ) :
    Describes env row (evaluationColumns env row category group outcome now) := by
  have hguess := h.loaded
  cases outcome with
  | ok data =>
    refine ⟨⟨guess, group, h, ?_⟩, rfl, by simp [evaluationColumns]⟩
    simp [evaluationColumns, hguess]
  | error failure =>
    refine ⟨⟨guess, group, h, ?_⟩, rfl, by simp [evaluationColumns]⟩
    simp [evaluationColumns, hguess]

/-- The time of an evaluation says nothing about what was asked. -/
theorem Describes.evaluatedAt {row : StoredProposal} {value : CategoryEvaluation}
    (h : Describes env row value) (at' : ℕ) : Describes env row { value with evaluatedAt := at' } :=
  ⟨h.asked, h.run, h.verdict⟩

/-! ### Deletions -/

/-- The evaluations that go with deleted proposals are those of these proposals. -/
theorem mem_dropProposals {w : JudgeFleet} {drop : StoredProposal → Bool}
    {e : Row ℕ CategoryEvaluation} :
    e ∈ (w.dropProposals drop).evaluations.rows ↔
      e ∈ w.evaluations.rows ∧ ∀ row ∈ w.proposals.rows, row.id = e.key → drop row = false := by
  simp only [dropProposals, Table.filter, List.mem_filter, Bool.not_eq_true', List.any_eq_false,
    Bool.and_eq_true, decide_eq_true_eq, not_and]
  constructor
  · rintro ⟨he, hkept⟩
    exact ⟨he, fun row hrow hid => Bool.eq_false_iff.mpr fun hdrop => hkept row hrow hdrop hid⟩
  · rintro ⟨he, hkept⟩
    refine ⟨he, fun row hrow hdrop hid => ?_⟩
    rw [hkept row hrow hid] at hdrop
    cases hdrop

/-- A proposal that is not deleted stays. -/
theorem mem_proposals_dropProposals {w : JudgeFleet} {drop : StoredProposal → Bool}
    {row : StoredProposal} (hrow : row ∈ w.proposals.rows) (hkept : drop row = false) :
    row ∈ (w.dropProposals drop).proposals.rows :=
  List.mem_filter.mpr ⟨hrow, by simp [hkept]⟩

/-! ### The invariant -/

/-- Stored evaluations describe proposals that are there, a worker's request describes the proposal
of its job, and an evaluation id that a worker has read belongs to the worker's proposal. -/
structure Sound (env : JudgeEnv) (w : JudgeFleet) : Prop where
  staffed : Staffed w
  stored : ∀ e ∈ w.evaluations.rows, ∃ row ∈ w.proposals.rows, row.id = e.key ∧
    Describes env row e.value
  calling : ∀ k ∈ w.workers, ∀ existing row category group,
    k.phase = .calling existing row category group →
      row.id = k.llmProposalId ∧ row.id < w.proposals.nextId ∧
        (∀ other ∈ w.proposals.rows, other.id = row.id → other = row) ∧
        ∃ guess, Asked env row guess category group
  ids : ∃ keyOf : ℕ → ℕ, (∀ e ∈ w.evaluations.rows, keyOf e.id = e.key) ∧
    ∀ k ∈ w.workers, ∀ id, k.phase.existing = some id →
      keyOf id = k.llmProposalId ∧ id < w.evaluations.nextId

theorem sound_fresh : Sound env fresh where
  staffed := staffed_fresh
  stored := by simp [fresh, Table.empty]
  calling := by simp [fresh]
  ids := ⟨fun id => id, by simp [fresh, Table.empty], by simp [fresh]⟩

/-- Workers that leave or start change nothing about what is stored and asked. -/
theorem Sound.of_workers {w w' : JudgeFleet} (h : Sound env w) (hstaffed : Staffed w')
    (hproposals : w'.proposals = w.proposals) (hevaluations : w'.evaluations = w.evaluations)
    (hworkers : ∀ k ∈ w'.workers, k ∈ w.workers ∨ k.phase = .started) : Sound env w' where
  staffed := hstaffed
  stored := by rw [hproposals, hevaluations]; exact h.stored
  calling := by
    intro k hk existing row category group hphase
    rw [hproposals]
    rcases hworkers k hk with hk | hstarted
    · exact h.calling k hk existing row category group hphase
    · rw [hstarted] at hphase
      cases hphase
  ids := by
    obtain ⟨keyOf, hrows, hread⟩ := h.ids
    rw [hevaluations]
    refine ⟨keyOf, hrows, fun k hk id hid => ?_⟩
    rcases hworkers k hk with hk | hstarted
    · exact hread k hk id hid
    · rw [hstarted] at hid
      cases hid

/-- A worker moves on to a phase that says what its proposal and the tables say. -/
theorem Sound.setPhase {w : JudgeFleet} {k : JudgeWorker} {phase : JudgePhase} (h : Sound env w)
    (hk : k ∈ w.workers)
    (hcalling : ∀ existing row category group, phase = .calling existing row category group →
      row ∈ w.proposals.rows ∧ row.id = k.llmProposalId ∧
        ∃ guess, Asked env row guess category group)
    (hread : ∀ id, phase.existing = some id → k.phase.existing = some id ∨
      ∃ e ∈ w.evaluations.rows, e.id = id ∧ e.key = k.llmProposalId) :
    Sound env (w.setPhase k.jobId phase) where
  staffed := h.staffed.setPhase _ _
  stored := h.stored
  calling := by
    intro k' hk' existing row category group hphase
    obtain ⟨old, hold, rfl⟩ := mem_setPhase.mp hk'
    split at hphase
    · rename_i hjob
      obtain rfl := h.staffed.eq_of_jobId_eq hold hk hjob
      obtain ⟨hrow, hid, hasked⟩ := hcalling existing row category group hphase
      rw [if_pos rfl]
      exact ⟨hid, w.proposals.ids_lt row hrow,
        fun other hother hsame => w.proposals.eq_of_id_eq hother hrow hsame, hasked⟩
    · rename_i hjob
      rw [if_neg hjob]
      exact h.calling old hold existing row category group hphase
  ids := by
    obtain ⟨keyOf, hrows, holds⟩ := h.ids
    refine ⟨keyOf, hrows, fun k' hk' id hid => ?_⟩
    obtain ⟨old, hold, rfl⟩ := mem_setPhase.mp hk'
    split at hid
    · rename_i hjob
      obtain rfl := h.staffed.eq_of_jobId_eq hold hk hjob
      rw [if_pos rfl]
      rcases hread id hid with hid | ⟨e, he, rfl, hkey⟩
      · exact holds old hold id hid
      · exact ⟨(hrows e he).trans hkey, w.evaluations.ids_lt e he⟩
    · rename_i hjob
      rw [if_neg hjob]
      exact holds old hold id hid

/-- Deletions that keep the proposal of each evaluation they keep. -/
theorem Sound.of_drop {w w' : JudgeFleet} (h : Sound env w) (hstaffed : Staffed w')
    (hworkers : w'.workers = w.workers)
    (hproposals : w'.proposals.rows ⊆ w.proposals.rows)
    (hnext : w'.proposals.nextId = w.proposals.nextId)
    (hevaluations : w'.evaluations.rows ⊆ w.evaluations.rows)
    (hnextEval : w'.evaluations.nextId = w.evaluations.nextId)
    (hkept : ∀ e ∈ w'.evaluations.rows, ∀ row ∈ w.proposals.rows, row.id = e.key →
      Describes env row e.value → row ∈ w'.proposals.rows) : Sound env w' where
  staffed := hstaffed
  stored := by
    intro e he
    obtain ⟨row, hrow, hid, hdescribes⟩ := h.stored e (hevaluations he)
    exact ⟨row, hkept e he row hrow hid hdescribes, hid, hdescribes⟩
  calling := by
    intro k hk existing row category group hphase
    rw [hworkers] at hk
    obtain ⟨hid, hlt, hunique, hasked⟩ := h.calling k hk existing row category group hphase
    exact ⟨hid, hnext ▸ hlt, fun other hother => hunique other (hproposals hother), hasked⟩
  ids := by
    obtain ⟨keyOf, hrows, hread⟩ := h.ids
    rw [hworkers, hnextEval]
    exact ⟨keyOf, fun e he => hrows e (hevaluations he), hread⟩

/-- A worker that is done has read nothing, and the others have read what they had. -/
theorem existing_setPhase_done {w : JudgeFleet} {jobId : String} {result : EvaluateProposalResult}
    {k : JudgeWorker} {id : ℕ} (hk : k ∈ (w.setPhase jobId (.done result)).workers)
    (hid : k.phase.existing = some id) : k ∈ w.workers := by
  obtain ⟨old, hold, rfl⟩ := mem_setPhase.mp hk
  split at hid
  · cases hid
  · rename_i hother
    rw [if_neg hother]
    exact hold

/-- A save keeps the invariant. -/
theorem Sound.save {w : JudgeFleet} {k : JudgeWorker} {existing : Option ℕ} {row : StoredProposal}
    {category : String} {group : AnswerGroup} {outcome : JudgeCategoryOutcome}
    {evaluations : Table ℕ CategoryEvaluation} (h : Sound env w) (hk : k ∈ w.workers)
    (hphase : k.phase = .calling existing row category group)
    (hsave : w.saveEvaluation existing k.llmProposalId
      (evaluationColumns env row category group outcome w.now) = some evaluations) :
    Sound env { w.setPhase k.jobId (.done outcome.result) with evaluations := evaluations } := by
  have hdone : Sound env (w.setPhase k.jobId (.done outcome.result)) :=
    h.setPhase hk (by rintro _ _ _ _ ⟨⟩) (by rintro id ⟨⟩)
  have hstaffed : Staffed { w.setPhase k.jobId (.done outcome.result) with
      evaluations := evaluations } := ⟨hdone.staffed.distinct, hdone.staffed.active⟩
  obtain ⟨hid, -, hunique, guess, hasked⟩ := h.calling k hk existing row category group hphase
  have hdescribes := hasked.describes outcome w.now
  obtain ⟨keyOf, hrows, hread⟩ := h.ids
  have hown (id : ℕ) (hexisting : existing = some id) : keyOf id = k.llmProposalId :=
    (hread k hk id (by rw [hphase]; exact hexisting)).1
  rcases saveEvaluation_cases hsave with ⟨id, hexisting, rfl⟩ | ⟨id, hexisting,
    ⟨other, hother, hkey⟩, hinsert⟩
  · refine ⟨hstaffed, ?_, hdone.calling, keyOf, ?_, ?_⟩
    · intro e he
      obtain ⟨old, hold, rfl⟩ := Table.mem_update.mp he
      obtain ⟨stored, hstored, hsid, hsdescribes⟩ := h.stored old hold
      refine ⟨stored, hstored, by simpa using hsid, ?_⟩
      unfold Table.changeAt
      split
      · -- The row under the id that was read is the one of the worker's proposal.
        rename_i hrow
        have hkey : old.key = k.llmProposalId := by
          rw [← hrows old hold, hrow, hown id hexisting]
        obtain rfl := hunique stored hstored (hsid.trans (hkey.trans hid.symm))
        exact hdescribes.evaluatedAt _
      · exact hsdescribes
    · intro e he
      obtain ⟨old, hold, rfl⟩ := Table.mem_update.mp he
      simpa using hrows old hold
    · intro other hother i hi
      exact hread other (existing_setPhase_done hother hi) i hi
  · obtain ⟨hinserted, hnext, hfree⟩ := Table.insert_eq_some hinsert
    obtain rfl := hunique other hother (hkey.trans hid.symm)
    refine ⟨hstaffed, ?_, hdone.calling, Function.update keyOf id k.llmProposalId, ?_, ?_⟩
    · intro e he
      rw [hinserted] at he
      rcases List.mem_cons.mp he with rfl | he
      · exact ⟨other, hother, hkey, hdescribes⟩
      · exact h.stored e he
    · intro e he
      rw [hinserted] at he
      rcases List.mem_cons.mp he with rfl | he
      · simp
      · rw [Function.update_of_ne (hfree e he).1]
        exact hrows e he
    · intro reader hreader i hi
      obtain ⟨hkeyOf, hlt⟩ := hread reader (existing_setPhase_done hreader hi) i hi
      change _ ∧ i < evaluations.nextId
      rw [hnext]
      refine ⟨?_, Nat.lt_of_lt_of_le hlt (Nat.le_max_left _ _)⟩
      by_cases hsame : i = id
      · subst hsame
        rcases hexisting with hexisting | ⟨-, hfresh⟩
        · rw [Function.update_self, ← hkeyOf, hown i hexisting]
        · exact absurd hfresh (Nat.ne_of_lt hlt)
      · rw [Function.update_of_ne hsame]
        exact hkeyOf

/-- Every event keeps the invariant. -/
theorem Sound.step {w w' : JudgeFleet} {e : JudgeEvent} (h : Sound env w)
    (hstep : step env w e = some w') : Sound env w' := by
  have hstaffed := h.staffed.step hstep
  cases step_cases hstep with
  | record proposal guess =>
    refine ⟨hstaffed, ?_, ?_, h.ids⟩
    · intro e he
      obtain ⟨row, hrow, hid, hdescribes⟩ := h.stored e he
      exact ⟨row, List.mem_cons_of_mem _ hrow, hid, hdescribes⟩
    · intro k hk existing row category group hphase
      obtain ⟨hid, hlt, hunique, hasked⟩ := h.calling k hk existing row category group hphase
      refine ⟨hid, Nat.lt_succ_of_lt hlt, ?_, hasked⟩
      -- The new proposal's id is none that a worker has loaded.
      rintro other (_ | ⟨_, hother⟩) hsame
      · exact absurd hsame.symm (Nat.ne_of_lt hlt)
      · exact hunique other hother hsame
  | find k hworker hphase =>
    have hk := (worker_eq_some hworker).1
    refine h.setPhase hk ?_ ?_
    · intro existing row category group hcalling
      simp only [checkedPhase] at hcalling
      split at hcalling <;> cases hcalling
    · intro id hid
      simp only [checkedPhase] at hid
      split at hid
      · cases hid
      · obtain ⟨e, he, rfl⟩ := Option.map_eq_some_iff.mp hid
        obtain ⟨hmem, hkey⟩ := Table.lookup_eq_some.mp he
        exact .inr ⟨e, hmem, rfl, hkey⟩
  | load k existing hworker hphase =>
    have hk := (worker_eq_some hworker).1
    refine h.setPhase hk ?_ ?_
    · intro existing' row category group hcalling
      simp only [loadedPhase] at hcalling
      split at hcalling
      · rename_i row' category' group' hrow hdecision
        cases hcalling
        rw [hrow] at hdecision
        obtain ⟨hmem, hid⟩ := ProposalTable.lookup_eq_some.mp hrow
        exact ⟨hmem, hid, (decision_eq_judge.mp hdecision).2⟩
      · cases hcalling
      · cases hcalling
    · intro id hid
      simp only [loadedPhase] at hid
      split at hid
      · exact .inl (by rw [hphase]; exact hid)
      · cases hid
      · cases hid
  | save k existing row category group outcome evaluations hworker hphase hsave =>
    exact h.save (worker_eq_some hworker).1 hphase hsave
  | deleteRun runId =>
    refine h.of_drop hstaffed rfl List.filter_sublist.subset rfl
      (List.filter_sublist.trans List.filter_sublist).subset rfl ?_
    intro e he row hrow hid _
    exact mem_proposals_dropProposals hrow ((mem_dropProposals.mp he).2 row hrow hid)
  | deleteProposals ids =>
    refine h.of_drop hstaffed rfl List.filter_sublist.subset rfl List.filter_sublist.subset rfl ?_
    intro e he row hrow hid _
    exact mem_proposals_dropProposals hrow ((mem_dropProposals.mp he).2 row hrow hid)
  | deleteRunEvaluations runId =>
    exact h.of_drop hstaffed rfl (List.Subset.refl _) rfl List.filter_sublist.subset rfl
      fun _ _ _ hrow _ _ => hrow
  | deleteFailedEvaluations =>
    exact h.of_drop hstaffed rfl (List.Subset.refl _) rfl List.filter_sublist.subset rfl
      fun _ _ _ hrow _ _ => hrow
  | pick j id force =>
    refine h.of_workers hstaffed rfl rfl fun k hk => ?_
    rcases List.mem_cons.mp hk with rfl | hk
    · exact .inr rfl
    · exact .inl hk
  | complete k | retried k | gaveUp k | crash k =>
    exact h.of_workers hstaffed rfl rfl fun i hi => .inl (mem_dismiss.mp hi).1
  | _ => exact h.of_workers hstaffed rfl rfl fun k hk => .inl hk

/-- Every reachable state is sound. -/
theorem sound_of_reaches {w : JudgeFleet} (h : Run.Reaches (step env) Run.always fresh w) :
    Sound env w :=
  h.invariant sound_fresh fun _ _ _ hs _ hstep => hs.step hstep

/-! ### The coverage -/

/-- The proposals with an evaluation are as many as the evaluations. -/
theorem Sound.judged_eq {w : JudgeFleet} (h : Sound env w) :
    ((w.proposals.rows.filter (·.eligible)).filter fun row =>
      (w.evaluations.lookup row.id).isSome).length = w.evaluations.rows.length := by
  have hids : (w.proposals.rows.map (·.id)).Nodup :=
    List.pairwise_map.mpr (w.proposals.newest_first.imp fun hgt => Nat.ne_of_gt hgt)
  have hperm : (((w.proposals.rows.filter (·.eligible)).filter fun row =>
      (w.evaluations.lookup row.id).isSome).map (·.id)).Perm (w.evaluations.rows.map (·.key)) := by
    rw [List.perm_ext_iff_of_nodup
      (hids.sublist ((List.filter_sublist.trans List.filter_sublist).map _))
      w.evaluations.keys_nodup]
    intro id
    simp only [List.mem_map, List.mem_filter]
    constructor
    · rintro ⟨row, ⟨-, hsome⟩, rfl⟩
      obtain ⟨e, he⟩ := Option.isSome_iff_exists.mp hsome
      exact ⟨e, Table.lookup_eq_some.mp he⟩
    · rintro ⟨e, he, rfl⟩
      obtain ⟨row, hrow, hid, hdescribes⟩ := h.stored e he
      obtain ⟨guess, group, hasked, -⟩ := hdescribes.asked
      refine ⟨row, ⟨⟨hrow, hasked.eligible⟩, ?_⟩, hid⟩
      rw [Table.lookup_eq_some.mpr ⟨he, hid.symm⟩]
      rfl
  simpa using hperm.length_eq

/-- Those without an evaluation are what a dispatch without force selects from. -/
theorem pending_eq (w : JudgeFleet) : w.getCoverage.pending = (w.selectPending false).length := by
  have hsplit := List.length_eq_length_filter_add
    (l := w.proposals.rows.filter (·.eligible)) fun row => (w.evaluations.lookup row.id).isSome
  have hpending : w.selectPending false = ((w.proposals.rows.filter (·.eligible)).filter
      fun row => !(w.evaluations.lookup row.id).isSome).map (·.id) := by
    rw [selectPending, List.filter_filter]
    congr 1
    apply List.filter_congr
    intro row _
    simp [Bool.and_comm]
  simp only [getCoverage, hpending, List.length_map]
  omega

/-- In every reachable state the stored evaluations are about used proposals with a successful guess
that are still there, each with the run, the category and the answer group that the judge was asked
about and a verdict exactly when the call gave one; and the coverage counts them and what is left to
dispatch. -/
theorem evaluations_describe_and_coverage_counts {w : JudgeFleet}
    (h : Run.Reaches (step env) Run.always fresh w) :
    (∀ e ∈ w.evaluations.rows, ∃ row ∈ w.proposals.rows, row.id = e.key ∧
        Describes env row e.value) ∧
      w.getCoverage.judged = w.evaluations.rows.length ∧
      w.getCoverage.pending = (w.selectPending false).length := by
  have hsound := sound_of_reaches h
  refine ⟨hsound.stored, ?_, w.pending_eq⟩
  exact congrArg Int.ofNat hsound.judged_eq

section Runs

/-- A judge of guesses on one stored puzzle. -/
def insectEnv : JudgeEnv where
  upper := asciiUpperCase
  puzzle := fun _ => some RunWorld.insectsAndTrees
  groupRow := fun _ group => (group.words.length, "INSECTS")
  judgeModel := "gpt-5-mini"
  judgeProvider := "openai"

/-- A used proposal and the guess that solved a group with it. -/
def insectProposal : LlmProposal := ⟨1, 1, ["ANT", "BEE", "FLY", "GNAT"], "BUGS", .used, some 1⟩

def insectGuess : Guess := ⟨1, 1, ["ANT", "BEE", "FLY", "GNAT"], .success, 1, .strategy⟩

/-- A worker on the first stored proposal, up to its call of the model. -/
def firstCall : List JudgeEvent :=
  [.record insectProposal (some insectGuess), .dispatch none false, .add 0, .pick "cat-eval-0",
    .findEvaluation "cat-eval-0", .loadProposal "cat-eval-0"]

/-- The verdict on the first proposal, saved. -/
def firstVerdict : List JudgeEvent :=
  firstCall ++ [.save "cat-eval-0" (.ok ⟨.correct, "the same set", "gpt-5-mini", 20, none, none⟩)]

/-- A saved verdict describes its proposal, and is all that there is to count. -/
theorem first_verdict_describes_and_counts :
    ∃ w, Run.Reaches (step insectEnv) Run.always fresh w ∧ w.evaluations.rows.length = 1 ∧
      (∀ e ∈ w.evaluations.rows, ∃ row ∈ w.proposals.rows, row.id = e.key ∧
        Describes insectEnv row e.value) ∧
      w.getCoverage.judged = 1 := by
  obtain ⟨w, hrun, hone⟩ := Run.exists_reaches (step insectEnv) Run.always fresh firstVerdict
    (fun w => decide (w.evaluations.rows.length = 1)) (by decide +kernel)
  obtain ⟨hdescribes, hjudged, -⟩ := evaluations_describe_and_coverage_counts hrun
  have hone := of_decide_eq_true hone
  exact ⟨w, hrun, hone, hdescribes, by rw [hjudged, hone]; rfl⟩

end Runs

end JudgeFleet

end Connections
