import Connections.Judge.OneJudge

/-!
# What a dispatch does not bring back

Completed jobs stay in the queue, under the plain id of their proposal, until newer ones push them
out; an evaluation that is deleted before that is not made again.  And a dispatch selects the newest
proposals, so proposals that match no answer group keep older ones from being selected.
-/

namespace Connections

open JobQueue KeyedTable

namespace JudgeFleet

variable {env : JudgeEnv}

/-! ### Deleted evaluations -/

/-- An event that puts a job among the completed ones. -/
def completes : JudgeEvent → Bool
  | .complete _ | .completeRun _ => true
  | _ => false

/-- What a run notes: a mark for each job that completes. -/
def noteCompletion (_ : JudgeFleet) (e : JudgeEvent) (_ : JudgeFleet) : Option Unit :=
  if completes e then some () else none

/-- A completed job moves back by one place with each job that completes, and is there while it is
among those that are kept. -/
theorem completed_step {w w' : JudgeFleet} {e : JudgeEvent} (h : step env w e = some w')
    {j : Job String JudgeJobData} {rank : ℕ} (hj : j ∈ (w.queue.ofState .completed).take rank)
    (hroom : rank + (noteCompletion w e w').toList.length ≤ removeOnCompleteCount) :
    j ∈ (w'.queue.ofState .completed).take (rank + (noteCompletion w e w').toList.length) := by
  obtain ⟨hmem, hcompleted⟩ := List.mem_filter.mp (List.mem_of_mem_take hj)
  have hst : j.state = .completed := of_decide_eq_true hcompleted
  -- A job in another state is another job.
  have hne {i : Job String JudgeJobData} (hi : i ∈ w.queue.jobs) (hother : i.state ≠ .completed) :
      j.id ≠ i.id := by
    intro hid
    rw [w.queue.eq_of_id_eq hmem hi hid] at hst
    exact hother hst
  have relisted {i : Job String JudgeJobData} {st : JobState} {n : ℕ} (hi : i ∈ w.queue.jobs)
      (hother : i.state ≠ .completed) (hnext : st ≠ .completed) :
      j ∈ ((w.queue.relist ⟨i.id, i.data, st, n⟩).ofState .completed).take rank := by
    have hid := hne hi hother
    have hkept := Queue.mem_take_ofState_relist (k := ⟨i.id, i.data, st, n⟩) hj hid
    rwa [if_neg hnext] at hkept
  have finished {i : Job String JudgeJobData} (hi : i ∈ w.queue.jobs) (hactive : i.state = .active)
      (hroom : rank + 1 ≤ removeOnCompleteCount) :
      j ∈ (((w.queue.relist { i with state := .completed }).trim .completed
        removeOnCompleteCount).ofState .completed).take (rank + 1) := by
    rw [Queue.ofState_trim_self, List.take_take, Nat.min_eq_left hroom]
    have hid := hne hi (by simp [hactive])
    have hkept := Queue.mem_take_ofState_relist (k := { i with state := .completed }) hj hid
    rwa [if_pos rfl] at hkept
  have failed {i : Job String JudgeJobData} {n : ℕ} (hi : i ∈ w.queue.jobs)
      (hactive : i.state = .active) :
      j ∈ (((w.queue.relist ⟨i.id, i.data, .failed, n⟩).trim .failed
        removeOnFailCount).ofState .completed).take rank := by
    rw [Queue.ofState_trim_of_ne _ (by decide)]
    exact relisted hi (by simp [hactive]) (by decide)
  cases step_cases h with
  | add | addRun =>
    rw [Queue.ofState_add_of_ne _ (by decide)]
    exact hj
  | pick i _ _ hi hwaiting | pickRun i _ hi hwaiting =>
    exact relisted hi (by simp [hwaiting]) (by decide)
  | promote i hi hdelayed => exact relisted hi (by simp [hdelayed]) (by decide)
  | stall i _ hi hactive => exact relisted hi (by simp [hactive]) (by decide)
  | retried _ i _ _ hi hactive | retriedRun i _ hi hactive =>
    exact relisted hi (by simp [hactive]) (by decide)
  | complete _ _ i _ _ _ hi hactive | completeRun i _ hi hactive =>
    exact finished hi hactive hroom
  | gaveUp _ i _ _ hi hactive | gaveUpRun i _ hi hactive => exact failed hi hactive
  | _ => exact hj

/-- A completed job under the plain id of a proposal that has no evaluation. -/
structure Spent (llmProposalId : ℕ) (j : Job String JudgeJobData) (rank : ℕ) (w : JudgeFleet) :
    Prop where
  collapsed : Collapsed w
  kept : j ∈ (w.queue.ofState .completed).take rank
  plain : j.id = categoryEvalJobId llmProposalId
  free : w.evaluations.lookup llmProposalId = none

/-- No worker judges the proposal of a job that has completed. -/
theorem Spent.worker_ne {llmProposalId : ℕ} {j : Job String JudgeJobData} {rank : ℕ}
    {w : JudgeFleet} (h : Spent llmProposalId j rank w) {k : JudgeWorker} (hk : k ∈ w.workers) :
    k.llmProposalId ≠ llmProposalId := by
  rintro rfl
  obtain ⟨hmem, hcompleted⟩ := List.mem_filter.mp (List.mem_of_mem_take h.kept)
  have hid : k.jobId = j.id := (h.collapsed.worker hk).1.trans h.plain.symm
  have hactive := (h.collapsed.staffed.job_eq hk hmem hid).1
  rw [of_decide_eq_true hcompleted] at hactive
  cases hactive

/-- An unforced event keeps the job and makes no evaluation. -/
theorem Spent.step {llmProposalId : ℕ} {j : Job String JudgeJobData} {rank : ℕ}
    {w w' : JudgeFleet} {e : JudgeEvent} (h : Spent llmProposalId j rank w) (hok : unforced w e)
    (hstep : step env w e = some w')
    (hroom : rank + (noteCompletion w e w').toList.length ≤ removeOnCompleteCount) :
    Spent llmProposalId j (rank + (noteCompletion w e w').toList.length) w' where
  collapsed := h.collapsed.step hok hstep
  kept := completed_step hstep h.kept hroom
  plain := h.plain
  free := by
    refine Table.lookup_eq_none.mpr fun row hrow hkey => ?_
    rcases evaluation_origin hstep hrow with ⟨old, hold, hsame⟩ | ⟨k, hk, hsame, -⟩
    · exact Table.lookup_eq_none.mp h.free old hold (hsame.trans hkey)
    · exact h.worker_ne hk (hsame.trans hkey)

/-- Once the job of a proposal has completed and its evaluation is deleted, no dispatch without
force has the proposal judged again while fewer jobs complete than the queue keeps: it has neither a
worker nor an evaluation, though it is among those that are left to dispatch. -/
theorem deleted_evaluation_is_not_made_again {w w' : JudgeFleet} {log : List Unit}
    {j : Job String JudgeJobData} {rank llmProposalId : ℕ}
    (h : Run.Reaches (step env) unforced fresh w)
    (hkept : j ∈ (w.queue.ofState .completed).take rank)
    (hid : j.id = categoryEvalJobId llmProposalId)
    (hfree : w.evaluations.lookup llmProposalId = none)
    (hrun : Run.Reaches (Run.logged (step env) noteCompletion) (fun v e => unforced v.1 e)
      (w, []) (w', log))
    (hroom : rank + log.length ≤ removeOnCompleteCount) :
    w'.evaluations.lookup llmProposalId = none ∧
      (∀ k ∈ w'.workers, k.llmProposalId ≠ llmProposalId) ∧
      ∀ row ∈ w'.proposals.rows, row.id = llmProposalId → row.eligible = true →
        llmProposalId ∈ w'.selectPending false := by
  have hspent : ∀ s, Run.Reaches (Run.logged (step env) noteCompletion)
      (fun v e => unforced v.1 e) (w, []) s → rank + s.2.length ≤ removeOnCompleteCount →
        Spent llmProposalId j (rank + s.2.length) s.1 := by
    intro s hs
    induction hs with
    | start => exact fun _ => ⟨collapsed_of_reaches h, hkept, hid, hfree⟩
    | snoc _ hok hstep ih =>
      intro hroom
      obtain ⟨next, hnext, rfl⟩ := Option.map_eq_some_iff.mp hstep
      simp only [List.length_append, ← Nat.add_assoc] at hroom ⊢
      exact (ih (by omega)).step hok hnext hroom
  have hlast := hspent _ hrun hroom
  refine ⟨hlast.free, fun k hk => hlast.worker_ne hk, ?_⟩
  rintro row hrow rfl heligible
  refine List.mem_map.mpr ⟨row, List.mem_filter.mpr ⟨hrow, ?_⟩, rfl⟩
  rw [heligible, hlast.free]
  rfl

section Runs

/-- A failed judge call on the first proposal, its job completed and its evaluation deleted. -/
def firstFailureDeleted : List JudgeEvent :=
  firstCall ++ [.save "cat-eval-0" (.error ⟨"down", .modelError, none, some 502, none, none, none,
      none, none⟩),
    .complete "cat-eval-0", .deleteFailedEvaluations]

/-- The next dispatch selects the proposal and adds nothing for it. -/
theorem first_failure_is_not_judged_again :
    ∃ w w' log, Run.Reaches (step insectEnv) unforced fresh w ∧
      Run.Reaches (Run.logged (step insectEnv) noteCompletion) (fun v e => unforced v.1 e)
        (w, []) (w', log) ∧
      w'.dispatches = [⟨false, []⟩, ⟨false, []⟩] ∧ w'.selectPending false = [0] ∧
      w'.evaluations.lookup 0 = none ∧ ∀ k ∈ w'.workers, k.llmProposalId ≠ 0 := by
  obtain ⟨w, hrun, hlater⟩ := Run.exists_reaches (step insectEnv) unforced fresh
    firstFailureDeleted
    (fun w => (w.queue.ofState .completed).take 1 =
        [⟨"cat-eval-0", .evaluateCategory 0 false, .completed, 0⟩] ∧
      (w.evaluations.lookup 0).isNone ∧
      ((Run.exec (Run.logged (step insectEnv) noteCompletion) (fun v e => unforced v.1 e) (w, [])
        [.dispatch none false, .add 1]).any fun s => s.2.length = 0 ∧
          s.1.dispatches = [⟨false, []⟩, ⟨false, []⟩] ∧ s.1.selectPending false = [0]) = true)
    (by decide +kernel)
  obtain ⟨hjob, hfree, hagain⟩ := of_decide_eq_true hlater
  obtain ⟨⟨w', log⟩, hexec, hend⟩ := (Option.any_eq_true _ _).mp hagain
  obtain ⟨hnone, hdispatches, hpending⟩ := of_decide_eq_true hend
  have hlog := Run.exec_reaches hexec
  have hkept : ⟨"cat-eval-0", .evaluateCategory 0 false, .completed, 0⟩ ∈
      (w.queue.ofState .completed).take 1 := by rw [hjob]; exact List.mem_singleton_self _
  obtain ⟨hunjudged, hidle, -⟩ := deleted_evaluation_is_not_made_again hrun hkept (by decide)
    (Option.isNone_iff_eq_none.mp hfree) hlog (by rw [show log.length = 0 from hnone]; decide)
  exact ⟨w, w', log, hrun, hlog, hdispatches, hpending, hunjudged, hidle⟩

end Runs

/-! ### Proposals that match no group -/

/-- The words of a proposal's guess name no group of its puzzle. -/
def matchesNoGroup (env : JudgeEnv) (row : StoredProposal) : Bool :=
  (row.guess.bind fun guess =>
    (env.puzzle guess.puzzleId).bind (matchAnswerGroup env.upper guess.words)).isNone

/-- The newer proposals that are selected though they are never judged. -/
def blockers (env : JudgeEnv) (w : JudgeFleet) (llmProposalId : ℕ) : List StoredProposal :=
  w.proposals.rows.filter fun row =>
    row.eligible && matchesNoGroup env row && decide (llmProposalId < row.id)

/-- Every dispatch, forced or not, asks for no more proposals than there are such newer ones. -/
def crowded (env : JudgeEnv) (llmProposalId : ℕ) (w : JudgeFleet) : JudgeEvent → Prop
  | .dispatch limit _ => clampLimit limit ≤ (blockers env w llmProposalId).length
  | _ => True

instance (env : JudgeEnv) (llmProposalId : ℕ) (w : JudgeFleet) (e : JudgeEvent) :
    Decidable (crowded env llmProposalId w e) :=
  match e with
  | .dispatch limit _ => Nat.decLe (clampLimit limit) (blockers env w llmProposalId).length
  | .tick _ | .record _ _ | .add _ | .addFails _ | .addRun _ _ | .pick _ | .promote _
  | .findEvaluation _ | .loadProposal _ | .save _ _ | .complete _ | .throws _ | .completeRun _
  | .throwRun _ | .crash _ | .stall _ | .deleteRun _ | .deleteProposals _
  | .deleteRunEvaluations _ | .deleteFailedEvaluations => instDecidableTrue

/-- In a falling list an element is among the first ones when there are few enough above it. -/
theorem mem_take_of_falling {l : List ℕ} (hfalling : l.Pairwise (· > ·)) {a n : ℕ} :
    a ∈ l.take n ↔ a ∈ l ∧ (l.filter (a < ·)).length < n := by
  induction l generalizing n with
  | nil => simp
  | cons b l ih =>
    obtain ⟨hbelow, hrest⟩ := List.pairwise_cons.mp hfalling
    cases n with
    | zero => simp
    | succ n =>
      rw [List.take_succ_cons, List.mem_cons, List.mem_cons, ih hrest]
      rcases Nat.lt_trichotomy a b with hlt | rfl | hgt
      · rw [List.filter_cons_of_pos (by simpa using hlt), List.length_cons]
        constructor
        · rintro (rfl | ⟨hmem, hfew⟩)
          · exact absurd hlt (Nat.lt_irrefl _)
          · exact ⟨.inr hmem, by omega⟩
        · rintro ⟨rfl | hmem, hfew⟩
          · exact absurd hlt (Nat.lt_irrefl _)
          · exact .inr ⟨hmem, by omega⟩
      · have hnone : (a :: l).filter (a < ·) = [] := by
          rw [List.filter_eq_nil_iff]
          rintro c (_ | ⟨_, hc⟩)
          · simp
          · have := hbelow c hc
            simp only [decide_eq_true_eq]
            omega
        simp [hnone]
      · constructor
        · rintro (rfl | ⟨hmem, -⟩)
          · exact absurd hgt (Nat.lt_irrefl _)
          · exact absurd (hbelow a hmem) (by omega)
        · rintro ⟨rfl | hmem, -⟩
          · exact absurd hgt (Nat.lt_irrefl _)
          · exact absurd (hbelow a hmem) (by omega)

/-- What a dispatch selects from falls. -/
theorem selectPending_falling (w : JudgeFleet) (force : Bool) :
    (w.selectPending force).Pairwise (· > ·) :=
  List.pairwise_map.mpr (w.proposals.newest_first.sublist List.filter_sublist)

/-- A proposal whose words name no group has no evaluation. -/
theorem Sound.lookup_none_of_matchesNoGroup {w : JudgeFleet} (h : Sound env w)
    {row : StoredProposal} (hrow : row ∈ w.proposals.rows) (hno : matchesNoGroup env row = true) :
    w.evaluations.lookup row.id = none := by
  refine Table.lookup_eq_none.mpr fun e he hkey => ?_
  obtain ⟨other, hother, hid, hdescribes⟩ := h.stored e he
  obtain rfl := w.proposals.eq_of_id_eq hother hrow (hid.trans hkey)
  obtain ⟨guess, group, hasked, -⟩ := hdescribes.asked
  obtain ⟨puzzle, hpuzzle, hgroup⟩ := hasked.group
  simp [matchesNoGroup, hasked.loaded, hpuzzle, hgroup] at hno

/-- The newer proposals that are never judged are selected before an older one. -/
theorem Sound.blockers_le {w : JudgeFleet} (h : Sound env w) (llmProposalId : ℕ)
    (force : Bool) : (blockers env w llmProposalId).length ≤
      ((w.selectPending force).filter (llmProposalId < ·)).length := by
  have hsub : ((blockers env w llmProposalId).map (·.id)).Sublist
      ((w.selectPending force).filter (llmProposalId < ·)) := by
    rw [selectPending, List.filter_map, List.filter_filter]
    apply List.Sublist.map
    have hsame : blockers env w llmProposalId = (w.proposals.rows.filter fun row =>
        ((llmProposalId < ·) ∘ (·.id)) row &&
          (row.eligible && (force || (w.evaluations.lookup row.id).isNone))).filter
            (matchesNoGroup env) := by
      rw [List.filter_filter]
      refine List.filter_congr fun row hrow => ?_
      cases hno : matchesNoGroup env row with
      | false => simp
      | true => simp [h.lookup_none_of_matchesNoGroup hrow hno, Bool.and_comm]
    rw [hsame]
    exact List.filter_sublist
  simpa using hsub.length_le

/-- A proposal that no dispatch, job or evaluation is about. -/
structure Untouched (llmProposalId : ℕ) (w : JudgeFleet) : Prop where
  dispatches : ∀ d ∈ w.dispatches, llmProposalId ∉ d.todo
  jobs : ∀ j ∈ w.queue.jobs, ∀ force, j.data ≠ .evaluateCategory llmProposalId force
  free : w.evaluations.lookup llmProposalId = none

/-- A worker is about another proposal. -/
theorem Untouched.worker_ne {llmProposalId : ℕ} {w : JudgeFleet} (h : Untouched llmProposalId w)
    (hstaffed : Staffed w) {k : JudgeWorker} (hk : k ∈ w.workers) :
    k.llmProposalId ≠ llmProposalId := by
  rintro rfl
  obtain ⟨j, hj, -, -, hdata⟩ := hstaffed.active k hk
  exact h.jobs j hj _ hdata

/-- Where each dispatch is crowded out, the proposal stays untouched. -/
theorem Untouched.step {llmProposalId : ℕ} {w w' : JudgeFleet} {e : JudgeEvent}
    (h : Untouched llmProposalId w) (hsound : Sound env w) (hok : crowded env llmProposalId w e)
    (hstep : step env w e = some w') : Untouched llmProposalId w' where
  dispatches := by
    intro d hd htodo
    rcases dispatch_origin hstep hd with ⟨old, hold, -, hsub⟩ | ⟨limit, rfl, hselected⟩
    · exact h.dispatches old hold (hsub htodo)
    · have hlimit : clampLimit limit ≤ (blockers env w llmProposalId).length := hok
      rw [hselected] at htodo
      have hfew := ((mem_take_of_falling (w.selectPending_falling d.force)).mp htodo).2
      have hmany := hsound.blockers_le llmProposalId d.force
      omega
  jobs := by
    intro j hj force hdata
    rcases job_origin hstep hj with ⟨i, hi, -, hsame⟩ | ⟨d, hd, id, hid, -, rfl⟩ | ⟨data, hrun⟩
    · exact h.jobs i hi force (hsame.trans hdata)
    · cases hdata
      exact h.dispatches d hd hid
    · rw [hrun] at hdata
      cases hdata
  free := by
    refine Table.lookup_eq_none.mpr fun row hrow hkey => ?_
    rcases evaluation_origin hstep hrow with ⟨old, hold, hsame⟩ | ⟨k, hk, hsame, -⟩
    · exact Table.lookup_eq_none.mp h.free old hold (hsame.trans hkey)
    · exact h.worker_ne hsound.staffed hk (hsame.trans hkey)

/-- A proposal is not judged as long as each dispatch, forced or not, asks for no more proposals
than there are newer ones whose words name no group of their puzzle, however many dispatches
there are: no worker gets it and it has no evaluation. -/
theorem crowded_out_proposal_is_not_judged {w w' : JudgeFleet} {llmProposalId : ℕ}
    (h : Run.Reaches (step env) Run.always fresh w)
    (hdispatches : ∀ d ∈ w.dispatches, llmProposalId ∉ d.todo)
    (hjobs : ∀ j ∈ w.queue.jobs, ∀ force, j.data ≠ .evaluateCategory llmProposalId force)
    (hfree : w.evaluations.lookup llmProposalId = none)
    (hrun : Run.Reaches (step env) (crowded env llmProposalId) w w') :
    w'.evaluations.lookup llmProposalId = none ∧
      ∀ k ∈ w'.workers, k.llmProposalId ≠ llmProposalId := by
  have hkeeps : ∀ v e u, Sound env v ∧ Untouched llmProposalId v → crowded env llmProposalId v e →
      step env v e = some u → Sound env u ∧ Untouched llmProposalId u := by
    rintro v e u ⟨hsound, huntouched⟩ hok hstep
    exact ⟨hsound.step hstep, huntouched.step hsound hok hstep⟩
  have hinv : Sound env w' ∧ Untouched llmProposalId w' := by
    apply Run.Reaches.invariant ?_ hkeeps hrun
    exact ⟨sound_of_reaches h, hdispatches, hjobs, hfree⟩
  exact ⟨hinv.2.free, fun k hk => hinv.2.worker_ne hinv.1.staffed hk⟩

/-- A used proposal, newer than the first one, whose guess names no stored group. -/
def strayGuess : Guess := ⟨1, 1, ["ANT", "BEE", "FLY", "OAK"], .success, 2, .strategy⟩

/-- A dispatch of one proposal at a time gets no further than the stray one. -/
theorem first_proposal_is_crowded_out :
    ∃ w w', Run.Reaches (step insectEnv) Run.always fresh w ∧
      Run.Reaches (step insectEnv) (crowded insectEnv 0) w w' ∧ w'.dispatches.length = 2 ∧
      w'.evaluations.lookup 0 = none ∧ ∀ k ∈ w'.workers, k.llmProposalId ≠ 0 := by
  obtain ⟨w, hrun, hlater⟩ := Run.exists_reaches (step insectEnv) Run.always fresh
    [.record insectProposal (some insectGuess), .record insectProposal (some strayGuess)]
    (fun w => w.dispatches = [] ∧ w.queue.jobs = [] ∧ (w.evaluations.lookup 0).isNone ∧
      ((Run.exec (step insectEnv) (crowded insectEnv 0) w
        [.dispatch (some 1) false, .add 0, .pick "cat-eval-1", .findEvaluation "cat-eval-1",
          .loadProposal "cat-eval-1", .complete "cat-eval-1", .dispatch (some 1) true]).any
        fun w => w.dispatches.length = 2) = true)
    (by decide +kernel)
  obtain ⟨hdispatches, hjobs, hfree, hagain⟩ := of_decide_eq_true hlater
  obtain ⟨w', hexec, hend⟩ := (Option.any_eq_true _ _).mp hagain
  have hcrowded := Run.exec_reaches hexec
  obtain ⟨hunjudged, hidle⟩ := crowded_out_proposal_is_not_judged hrun (by simp [hdispatches])
    (by simp [hjobs]) (Option.isNone_iff_eq_none.mp hfree) hcrowded
  exact ⟨w, w', hrun, hcrowded, of_decide_eq_true hend, hunjudged, hidle⟩

end JudgeFleet

end Connections
