import Connections.Holds.DailyHold
import Connections.Pools.ResumeSweeps

/-!
# The chain of resume sweeps

Where no cron brings the next sweep, each one has to bring it.  A parked run is met by a sweep as
long as every follow-up finds its id free and runs are parked while a sweep is to come; once no
sweep is left, none comes until the next start.
-/

namespace Connections

open JobQueue

/-- The sweep has not read the parked runs. -/
def SweepPhase.early : SweepPhase → Bool
  | .finding | .removing _ | .checking | .loading _ => true
  | _ => false

/-- The sweep is over. -/
def SweepPhase.over : SweepPhase → Bool
  | .done _ => true
  | _ => false

/-- The runs that the sweep may still revive. -/
def SweepPhase.rest : SweepPhase → List ParkedRun
  | .resuming _ rest => rest
  | .saving _ run rest => run :: rest
  | _ => []

/-- The reset that the sweep's follow-up is to wait for. -/
def SweepPhase.soonest : SweepPhase → Option (Option ℕ)
  | .adding soonest => some soonest
  | _ => none

/-- A run that is parked now is read by the sweep, or has the sweep come back. -/
def Sweep.willReturn (s : Sweep) : Bool :=
  !s.phase.over && (s.phase.early || decide (0 < s.skipped))

namespace SweepFleet

variable {pool : ModelPool}

/-- Each parked run is read by the sweep in progress, or has it come back. -/
def Handles (w : SweepFleet) (s : Sweep) : Prop :=
  s.willReturn = true ∨ s.phase.over = false ∧ ∀ run ∈ w.parked, run ∈ s.phase.rest

/-! ### What a step can do -/

/-- What a step can do. -/
inductive StepCase (pool : ModelPool) (w : SweepFleet) : ChainEvent → SweepFleet → Prop
  | holds (event : HoldEvent) (holds : HoldStore) : w.holds.now ≤ holds.now →
      StepCase pool w (.holds event) { w with holds := holds }
  | park (run : ParkedRun) :
      StepCase pool w (.park run) { w with parked := run :: w.parked.filter (·.id ≠ run.id) }
  | startup : StepCase pool w .startup
      { w with queue := w.queue.add (.startupCatchUp (w.holds.now / dayMs)) w.holds.now .waiting }
  | cron (firing : ℕ) : pool.isFixedCron = true → StepCase pool w (.cron firing)
      { w with queue := w.queue.add (.cron firing) w.holds.now .waiting }
  | promoted (j : Job SweepJobId ℕ) : j ∈ w.queue.jobs → j.state = .delayed →
      StepCase pool w (.promote j.id)
        { w with queue := w.queue.relist { j with state := .waiting } }
  | picked (j : Job SweepJobId ℕ) : w.sweep = none → j ∈ w.queue.jobs → j.state = .waiting →
      StepCase pool w (.pick j.id)
        { w with
          queue := w.queue.relist { j with state := .active }
          sweep := some ⟨j.id, [], 0, 0, .finding⟩ }
  | stalled (j : Job SweepJobId ℕ) : (∀ s ∈ w.sweep, s.jobId ≠ j.id) → j ∈ w.queue.jobs →
      j.state = .active →
      StepCase pool w (.stall j.id) { w with queue := w.queue.relist { j with state := .waiting } }
  | advanced (event : SweepEvent) (s s' : Sweep) (holds : HoldStore) : event ≠ .complete →
      w.sweep = some s → s'.jobId = s.jobId → w.holds.now ≤ holds.now →
      (w.Handles s → w.parked = [] ∨ w.Handles s') →
      StepCase pool w (.sweep event) { w with holds := holds, sweep := some s' }
  | saved (s : Sweep) (stillHeld : List String) (run : ParkedRun) (rest : List ParkedRun) :
      w.sweep = some s → s.phase = .saving stillHeld run rest →
      StepCase pool w (.sweep .save)
        { w with
          parked := w.parked.filter (·.id ≠ run.id)
          sweep := some { s with
            redispatched := s.redispatched + 1
            phase := .resuming stillHeld rest } }
  | rearmed (s : Sweep) (soonest : Option ℕ) (st : JobState) : w.sweep = some s →
      s.phase = .adding soonest → st = .waiting ∨ st = .delayed →
      StepCase pool w (.sweep .rearm)
        { w with
          queue := w.queue.add (.rearm (targetMinute pool w.holds.now soonest))
            (w.holds.now + rearmDelay pool w.holds.now soonest) st
          sweep := some { s with phase := .done (some (rearmDelay pool w.holds.now soonest)) } }
  | completed (s : Sweep) (j : Job SweepJobId ℕ) : w.sweep = some s → s.phase.over = true →
      j ∈ w.queue.jobs → j.id = s.jobId → j.state = .active →
      StepCase pool w (.sweep .complete)
        { w with
          queue := (w.queue.relist { j with state := .completed }).trim .completed 0
          sweep := none }
  | retried (s : Sweep) (j : Job SweepJobId ℕ) : w.sweep = some s → j ∈ w.queue.jobs →
      j.id = s.jobId → j.attemptsMade + 1 < sweepAttempts →
      StepCase pool w (.sweep .throws)
        { w with
          queue := w.queue.relist { j with
            state := .delayed
            attemptsMade := j.attemptsMade + 1
            data := w.holds.now + sweepBackoffMs (j.attemptsMade + 1) }
          sweep := none }
  | gaveUp (s : Sweep) (j : Job SweepJobId ℕ) : w.sweep = some s → j ∈ w.queue.jobs →
      j.id = s.jobId → ¬ j.attemptsMade + 1 < sweepAttempts →
      StepCase pool w (.sweep .throws)
        { w with
          queue := (w.queue.relist { j with
            state := .failed
            attemptsMade := j.attemptsMade + 1 }).trim .failed sweepRemoveOnFail
          sweep := none }
  | crash : StepCase pool w .crash { w with sweep := none }

/-- A failed attempt delays the job of the sweep or fails it. -/
theorem throws_cases {w w' : SweepFleet} {s : Sweep} (hsweep : w.sweep = some s)
    (h : ((w.failSweep s.jobId).map fun queue => { w with queue := queue, sweep := none }) =
      some w') : StepCase pool w (.sweep .throws) w' := by
  obtain ⟨queue, hqueue, rfl⟩ := Option.map_eq_some_iff.mp h
  obtain ⟨j, hj, hqueue⟩ := Option.bind_eq_some_iff.mp hqueue
  obtain ⟨hmem, hid⟩ := Queue.lookup_eq_some.mp hj
  split at hqueue
  · split at hqueue
    · cases hqueue
      exact .retried s j hsweep hmem hid ‹_›
    · cases hqueue
      exact .gaveUp s j hsweep hmem hid ‹_›
  · cases hqueue

/-- A sweep that goes on before it has read the runs still comes to all of them. -/
theorem handles_of_early {w : SweepFleet} {s : Sweep} (hearly : s.phase.early = true) :
    w.Handles s := by
  refine .inl ?_
  unfold Sweep.willReturn
  cases hphase : s.phase <;> simp_all [SweepPhase.early, SweepPhase.over]

/-- With none of the runs it read left, a sweep has met each run parked or has itself come back. -/
theorem Handles.returns_or_none_parked {w : SweepFleet} {s : Sweep} (hhandles : w.Handles s)
    (hrest : s.phase.rest = []) : s.willReturn = true ∨ w.parked = [] := by
  rcases hhandles with hreturn | ⟨-, hparked⟩
  · exact .inl hreturn
  · rw [hrest] at hparked
    exact .inr (List.eq_nil_iff_forall_not_mem.mpr fun run hrun =>
      List.not_mem_nil (hparked run hrun))

/-- A step up to the reading of the parked runs: every run parked is among those read. -/
theorem reading_cases {w w' : SweepFleet} {s : Sweep} {event : SweepEvent}
    (hsweep : w.sweep = some s) (hearly : s.phase.early = true)
    (h : w.sweepStep pool s s.phase event = some w') : StepCase pool w (.sweep event) w' := by
  cases hphase : s.phase with
  | finding =>
    rw [hphase] at h
    cases event with
    | findExpired =>
      obtain ⟨holds, hholds, rfl⟩ := Option.map_eq_some_iff.mp h
      exact .advanced _ s _ holds nofun hsweep rfl (HoldStore.now_le_step hholds)
        fun _ => .inr (handles_of_early rfl)
    | throws => exact throws_cases hsweep h
    | _ => cases h
  | removing callId =>
    rw [hphase] at h
    cases event with
    | removeExpired =>
      obtain ⟨holds, hholds, rfl⟩ := Option.map_eq_some_iff.mp h
      exact .advanced _ s _ holds nofun hsweep rfl (HoldStore.now_le_step hholds)
        fun _ => .inr (handles_of_early rfl)
    | throws => exact throws_cases hsweep h
    | _ => cases h
  | checking =>
    rw [hphase] at h
    cases event with
    | readHeld =>
      cases h
      exact .advanced _ s _ w.holds nofun hsweep rfl (Nat.le_refl _)
        fun _ => .inr (handles_of_early rfl)
    | throws => exact throws_cases hsweep h
    | _ => cases h
  | loading stillHeld =>
    rw [hphase] at h
    cases event with
    | loadParked runs =>
      simp only [sweepStep] at h
      split at h
      · rename_i hperm
        cases h
        exact .advanced _ s _ w.holds nofun hsweep rfl (Nat.le_refl _)
          fun _ => .inr (.inr ⟨rfl, fun run hrun => hperm.mem_iff.mpr hrun⟩)
      · cases h
    | throws => exact throws_cases hsweep h
    | _ => cases h
  | _ => rw [hphase] at hearly; cases hearly

/-- Its runs all met, a sweep that skipped one is to come back; one that skipped none leaves none
parked. -/
theorem handles_after_last {w : SweepFleet} {s : Sweep} {stillHeld : List String}
    (hphase : s.phase = .resuming stillHeld []) (hhandles : w.Handles s) :
    w.parked = [] ∨
      w.Handles { s with phase := if 0 < s.skipped then .rearming else .done none } := by
  by_cases hskipped : 0 < s.skipped
  · refine .inr (.inl ?_)
    simp [Sweep.willReturn, hskipped, SweepPhase.over]
  · rcases hhandles.returns_or_none_parked (by rw [hphase]; rfl) with hreturn | hnone
    · simp [Sweep.willReturn, hphase, SweepPhase.early, hskipped] at hreturn
    · exact .inl hnone

/-- A run that is skipped has the sweep come back, one that is resumed stays before it. -/
theorem handles_next {w : SweepFleet} {s s' : Sweep} {stillHeld : List String} {run : ParkedRun}
    {rest : List ParkedRun} (hphase : s.phase = .resuming stillHeld (run :: rest))
    (hhandles : w.Handles s)
    (hs' : s' = { s with skipped := s.skipped + 1, phase := .resuming stillHeld rest } ∨
      s' = { s with phase := .saving stillHeld run rest }) : w.Handles s' := by
  rcases hs' with rfl | rfl
  · refine .inl ?_
    simp [Sweep.willReturn, SweepPhase.over]
  · rcases hhandles with hreturn | ⟨-, hrest⟩
    · refine .inl ?_
      simpa [Sweep.willReturn, hphase, SweepPhase.early, SweepPhase.over] using hreturn
    · rw [hphase] at hrest
      exact .inr ⟨rfl, hrest⟩

/-- A step among the runs that the sweep read. -/
theorem resuming_cases {w w' : SweepFleet} {s : Sweep} {event : SweepEvent}
    {stillHeld : List String} {rest : List ParkedRun} (hsweep : w.sweep = some s)
    (hphase : s.phase = .resuming stillHeld rest)
    (h : w.sweepStep pool s (.resuming stillHeld rest) event = some w') :
    StepCase pool w (.sweep event) w' := by
  cases event with
  | next =>
    cases rest with
    | nil =>
      cases h
      exact .advanced _ s _ w.holds nofun hsweep rfl (Nat.le_refl _) (handles_after_last hphase)
    | cons run rest =>
      cases h
      refine .advanced _ s _ w.holds nofun hsweep ?_ (Nat.le_refl _)
        fun hhandles => .inr (handles_next hphase hhandles ?_)
      · split
        · rfl
        · split <;> rfl
      · split
        · exact .inl rfl
        · split
          · exact .inl rfl
          · exact .inr rfl
  | throws => cases rest <;> exact throws_cases hsweep h
  | _ => cases rest <;> cases h

/-- A step of a sweep that is to come back. -/
theorem rearming_cases {w w' : SweepFleet} {s : Sweep} {event : SweepEvent}
    (hsweep : w.sweep = some s) (hphase : s.phase = .rearming)
    (h : w.sweepStep pool s .rearming event = some w') : StepCase pool w (.sweep event) w' := by
  cases event with
  | readNextReset =>
    cases h
    refine .advanced _ s _ w.holds nofun hsweep rfl (Nat.le_refl _) fun hhandles => ?_
    rcases hhandles.returns_or_none_parked (by rw [hphase]; rfl) with hreturn | hnone
    · refine .inr (.inl ?_)
      simpa [Sweep.willReturn, hphase, SweepPhase.early, SweepPhase.over] using hreturn
    · exact .inl hnone
  | throws => exact throws_cases hsweep h
  | _ => cases h

/-- The last step of a sweep and of its job. -/
theorem done_cases {w w' : SweepFleet} {s : Sweep} {event : SweepEvent}
    {rearmedInMs : Option ℕ} (hsweep : w.sweep = some s) (hphase : s.phase = .done rearmedInMs)
    (h : w.sweepStep pool s (.done rearmedInMs) event = some w') :
    StepCase pool w (.sweep event) w' := by
  cases event with
  | complete =>
    obtain ⟨queue, hqueue, rfl⟩ := Option.map_eq_some_iff.mp h
    obtain ⟨j, hj, hid, hactive, rfl⟩ := Queue.complete_eq_some.mp hqueue
    exact .completed s j hsweep (by rw [hphase]; rfl) hj hid hactive
  | _ => cases h

/-- A step of the sweep is one of these. -/
theorem sweepStep_cases {w w' : SweepFleet} {s : Sweep} {event : SweepEvent}
    (hsweep : w.sweep = some s) (h : w.sweepStep pool s s.phase event = some w') :
    StepCase pool w (.sweep event) w' := by
  cases hphase : s.phase with
  | finding | removing | checking | loading =>
    exact reading_cases hsweep (by rw [hphase]; rfl) h
  | resuming stillHeld rest =>
    rw [hphase] at h
    exact resuming_cases hsweep hphase h
  | saving stillHeld run rest =>
    rw [hphase] at h
    cases event with
    | save =>
      cases h
      exact .saved s stillHeld run rest hsweep hphase
    | throws => exact throws_cases hsweep h
    | _ => cases h
  | rearming =>
    rw [hphase] at h
    exact rearming_cases hsweep hphase h
  | adding soonest =>
    rw [hphase] at h
    cases event with
    | rearm =>
      cases h
      refine .rearmed s soonest _ hsweep hphase ?_
      split
      · exact .inl rfl
      · exact .inr rfl
    | throws => exact throws_cases hsweep h
    | _ => cases h
  | done rearmedInMs =>
    rw [hphase] at h
    exact done_cases hsweep hphase h

/-- Every step is one of these. -/
theorem step_cases {w w' : SweepFleet} {e : ChainEvent} (h : step pool w e = some w') :
    StepCase pool w e w' := by
  cases e with
  | holds event =>
    obtain ⟨holds, hholds, rfl⟩ := Option.map_eq_some_iff.mp h
    exact .holds event holds (HoldStore.now_le_step hholds)
  | park run =>
    cases h
    exact .park run
  | startup =>
    cases h
    exact .startup
  | cron firing =>
    simp only [step] at h
    split at h
    · cases h
      exact .cron firing ‹_›
    · cases h
  | promote jobId =>
    obtain ⟨i, -, h⟩ := Option.bind_eq_some_iff.mp h
    split at h
    · obtain ⟨queue, hqueue, rfl⟩ := Option.map_eq_some_iff.mp h
      obtain ⟨j, hj, rfl, hstate, rfl⟩ := Queue.move_eq_some.mp hqueue
      exact .promoted j hj hstate
    · cases h
  | pick jobId =>
    simp only [step] at h
    split at h
    · obtain ⟨queue, hqueue, rfl⟩ := Option.map_eq_some_iff.mp h
      obtain ⟨j, hj, rfl, hstate, rfl⟩ := Queue.move_eq_some.mp hqueue
      exact .picked j (by simpa using ‹w.sweep.isNone = true›) hj hstate
    · cases h
  | stall jobId =>
    simp only [step] at h
    split at h
    · obtain ⟨queue, hqueue, rfl⟩ := Option.map_eq_some_iff.mp h
      obtain ⟨j, hj, rfl, hstate, rfl⟩ := Queue.move_eq_some.mp hqueue
      refine .stalled j (fun s hs => ?_) hj hstate
      rename_i hother
      rw [Option.mem_def.mp hs] at hother
      simpa using hother
    · cases h
  | sweep event =>
    obtain ⟨s, hs, h⟩ := Option.bind_eq_some_iff.mp h
    exact sweepStep_cases hs h
  | crash =>
    cases h
    exact .crash

/-! ### Each parked run is met by a sweep -/

/-- A job other than that of the sweep in progress is to come. -/
def Pending (w : SweepFleet) : Prop :=
  ∃ j ∈ w.queue.jobs, j.state.live = true ∧ ∀ s ∈ w.sweep, j.id ≠ s.jobId

/-- Where the chain of sweeps would break: a run is parked when no sweep is to come, a follow-up
finds its id taken by the very sweep that adds it or by a failed one, or a sweep fails for good. -/
def KeepsChain (pool : ModelPool) (w : SweepFleet) : ChainEvent → Prop
  | .park _ => w.Pending ∨ ∃ s ∈ w.sweep, s.willReturn = true
  | .sweep .rearm => ∀ s ∈ w.sweep, ∀ soonest ∈ s.phase.soonest, ∀ j ∈ w.queue.jobs,
      j.id = .rearm (targetMinute pool w.holds.now soonest) →
        j.state.live = true ∧ j.id ≠ s.jobId
  | .sweep .throws => ∀ s ∈ w.sweep, ∀ j ∈ w.queue.jobs, j.id = s.jobId →
      j.attemptsMade + 1 < sweepAttempts
  | _ => True

instance (w : SweepFleet) : Decidable w.Pending :=
  inferInstanceAs (Decidable (∃ j ∈ w.queue.jobs, _ ∧ ∀ s ∈ w.sweep, _))

instance (w : SweepFleet) : (e : ChainEvent) → Decidable (KeepsChain pool w e)
  | .park _ => inferInstanceAs (Decidable (w.Pending ∨ ∃ s ∈ w.sweep, s.willReturn = true))
  | .sweep event =>
    match event with
    | .rearm => inferInstanceAs (Decidable (∀ s ∈ w.sweep, ∀ soonest ∈ s.phase.soonest,
        ∀ j ∈ w.queue.jobs, j.id = .rearm (targetMinute pool w.holds.now soonest) →
          j.state.live = true ∧ j.id ≠ s.jobId))
    | .throws => inferInstanceAs (Decidable (∀ s ∈ w.sweep, ∀ j ∈ w.queue.jobs, j.id = s.jobId →
        j.attemptsMade + 1 < sweepAttempts))
    | .findExpired | .removeExpired | .readHeld | .loadParked _ | .next | .save | .readNextReset
    | .complete => inferInstanceAs (Decidable True)
  | .holds _ | .startup | .cron _ | .promote _ | .pick _ | .stall _ | .crash =>
    inferInstanceAs (Decidable True)

/-- A live job stays under its id when a live one is put in its place. -/
theorem exists_live_relist {q : Queue SweepJobId ℕ} {j k : Job SweepJobId ℕ} (hk : k ∈ q.jobs)
    (hlive : k.state.live = true) (hj : j.state.live = true) :
    ∃ i ∈ (q.relist j).jobs, i.state.live = true ∧ i.id = k.id := by
  by_cases hid : k.id = j.id
  · exact ⟨j, Queue.mem_relist.mpr (.inl rfl), hj, hid.symm⟩
  · exact ⟨k, Queue.mem_relist.mpr (.inr ⟨hk, hid⟩), hlive, rfl⟩

/-- The sweep in progress has its job, no job waits longer than the cap, and each parked run is met
by the sweep in progress or by a job to come. -/
structure OnCourse (pool : ModelPool) (w : SweepFleet) : Prop where
  active : ∀ s ∈ w.sweep, ∃ j ∈ w.queue.jobs, j.id = s.jobId ∧ j.state = .active
  due : ∀ j ∈ w.queue.jobs, j.state = .delayed → j.data ≤ w.holds.now + pool.rearmCap
  met : w.parked = [] ∨ w.Pending ∨ ∃ s ∈ w.sweep, w.Handles s

theorem OnCourse.fresh : OnCourse pool fresh :=
  ⟨nofun, nofun, .inl rfl⟩

/-- A job that is due in time stays so when the clock goes on. -/
theorem OnCourse.due_of_le {w : SweepFleet} (h : OnCourse pool w) {now : ℕ}
    (hnow : w.holds.now ≤ now) {j : Job SweepJobId ℕ} (hj : j ∈ w.queue.jobs)
    (hstate : j.state = .delayed) : j.data ≤ now + pool.rearmCap :=
  Nat.le_trans (h.due j hj hstate) (Nat.add_le_add_right hnow _)

/-- A job changes its place among the live ones. -/
theorem OnCourse.relist {w : SweepFleet} (h : OnCourse pool w) {j : Job SweepJobId ℕ}
    (hother : ∀ s ∈ w.sweep, s.jobId ≠ j.id) (hlive : j.state.live = true)
    (hdue : j.state = .delayed → j.data ≤ w.holds.now + pool.rearmCap) :
    OnCourse pool { w with queue := w.queue.relist j } := by
  refine ⟨fun s hs => ?_, fun k hk hstate => ?_, h.met.imp_right (Or.imp_left ?_)⟩
  · obtain ⟨k, hk, hid, hactive⟩ := h.active s hs
    exact ⟨k, Queue.mem_relist.mpr (.inr ⟨hk, fun heq => hother s hs (hid.symm.trans heq)⟩), hid,
      hactive⟩
  · rcases Queue.mem_relist.mp hk with rfl | ⟨hold, -⟩
    · exact hdue hstate
    · exact h.due k hold hstate
  · rintro ⟨k, hk, hklive, hkother⟩
    obtain ⟨i, hi, hilive, hid⟩ := exists_live_relist hk hklive hlive
    exact ⟨i, hi, hilive, fun s hs => hid ▸ hkother s hs⟩

/-- A job is added, or its id is there. -/
theorem OnCourse.add {w : SweepFleet} (h : OnCourse pool w) (id : SweepJobId) :
    OnCourse pool { w with queue := w.queue.add id w.holds.now .waiting } := by
  refine ⟨fun s hs => ?_, fun j hj hstate => ?_, h.met.imp_right (Or.imp_left ?_)⟩
  · obtain ⟨j, hj, hactive⟩ := h.active s hs
    exact ⟨j, Queue.mem_add.mpr (.inl hj), hactive⟩
  · rcases Queue.mem_add.mp hj with hold | ⟨rfl, -⟩
    · exact h.due j hold hstate
    · cases hstate
  · rintro ⟨j, hj, hlive, hother⟩
    exact ⟨j, Queue.mem_add.mpr (.inl hj), hlive, hother⟩

/-- Without the sweep in progress its job is one to come. -/
theorem OnCourse.pending {w : SweepFleet} (h : OnCourse pool w) :
    w.parked = [] ∨ ∃ j ∈ w.queue.jobs, j.state.live = true := by
  rcases h.met with hnone | ⟨j, hj, hlive, -⟩ | ⟨s, hs, -⟩
  · exact .inl hnone
  · exact .inr ⟨j, hj, hlive⟩
  · obtain ⟨j, hj, -, hactive⟩ := h.active s hs
    exact .inr ⟨j, hj, by rw [hactive]; rfl⟩

/-- A sweep goes on and meets what it has to. -/
theorem OnCourse.advance {w : SweepFleet} (h : OnCourse pool w) {s s' : Sweep}
    (hsweep : w.sweep = some s) (hid : s'.jobId = s.jobId) {holds : HoldStore}
    (hnow : w.holds.now ≤ holds.now) {parked : List ParkedRun}
    (hparked : w.parked = [] → parked = [])
    (hhandles : w.Handles s →
      parked = [] ∨ Handles { w with holds := holds, parked := parked, sweep := some s' } s') :
    OnCourse pool { w with holds := holds, parked := parked, sweep := some s' } := by
  refine ⟨fun t ht => ?_, fun j hj hstate => h.due_of_le hnow hj hstate, ?_⟩
  · cases ht
    rw [hid]
    exact h.active s hsweep
  · rcases h.met with hnone | ⟨j, hj, hlive, hother⟩ | ⟨t, ht, ht'⟩
    · exact .inl (hparked hnone)
    · refine .inr (.inl ⟨j, hj, hlive, fun t ht => ?_⟩)
      cases ht
      exact hid ▸ hother s hsweep
    · cases hsweep.symm.trans ht
      exact (hhandles ht').imp_right fun hs' => .inr ⟨s', rfl, hs'⟩

/-- A run that is saved is parked no more, and the others are still before the sweep. -/
theorem handles_saved {w : SweepFleet} {s : Sweep} {stillHeld : List String} {run : ParkedRun}
    {rest : List ParkedRun} (hphase : s.phase = .saving stillHeld run rest)
    (hhandles : w.Handles s) {s' : Sweep} (hskipped : s'.skipped = s.skipped)
    (hphase' : s'.phase = .resuming stillHeld rest) :
    Handles { w with parked := w.parked.filter (·.id ≠ run.id), sweep := some s' } s' := by
  rcases hhandles with hreturn | ⟨-, hrest⟩
  · refine .inl ?_
    simpa [Sweep.willReturn, hphase, hphase', hskipped, SweepPhase.early, SweepPhase.over] using
      hreturn
  · refine .inr ⟨by rw [hphase']; rfl, fun other hother => ?_⟩
    obtain ⟨hparked, hne⟩ := List.mem_filter.mp hother
    have hmem := hrest other hparked
    rw [hphase] at hmem
    rw [hphase']
    rcases List.mem_cons.mp hmem with rfl | hmem
    · simp at hne
    · exact hmem

/-- A follow-up is added, or finds its id with a job to come: the sweep that adds it is over. -/
theorem OnCourse.rearm {w : SweepFleet} (h : OnCourse pool w) {s : Sweep} {soonest : Option ℕ}
    {st : JobState} (hsweep : w.sweep = some s) (hst : st = .waiting ∨ st = .delayed)
    (hfree : ∀ j ∈ w.queue.jobs, j.id = .rearm (targetMinute pool w.holds.now soonest) →
      j.state.live = true ∧ j.id ≠ s.jobId) {s' : Sweep} (hid : s'.jobId = s.jobId) :
    OnCourse pool { w with
      queue := w.queue.add (.rearm (targetMinute pool w.holds.now soonest))
        (w.holds.now + rearmDelay pool w.holds.now soonest) st
      sweep := some s' } := by
  obtain ⟨own, hown, hownId, hactive⟩ := h.active s hsweep
  refine ⟨fun t ht => ?_, fun j hj hstate => ?_, .inr (.inl ?_)⟩
  · cases ht
    exact ⟨own, Queue.mem_add.mpr (.inl hown), hownId.trans hid.symm, hactive⟩
  · rcases Queue.mem_add.mp hj with hold | ⟨rfl, -⟩
    · exact h.due j hold hstate
    · have hcap : rearmDelay pool w.holds.now soonest ≤ pool.rearmCap := Nat.min_le_right _ _
      dsimp only
      omega
  · -- The id is free and not the sweep's own, whose job is there, or a job to come has it.
    cases hlookup : w.queue.lookup (.rearm (targetMinute pool w.holds.now soonest)) with
    | none =>
      refine ⟨_, Queue.mem_add.mpr (.inr ⟨rfl, hlookup⟩), ?_, fun t ht heq => ?_⟩
      · rcases hst with rfl | rfl <;> rfl
      · cases ht
        exact Queue.lookup_eq_none.mp hlookup own hown (hownId.trans (hid.symm.trans heq.symm))
    | some j =>
      obtain ⟨hj, hjid⟩ := Queue.lookup_eq_some.mp hlookup
      obtain ⟨hlive, hother⟩ := hfree j hj hjid
      refine ⟨j, Queue.mem_add.mpr (.inl hj), hlive, fun t ht => ?_⟩
      cases ht
      exact hid ▸ hother

/-- A sweep that is over leaves what is parked to a job to come, and its own job completes. -/
theorem OnCourse.complete {w : SweepFleet} (h : OnCourse pool w) {s : Sweep}
    {j : Job SweepJobId ℕ} (hsweep : w.sweep = some s) (hover : s.phase.over = true)
    (hid : j.id = s.jobId) : OnCourse pool { w with
      queue := (w.queue.relist { j with state := .completed }).trim .completed 0
      sweep := none } := by
  refine ⟨nofun, fun k hk hstate => ?_, ?_⟩
  · rcases Queue.eq_or_mem_of_mem_trim_relist hk with rfl | ⟨hold, -⟩
    · cases hstate
    · exact h.due k hold hstate
  · rcases h.met with hnone | ⟨k, hk, hlive, hother⟩ | ⟨t, ht, ht'⟩
    · exact .inl hnone
    · refine .inr (.inl ⟨k, Queue.mem_trim_relist_of_ne hk ?_ ?_, hlive, nofun⟩)
      · exact fun heq => hother s hsweep (heq.trans hid)
      · intro hdone
        rw [hdone] at hlive
        cases hlive
    · cases hsweep.symm.trans ht
      rcases ht' with hreturn | ⟨hnot, -⟩
      · simp [Sweep.willReturn, hover] at hreturn
      · rw [hover] at hnot
        cases hnot

/-- No retry waits longer than the cap. -/
theorem sweepBackoffMs_le {attemptsMade : ℕ} (hleft : attemptsMade + 1 < sweepAttempts) :
    sweepBackoffMs (attemptsMade + 1) ≤ pool.rearmCap := by
  have hcases : attemptsMade = 0 ∨ attemptsMade = 1 ∨ attemptsMade = 2 ∨ attemptsMade = 3 := by
    unfold sweepAttempts at hleft
    omega
  rw [pool.rearmCap_eq]
  rcases hcases with hmade | hmade | hmade | hmade <;> rw [hmade] <;> decide

/-- Every step that does not break the chain keeps it. -/
theorem OnCourse.step {w w' : SweepFleet} {e : ChainEvent} (h : OnCourse pool w)
    (hok : KeepsChain pool w e) (hstep : step pool w e = some w') : OnCourse pool w' := by
  cases step_cases hstep with
  | holds event holds hnow =>
    exact ⟨h.active, fun j hj hstate => h.due_of_le hnow hj hstate, h.met⟩
  | park run =>
    exact ⟨h.active, h.due, .inr (hok.imp_right fun ⟨s, hs, hreturn⟩ => ⟨s, hs, .inl hreturn⟩)⟩
  | startup => exact h.add _
  | cron firing => exact h.add _
  | promoted j hj hstate =>
    refine h.relist (fun s hs heq => ?_) rfl fun hdelayed => by cases hdelayed
    obtain ⟨k, hk, hid, hactive⟩ := h.active s hs
    rw [w.queue.eq_of_id_eq hk hj (hid.trans heq), hstate] at hactive
    cases hactive
  | picked j hidle hj hstate =>
    have hnone : ∀ s ∈ w.sweep, s.jobId ≠ j.id := by simp [hidle]
    refine ⟨fun s hs => ?_, (h.relist hnone (j := { j with state := .active }) rfl nofun).due,
      .inr (.inr ⟨_, rfl, handles_of_early rfl⟩)⟩
    cases hs
    exact ⟨{ j with state := .active }, Queue.mem_relist.mpr (.inl rfl), rfl, rfl⟩
  | stalled j hother hj hstate => exact h.relist hother rfl nofun
  | advanced event s s' holds hevent hsweep hid hnow hhandles =>
    exact h.advance hsweep hid hnow id hhandles
  | saved s stillHeld run rest hsweep hphase =>
    refine h.advance hsweep ?_ (Nat.le_refl _) (fun hnone => by simp [hnone])
      fun hhandles => .inr (handles_saved hphase hhandles ?_ ?_) <;> rfl
  | rearmed s soonest st hsweep hphase hst =>
    exact h.rearm hsweep hst (hok s hsweep soonest (by rw [hphase]; rfl)) rfl
  | completed s j hsweep hover hj hid hactive => exact h.complete hsweep hover hid
  | retried s j hsweep hj hid hleft =>
    have hback : sweepBackoffMs (j.attemptsMade + 1) ≤ pool.rearmCap := sweepBackoffMs_le hleft
    refine ⟨nofun, fun k hk hstate => ?_, .inr (.inl ?_)⟩
    · rcases Queue.mem_relist.mp hk with rfl | ⟨hold, -⟩
      · dsimp only
        omega
      · exact h.due k hold hstate
    · exact ⟨_, Queue.mem_relist.mpr (.inl rfl), rfl, nofun⟩
  | gaveUp s j hsweep hj hid hlast => exact absurd (hok s hsweep j hj hid) hlast
  | crash =>
    refine ⟨nofun, h.due, h.pending.imp_right fun ⟨j, hj, hlive⟩ => .inl ?_⟩
    exact ⟨j, hj, hlive, nofun⟩

/-- The free tier of Groq. -/
def groqPool : ModelPool where
  id := .groq
  freeTier := ⟨.model, .selfRearm ProviderPoolId.selfRearmMaxDelayMs, .untilHeld, false⟩
  is_freeTier := rfl
  is_perModel := rfl

/-- Two runs are parked, on models that are held until 70 s and until some later time, and the sweep
of a start comes before that. -/
def parkTwo (laterSeconds : ℕ) : List ChainEvent :=
  [.startup, .holds (.hold "llm-groq" ⟨some "a", none, 70⟩), .holds (.upsert 0),
    .holds (.hold "llm-groq" ⟨some "b", none, laterSeconds⟩), .holds (.upsert 1),
    .park ⟨1, some "a"⟩, .park ⟨2, some "b"⟩, .pick (.startupCatchUp 0)] ++
  ([.findExpired, .removeExpired, .readHeld, .loadParked [⟨2, some "b"⟩, ⟨1, some "a"⟩], .next,
    .next, .next, .readNextReset, .rearm, .complete] : List SweepEvent).map .sweep

/-- The follow-up revives the first of them and adds another one. -/
def reviveOne : List ChainEvent :=
  [.holds (.tick 70000), .promote (.rearm 1), .pick (.rearm 1)] ++
  ([.findExpired, .removeExpired, .readHeld, .loadParked [⟨2, some "b"⟩, ⟨1, some "a"⟩], .next,
    .next, .save, .next, .readNextReset, .rearm, .complete] : List SweepEvent).map .sweep

/-- No sweep is in progress, and none is to come. -/
structure Ended (w : SweepFleet) : Prop where
  idle : w.sweep = none
  jobs : ∀ j ∈ w.queue.jobs, j.state.live = false

/-- The chain has ended, and what was parked still is. -/
structure Stranded (first w : SweepFleet) : Prop where
  ended : w.Ended
  parked : ∀ run ∈ first.parked, ∃ other ∈ w.parked, other.id = run.id

theorem Stranded.start {w : SweepFleet} (h : w.Ended) : Stranded w w :=
  ⟨h, fun run hrun => ⟨run, hrun, rfl⟩⟩

/-- Nothing happens until the next start, except that runs are parked. -/
theorem Stranded.step {first w w' : SweepFleet} {e : ChainEvent} (h : Stranded first w)
    (hcron : pool.isFixedCron = false) (hstart : e ≠ .startup)
    (hstep : SweepFleet.step pool w e = some w') : Stranded first w' := by
  have hbusy {s : Sweep} (hs : w.sweep = some s) : False := by
    rw [h.ended.idle] at hs
    cases hs
  have hdead {j : Job SweepJobId ℕ} (hj : j ∈ w.queue.jobs) (hlive : j.state.live = true) :
      False := by
    rw [h.ended.jobs j hj] at hlive
    cases hlive
  cases step_cases hstep with
  | holds event holds hnow => exact ⟨⟨h.ended.idle, h.ended.jobs⟩, h.parked⟩
  | park run =>
    refine ⟨⟨h.ended.idle, h.ended.jobs⟩, fun old hold => ?_⟩
    obtain ⟨other, hother, hid⟩ := h.parked old hold
    by_cases hsame : other.id = run.id
    · exact ⟨run, List.mem_cons_self, hsame.symm.trans hid⟩
    · exact ⟨other, List.mem_cons_of_mem _ (List.mem_filter.mpr ⟨hother, by simpa using hsame⟩),
        hid⟩
  | startup => exact absurd rfl hstart
  | cron firing hfixed =>
    rw [hcron] at hfixed
    cases hfixed
  | promoted j hj hstate => exact (hdead hj (by rw [hstate]; rfl)).elim
  | picked j hidle hj hstate => exact (hdead hj (by rw [hstate]; rfl)).elim
  | stalled j hother hj hstate => exact (hdead hj (by rw [hstate]; rfl)).elim
  | advanced event s s' holds hevent hsweep => exact (hbusy hsweep).elim
  | saved s stillHeld run rest hsweep => exact (hbusy hsweep).elim
  | rearmed s soonest st hsweep => exact (hbusy hsweep).elim
  | completed s j hsweep => exact (hbusy hsweep).elim
  | retried s j hsweep => exact (hbusy hsweep).elim
  | gaveUp s j hsweep => exact (hbusy hsweep).elim
  | crash => exact ⟨⟨rfl, h.ended.jobs⟩, h.parked⟩

/-- Where no cron brings sweeps, a sweep that completes while no other one is to come is the last
one until the next start: none is in progress or to come from then on, and whatever is parked by or
after then stays parked. -/
theorem no_sweep_until_next_start (hcron : pool.isFixedCron = false) {w w' u v : SweepFleet}
    (hcomplete : step pool w (.sweep .complete) = some w') (hlast : ¬ w.Pending)
    (hu : Run.Reaches (step pool) (fun _ e => e ≠ .startup) w' u)
    (hv : Run.Reaches (step pool) (fun _ e => e ≠ .startup) u v) :
    v.Ended ∧ ∀ run ∈ u.parked, ∃ other ∈ v.parked, other.id = run.id := by
  have hended : Ended w' := by
    cases step_cases hcomplete with
    | advanced event s s' holds hevent => exact absurd rfl hevent
    | completed s j hsweep hover hj hid hactive =>
      refine ⟨rfl, fun k hk => ?_⟩
      rcases Queue.eq_or_mem_of_mem_trim_relist hk with rfl | ⟨hold, hne⟩
      · rfl
      · by_contra hlive
        refine hlast ⟨k, hold, by simpa using hlive, fun t ht => ?_⟩
        cases hsweep.symm.trans ht
        exact fun heq => hne (heq.trans hid.symm)
  have hu' : Stranded w' u :=
    hu.invariant (.start hended) fun _ _ _ ht hstart hstep => ht.step hcron hstart hstep
  have hv' : Stranded u v :=
    hv.invariant (.start hu'.ended) fun _ _ _ ht hstart hstep => ht.step hcron hstart hstep
  exact ⟨hv'.ended, hv'.parked⟩

/-- A follow-up that aims at the minute which its own sweep is named after is lost: the second run
stays parked however long its hold is over. -/
theorem second_run_is_stranded :
    ∃ w, Run.Reaches (step groqPool) Run.always fresh w ∧ w.sweep = none ∧
      ∀ v, Run.Reaches (step groqPool) (fun _ e => e ≠ .startup) w v →
        v.Ended ∧ ∃ run ∈ v.parked, run.id = 2 := by
  obtain ⟨w, hrun, hend⟩ := Run.exists_reaches (step groqPool) Run.always fresh
    (parkTwo 100 ++ reviveOne.dropLast)
    (fun w => ¬ w.Pending ∧ (step groqPool w (.sweep .complete)).any fun w' =>
      w'.sweep.isNone && decide (w'.parked = [⟨2, some "b"⟩])) (by decide +kernel)
  obtain ⟨hlast, hnext⟩ := of_decide_eq_true hend
  obtain ⟨w', hcomplete, hw'⟩ := (Option.any_eq_true _ _).mp hnext
  rw [Bool.and_eq_true] at hw'
  refine ⟨w', hrun.snoc trivial hcomplete, by simpa using hw'.1, fun v hv => ?_⟩
  have hstranded := no_sweep_until_next_start (by decide) hcomplete hlast .start hv
  rw [of_decide_eq_true hw'.2] at hstranded
  obtain ⟨other, hother, hid⟩ := hstranded.2 _ (List.mem_singleton.mpr rfl)
  exact ⟨hstranded.1, other, hother, hid⟩

end SweepFleet

end Connections
