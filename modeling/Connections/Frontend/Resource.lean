import Connections.Library.LatestRequest
import Connections.Library.Run

/-!
# One resource of a page

`useResource` fetches what a key names: again for each new key, on a cadence, and when the page asks
for it.  Its responses come whenever they come.  Once its effects have run it shows what came of the
last request, and that one was for the key of the last render.
-/

namespace Connections

open LatestRequest

variable {κ β ε : Type*}

structure UseResourceOpts where
  enabled : Bool := true
  keepPreviousData : Bool := false
  refetchInterval : Option ℕ := none
  deriving DecidableEq

/-- The arguments of a render.  The fetcher of a render is named by the key it is for. -/
structure ResourceRender (κ : Type*) where
  stringKey : κ
  opts : UseResourceOpts
  deriving DecidableEq

/-- A component that uses a resource: its renders, the newest first, the render whose effects ran
last, the key of the fetcher in its ref, and its requests with what is shown. -/
structure UseResource (κ β ε : Type*) where
  rendered : ResourceRender κ
  earlier : List (ResourceRender κ)
  flushed : Bool
  effect : Option (ResourceRender κ)
  fetcher : κ
  mounted : Bool
  slot : Slot κ β ε

/-- What happens to the component; a `refetch` is named by the render that gave it out. -/
inductive ResourceEvent (κ β ε : Type*)
  | render (next : ResourceRender κ)
  | flush
  | interval
  | refetch (closure : ResourceRender κ)
  | settle (i : ℕ) (outcome : Except ε β)
  | unmount

/-- Whether the effect of a render refetches on a cadence; a cadence of zero is none. -/
def ResourceRender.ticks (render : ResourceRender κ) : Bool :=
  render.opts.enabled && render.opts.refetchInterval.any (· ≠ 0)

namespace UseResource

/-- The handlers of a response that their guards let through. -/
def display (shown : Shown β ε) : Except ε β → Shown β ε
  | .ok result => { shown with data := some result, loading := false }
  | .error err => { shown with error := some err, loading := false }

/-- The first render. -/
def mount (first : ResourceRender κ) : UseResource κ β ε where
  rendered := first
  earlier := []
  flushed := false
  effect := none
  fetcher := first.stringKey
  mounted := true
  slot := ⟨[], none, none, first.opts.enabled⟩

def runFetch (w : UseResource κ β ε) (keepPreviousData : Bool) : UseResource κ β ε :=
  { w with slot := w.slot.start w.fetcher keepPreviousData }

/-- Only an enabled effect left a cleanup. -/
def cleanup (w : UseResource κ β ε) : UseResource κ β ε :=
  if w.effect.any (·.opts.enabled) then { w with slot := w.slot.abort } else w

/-- The effect of the last render. -/
def runEffect (w : UseResource κ β ε) : UseResource κ β ε :=
  if w.rendered.opts.enabled then w.runFetch w.rendered.opts.keepPreviousData
  else { w with slot := w.slot.abort.stopLoading }

/-- The last render is done: its fetcher is in the ref. -/
def commitRefs (w : UseResource κ β ε) : UseResource κ β ε :=
  { w with flushed := true, fetcher := w.rendered.stringKey, effect := some w.rendered }

variable [DecidableEq κ]

/-- The effects of the last render; the main one only where its arguments changed. -/
def flush (w : UseResource κ β ε) : UseResource κ β ε :=
  if w.effect = some w.rendered then w.commitRefs else w.cleanup.commitRefs.runEffect

/-- One step of the component; an event that cannot happen is refused. -/
def step (w : UseResource κ β ε) : ResourceEvent κ β ε → Option (UseResource κ β ε)
  | .render next =>
    -- Before another render the effects of the last one have run.
    if w.mounted ∧ w.flushed then
      some { w with rendered := next, earlier := w.rendered :: w.earlier, flushed := false }
    else none
  | .flush => if w.mounted ∧ w.flushed = false then some w.flush else none
  | .interval =>
    w.effect.bind fun last =>
      if w.mounted ∧ last.ticks then some (w.runFetch last.opts.keepPreviousData) else none
  | .refetch closure =>
    if closure ∈ w.rendered :: w.earlier then
      some (if closure.opts.enabled then w.runFetch closure.opts.keepPreviousData else w)
    else none
  | .settle i outcome => (w.slot.settle display i outcome).map fun slot => { w with slot := slot }
  | .unmount => if w.mounted ∧ w.flushed then some { w.cleanup with mounted := false } else none

/-- The handlers show what a response tells. -/
theorem displays_display : Displays (display : Shown β ε → Except ε β → Shown β ε) := by
  apply Displays.of_eq
  · intro shown result hnone
    rw [display, hnone]
  · exact fun _ _ => rfl

/-- What a step did. -/
inductive StepCase (w : UseResource κ β ε) : ResourceEvent κ β ε → UseResource κ β ε → Prop
  | render (next : ResourceRender κ) : w.mounted = true → w.flushed = true →
      StepCase w (.render next)
        { w with rendered := next, earlier := w.rendered :: w.earlier, flushed := false }
  | same : w.mounted = true → w.effect = some w.rendered → StepCase w .flush w.commitRefs
  | effect : w.mounted = true → w.effect ≠ some w.rendered →
      StepCase w .flush w.cleanup.commitRefs.runEffect
  | interval (last : ResourceRender κ) : w.mounted = true → w.effect = some last →
      last.opts.enabled = true →
      StepCase w .interval (w.runFetch last.opts.keepPreviousData)
  | refetch (closure : ResourceRender κ) : closure.opts.enabled = true →
      StepCase w (.refetch closure) (w.runFetch closure.opts.keepPreviousData)
  | disabled (closure : ResourceRender κ) : StepCase w (.refetch closure) w
  | settle (i : ℕ) (outcome : Except ε β) (slot : Slot κ β ε) :
      w.slot.settle display i outcome = some slot →
      StepCase w (.settle i outcome) { w with slot := slot }
  | unmount : w.flushed = true → StepCase w .unmount { w.cleanup with mounted := false }

/-- Every step of the hook is one of these. -/
theorem step_cases {w w' : UseResource κ β ε} {e : ResourceEvent κ β ε} (h : w.step e = some w') :
    StepCase w e w' := by
  cases e with
  | render next =>
    obtain ⟨⟨hmounted, hflushed⟩, ⟨⟩⟩ := Option.ite_none_right_eq_some.mp h
    exact .render next hmounted hflushed
  | flush =>
    obtain ⟨⟨hmounted, -⟩, ⟨⟩⟩ := Option.ite_none_right_eq_some.mp h
    unfold flush
    split
    · exact .same hmounted ‹_›
    · exact .effect hmounted ‹_›
  | interval =>
    obtain ⟨last, hlast, hnext⟩ := Option.bind_eq_some_iff.mp h
    obtain ⟨⟨hmounted, hticks⟩, ⟨⟩⟩ := Option.ite_none_right_eq_some.mp hnext
    exact .interval last hmounted hlast (Bool.and_eq_true_iff.mp hticks).1
  | refetch closure =>
    obtain ⟨-, hnext⟩ := Option.ite_none_right_eq_some.mp h
    cases hnext
    split
    · exact .refetch closure ‹_›
    · exact .disabled closure
  | settle i outcome =>
    obtain ⟨slot, hslot, rfl⟩ := Option.map_eq_some_iff.mp h
    exact .settle i outcome slot hslot
  | unmount =>
    obtain ⟨⟨-, hflushed⟩, ⟨⟩⟩ := Option.ite_none_right_eq_some.mp h
    exact .unmount hflushed

/-! ### The last request wins -/

section Tracks

omit [DecidableEq κ]

@[simp] theorem cleanup_fields (w : UseResource κ β ε) :
    w.cleanup.rendered = w.rendered ∧ w.cleanup.effect = w.effect ∧
      w.cleanup.fetcher = w.fetcher ∧ w.cleanup.flushed = w.flushed ∧
      w.cleanup.mounted = w.mounted ∧ w.cleanup.slot.shown = w.slot.shown := by
  unfold cleanup
  split <;> exact ⟨rfl, rfl, rfl, rfl, rfl, rfl⟩

/-- A cleanup still leaves only the last request that may be under way. -/
theorem exclusive_cleanup {w : UseResource κ β ε} (h : w.slot.Exclusive) :
    w.cleanup.slot.Exclusive := by
  unfold cleanup
  split
  · exact h.abort.exclusive
  · exact h

/-- The ref and the effect belong together, and the slot follows the key of an enabled effect. -/
structure Tracks (w : UseResource κ β ε) : Prop where
  exclusive : w.slot.Exclusive
  flushed : w.flushed = true → w.effect = some w.rendered
  fetcher : ∀ last ∈ w.effect, w.fetcher = last.stringKey
  follows : w.mounted = true → ∀ last ∈ w.effect, last.opts.enabled = true →
    w.slot.Follows last.stringKey last.opts.keepPreviousData

/-- Before the first effect there is no key to follow. -/
theorem tracks_mount (first : ResourceRender κ) : (mount first : UseResource κ β ε).Tracks where
  exclusive := nofun
  flushed := nofun
  fetcher := nofun
  follows := fun _ => nofun

/-- Another request for the same key. -/
theorem Tracks.runFetch {w : UseResource κ β ε} (h : w.Tracks) (keepPreviousData : Bool) :
    (w.runFetch keepPreviousData).Tracks where
  exclusive := h.exclusive.start _ _
  flushed := h.flushed
  fetcher := h.fetcher
  follows := by
    intro hmounted last hlast henabled
    have hfollows := h.follows hmounted last hlast henabled
    rw [← h.fetcher last hlast] at hfollows ⊢
    exact hfollows.start keepPreviousData

/-- The first request for a new key, or none. -/
theorem Tracks.runEffect {w : UseResource κ β ε} (h : w.Tracks) :
    w.cleanup.commitRefs.runEffect.Tracks := by
  have hexclusive : w.cleanup.commitRefs.slot.Exclusive := exclusive_cleanup h.exclusive
  unfold UseResource.runEffect
  split
  · refine ⟨hexclusive.start _ _, fun _ => rfl, ?_, ?_⟩
    · rintro last ⟨⟩
      rfl
    · rintro - last ⟨⟩ -
      exact Slot.follows_start _ _ _
  · rename_i hdisabled
    refine ⟨hexclusive.abort.exclusive, fun _ => rfl, ?_, ?_⟩
    · rintro last ⟨⟩
      rfl
    · rintro - last ⟨⟩ henabled
      exact absurd henabled hdisabled

end Tracks

/-- Every step keeps the slot with the key of the last effect. -/
theorem Tracks.step {w w' : UseResource κ β ε} {e : ResourceEvent κ β ε} (h : w.Tracks)
    (hstep : w.step e = some w') : w'.Tracks := by
  cases step_cases hstep with
  | render next hmounted hflushed => exact ⟨h.exclusive, nofun, h.fetcher, h.follows⟩
  | same hmounted heffect =>
    have hfollows := h.follows
    rw [heffect] at hfollows
    refine ⟨h.exclusive, fun _ => rfl, ?_, hfollows⟩
    rintro last ⟨⟩
    rfl
  | effect hmounted heffect => exact h.runEffect
  | interval last hmounted hlast henabled => exact h.runFetch _
  | refetch closure henabled => exact h.runFetch _
  | disabled closure => exact h
  | settle i outcome slot hslot =>
    refine ⟨h.exclusive.settle hslot, h.flushed, h.fetcher, ?_⟩
    intro hmounted last hlast henabled
    exact (h.follows hmounted last hlast henabled).settle displays_display hslot
  | unmount hflushed =>
    refine ⟨exclusive_cleanup h.exclusive, ?_, ?_, nofun⟩
    · intro _
      simpa using h.flushed hflushed
    · simpa using h.fetcher

/-- In every run the slot follows the key of the last effect. -/
theorem tracks_reaches {first : ResourceRender κ} {w : UseResource κ β ε}
    {ok : UseResource κ β ε → ResourceEvent κ β ε → Prop}
    (h : Run.Reaches step ok (mount first) w) : w.Tracks :=
  h.invariant (tracks_mount first) fun _ _ _ htracks _ hstep => htracks.step hstep

/-- While enabled, and once its effects have run, the component shows what came of its last request:
that one is for the key of the last render and all others were told to abort, in whatever order
responses come.  Unless earlier data is kept, data that is shown answered a request for that key. -/
theorem shows_latest_request {first : ResourceRender κ} {w : UseResource κ β ε}
    (h : Run.Reaches step Run.always (mount first) w) (hmounted : w.mounted = true)
    (hflushed : w.flushed = true) (henabled : w.rendered.opts.enabled = true) :
    w.slot.Follows w.rendered.stringKey w.rendered.opts.keepPreviousData ∧ w.slot.Exclusive := by
  have htracks := tracks_reaches h
  have heffect := htracks.flushed hflushed
  exact ⟨htracks.follows hmounted w.rendered heffect henabled, htracks.exclusive⟩

/-- A response for the key before comes late. -/
def lateResponse : List (ResourceEvent ℕ ℕ String) :=
  [.flush, .render ⟨2, {}⟩, .flush, .settle 1 (.ok 20), .settle 0 (.ok 10)]

/-- It is not shown. -/
theorem late_response_is_not_shown :
    ∃ w : UseResource ℕ ℕ String, Run.Reaches step Run.always (mount ⟨1, {}⟩) w ∧
      w.slot.shown.data = some 20 ∧ w.slot.Follows 2 false := by
  obtain ⟨w, hrun, hend⟩ := Run.exists_reaches step Run.always
    (mount ⟨1, {}⟩ : UseResource ℕ ℕ String) lateResponse
    (fun w => w.slot.shown.data = some 20 ∧ w.mounted ∧ w.flushed ∧ w.rendered = ⟨2, {}⟩)
    (by decide +kernel)
  obtain ⟨hdata, hmounted, hflushed, hrendered⟩ := of_decide_eq_true hend
  have hshows := shows_latest_request hrun hmounted hflushed (by rw [hrendered])
  rw [hrendered] at hshows
  exact ⟨w, hrun, hdata, hshows.1⟩

/-! ### A disabled resource -/

/-- The page calls the `refetch` of its last render, while it is mounted. -/
def CallsLast (w : UseResource κ β ε) : ResourceEvent κ β ε → Prop
  | .refetch closure => closure = w.rendered ∧ w.mounted = true
  | _ => True

instance (w : UseResource κ β ε) (e : ResourceEvent κ β ε) : Decidable (w.CallsLast e) :=
  match e with
  | .refetch closure => inferInstanceAs (Decidable (closure = w.rendered ∧ w.mounted = true))
  | .render _ | .flush | .interval | .settle _ _ | .unmount => .isTrue trivial

/-- Where nothing is fetched, nothing is under way. -/
structure Rests (w : UseResource κ β ε) : Prop where
  disabled : ∀ last ∈ w.effect, last.opts.enabled = false → w.rendered.opts.enabled = false →
    w.slot.Quiet ∧ w.slot.shown.loading = false
  unmounted : w.mounted = false → w.slot.Quiet

section Cleanup

omit [DecidableEq κ]

/-- A disabled effect left no cleanup. -/
theorem cleanup_of_disabled {w : UseResource κ β ε} {last : ResourceRender κ}
    (heffect : w.effect = some last) (h : last.opts.enabled = false) : w.cleanup = w := by
  simp [cleanup, heffect, h]

/-- An enabled one aborts what is under way. -/
theorem quiet_cleanup {w : UseResource κ β ε} {last : ResourceRender κ}
    (hexclusive : w.slot.Exclusive) (heffect : w.effect = some last)
    (h : last.opts.enabled = true) : w.cleanup.slot.Quiet := by
  have hcleanup : w.cleanup = { w with slot := w.slot.abort } := by
    simp [cleanup, heffect, h]
  rw [hcleanup]
  exact hexclusive.abort

/-- No response starts to load. -/
theorem settle_loading {slot slot' : Slot κ β ε} {i : ℕ} {outcome : Except ε β}
    (hsettle : slot.settle display i outcome = some slot') (h : slot.shown.loading = false) :
    slot'.shown.loading = false := by
  obtain ⟨_, -, -, -, hshown⟩ := Slot.settle_cases hsettle
  rw [hshown]
  split
  · exact h
  · cases outcome <;> rfl

end Cleanup

/-- Where nothing is fetched, no step starts a request. -/
theorem Rests.step {w w' : UseResource κ β ε} {e : ResourceEvent κ β ε} (h : w.Rests)
    (htracks : w.Tracks) (hok : w.CallsLast e) (hstep : w.step e = some w') : w'.Rests := by
  cases step_cases hstep with
  | render next hmounted hflushed =>
    refine ⟨fun last hlast hdisabled _ => ?_, h.unmounted⟩
    have heffect := htracks.flushed hflushed
    cases heffect.symm.trans hlast
    exact h.disabled _ heffect hdisabled hdisabled
  | same hmounted heffect =>
    refine ⟨?_, h.unmounted⟩
    rintro last ⟨⟩ hdisabled -
    exact h.disabled _ heffect hdisabled hdisabled
  | effect hmounted heffect =>
    have hexclusive : w.cleanup.commitRefs.slot.Exclusive := exclusive_cleanup htracks.exclusive
    unfold runEffect
    split
    · rename_i henabled
      refine ⟨?_, fun hunmounted => ?_⟩
      · rintro last ⟨⟩ hdisabled -
        exact absurd (henabled.symm.trans hdisabled) nofun
      · have hmounted' : w.cleanup.mounted = true := by simpa using hmounted
        exact absurd (hmounted'.symm.trans hunmounted) nofun
    · exact ⟨fun _ _ _ _ => ⟨hexclusive.abort, rfl⟩, fun _ => hexclusive.abort⟩
  | interval last hmounted hlast henabled =>
    refine ⟨fun other hother hdisabled => ?_, fun hunmounted => ?_⟩
    · cases hlast.symm.trans hother
      exact absurd (henabled.symm.trans hdisabled) nofun
    · exact absurd (hmounted.symm.trans hunmounted) nofun
  | refetch closure henabled =>
    obtain ⟨rfl, hmounted⟩ := hok
    refine ⟨fun _ _ _ hdisabled => ?_, fun hunmounted => ?_⟩
    · exact absurd (henabled.symm.trans hdisabled) nofun
    · exact absurd (hmounted.symm.trans hunmounted) nofun
  | disabled closure => exact h
  | settle i outcome slot hslot =>
    refine ⟨fun last hlast hdisabled hrendered => ?_, fun hunmounted => ?_⟩
    · obtain ⟨hquiet, hloading⟩ := h.disabled last hlast hdisabled hrendered
      exact ⟨hquiet.settle hslot, settle_loading hslot hloading⟩
    · exact (h.unmounted hunmounted).settle hslot
  | unmount hflushed =>
    have heffect := htracks.flushed hflushed
    cases henabled : w.rendered.opts.enabled with
    | true =>
      refine ⟨fun last hlast hdisabled _ => ?_, fun _ => ?_⟩
      · have hlast' : w.effect = some last := by simpa using hlast
        cases heffect.symm.trans hlast'
        exact absurd (henabled.symm.trans hdisabled) nofun
      · exact quiet_cleanup htracks.exclusive heffect henabled
    | false =>
      have hrests := h.disabled _ heffect henabled henabled
      rw [cleanup_of_disabled heffect henabled]
      exact ⟨fun _ _ _ _ => hrests, fun _ => hrests.1⟩

/-- Nothing is fetched, and of what was shown only the data changes, if the last request answers in
spite of its abort. -/
structure Preserves (first slot : Slot κ β ε) : Prop where
  quiet : slot.Quiet
  length : slot.requests.length = first.requests.length
  loading : slot.shown.loading = false
  error : slot.shown.error = first.shown.error
  data : slot.shown.data = first.shown.data ∨
    ∃ request ∈ slot.requests.getLast?, ∃ result, request.outcome = some (.ok result) ∧
      slot.shown.data = some result

/-- The page stays with a disabled resource. -/
def StaysDisabled (w : UseResource κ β ε) : ResourceEvent κ β ε → Prop
  | .render next => next.opts.enabled = false
  | e => w.CallsLast e

instance (w : UseResource κ β ε) (e : ResourceEvent κ β ε) : Decidable (w.StaysDisabled e) :=
  match e with
  | .render next => inferInstanceAs (Decidable (next.opts.enabled = false))
  | .refetch closure => inferInstanceAs (Decidable (w.CallsLast (.refetch closure)))
  | .flush | .interval | .settle _ _ | .unmount => .isTrue trivial

section Preserves

omit [DecidableEq κ]

/-- Aborting once more leaves what is shown. -/
theorem Preserves.stop {first slot : Slot κ β ε} (h : Preserves first slot) :
    Preserves first slot.abort.stopLoading where
  quiet := h.quiet.exclusive.abort
  length := by
    rw [← h.length]
    exact Slot.length_abort _
  loading := rfl
  error := h.error
  data := by
    rcases h.data with hsame | ⟨request, hlast, result, houtcome, hdata⟩
    · exact .inl hsame
    · refine .inr ⟨request.abort, ?_, result, houtcome, hdata⟩
      rw [Slot.stopLoading_requests, Slot.getLast?_abort, Option.mem_def.mp hlast]
      rfl

/-- A response is ignored, or it is the data of the last request. -/
theorem Preserves.settle {first slot slot' : Slot κ β ε} {i : ℕ} {outcome : Except ε β}
    (h : Preserves first slot) (hsettle : slot.settle display i outcome = some slot') :
    Preserves first slot' := by
  obtain ⟨request, hget, hpending, hrequests, hshown⟩ := Slot.settle_cases hsettle
  have haborted := h.quiet request (List.mem_of_getElem? hget)
  have hlength : slot'.requests.length = slot.requests.length := by
    rw [hrequests, List.length_set]
  have hloading := settle_loading hsettle h.loading
  cases hignores : slot.ignores i request outcome with
  | true =>
    rw [hignores, if_pos rfl] at hshown
    refine ⟨h.quiet.settle hsettle, hlength.trans h.length, hloading, ?_, ?_⟩
    · rw [hshown, h.error]
    · rw [hshown]
      rcases h.data with hsame | ⟨last, hlast, result, houtcome, hdata⟩
      · exact .inl hsame
      · refine .inr ⟨last, ?_, result, houtcome, hdata⟩
        rw [Option.mem_def, List.getLast?_eq_getElem?] at hlast ⊢
        rw [hlength]
        exact Slot.settle_getElem? hsettle hlast (by simp [houtcome])
  | false =>
    have hi := Slot.last_of_not_ignores hignores
    rw [hignores, if_neg nofun] at hshown
    cases outcome with
    | ok result =>
      refine ⟨h.quiet.settle hsettle, hlength.trans h.length, hloading, ?_, .inr ?_⟩
      · rw [hshown]
        exact h.error
      · refine ⟨{ request with outcome := some (.ok result) }, ?_, result, rfl, ?_⟩
        · rw [Option.mem_def, List.getLast?_eq_getElem?, hlength, hrequests, ← hi,
            Nat.add_sub_cancel]
          exact List.getElem?_set_self (List.getElem?_eq_some_iff.mp hget).1
        · rw [hshown]
          rfl
    | error err =>
      -- A failure of an aborted request is not shown.
      rw [Slot.ignores, haborted] at hignores
      cases hignores

end Preserves

/-- The state of a disabled resource, after its effects were last run and since. -/
structure Disabled (first w : UseResource κ β ε) : Prop where
  tracks : w.Tracks
  rendered : w.rendered.opts.enabled = false
  effect : ∃ last, w.effect = some last ∧ last.opts.enabled = false
  preserves : Preserves first.slot w.slot

/-- No step of a page that stays with a disabled resource changes more. -/
theorem Disabled.step {first w w' : UseResource κ β ε} {e : ResourceEvent κ β ε}
    (h : first.Disabled w) (hok : w.StaysDisabled e) (hstep : w.step e = some w') :
    first.Disabled w' := by
  have htracks := h.tracks.step hstep
  obtain ⟨last, hlast, hdisabled⟩ := h.effect
  cases step_cases hstep with
  | render next hmounted hflushed => exact ⟨htracks, hok, h.effect, h.preserves⟩
  | same hmounted heffect =>
    exact ⟨htracks, h.rendered, ⟨w.rendered, rfl, h.rendered⟩, h.preserves⟩
  | effect hmounted heffect =>
    rw [cleanup_of_disabled hlast hdisabled] at htracks ⊢
    have hrun : w.commitRefs.runEffect =
        { w.commitRefs with slot := w.slot.abort.stopLoading } := by
      simp [runEffect, commitRefs, h.rendered]
    rw [hrun] at htracks ⊢
    exact ⟨htracks, h.rendered, ⟨w.rendered, rfl, h.rendered⟩, h.preserves.stop⟩
  | interval other hmounted hother henabled =>
    cases hlast.symm.trans hother
    exact absurd (henabled.symm.trans hdisabled) nofun
  | refetch closure henabled =>
    obtain ⟨rfl, -⟩ := hok
    exact absurd (henabled.symm.trans h.rendered) nofun
  | disabled closure => exact h
  | settle i outcome slot hslot =>
    exact ⟨htracks, h.rendered, h.effect, h.preserves.settle hslot⟩
  | unmount hflushed =>
    rw [cleanup_of_disabled hlast hdisabled] at htracks ⊢
    exact ⟨htracks, h.rendered, h.effect, h.preserves⟩

omit [DecidableEq κ] in
/-- Before the first effect nothing is under way. -/
theorem rests_mount (first : ResourceRender κ) : (mount first : UseResource κ β ε).Rests :=
  ⟨nofun, nofun⟩

theorem rests_reaches {first : ResourceRender κ} {w : UseResource κ β ε}
    (h : Run.Reaches step CallsLast (mount first) w) : w.Tracks ∧ w.Rests := by
  induction h with
  | start => exact ⟨tracks_mount first, rests_mount first⟩
  | snoc _ hok hstep ih => exact ⟨ih.1.step hstep, ih.2.step ih.1 hok hstep⟩

/-- After it was unmounted every request of a resource was told to abort. -/
theorem unmounted_aborts {first : ResourceRender κ} {w : UseResource κ β ε}
    (h : Run.Reaches step CallsLast (mount first) w) (hunmounted : w.mounted = false) :
    w.slot.Quiet :=
  (rests_reaches h).2.unmounted hunmounted

/-- Once its effects have run, a disabled resource fetches nothing while it stays disabled: every
request was told to abort, nothing loads, and what was shown is preserved, except that the last
request may still answer in spite of its abort. -/
theorem disabled_preserves {first : ResourceRender κ} {w w' : UseResource κ β ε}
    (hfirst : Run.Reaches step CallsLast (mount first) w) (hflushed : w.flushed = true)
    (hdisabled : w.rendered.opts.enabled = false) (h : Run.Reaches step StaysDisabled w w') :
    Preserves w.slot w'.slot := by
  obtain ⟨htracks, hrests⟩ := rests_reaches hfirst
  have heffect := htracks.flushed hflushed
  obtain ⟨hquiet, hloading⟩ := hrests.disabled _ heffect hdisabled hdisabled
  have hstart : w.Disabled w :=
    ⟨htracks, hdisabled, ⟨_, heffect, hdisabled⟩, hquiet, rfl, hloading, rfl, .inl rfl⟩
  exact (h.invariant hstart fun _ _ _ hw hok hstep => hw.step hok hstep).preserves

/-- A resource that shows an answer is disabled while it is fetched again. -/
def disableWhileFetching : List (ResourceEvent ℕ ℕ String) :=
  [.flush, .settle 0 (.ok 10), .render ⟨1, { keepPreviousData := true }⟩, .flush,
    .render ⟨1, { enabled := false }⟩, .flush]

/-- The request under way fails, and the page goes on to another key. -/
def failAndGoOn : List (ResourceEvent ℕ ℕ String) :=
  [.settle 1 (.error "aborted"), .render ⟨2, { enabled := false }⟩, .flush]

/-- The answer is still shown, without an error. -/
theorem disabled_preserves_answer :
    ∃ w w' : UseResource ℕ ℕ String, Run.Reaches step CallsLast (mount ⟨1, {}⟩) w ∧
      Run.Reaches step StaysDisabled w w' ∧ w'.slot.shown.data = some 10 ∧
      w'.rendered.stringKey = 2 ∧ Preserves w.slot w'.slot := by
  obtain ⟨w, hrun, hend⟩ := Run.exists_reaches step CallsLast
    (mount ⟨1, {}⟩ : UseResource ℕ ℕ String) disableWhileFetching
    (fun w => w.flushed ∧ w.rendered.opts.enabled = false ∧
      (Run.exec step StaysDisabled w failAndGoOn).any fun w' =>
        w'.slot.shown.data = some 10 ∧ w'.rendered.stringKey = 2) (by decide +kernel)
  obtain ⟨hflushed, hdisabled, hmore⟩ := of_decide_eq_true hend
  obtain ⟨w', hw', hshown⟩ := (Option.any_eq_true _ _).mp hmore
  have hrun' := Run.exec_reaches hw'
  obtain ⟨hdata, hkey⟩ := of_decide_eq_true hshown
  exact ⟨w, w', hrun, hrun', hdata, hkey, disabled_preserves hrun hflushed hdisabled hrun'⟩

end UseResource

end Connections
