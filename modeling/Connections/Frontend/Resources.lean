import Connections.Frontend.Resource
import Mathlib.Logic.Function.Basic

/-!
# A resource for each of a list of ids

`useResources` fetches what a key names for every id of a list, with a slot for each id.  For each
listed id it shows what came of that id's last request, as `useResource` does for its one key;
unlike there, a `refetch` fetches while the list is disabled, too.
-/

namespace Connections

open LatestRequest

variable {ι κ β ε : Type*}

/-- The arguments of a render.  The fetcher of a render is named by the key it is for. -/
structure ResourcesRender (ι κ : Type*) where
  stringKey : κ
  ids : List ι
  opts : UseResourceOpts
  deriving DecidableEq

/-- A component that uses resources.  An id has no slot until something is recorded for it.  The
source keeps the slots in plain objects; ids that are names of what every object inherits
("constructor" and so on) are not covered. -/
structure UseResources (ι κ β ε : Type*) where
  rendered : ResourcesRender ι κ
  earlier : List (ResourcesRender ι κ)
  flushed : Bool
  effect : Option (ResourcesRender ι κ)
  fetcher : κ
  mounted : Bool
  slots : ι → Option (Slot κ β ε)

/-- What happens to the component; a `refetch` is named by its id and the render that gave it. -/
inductive ResourcesEvent (ι κ β ε : Type*)
  | render (next : ResourcesRender ι κ)
  | flush
  | interval
  | refetch (closure : ResourcesRender ι κ) (id : ι)
  | settle (id : ι) (i : ℕ) (outcome : Except ε β)
  | unmount

/-- Whether the effect of a render refetches on a cadence; a cadence of zero is none. -/
def ResourcesRender.ticks (render : ResourcesRender ι κ) : Bool :=
  render.opts.enabled && render.opts.refetchInterval.any (· ≠ 0)

namespace UseResources

/-- The handlers of a response that their guards let through. -/
def display (shown : Shown β ε) : Except ε β → Shown β ε
  | .ok result => ⟨some result, none, false⟩
  | .error err => ⟨shown.data, some err, false⟩

/-- The first render. -/
def mount (first : ResourcesRender ι κ) : UseResources ι κ β ε where
  rendered := first
  earlier := []
  flushed := false
  effect := none
  fetcher := first.stringKey
  mounted := true
  slots := fun _ => none

/-- What the component is given for an id. -/
def result (w : UseResources ι κ β ε) (id : ι) : Shown β ε :=
  match w.slots id with
  | some slot => slot.shown
  | none => ⟨none, none, w.rendered.opts.enabled⟩

/-- The slot of an id, with nothing recorded at first. -/
def slotOf (w : UseResources ι κ β ε) (id : ι) : Slot κ β ε :=
  (w.slots id).getD ⟨[], none, none, false⟩

/-- The last render is done: its fetcher is in the ref. -/
def commitRefs (w : UseResources ι κ β ε) : UseResources ι κ β ε :=
  { w with flushed := true, fetcher := w.rendered.stringKey, effect := some w.rendered }

variable [DecidableEq ι]

/-- Replace the slot of an id. -/
def setSlot (w : UseResources ι κ β ε) (id : ι) (slot : Slot κ β ε) : UseResources ι κ β ε :=
  { w with slots := Function.update w.slots id (some slot) }

def runOne (w : UseResources ι κ β ε) (keepPreviousData : Bool) (id : ι) : UseResources ι κ β ε :=
  w.setSlot id ((w.slotOf id).start w.fetcher keepPreviousData)

def runAll (w : UseResources ι κ β ε) (keepPreviousData : Bool) (ids : List ι) :
    UseResources ι κ β ε :=
  ids.foldl (fun w id => w.runOne keepPreviousData id) w

/-- Only an enabled effect left a cleanup, for the ids it was for. -/
def cleanup (w : UseResources ι κ β ε) : UseResources ι κ β ε :=
  { w with
    slots := fun id =>
      if w.effect.any fun last => last.opts.enabled && id ∈ last.ids then
        (w.slots id).map Slot.abort
      else w.slots id }

/-- The effect of a disabled render: every request is aborted, and no listed id is loading. -/
def disable (w : UseResources ι κ β ε) : UseResources ι κ β ε :=
  { w with
    slots := fun id =>
      if id ∈ w.rendered.ids then some (w.slotOf id).abort.stopLoading
      else (w.slots id).map Slot.abort }

/-- The effect of the last render. -/
def runEffect (w : UseResources ι κ β ε) : UseResources ι κ β ε :=
  if w.rendered.opts.enabled then w.runAll w.rendered.opts.keepPreviousData w.rendered.ids
  else w.disable

variable [DecidableEq κ]

/-- The effects of the last render; the main one only where its arguments changed. -/
def flush (w : UseResources ι κ β ε) : UseResources ι κ β ε :=
  if w.effect = some w.rendered then w.commitRefs else w.cleanup.commitRefs.runEffect

/-- One step of the component; an event that cannot happen is refused. -/
def step (w : UseResources ι κ β ε) : ResourcesEvent ι κ β ε → Option (UseResources ι κ β ε)
  | .render next =>
    -- Before another render the effects of the last one have run.
    if w.mounted ∧ w.flushed then
      some { w with rendered := next, earlier := w.rendered :: w.earlier, flushed := false }
    else none
  | .flush => if w.mounted ∧ w.flushed = false then some w.flush else none
  | .interval =>
    w.effect.bind fun last =>
      if w.mounted ∧ last.ticks then some (w.runAll last.opts.keepPreviousData last.ids) else none
  | .refetch closure id =>
    -- The option `enabled` of the render is not asked.
    if closure ∈ w.rendered :: w.earlier ∧ id ∈ closure.ids then
      some (w.runOne closure.opts.keepPreviousData id)
    else none
  | .settle id i outcome =>
    (w.slots id).bind fun slot =>
      (slot.settle display i outcome).map fun slot' => w.setSlot id slot'
  | .unmount => if w.mounted ∧ w.flushed then some { w.cleanup with mounted := false } else none

/-- The handlers show what a response tells. -/
theorem displays_display : Displays (display : Shown β ε → Except ε β → Shown β ε) := by
  apply Displays.of_eq
  · exact fun _ _ _ => rfl
  · exact fun _ _ => rfl

/-- What a step did. -/
inductive StepCase (w : UseResources ι κ β ε) :
    ResourcesEvent ι κ β ε → UseResources ι κ β ε → Prop
  | render (next : ResourcesRender ι κ) : w.mounted = true → w.flushed = true →
      StepCase w (.render next)
        { w with rendered := next, earlier := w.rendered :: w.earlier, flushed := false }
  | same : w.mounted = true → w.effect = some w.rendered → StepCase w .flush w.commitRefs
  | effect : w.mounted = true → w.effect ≠ some w.rendered →
      StepCase w .flush w.cleanup.commitRefs.runEffect
  | interval (last : ResourcesRender ι κ) : w.mounted = true → w.effect = some last →
      last.opts.enabled = true →
      StepCase w .interval (w.runAll last.opts.keepPreviousData last.ids)
  | refetch (closure : ResourcesRender ι κ) (id : ι) : id ∈ closure.ids →
      StepCase w (.refetch closure id) (w.runOne closure.opts.keepPreviousData id)
  | settle (id : ι) (i : ℕ) (outcome : Except ε β) (slot slot' : Slot κ β ε) :
      w.slots id = some slot → slot.settle display i outcome = some slot' →
      StepCase w (.settle id i outcome) (w.setSlot id slot')
  | unmount : w.flushed = true → StepCase w .unmount { w.cleanup with mounted := false }

/-- Every step of the hook is one of these. -/
theorem step_cases {w w' : UseResources ι κ β ε} {e : ResourcesEvent ι κ β ε}
    (h : w.step e = some w') : StepCase w e w' := by
  cases e with
  | render next =>
    obtain ⟨⟨hmounted, hflushed⟩, ⟨⟩⟩ := Option.ite_none_right_eq_some.mp h
    exact .render next hmounted hflushed
  | flush =>
    obtain ⟨⟨hmounted, -⟩, ⟨⟩⟩ := Option.ite_none_right_eq_some.mp h
    unfold flush
    split
    · exact .same hmounted ‹_›
    · exact .effect hmounted ‹_›
  | interval =>
    obtain ⟨last, hlast, hnext⟩ := Option.bind_eq_some_iff.mp h
    obtain ⟨⟨hmounted, hticks⟩, ⟨⟩⟩ := Option.ite_none_right_eq_some.mp hnext
    exact .interval last hmounted hlast (Bool.and_eq_true_iff.mp hticks).1
  | refetch closure id =>
    obtain ⟨⟨-, hid⟩, ⟨⟩⟩ := Option.ite_none_right_eq_some.mp h
    exact .refetch closure id hid
  | settle id i outcome =>
    obtain ⟨slot, hslot, hnext⟩ := Option.bind_eq_some_iff.mp h
    obtain ⟨slot', hslot', rfl⟩ := Option.map_eq_some_iff.mp hnext
    exact .settle id i outcome slot slot' hslot hslot'
  | unmount =>
    obtain ⟨⟨-, hflushed⟩, ⟨⟩⟩ := Option.ite_none_right_eq_some.mp h
    exact .unmount hflushed

/-! ### Starting requests -/

/-- The slot of an id follows a key. -/
def FollowsAt (key : κ) (keep : Bool) (w : UseResources ι κ β ε) (id : ι) : Prop :=
  ∃ slot ∈ w.slots id, slot.Follows key keep

/-- In every slot only the last request may be under way. -/
def Exclusive (w : UseResources ι κ β ε) : Prop := ∀ id, ∀ slot ∈ w.slots id, slot.Exclusive

section Requests

omit [DecidableEq κ]

omit [DecidableEq ι] in
/-- A slot that was never used has no request to write into it. -/
theorem Exclusive.slotOf {w : UseResources ι κ β ε} (h : w.Exclusive) (id : ι) :
    (w.slotOf id).Exclusive := by
  unfold UseResources.slotOf
  cases hslot : w.slots id with
  | none => exact nofun
  | some slot => exact h id slot hslot

/-- The slot that is set is the one found under its id. -/
theorem setSlot_self (w : UseResources ι κ β ε) (id : ι) (slot : Slot κ β ε) :
    (w.setSlot id slot).slots id = some slot :=
  Function.update_self ..

/-- The slots of the other ids stay as they are. -/
theorem setSlot_of_ne (w : UseResources ι κ β ε) {id id' : ι} (slot : Slot κ β ε) (h : id' ≠ id) :
    (w.setSlot id slot).slots id' = w.slots id' :=
  Function.update_of_ne h ..

/-- Setting one slot leaves the others their one request. -/
theorem Exclusive.setSlot {w : UseResources ι κ β ε} {slot : Slot κ β ε} (h : w.Exclusive) (id : ι)
    (hslot : slot.Exclusive) : (w.setSlot id slot).Exclusive := by
  intro id' other hother
  by_cases hid : id' = id
  · subst hid
    rw [setSlot_self] at hother
    cases hother
    exact hslot
  · rw [w.setSlot_of_ne slot hid] at hother
    exact h id' other hother

/-- A request for an id aborts the ones before it. -/
theorem Exclusive.runOne {w : UseResources ι κ β ε} (h : w.Exclusive) (keepPreviousData : Bool)
    (id : ι) : (w.runOne keepPreviousData id).Exclusive :=
  h.setSlot id ((h.slotOf id).start _ _)

/-- The id that is fetched follows the key of the fetcher. -/
theorem followsAt_runOne (w : UseResources ι κ β ε) (keepPreviousData : Bool) (id : ι) :
    (w.runOne keepPreviousData id).FollowsAt w.fetcher keepPreviousData id := by
  exact ⟨_, w.setSlot_self id _, Slot.follows_start _ _ _⟩

/-- An id that follows the key of the fetcher goes on to. -/
theorem FollowsAt.runOne {w : UseResources ι κ β ε} {keep : Bool} {id : ι}
    (h : w.FollowsAt w.fetcher keep id) (keepPreviousData : Bool) (id' : ι) :
    (w.runOne keepPreviousData id').FollowsAt w.fetcher keep id := by
  obtain ⟨slot, hslot, hfollows⟩ := h
  by_cases hid : id = id'
  · subst hid
    refine ⟨slot.start w.fetcher keepPreviousData, ?_, hfollows.start keepPreviousData⟩
    rw [UseResources.runOne, setSlot_self, UseResources.slotOf, Option.mem_def.mp hslot]
    exact rfl
  · exact ⟨slot, (w.setSlot_of_ne _ hid).trans hslot, hfollows⟩

/-- A loop over ids touches their slots only. -/
theorem runAll_fields (keepPreviousData : Bool) (ids : List ι) (w : UseResources ι κ β ε) :
    w.runAll keepPreviousData ids =
      { w with slots := (w.runAll keepPreviousData ids).slots } := by
  induction ids generalizing w with
  | nil => rfl
  | cons id ids ih => exact ih (w.runOne keepPreviousData id)

/-- A loop over ids aborts the earlier requests of each. -/
theorem Exclusive.runAll {w : UseResources ι κ β ε} (h : w.Exclusive) (keepPreviousData : Bool)
    (ids : List ι) : (w.runAll keepPreviousData ids).Exclusive := by
  induction ids generalizing w with
  | nil => exact h
  | cons id ids ih => exact ih (h.runOne keepPreviousData id)

/-- An id that follows the fetcher still does when others are asked. -/
theorem FollowsAt.runAll {w : UseResources ι κ β ε} {keep : Bool} {id : ι}
    (h : w.FollowsAt w.fetcher keep id) (keepPreviousData : Bool) (ids : List ι) :
    (w.runAll keepPreviousData ids).FollowsAt w.fetcher keep id := by
  induction ids generalizing w with
  | nil => exact h
  | cons id' ids ih => exact ih (h.runOne keepPreviousData id')

/-- Every id of the loop follows the key of the fetcher, also an id that comes twice. -/
theorem followsAt_runAll {ids : List ι} {id : ι} (h : id ∈ ids) (w : UseResources ι κ β ε)
    (keepPreviousData : Bool) :
    (w.runAll keepPreviousData ids).FollowsAt w.fetcher keepPreviousData id := by
  induction ids generalizing w with
  | nil => cases h
  | cons id' ids ih =>
    rcases List.mem_cons.mp h with rfl | hrest
    · exact (w.followsAt_runOne keepPreviousData id).runAll keepPreviousData ids
    · exact ih hrest (w.runOne keepPreviousData id')

/-- The slots of other ids are left as they are. -/
theorem runAll_slots_of_not_mem {ids : List ι} {id : ι} (h : id ∉ ids)
    (w : UseResources ι κ β ε) (keepPreviousData : Bool) :
    (w.runAll keepPreviousData ids).slots id = w.slots id := by
  induction ids generalizing w with
  | nil => rfl
  | cons id' ids ih =>
    rw [List.mem_cons, not_or] at h
    exact (ih h.2 (w.runOne keepPreviousData id')).trans (w.setSlot_of_ne _ h.1)

/-- What the cleanup leaves in the slot of an id. -/
theorem mem_cleanup {w : UseResources ι κ β ε} {id : ι} {slot : Slot κ β ε}
    (h : slot ∈ w.cleanup.slots id) :
    ∃ old ∈ w.slots id,
      slot = old.abort ∨
        slot = old ∧ ∀ last ∈ w.effect, last.opts.enabled = true → id ∉ last.ids := by
  simp only [cleanup] at h
  split at h
  · obtain ⟨old, hold, rfl⟩ := Option.map_eq_some_iff.mp h
    exact ⟨old, hold, .inl rfl⟩
  · rename_i hother
    refine ⟨slot, h, .inr ⟨rfl, fun last hlast henabled hid => hother ?_⟩⟩
    rw [Option.mem_def.mp hlast]
    simp [henabled, hid]

/-- A cleanup aborts the request of each slot. -/
theorem Exclusive.cleanup {w : UseResources ι κ β ε} (h : w.Exclusive) : w.cleanup.Exclusive := by
  intro id slot hslot
  obtain ⟨old, hold, rfl | ⟨rfl, -⟩⟩ := mem_cleanup hslot
  · exact (h id old hold).abort.exclusive
  · exact h id slot hold

/-- Where the list is disabled every request is aborted. -/
theorem Exclusive.disable {w : UseResources ι κ β ε} (h : w.Exclusive) :
    ∀ id, ∀ slot ∈ w.disable.slots id, slot.Quiet := by
  intro id slot hslot
  simp only [UseResources.disable] at hslot
  split at hslot
  · cases hslot
    exact (h.slotOf id).abort
  · obtain ⟨old, hold, rfl⟩ := Option.map_eq_some_iff.mp hslot
    exact (h id old hold).abort

end Requests

/-! ### The last request of each id wins -/

/-- The ref and the effect belong together, and the ids of an enabled effect follow its key. -/
structure Tracks (w : UseResources ι κ β ε) : Prop where
  exclusive : w.Exclusive
  flushed : w.flushed = true → w.effect = some w.rendered
  fetcher : ∀ last ∈ w.effect, w.fetcher = last.stringKey
  follows : w.mounted = true → ∀ last ∈ w.effect, last.opts.enabled = true → ∀ id ∈ last.ids,
    w.FollowsAt last.stringKey last.opts.keepPreviousData id

section Tracks

omit [DecidableEq κ]

omit [DecidableEq ι] in
/-- Before the first effect there is no key to follow. -/
theorem tracks_mount (first : ResourcesRender ι κ) :
    (mount first : UseResources ι κ β ε).Tracks where
  exclusive := fun _ => nofun
  flushed := nofun
  fetcher := nofun
  follows := fun _ => nofun

/-- Another request for the same key. -/
theorem Tracks.runOne {w : UseResources ι κ β ε} (h : w.Tracks) (keepPreviousData : Bool) (id : ι) :
    (w.runOne keepPreviousData id).Tracks where
  exclusive := h.exclusive.runOne keepPreviousData id
  flushed := h.flushed
  fetcher := h.fetcher
  follows := by
    intro hmounted last hlast henabled id' hid'
    have hfollows := h.follows hmounted last hlast henabled id' hid'
    rw [← h.fetcher last hlast] at hfollows ⊢
    exact hfollows.runOne keepPreviousData id

/-- Further requests keep each slot with the key of the last effect. -/
theorem Tracks.runAll {w : UseResources ι κ β ε} (h : w.Tracks) (keepPreviousData : Bool)
    (ids : List ι) : (w.runAll keepPreviousData ids).Tracks := by
  induction ids generalizing w with
  | nil => exact h
  | cons id ids ih => exact ih (h.runOne keepPreviousData id)

/-- The first requests for a new key, or none. -/
theorem Tracks.runEffect {w : UseResources ι κ β ε} (h : w.Tracks) :
    w.cleanup.commitRefs.runEffect.Tracks := by
  have hexclusive : w.cleanup.commitRefs.Exclusive := h.exclusive.cleanup
  unfold UseResources.runEffect
  split
  · rw [runAll_fields]
    refine ⟨?_, fun _ => rfl, ?_, ?_⟩
    · exact hexclusive.runAll _ _
    · rintro last ⟨⟩
      rfl
    · rintro - last ⟨⟩ - id hid
      exact followsAt_runAll hid _ _
  · rename_i hdisabled
    refine ⟨fun id slot hslot => ?_, fun _ => rfl, ?_, ?_⟩
    · exact (hexclusive.disable id slot hslot).exclusive
    · rintro last ⟨⟩
      rfl
    · rintro - last ⟨⟩ henabled
      exact absurd henabled hdisabled

end Tracks

/-- Every step keeps the wanted slots with the key of the last effect. -/
theorem Tracks.step {w w' : UseResources ι κ β ε} {e : ResourcesEvent ι κ β ε} (h : w.Tracks)
    (hstep : w.step e = some w') : w'.Tracks := by
  cases step_cases hstep with
  | render next hmounted hflushed => exact ⟨h.exclusive, nofun, h.fetcher, h.follows⟩
  | same hmounted heffect =>
    have hfollows := h.follows
    rw [heffect] at hfollows
    refine ⟨h.exclusive, fun _ => rfl, ?_, hfollows⟩
    rintro last ⟨⟩
    rfl
  | effect hmounted heffect => exact h.runEffect
  | interval last hmounted hlast henabled => exact h.runAll _ _
  | refetch closure id hid => exact h.runOne _ _
  | settle id i outcome slot slot' hslot hslot' =>
    have hexclusive := (h.exclusive id slot hslot).settle hslot'
    refine ⟨h.exclusive.setSlot id hexclusive, h.flushed, h.fetcher, ?_⟩
    intro hmounted last hlast henabled id' hid'
    obtain ⟨other, hother, hfollows⟩ := h.follows hmounted last hlast henabled id' hid'
    by_cases hid : id' = id
    · subst hid
      cases (Option.mem_def.mp hother).symm.trans hslot
      exact ⟨slot', w.setSlot_self id' slot', hfollows.settle displays_display hslot'⟩
    · exact ⟨other, (w.setSlot_of_ne slot' hid).trans hother, hfollows⟩
  | unmount hflushed => exact ⟨h.exclusive.cleanup, h.flushed, h.fetcher, nofun⟩

/-- In every run the wanted slots follow the key of the last effect. -/
theorem tracks_reaches {first : ResourcesRender ι κ} {w : UseResources ι κ β ε}
    {ok : UseResources ι κ β ε → ResourcesEvent ι κ β ε → Prop}
    (h : Run.Reaches step ok (mount first) w) : w.Tracks :=
  h.invariant (tracks_mount first) fun _ _ _ htracks _ hstep => htracks.step hstep

/-- While enabled, and once its effects have run, the component is given what came of the last
request of each listed id: that one is for the key of the last render and all others of the id were
told to abort, in whatever order the responses of all ids come.  Unless earlier data is kept, data
that is shown answered a request of that id for that key. -/
theorem shows_latest_requests {first : ResourcesRender ι κ} {w : UseResources ι κ β ε} {id : ι}
    (h : Run.Reaches step Run.always (mount first) w) (hmounted : w.mounted = true)
    (hflushed : w.flushed = true) (henabled : w.rendered.opts.enabled = true)
    (hid : id ∈ w.rendered.ids) :
    ∃ slot, w.slots id = some slot ∧ w.result id = slot.shown ∧
      slot.Follows w.rendered.stringKey w.rendered.opts.keepPreviousData ∧ slot.Exclusive := by
  have htracks := tracks_reaches h
  have heffect := htracks.flushed hflushed
  obtain ⟨slot, hslot, hfollows⟩ := htracks.follows hmounted w.rendered heffect henabled id hid
  refine ⟨slot, hslot, ?_, hfollows, htracks.exclusive id slot hslot⟩
  rw [result, Option.mem_def.mp hslot]

/-- One id is dropped and comes back; its first response comes last. -/
def dropAndRelist : List (ResourcesEvent ℕ ℕ ℕ String) :=
  [.flush, .render ⟨1, [8], {}⟩, .flush, .settle 8 1 (.ok 80), .render ⟨1, [7, 8], {}⟩, .flush,
    .settle 7 1 (.ok 71), .settle 7 0 (.ok 70)]

/-- It is not shown. -/
theorem relisted_id_shows_its_latest_request :
    ∃ w : UseResources ℕ ℕ ℕ String, Run.Reaches step Run.always (mount ⟨1, [7, 8], {}⟩) w ∧
      (w.result 7).data = some 71 ∧
      ∃ slot, w.slots 7 = some slot ∧ w.result 7 = slot.shown ∧ slot.Follows 1 false ∧
        slot.Exclusive := by
  obtain ⟨w, hrun, hend⟩ := Run.exists_reaches step Run.always
    (mount ⟨1, [7, 8], {}⟩ : UseResources ℕ ℕ ℕ String) dropAndRelist
    (fun w => (w.result 7).data = some 71 ∧ w.mounted ∧ w.flushed ∧ w.rendered = ⟨1, [7, 8], {}⟩)
    (by decide +kernel)
  obtain ⟨hdata, hmounted, hflushed, hrendered⟩ := of_decide_eq_true hend
  have hid : 7 ∈ w.rendered.ids := by
    rw [hrendered]
    exact .head _
  have hshows := shows_latest_requests hrun hmounted hflushed (by rw [hrendered]) hid
  rw [hrendered] at hshows
  exact ⟨w, hrun, hdata, hshows⟩

/-! ### What is under way -/

/-- The page calls the `refetch` of its last render, while it is mounted and that one is enabled. -/
def CallsLast (w : UseResources ι κ β ε) : ResourcesEvent ι κ β ε → Prop
  | .refetch closure _ =>
    closure = w.rendered ∧ w.mounted = true ∧ closure.opts.enabled = true
  | _ => True

instance (w : UseResources ι κ β ε) (e : ResourcesEvent ι κ β ε) : Decidable (w.CallsLast e) :=
  match e with
  | .refetch closure _ => inferInstanceAs
      (Decidable (closure = w.rendered ∧ w.mounted = true ∧ closure.opts.enabled = true))
  | .render _ | .flush | .interval | .settle _ _ _ | .unmount => .isTrue trivial

/-- An enabled render lists the id: the last one, or the one whose effects ran last. -/
def Wanted (w : UseResources ι κ β ε) (id : ι) : Prop :=
  w.mounted = true ∧ ∃ render : ResourcesRender ι κ,
    (w.effect = some render ∨ w.rendered = render) ∧ render.opts.enabled = true ∧ id ∈ render.ids

/-- Only an id that is wanted has a request under way. -/
def OnlyWanted (w : UseResources ι κ β ε) : Prop :=
  ∀ id, ∀ slot ∈ w.slots id, slot.Quiet ∨ w.Wanted id

section OnlyWanted

omit [DecidableEq κ]

/-- Requests for ids that are wanted. -/
theorem OnlyWanted.runAll {w : UseResources ι κ β ε} {keepPreviousData : Bool} {ids : List ι}
    (h : w.OnlyWanted) (hids : ∀ id ∈ ids, w.Wanted id) :
    (w.runAll keepPreviousData ids).OnlyWanted := by
  intro id slot hslot
  have hwanted (hw : w.Wanted id) : (w.runAll keepPreviousData ids).Wanted id := by
    rw [runAll_fields]
    exact hw
  by_cases hid : id ∈ ids
  · exact .inr (hwanted (hids id hid))
  · rw [runAll_slots_of_not_mem hid] at hslot
    exact (h id slot hslot).imp_right hwanted

/-- The cleanup leaves requests under way only for ids that the last render newly lists. -/
theorem OnlyWanted.cleanup {w : UseResources ι κ β ε} (h : w.OnlyWanted)
    (hexclusive : w.Exclusive) {id : ι} {slot : Slot κ β ε} (hslot : slot ∈ w.cleanup.slots id) :
    slot.Quiet ∨ w.effect ≠ some w.rendered ∧ w.rendered.opts.enabled = true ∧
      id ∈ w.rendered.ids := by
  obtain ⟨old, hold, rfl | ⟨rfl, hother⟩⟩ := mem_cleanup hslot
  · exact .inl (hexclusive id old hold).abort
  · rcases h id slot hold with hquiet | ⟨-, render, heffect | rfl, henabled, hid⟩
    · exact .inl hquiet
    · exact absurd hid (hother render heffect henabled)
    · exact .inr ⟨fun heffect => hother _ heffect henabled hid, henabled, hid⟩

end OnlyWanted

/-- No step starts a request for an id that is not wanted. -/
theorem OnlyWanted.step {w w' : UseResources ι κ β ε} {e : ResourcesEvent ι κ β ε}
    (h : w.OnlyWanted) (htracks : w.Tracks) (hok : w.CallsLast e) (hstep : w.step e = some w') :
    w'.OnlyWanted := by
  cases step_cases hstep with
  | render next hmounted hflushed =>
    have heffect := htracks.flushed hflushed
    intro id slot hslot
    refine (h id slot hslot).imp_right ?_
    rintro ⟨-, render, hrender | rfl, hlisted⟩
    · exact ⟨hmounted, render, .inl hrender, hlisted⟩
    · exact ⟨hmounted, w.rendered, .inl heffect, hlisted⟩
  | same hmounted heffect =>
    intro id slot hslot
    refine (h id slot hslot).imp_right ?_
    rintro ⟨-, render, hrender | hrender, hlisted⟩
    · exact ⟨hmounted, render, .inl (heffect.symm.trans hrender), hlisted⟩
    · exact ⟨hmounted, render, .inr hrender, hlisted⟩
  | effect hmounted heffect =>
    have hclean : w.cleanup.commitRefs.OnlyWanted := by
      intro id slot hslot
      refine (h.cleanup htracks.exclusive hslot).imp_right ?_
      rintro ⟨-, hlisted⟩
      exact ⟨hmounted, w.rendered, .inr rfl, hlisted⟩
    unfold runEffect
    split
    · rename_i henabled
      exact hclean.runAll fun id hid => ⟨hmounted, w.rendered, .inr rfl, henabled, hid⟩
    · have hexclusive : w.cleanup.commitRefs.Exclusive := htracks.exclusive.cleanup
      exact fun id slot hslot => .inl (hexclusive.disable id slot hslot)
  | interval last hmounted hlast henabled =>
    exact h.runAll fun id hid => ⟨hmounted, last, .inl hlast, henabled, hid⟩
  | refetch closure id hid =>
    obtain ⟨rfl, hmounted, henabled⟩ := hok
    have hone : ∀ id' ∈ [id], w.Wanted id' := by
      intro id' hid'
      rw [List.mem_singleton.mp hid']
      exact ⟨hmounted, w.rendered, .inr rfl, henabled, hid⟩
    exact h.runAll hone
  | settle id i outcome slot slot' hslot hslot' =>
    intro id' other hother
    by_cases hid : id' = id
    · subst hid
      rw [setSlot_self] at hother
      cases hother
      exact (h id' slot hslot).imp_left fun hquiet => hquiet.settle hslot'
    · rw [w.setSlot_of_ne slot' hid] at hother
      exact h id' other hother
  | unmount hflushed =>
    intro id slot hslot
    rcases h.cleanup htracks.exclusive hslot with hquiet | ⟨heffect, -⟩
    · exact .inl hquiet
    · exact absurd (htracks.flushed hflushed) heffect

theorem onlyWanted_reaches {first : ResourcesRender ι κ} {w : UseResources ι κ β ε}
    (h : Run.Reaches step CallsLast (mount first) w) : w.Tracks ∧ w.OnlyWanted := by
  induction h with
  | start => exact ⟨tracks_mount first, fun _ => nofun⟩
  | snoc _ hok hstep ih => exact ⟨ih.1.step hstep, ih.2.step ih.1 hok hstep⟩

/-- Once the effects have run, every request of an id was told to abort where the id is no longer
listed, the list is disabled or the component is unmounted, provided that the page calls only the
`refetch` of its last render and that one is enabled. -/
theorem unlisted_id_is_quiet {first : ResourcesRender ι κ} {w : UseResources ι κ β ε} {id : ι}
    {slot : Slot κ β ε} (h : Run.Reaches step CallsLast (mount first) w)
    (hflushed : w.flushed = true) (hslot : w.slots id = some slot)
    (hidle : w.mounted = false ∨ w.rendered.opts.enabled = false ∨ id ∉ w.rendered.ids) :
    slot.Quiet := by
  obtain ⟨htracks, honly⟩ := onlyWanted_reaches h
  have heffect := htracks.flushed hflushed
  rcases honly id slot hslot with hquiet | ⟨hmounted, render, hrender, henabled, hid⟩
  · exact hquiet
  · have hrender' : w.rendered = render :=
      hrender.elim (fun hlast => Option.some.inj (heffect.symm.trans hlast)) fun hlast => hlast
    subst hrender'
    rcases hidle with hunmounted | hdisabled | hunlisted
    · exact absurd (hmounted.symm.trans hunmounted) nofun
    · exact absurd (henabled.symm.trans hdisabled) nofun
    · exact absurd hid hunlisted

/-- An id is fetched again and then dropped. -/
def refetchAndDrop : List (ResourcesEvent ℕ ℕ ℕ String) :=
  [.flush, .refetch ⟨1, [7, 8], {}⟩ 7, .render ⟨1, [8], {}⟩, .flush]

/-- Both of its requests were told to abort. -/
theorem dropped_id_is_quiet :
    ∃ w : UseResources ℕ ℕ ℕ String, Run.Reaches step CallsLast (mount ⟨1, [7, 8], {}⟩) w ∧
      ∃ slot, w.slots 7 = some slot ∧ slot.requests.length = 2 ∧ slot.Quiet := by
  obtain ⟨w, hrun, hend⟩ := Run.exists_reaches step CallsLast
    (mount ⟨1, [7, 8], {}⟩ : UseResources ℕ ℕ ℕ String) refetchAndDrop
    (fun w => w.flushed ∧ w.rendered.ids = [8] ∧
      (w.slots 7).any fun slot => slot.requests.length = 2) (by decide +kernel)
  obtain ⟨hflushed, hids, hslots⟩ := of_decide_eq_true hend
  obtain ⟨slot, hslot, hlength⟩ := (Option.any_eq_true _ _).mp hslots
  have hunlisted : 7 ∉ w.rendered.ids := by
    rw [hids]
    decide
  exact ⟨w, hrun, slot, hslot, of_decide_eq_true hlength,
    unlisted_id_is_quiet hrun hflushed hslot (.inr (.inr hunlisted))⟩

end UseResources

end Connections
