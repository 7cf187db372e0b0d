import Mathlib.Data.List.Basic

/-!
# Requests that supersede one another

A slot starts requests one after the other.  Each start aborts the request before it, and what the
slot shows follows the last one, whatever order the responses come in and whether or not a response
of an aborted request still comes.
-/

namespace LatestRequest

variable {κ β ε : Type*}

/-- A request with its signal, and what came of it. -/
structure Request (κ β ε : Type*) where
  key : κ
  aborted : Bool
  outcome : Option (Except ε β)

/-- The request, told to abort. -/
def Request.abort (request : Request κ β ε) : Request κ β ε := { request with aborted := true }

/-- What a slot shows. -/
structure Shown (β ε : Type*) where
  data : Option β
  error : Option ε
  loading : Bool

/-- The requests of a slot, oldest first, each with its place as its number. -/
structure Slot (κ β ε : Type*) where
  requests : List (Request κ β ε)
  shown : Shown β ε

namespace Slot

/-- Abort the last request. -/
def abort (slot : Slot κ β ε) : Slot κ β ε :=
  { slot with requests := slot.requests.modify (slot.requests.length - 1) Request.abort }

/-- Start a request, with the data so far or without. -/
def start (key : κ) (keep : Bool) (slot : Slot κ β ε) : Slot κ β ε where
  requests := slot.abort.requests ++ [⟨key, false, none⟩]
  shown := ⟨if keep then slot.shown.data else none, none, true⟩

/-- Show nothing as loading. -/
def stopLoading (slot : Slot κ β ε) : Slot κ β ε :=
  { slot with shown := { slot.shown with loading := false } }

/-- The guards of a response: a superseded request shows nothing, an aborted one no failure. -/
def ignores (slot : Slot κ β ε) (i : ℕ) (request : Request κ β ε) : Except ε β → Bool
  | .ok _ => i + 1 ≠ slot.requests.length
  | .error _ => request.aborted || i + 1 ≠ slot.requests.length

/-- The response of a request under way comes in. -/
def settle (display : Shown β ε → Except ε β → Shown β ε) (slot : Slot κ β ε) (i : ℕ)
    (outcome : Except ε β) : Option (Slot κ β ε) :=
  match slot.requests[i]? with
  | none => none
  | some request =>
    if request.outcome.isSome then none
    else some
      { requests := slot.requests.set i { request with outcome := some outcome }
        shown := if slot.ignores i request outcome then slot.shown
          else display slot.shown outcome }

/-- What a response that comes in does. -/
theorem settle_cases {display : Shown β ε → Except ε β → Shown β ε} {slot slot' : Slot κ β ε}
    {i : ℕ} {outcome : Except ε β} (h : slot.settle display i outcome = some slot') :
    ∃ request, slot.requests[i]? = some request ∧ request.outcome = none ∧
      slot'.requests = slot.requests.set i { request with outcome := some outcome } ∧
      slot'.shown = if slot.ignores i request outcome then slot.shown
        else display slot.shown outcome := by
  unfold settle at h
  split at h
  · cases h
  · rename_i request hget
    split at h
    · cases h
    · rename_i hpending
      cases h
      exact ⟨request, hget, by simpa using hpending, rfl, rfl⟩

/-! ### Aborted requests -/

/-- Every request but the last was told to abort. -/
def Exclusive (slot : Slot κ β ε) : Prop := ∀ r ∈ slot.requests.dropLast, r.aborted = true

/-- Every request was told to abort. -/
def Quiet (slot : Slot κ β ε) : Prop := ∀ r ∈ slot.requests, r.aborted = true

theorem Quiet.exclusive {slot : Slot κ β ε} (h : slot.Quiet) : slot.Exclusive :=
  fun r hr => h r (List.dropLast_subset _ hr)

/-- Only the last request of a slot is aborted. -/
theorem abort_cases (slot : Slot κ β ε) :
    (slot.requests = [] ∧ slot.abort.requests = []) ∨
      ∃ earlier request, slot.requests = earlier ++ [request] ∧
        slot.abort.requests = earlier ++ [request.abort] := by
  rcases List.eq_nil_or_concat slot.requests with hnil | ⟨earlier, request, hconcat⟩
  · exact .inl ⟨hnil, by simp [abort, hnil]⟩
  · rw [List.concat_eq_append] at hconcat
    refine .inr ⟨earlier, request, hconcat, ?_⟩
    simp [abort, hconcat, List.modify_eq_take_cons_drop]

@[simp] theorem length_abort (slot : Slot κ β ε) :
    slot.abort.requests.length = slot.requests.length := by
  simp [abort]

/-- The last request is the one that is aborted. -/
theorem getLast?_abort (slot : Slot κ β ε) :
    slot.abort.requests.getLast? = slot.requests.getLast?.map Request.abort := by
  rcases slot.abort_cases with ⟨hnil, habort⟩ | ⟨earlier, request, hconcat, habort⟩
  · rw [habort, hnil]
    rfl
  · rw [habort, hconcat]
    simp

@[simp] theorem stopLoading_requests (slot : Slot κ β ε) :
    slot.stopLoading.requests = slot.requests := rfl

/-- Aborting the last request leaves none under way. -/
theorem Exclusive.abort {slot : Slot κ β ε} (h : slot.Exclusive) : slot.abort.Quiet := by
  intro r hr
  rcases slot.abort_cases with ⟨-, habort⟩ | ⟨earlier, request, hconcat, habort⟩
  · rw [habort] at hr
    cases hr
  · rw [habort] at hr
    rcases List.mem_append.mp hr with hold | hlast
    · exact h r (by simpa [hconcat] using hold)
    · rw [List.mem_singleton.mp hlast]
      rfl

/-- A start leaves only the new request under way. -/
theorem Exclusive.start {slot : Slot κ β ε} (h : slot.Exclusive) (key : κ) (keep : Bool) :
    (slot.start key keep).Exclusive := by
  intro r hr
  rw [Slot.start, List.dropLast_concat] at hr
  exact h.abort r hr

/-- A response changes no signal. -/
theorem settle_aborted {display : Shown β ε → Except ε β → Shown β ε} {slot slot' : Slot κ β ε}
    {i : ℕ} {outcome : Except ε β} (h : slot.settle display i outcome = some slot') :
    slot'.requests.map (·.aborted) = slot.requests.map (·.aborted) := by
  obtain ⟨request, hget, -, hrequests, -⟩ := settle_cases h
  rw [hrequests, List.map_set]
  apply List.ext_getElem?
  intro j
  rw [List.getElem?_set]
  split
  · rename_i hij
    subst hij
    obtain ⟨hi, rfl⟩ := List.getElem?_eq_some_iff.mp hget
    simp [hi]
  · rfl

theorem Quiet.settle {display : Shown β ε → Except ε β → Shown β ε} {slot slot' : Slot κ β ε}
    {i : ℕ} {outcome : Except ε β} (h : slot.Quiet)
    (hsettle : slot.settle display i outcome = some slot') : slot'.Quiet := by
  have hall : ∀ b ∈ slot.requests.map (·.aborted), b = true := List.forall_mem_map.mpr h
  rw [← settle_aborted hsettle] at hall
  exact List.forall_mem_map.mp hall

theorem Exclusive.settle {display : Shown β ε → Except ε β → Shown β ε} {slot slot' : Slot κ β ε}
    {i : ℕ} {outcome : Except ε β} (h : slot.Exclusive)
    (hsettle : slot.settle display i outcome = some slot') : slot'.Exclusive := by
  have hall : ∀ b ∈ (slot.requests.map (·.aborted)).dropLast, b = true := by
    rw [← List.map_dropLast]
    exact List.forall_mem_map.mpr h
  rw [← settle_aborted hsettle, ← List.map_dropLast] at hall
  exact List.forall_mem_map.mp hall

/-! ### What is shown -/

end Slot

/-- What is shown tells what came of a request. -/
structure Shown.Tells (shown : Shown β ε) (outcome : Option (Except ε β)) : Prop where
  loading : shown.loading = outcome.isNone
  error : ∀ err, shown.error = some err ↔ outcome = some (.error err)
  data : ∀ result, outcome = some (.ok result) → shown.data = some result

/-- While a request is under way no error is shown. -/
theorem Shown.Tells.error_eq_none {shown : Shown β ε} (h : shown.Tells none) :
    shown.error = none := by
  apply Option.eq_none_iff_forall_ne_some.mpr
  intro err herr
  exact nomatch (h.error err).mp herr

/-- A display shows a response over a slot that shows no error. -/
def Displays (display : Shown β ε → Except ε β → Shown β ε) : Prop :=
  ∀ shown outcome, shown.error = none → (display shown outcome).Tells (some outcome) ∧
    ∀ result ∈ (display shown outcome).data,
      outcome = .ok result ∨ shown.data = some result

/-- A display that keeps the data of a failure, and the error of an answer or none. -/
theorem Displays.of_eq {display : Shown β ε → Except ε β → Shown β ε}
    (hok : ∀ shown result, shown.error = none →
      display shown (.ok result) = ⟨some result, none, false⟩)
    (herror : ∀ shown err, display shown (.error err) = ⟨shown.data, some err, false⟩) :
    Displays display := by
  intro shown outcome hnone
  cases outcome with
  | ok result =>
    rw [hok shown result hnone]
    refine ⟨⟨rfl, fun _ => ⟨nofun, nofun⟩, fun other hother => ?_⟩, fun other hother => .inl ?_⟩
    · cases hother
      rfl
    · cases hother
      rfl
  | error err =>
    rw [herror shown err]
    refine ⟨⟨rfl, fun other => ?_, nofun⟩, fun other hother => .inr hother⟩
    simp

namespace Slot

/-- The last request is for the key, was not told to abort, and decides what is shown. -/
def Current (key : κ) (slot : Slot κ β ε) : Prop :=
  ∃ request ∈ slot.requests.getLast?, request.key = key ∧ request.aborted = false ∧
    slot.shown.Tells request.outcome

/-- The data shown answered a request for the key. -/
def DataOf (key : κ) (slot : Slot κ β ε) : Prop :=
  ∀ result ∈ slot.shown.data, ∃ r ∈ slot.requests, r.key = key ∧ r.outcome = some (.ok result)

theorem current_start (slot : Slot κ β ε) (key : κ) (keep : Bool) :
    (slot.start key keep).Current key :=
  ⟨⟨key, false, none⟩, by simp [start], rfl, rfl, rfl, by simp [start], nofun⟩

variable {display : Shown β ε → Except ε β → Shown β ε}

/-- The last request by its number. -/
theorem Current.own {key : κ} {slot : Slot κ β ε} {i : ℕ} {request : Request κ β ε}
    (h : slot.Current key) (hget : slot.requests[i]? = some request)
    (hi : i + 1 = slot.requests.length) :
    request.key = key ∧ request.aborted = false ∧ slot.shown.Tells request.outcome := by
  obtain ⟨last, hlast, hcurrent⟩ := h
  rw [Option.mem_def, List.getLast?_eq_getElem?, ← hi, Nat.add_sub_cancel, hget] at hlast
  cases hlast
  exact hcurrent

/-- The guards let only the last request through. -/
theorem last_of_not_ignores {slot : Slot κ β ε} {i : ℕ} {request : Request κ β ε}
    {outcome : Except ε β} (h : slot.ignores i request outcome = false) :
    i + 1 = slot.requests.length := by
  cases outcome <;> simp [ignores] at h
  · exact h.2
  · exact h

/-- Responses come in any order: the last request keeps deciding. -/
theorem Current.settle {key : κ} {slot slot' : Slot κ β ε} {i : ℕ} {outcome : Except ε β}
    (h : slot.Current key) (hdisplay : Displays display)
    (hsettle : slot.settle display i outcome = some slot') : slot'.Current key := by
  obtain ⟨request, hget, hpending, hrequests, hshown⟩ := settle_cases hsettle
  have hbound := (List.getElem?_eq_some_iff.mp hget).1
  by_cases hi : i + 1 = slot.requests.length
  · -- The response is the last request's own.
    obtain ⟨hkey, haborted, htells⟩ := h.own hget hi
    rw [hpending] at htells
    have hignores : slot.ignores i request outcome = false := by
      cases outcome <;> simp [ignores, hi, haborted]
    refine ⟨{ request with outcome := some outcome }, ?_, hkey, haborted, ?_⟩
    · rw [hrequests, Option.mem_def, List.getLast?_eq_getElem?, List.length_set, ← hi,
        Nat.add_sub_cancel, List.getElem?_set_self hbound]
    · rw [hshown, hignores]
      exact (hdisplay _ _ htells.error_eq_none).1
  · -- A superseded request answers.
    obtain ⟨last, hlast, hkey, haborted, htells⟩ := h
    have hignores : slot.ignores i request outcome = true := by
      cases outcome <;> simp [ignores, hi]
    refine ⟨last, ?_, hkey, haborted, ?_⟩
    · rw [Option.mem_def, List.getLast?_eq_getElem?] at hlast
      rw [hrequests, Option.mem_def, List.getLast?_eq_getElem?, List.length_set,
        List.getElem?_set_ne (by omega)]
      exact hlast
    · rw [hshown, hignores]
      exact htells

/-- What a request answered stays recorded in its place. -/
theorem settle_getElem? {slot slot' : Slot κ β ε} {i j : ℕ} {outcome : Except ε β}
    {r : Request κ β ε} (hsettle : slot.settle display i outcome = some slot')
    (hr : slot.requests[j]? = some r) (hanswered : r.outcome ≠ none) :
    slot'.requests[j]? = some r := by
  obtain ⟨request, hget, hpending, hrequests, -⟩ := settle_cases hsettle
  rw [hrequests, List.getElem?_set_ne, hr]
  rintro rfl
  rw [hget] at hr
  cases hr
  exact hanswered hpending

/-- An aborted request keeps its answer. -/
theorem DataOf.abort {key : κ} {slot : Slot κ β ε} (h : slot.DataOf key) :
    slot.abort.DataOf key := by
  intro result hresult
  obtain ⟨r, hr, hkey, houtcome⟩ := h result hresult
  rcases slot.abort_cases with ⟨hnil, -⟩ | ⟨earlier, request, hconcat, habort⟩
  · rw [hnil] at hr
    cases hr
  · rw [habort]
    rw [hconcat] at hr
    rcases List.mem_append.mp hr with hold | hlast
    · exact ⟨r, List.mem_append_left _ hold, hkey, houtcome⟩
    · rw [List.mem_singleton.mp hlast] at hkey houtcome
      exact ⟨request.abort, List.mem_append_right _ (List.mem_singleton_self _), hkey, houtcome⟩

/-- A start keeps data for its key, or shows none. -/
theorem DataOf.start {key : κ} {slot : Slot κ β ε} {keep : Bool}
    (h : keep = true → slot.DataOf key) (key' : κ) : (slot.start key' keep).DataOf key := by
  intro result hresult
  cases keep with
  | false => cases hresult
  | true =>
    obtain ⟨r, hr, hanswer⟩ := (h rfl).abort result hresult
    exact ⟨r, List.mem_append_left _ hr, hanswer⟩

theorem DataOf.settle {key : κ} {slot slot' : Slot κ β ε} {i : ℕ} {outcome : Except ε β}
    (h : slot.DataOf key) (hcurrent : slot.Current key) (hdisplay : Displays display)
    (hsettle : slot.settle display i outcome = some slot') : slot'.DataOf key := by
  have hold (result : β) (hresult : slot.shown.data = some result) :
      ∃ r ∈ slot'.requests, r.key = key ∧ r.outcome = some (.ok result) := by
    obtain ⟨r, hr, hkey, houtcome⟩ := h result hresult
    obtain ⟨j, hj⟩ := List.mem_iff_getElem?.mp hr
    have hkept := settle_getElem? hsettle hj (by simp [houtcome])
    exact ⟨r, List.mem_of_getElem? hkept, hkey, houtcome⟩
  obtain ⟨request, hget, hpending, hrequests, hshown⟩ := settle_cases hsettle
  intro result hresult
  rw [hshown] at hresult
  split at hresult
  · exact hold result hresult
  · rename_i hignores
    have hi := last_of_not_ignores (eq_false_of_ne_true hignores)
    obtain ⟨hkey, -, htells⟩ := hcurrent.own hget hi
    rw [hpending] at htells
    rcases (hdisplay _ _ htells.error_eq_none).2 result hresult with rfl | hdata
    · refine ⟨{ request with outcome := some (.ok result) }, ?_, hkey, rfl⟩
      rw [hrequests]
      exact List.mem_set (List.getElem?_eq_some_iff.mp hget).1 _
    · exact hold result hdata

/-- The slot follows a key: its last request decides what is shown, and unless earlier data is kept
the data shown answered a request for that key. -/
structure Follows (key : κ) (keep : Bool) (slot : Slot κ β ε) : Prop where
  current : slot.Current key
  data : keep = false → slot.DataOf key

/-- A first request for the key. -/
theorem follows_start (slot : Slot κ β ε) (key : κ) (keep : Bool) :
    (slot.start key keep).Follows key keep := by
  refine ⟨slot.current_start key keep, fun hkeep => DataOf.start (fun hkeep' => ?_) key⟩
  cases hkeep.symm.trans hkeep'

/-- Another request for the key. -/
theorem Follows.start {key : κ} {keep : Bool} {slot : Slot κ β ε} (h : slot.Follows key keep)
    (keep' : Bool) : (slot.start key keep').Follows key keep :=
  ⟨slot.current_start key keep', fun hkeep => DataOf.start (fun _ => h.data hkeep) key⟩

/-- Responses come in any order. -/
theorem Follows.settle {key : κ} {keep : Bool} {slot slot' : Slot κ β ε} {i : ℕ}
    {outcome : Except ε β} (h : slot.Follows key keep) (hdisplay : Displays display)
    (hsettle : slot.settle display i outcome = some slot') : slot'.Follows key keep :=
  ⟨h.current.settle hdisplay hsettle,
    fun hkeep => (h.data hkeep).settle h.current hdisplay hsettle⟩

end Slot

end LatestRequest
