import Connections.Holds.RateLimitHold

/-!
# The daily hold

An account's daily hold is to outlast every per-minute cooldown and every cleanup until it resets.
A call that began after the hold was written respects it.  One that had read before that goes on
with what it read: a cooldown then writes over the hold, and a cleanup that had found the account's
expired row deletes the refreshed one.
-/

namespace Connections

open KeyedTable

namespace HoldStore

variable {strategyName : String} {resetAt before : ℕ}

/-- The second half of a call that began before the given one: a cooldown writes the account's row,
or a cleanup removes the row that the account has by now. -/
def overtaken (strategyName : String) (before : ℕ) (w : HoldStore) : HoldEvent → Bool
  | .upsert callId => match w.callOf callId with
    | some (.writing key hold) =>
      callId < before && key = ⟨strategyName, none⟩ && hold.reason = some .perMinuteCooldown
    | _ => false
  | .remove callId => match w.callOf callId with
    | some (.clearing expired) => callId < before &&
      (w.accountRow strategyName).any fun row => row.id ∈ expired.map (·.id)
    | _ => false
  | _ => false

/-- A daily write for the account that resets earlier. -/
def shortens (strategyName : String) (resetAt : ℕ) (w : HoldStore) : HoldEvent → Bool
  | .upsert callId => match w.callOf callId with
    | some (.writing key hold) =>
      key = ⟨strategyName, none⟩ && hold.reason = some .daily && hold.resetAt < resetAt
    | _ => false
  | _ => false

/-! ### Calls in progress -/

/-- The clock goes forward. -/
theorem now_le_step {w w' : HoldStore} {e : HoldEvent} (h : w.step e = some w') :
    w.now ≤ w'.now := by
  cases step_cases h with
  | ticked ms => exact Nat.le_add_right _ _
  | _ => exact Nat.le_refl _

/-- A call is found among those under way. -/
theorem mem_of_callOf {w : HoldStore} {callId : ℕ} {call : HoldCall}
    (h : w.callOf callId = some call) : (callId, call) ∈ w.calls := by
  obtain ⟨pair, hpair, rfl⟩ := Option.map_eq_some_iff.mp h
  have hid : pair.1 = callId := by simpa using List.find?_some hpair
  subst hid
  exact List.mem_of_find?_eq_some hpair

/-- What every call in progress satisfies: its number was given out, a cooldown that reads says so,
and a hold on an account has a reason. -/
structure Known (nextCall callId : ℕ) (call : HoldCall) : Prop where
  numbered : callId < nextCall
  checks : ∀ name opts seen, call = .checking name opts seen →
    opts.reason = some .perMinuteCooldown
  reasoned : ∀ name hold, call = .writing ⟨name, none⟩ hold → hold.reason ≠ none

/-- Every call in progress is known. -/
def AllKnown (w : HoldStore) : Prop :=
  ∀ callId call, (callId, call) ∈ w.calls → Known w.nextCall callId call

/-- The calls that go on when one ends are known. -/
theorem AllKnown.drop {w : HoldStore} (h : AllKnown w) (callId : ℕ) : AllKnown (w.drop callId) :=
  fun id call hmem => h id call (List.mem_of_mem_filter hmem)

/-- A call that begins takes a new number. -/
theorem AllKnown.begin {w : HoldStore} (h : AllKnown w) {call : HoldCall}
    (hnew : Known (w.nextCall + 1) w.nextCall call) : AllKnown (w.begin call) := by
  rintro callId call (_ | ⟨_, hmem⟩)
  · exact hnew
  · have hold := h callId call hmem
    exact ⟨Nat.lt_succ_of_lt hold.numbered, hold.checks, hold.reasoned⟩

/-- Every step leaves all calls known. -/
theorem allKnown_step {w w' : HoldStore} {e : HoldEvent} (h : AllKnown w)
    (hstep : w.step e = some w') : AllKnown w' := by
  cases step_cases hstep with
  | ticked ms => exact h
  | read name opts hreason =>
    apply h.begin
    refine ⟨Nat.lt_succ_self _, ?_, nofun⟩
    rintro _ _ _ ⟨⟩
    exact hreason
  | stamped name opts hreason haccount =>
    apply h.begin
    refine ⟨Nat.lt_succ_self _, nofun, ?_⟩
    intro other hold heq
    injection heq with hkey hhold
    subst hhold
    exact haccount (congrArg HoldKey.modelName hkey)
  | deferred callId => exact h.drop callId
  | passed id name opts seen hcall hlive =>
    have hknown := h id _ (mem_of_callOf hcall)
    rintro callId call (_ | ⟨_, hmem⟩)
    · refine ⟨hknown.numbered, nofun, ?_⟩
      intro other written heq
      injection heq with hkey hwritten
      subst hwritten
      simp [HoldStore.stamped, hknown.checks name opts seen rfl]
    · exact h.drop id callId call hmem
  | upserted id key hold hcall => exact h.drop id
  | found name cutoff hcutoff => exact h.begin ⟨Nat.lt_succ_self _, nofun, nofun⟩
  | removed id expired hcall => exact h.drop id
  | abandoned id => exact h.drop id

/-! ### The hold -/

/-- A call that is not going to end a daily hold: a cooldown that has read one, a write that is no
cooldown, a cleanup that has not found the row. -/
def Harmless (strategyName : String) (resetAt rowId : ℕ) : HoldCall → Prop
  | .checking name _ seen => name = strategyName →
    ∃ row, seen = some row ∧ row.value.reason = some .daily ∧ resetAt ≤ row.value.resetAt
  | .writing key hold => key = ⟨strategyName, none⟩ → hold.reason ≠ some .perMinuteCooldown
  | .clearing expired => rowId ∉ expired.map (·.id)

/-- The account's row holds it for the day, and no call that began since is going to change
that. -/
structure Keeps (strategyName : String) (resetAt before : ℕ) (w : HoldStore)
    (row : Row HoldKey RateLimitHold) : Prop where
  account : w.accountRow strategyName = some row
  daily : row.value.reason = some .daily
  lasts : resetAt ≤ row.value.resetAt
  later : ∀ callId call, (callId, call) ∈ w.calls → before ≤ callId →
    Harmless strategyName resetAt row.id call

namespace Keeps

variable {w : HoldStore} {row : Row HoldKey RateLimitHold}

/-- A kept hold is the one the strategy is held by until its reset. -/
theorem heldReason (h : Keeps strategyName resetAt before w row) (hnow : w.now < resetAt) :
    w.heldReason strategyName = some .daily := by
  have hlive : w.now < row.value.resetAt := Nat.lt_of_lt_of_le hnow h.lasts
  simp [HoldStore.heldReason, liveAccountRow, live, h.account, Option.filter, hlive, h.daily]

/-- Another table, with a daily row under the same id, and fewer calls. -/
theorem change (h : Keeps strategyName resetAt before w row) {w' : HoldStore}
    {row' : Row HoldKey RateLimitHold} (haccount : w'.accountRow strategyName = some row')
    (hid : row'.id = row.id) (hdaily : row'.value.reason = some .daily)
    (hlasts : resetAt ≤ row'.value.resetAt) (hcalls : ∀ call ∈ w'.calls, call ∈ w.calls) :
    Keeps strategyName resetAt before w' row' :=
  ⟨haccount, hdaily, hlasts, fun callId call hmem hle =>
    hid ▸ h.later callId call (hcalls _ hmem) hle⟩

/-- A call that ends leaves the row to the others. -/
theorem drop (h : Keeps strategyName resetAt before w row) (callId : ℕ) :
    Keeps strategyName resetAt before (w.drop callId) row :=
  h.change h.account rfl h.daily h.lasts fun _ hmem => List.mem_of_mem_filter hmem

/-- A new call that is harmless. -/
theorem begin (h : Keeps strategyName resetAt before w row) {call : HoldCall}
    (hnew : Harmless strategyName resetAt row.id call) :
    Keeps strategyName resetAt before (w.begin call) row := by
  refine ⟨h.account, h.daily, h.lasts, ?_⟩
  rintro callId call (_ | ⟨_, hmem⟩) hle
  · exact hnew
  · exact h.later callId call hmem hle

/-- Every step keeps the hold but the second half of a call that began before it was written. -/
theorem step {w' : HoldStore} {e : HoldEvent} (h : Keeps strategyName resetAt before w row)
    (hknown : AllKnown w) (hnow : w.now < resetAt) (hspares : ¬ overtaken strategyName before w e)
    (hlong : ¬ shortens strategyName resetAt w e) (hstep : w.step e = some w') :
    ∃ row', Keeps strategyName resetAt before w' row' := by
  cases step_cases hstep with
  | ticked ms => exact ⟨row, h.change h.account rfl h.daily h.lasts fun _ hmem => hmem⟩
  | read name opts hreason =>
    refine ⟨row, h.begin ?_⟩
    rintro rfl
    exact ⟨row, h.account, h.daily, h.lasts⟩
  | stamped name opts hreason haccount => exact ⟨row, h.begin fun _ => hreason⟩
  | deferred callId => exact ⟨row, h.drop callId⟩
  | passed id name opts seen hcall hpassed =>
    have hmem := mem_of_callOf hcall
    refine ⟨row, h.account, h.daily, h.lasts, ?_⟩
    rintro callId call (_ | ⟨_, hrest⟩) hle
    · -- Had the cooldown begun since, it would have read the daily row and given up.
      intro hkey
      have hstrategy := congrArg HoldKey.strategyName hkey
      obtain ⟨old, rfl, hdaily, hlasts⟩ := h.later id _ hmem hle hstrategy
      have hlive : w.now < old.value.resetAt := Nat.lt_of_lt_of_le hnow hlasts
      simp [live, Option.filter, hlive, hdaily] at hpassed
    · exact (h.drop id).later callId call hrest hle
  | upserted id key hold hcall =>
    have hmem := mem_of_callOf hcall
    by_cases hkey : key = ⟨strategyName, none⟩
    · subst hkey
      obtain ⟨rowId, hrow, hsame⟩ := w.table.lookup_upsert_self ⟨strategyName, none⟩ hold
      have hreason : hold.reason = some .daily := by
        cases hreason : hold.reason with
        | none => exact absurd hreason ((hknown id _ hmem).reasoned _ _ rfl)
        | some reason =>
          cases reason with
          | daily => rfl
          | perMinuteCooldown =>
            by_cases hle : before ≤ id
            · exact absurd hreason (h.later id _ hmem hle rfl)
            · simp [overtaken, hcall, hreason, Nat.lt_of_not_le hle] at hspares
      have hlasts : resetAt ≤ hold.resetAt := by
        simpa [shortens, hcall, hreason] using hlong
      exact ⟨_, h.change hrow (hsame row h.account) hreason hlasts
        fun _ hmem => List.mem_of_mem_filter hmem⟩
    · refine ⟨row, h.change ?_ rfl h.daily h.lasts fun _ hmem => List.mem_of_mem_filter hmem⟩
      exact (w.table.lookup_upsert_of_ne hold (Ne.symm hkey)).trans h.account
  | found name cutoff hcutoff =>
    refine ⟨row, h.begin ?_⟩
    -- A row that has expired by now is not the one that lasts longer.
    intro hfound
    obtain ⟨other, hother, hid⟩ := List.mem_map.mp hfound
    obtain ⟨hmem, hexpired⟩ := List.mem_filter.mp hother
    obtain rfl := w.table.eq_of_id_eq hmem (Table.lookup_eq_some.mp h.account).1 hid
    simp only [Bool.and_eq_true, decide_eq_true_eq] at hexpired
    have hlasts := h.lasts
    omega
  | removed id expired hcall =>
    have hmem := mem_of_callOf hcall
    have hnot : row.id ∉ expired.map (·.id) := by
      by_cases hle : before ≤ id
      · exact h.later id _ hmem hle
      · intro hfound
        apply hspares
        simp only [overtaken, hcall, h.account, Option.any_some, Bool.and_eq_true,
          decide_eq_true_eq]
        exact ⟨Nat.lt_of_not_le hle, hfound⟩
    refine ⟨row, h.change ?_ rfl h.daily h.lasts fun _ hmem => List.mem_of_mem_filter hmem⟩
    exact Table.lookup_remove_of_not_mem h.account hnot
  | abandoned id => exact ⟨row, h.drop id⟩

/-- The second half of a call that began before the hold was written ends it. -/
theorem overtaken {w' : HoldStore} {e : HoldEvent} (h : Keeps strategyName resetAt before w row)
    (hovertaken : overtaken strategyName before w e) (hstep : w.step e = some w') :
    w'.heldReason strategyName ≠ some .daily := by
  cases step_cases hstep with
  | upserted id key hold hcall =>
    simp only [HoldStore.overtaken, hcall, Bool.and_eq_true, decide_eq_true_eq] at hovertaken
    obtain ⟨⟨-, rfl⟩, hreason⟩ := hovertaken
    obtain ⟨rowId, hrow, -⟩ := w.table.lookup_upsert_self ⟨strategyName, none⟩ hold
    simp only [HoldStore.heldReason, liveAccountRow, accountRow, hrow, live, Option.filter]
    split <;> simp [hreason]
  | removed id expired hcall =>
    simp only [HoldStore.overtaken, hcall, h.account, Option.any_some, Bool.and_eq_true,
      decide_eq_true_eq] at hovertaken
    have hrow := Table.lookup_remove_of_mem h.account hovertaken.2
    simp [HoldStore.heldReason, liveAccountRow, accountRow, hrow, live]
  | _ => simp [HoldStore.overtaken] at hovertaken

end Keeps

/-- Once a daily hold is written and no later daily write shortens it, it is in force until it
resets as long as no call that began before the write finishes; the first that does ends it. -/
theorem daily_hold_kept_until_overtaken {w₀ w₁ w : HoldStore} {callId : ℕ} {hold : RateLimitHold}
    (hreach : Run.Reaches step Run.always fresh w₀)
    (hcall : w₀.callOf callId = some (.writing ⟨strategyName, none⟩ hold))
    (hdaily : hold.reason = some .daily) (hwrite : w₀.step (.upsert callId) = some w₁)
    (hrun : Run.Reaches step (fun w e => w.now < hold.resetAt →
      ¬ overtaken strategyName w₀.nextCall w e ∧ ¬ shortens strategyName hold.resetAt w e) w₁ w)
    (hnow : w.now < hold.resetAt) :
    w.heldReason strategyName = some .daily ∧
      ∀ e w', w.step e = some w' → overtaken strategyName w₀.nextCall w e →
        w'.heldReason strategyName ≠ some .daily := by
  have hknown : AllKnown w₀ := hreach.invariant (by simp [AllKnown, fresh])
    fun v e u hv _ hstep => allKnown_step hv hstep
  let Inv (v : HoldStore) : Prop := AllKnown v ∧
    (v.now < hold.resetAt → ∃ row, Keeps strategyName hold.resetAt w₀.nextCall v row)
  have hfirst : Inv w₁ := by
    refine ⟨allKnown_step hknown hwrite, fun _ => ?_⟩
    simp only [step, hcall, Option.some.injEq] at hwrite
    subst hwrite
    obtain ⟨rowId, hrow, -⟩ := w₀.table.lookup_upsert_self ⟨strategyName, none⟩ hold
    refine ⟨_, hrow, hdaily, Nat.le_refl _, fun id call hmem hle => ?_⟩
    exact absurd (hknown id call (List.mem_of_mem_filter hmem)).numbered (Nat.not_lt.mpr hle)
  have hlast : Inv w := by
    refine hrun.invariant hfirst fun v e u hv hok hstep => ⟨allKnown_step hv.1 hstep, fun hu => ?_⟩
    have hv' : v.now < hold.resetAt := Nat.lt_of_le_of_lt (now_le_step hstep) hu
    obtain ⟨row, hrow⟩ := hv.2 hv'
    exact hrow.step hv.1 hv' (hok hv').1 (hok hv').2 hstep
  obtain ⟨row, hrow⟩ := hlast.2 hnow
  exact ⟨hrow.heldReason hnow, fun e w' hstep hover => hrow.overtaken hover hstep⟩

/-- A cooldown that is asked for after the daily hold reads it and gives up. -/
theorem daily_hold_outlasts_later_cooldown :
    ∃ w : HoldStore, w.now = 1000 ∧ w.calls = [] ∧
      w.heldReason "llm-openrouter" = some .daily := by
  let hold : RateLimitHold := ⟨some .daily, 0, 86400000⟩
  let guard (v : HoldStore) (e : HoldEvent) : Prop := v.now < hold.resetAt →
    ¬ overtaken "llm-openrouter" 1 v e ∧ ¬ shortens "llm-openrouter" hold.resetAt v e
  obtain ⟨w₀, hreach, hafter⟩ := Run.exists_reaches step Run.always fresh
    [.hold "llm-openrouter" ⟨none, some .daily, 86400⟩]
    (fun w₀ => w₀.callOf 0 = some (.writing ⟨"llm-openrouter", none⟩ hold) && w₀.nextCall = 1 &&
      (w₀.step (.upsert 0)).any fun w₁ => (Run.exec step guard w₁
        [.hold "llm-openrouter" ⟨none, some .perMinuteCooldown, 60⟩, .check 1, .tick 1000]).any
          fun w => w.now = 1000 && w.calls = []) (by decide)
  simp only [Bool.and_eq_true, decide_eq_true_eq, Option.any_eq_true] at hafter
  obtain ⟨⟨hcall, hnext⟩, w₁, hwrite, w, hrun, hnow, hcalls⟩ := hafter
  have hrun' : Run.Reaches step guard w₁ w := Run.exec_reaches hrun
  simp only [guard, ← hnext] at hrun'
  have hkept := daily_hold_kept_until_overtaken hreach hcall rfl hwrite hrun' (by rw [hnow]; decide)
  exact ⟨w, hnow, hcalls, hkept.1⟩

/-- Events up to a daily write, the call that makes it, and the event right after it. -/
structure HoldRace where
  before : List HoldEvent
  callId : ℕ
  late : HoldEvent

/-- A cooldown reads the account's row, and the daily hold is written before it upserts. -/
def cooldownRace : HoldRace where
  before := [.hold "llm-openrouter" ⟨none, some .perMinuteCooldown, 60⟩, .check 0,
    .hold "llm-openrouter" ⟨none, some .daily, 86400⟩]
  callId := 1
  late := .upsert 0

/-- The cleanup finds the row of an expired hold, which the next daily hold refreshes before the
removal. -/
def cleanupRace : HoldRace where
  before := [.hold "llm-openrouter" ⟨none, some .daily, 1⟩, .upsert 0, .tick 1000,
    .find none 1000, .hold "llm-openrouter" ⟨none, some .daily, 86400⟩]
  callId := 2
  late := .remove 1

/-- The events of a race end with the daily hold gone before it resets. -/
def HoldRace.loses (race : HoldRace) (strategyName : String) : Bool :=
  (Run.exec step Run.always fresh race.before).any fun w₀ => match w₀.callOf race.callId with
    | some (.writing key hold) => key = ⟨strategyName, none⟩ && hold.reason = some .daily &&
      (w₀.step (.upsert race.callId)).any fun w₁ =>
        !shortens strategyName hold.resetAt w₁ race.late && (w₁.step race.late).any fun w =>
          w.now < hold.resetAt && w.heldReason strategyName ≠ some .daily
    | _ => false

/-- In a run that goes like the race, a daily hold that no later daily write shortened is gone
before it resets. -/
def HoldRace.LosesHold (race : HoldRace) (strategyName : String) : Prop :=
  ∃ (w₀ w₁ w : HoldStore) (hold : RateLimitHold),
    Run.Reaches step Run.always fresh w₀ ∧
    w₀.callOf race.callId = some (.writing ⟨strategyName, none⟩ hold) ∧
    hold.reason = some .daily ∧ w₀.step (.upsert race.callId) = some w₁ ∧
    Run.Reaches step (fun w e => ¬ shortens strategyName hold.resetAt w e) w₁ w ∧
    w.now < hold.resetAt ∧ w.heldReason strategyName ≠ some .daily

/-- The events of a race are a run that loses its hold. -/
theorem HoldRace.losesHold_of_loses {race : HoldRace} {strategyName : String}
    (hloses : race.loses strategyName) : race.LosesHold strategyName := by
  obtain ⟨w₀, hbefore, hloses⟩ := (Option.any_eq_true _ _).mp hloses
  split at hloses
  · rename_i key hold hcall
    simp only [Bool.and_eq_true, decide_eq_true_eq, Option.any_eq_true, Bool.not_eq_true'] at hloses
    obtain ⟨⟨rfl, hdaily⟩, w₁, hwrite, hlong, w, hlate, hnow, hgone⟩ := hloses
    have hrun : Run.Reaches step (fun w e => ¬ shortens strategyName hold.resetAt w e) w₁ w :=
      Run.Reaches.start.snoc (by simp [hlong]) hlate
    exact ⟨w₀, w₁, w, hold, Run.exec_reaches hbefore, hcall, hdaily, hwrite, hrun, hnow, hgone⟩
  · cases hloses

/-- A cooldown written late and a clean-up written late both lose a daily hold. -/
theorem races_lose_daily_hold :
    cooldownRace.LosesHold "llm-openrouter" ∧ cleanupRace.LosesHold "llm-openrouter" :=
  ⟨HoldRace.losesHold_of_loses (by decide), HoldRace.losesHold_of_loses (by decide)⟩

end HoldStore

end Connections
