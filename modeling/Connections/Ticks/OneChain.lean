import Connections.Library.Run
import Connections.Ticks.TickChain

/-!
# One chain

Where every start finds no tick left over, one token goes round: a start that has saved its row,
or a tick that is queued or has still to decide.  An active row has the token until a tick of its
cycle fails for good; a token left over under an inactive row ends with its next read.
-/

namespace Connections

/-! ### Replacing by key -/

section Replace

variable {α κ : Type*} [DecidableEq κ] {key : α → κ} {k : κ} {p : α → Bool} {f : α → α}

/-- Replacing the entries of a key by ones that a filter drops. -/
theorem filter_replace_of_drop (hf : ∀ a, p (f a) = false) (l : List α) :
    (l.map fun a => if key a = k then f a else a).filter p =
      (l.filter p).filter fun a => key a ≠ k := by
  induction l with
  | nil => rfl
  | cons a l ih =>
    by_cases hkey : key a = k
    · by_cases hp : p a <;> simpa [hkey, hf, hp] using ih
    · by_cases hp : p a <;> simpa [hkey, hp] using ih

/-- Replacing the entries of a key, all of them kept, by ones that a filter keeps too. -/
theorem filter_replace_of_keep (l : List α) (hl : ∀ a ∈ l, key a = k → p a ∧ p (f a)) :
    (l.map fun a => if key a = k then f a else a).filter p =
      (l.filter p).map fun a => if key a = k then f a else a := by
  rw [List.filter_map]
  congr 1
  refine List.filter_congr fun a ha => ?_
  by_cases hkey : key a = k
  · simp [hkey, hl a ha hkey]
  · simp [hkey]

/-- Replacing entries by ones under the same key leaves the keys. -/
theorem map_key_replace (hf : ∀ a, key (f a) = key a) (l : List α) :
    (l.map fun a => if key a = k then f a else a).map key = l.map key := by
  rw [List.map_map]
  refine List.map_congr_left fun a _ => ?_
  simp only [Function.comp_apply]
  split
  · exact hf a
  · rfl

end Replace

namespace TickChain

variable {floorShare : ℕ → ℕ → ℕ} {d : Dispatcher}

/-! ### Tokens -/

/-- The starts that have saved their row and have still to queue their tick. -/
def savedStarts (w : TickChain) : List StartCall := w.starts.filter (·.saved)

/-- The ticks that are queued or have still to decide, and the starts that have still to queue
theirs. -/
def tokens (w : TickChain) : ℕ := w.pendingTicks.length + w.savedStarts.length

/-- A tick is pending until it has decided. -/
theorem mem_pendingTicks {w : TickChain} {t : TickJob} :
    t ∈ w.pendingTicks ↔ t ∈ w.ticks ∧ t.phase ≠ .spent := by
  simp [pendingTicks]

/-- An added tick is one more that is pending. -/
theorem pendingTicks_addTick (w : TickChain) :
    w.addTick.pendingTicks = ⟨w.now, 0, .queued⟩ :: w.pendingTicks := by
  simp [pendingTicks, addTick]

/-- A removed tick is pending no more. -/
theorem pendingTicks_removeTick (w : TickChain) (tickId : ℕ) :
    (w.removeTick tickId).pendingTicks = w.pendingTicks.filter (·.id ≠ tickId) := by
  simp only [pendingTicks, removeTick, List.filter_filter, Bool.and_comm]

/-- A tick that is spent is no longer pending. -/
theorem pendingTicks_spent (w : TickChain) (tickId : ℕ) :
    (w.setPhase tickId .spent).pendingTicks = w.pendingTicks.filter (·.id ≠ tickId) :=
  filter_replace_of_drop (fun _ => rfl) w.ticks

/-- Ids are distinct and below the clock. -/
structure FreshIds (w : TickChain) : Prop where
  ticks_nodup : (w.ticks.map (·.id)).Nodup
  starts_nodup : (w.starts.map (·.id)).Nodup
  ticks_lt : ∀ t ∈ w.ticks, t.id < w.now
  starts_lt : ∀ s ∈ w.starts, s.id < w.now
  failed_lt : ∀ tickId ∈ w.failed, tickId < w.now

/-- A tick is found by its id, which no other has. -/
theorem FreshIds.tick_eq {w : TickChain} (h : FreshIds w) {t : TickJob} {tickId : ℕ}
    (ht : w.tick tickId = some t) : t ∈ w.ticks ∧ t.id = tickId ∧
      ∀ other ∈ w.ticks, other.id = tickId → other = t := by
  have hmem := List.mem_of_find?_eq_some ht
  have hid : t.id = tickId := by simpa using List.find?_some ht
  exact ⟨hmem, hid, fun other hother hsame =>
    List.inj_on_of_nodup_map h.ticks_nodup hother hmem (hsame.trans hid.symm)⟩

/-- Ids after the ticks or the starts were replaced under the same ids, or thinned out. -/
theorem FreshIds.of_sublist {w w' : TickChain} (h : FreshIds w)
    (hticks : (w'.ticks.map (·.id)).Sublist (w.ticks.map (·.id)))
    (hstarts : (w'.starts.map (·.id)).Sublist (w.starts.map (·.id)))
    (hfailed : w'.failed ⊆ w.failed) (hnow : w.now ≤ w'.now) : FreshIds w' where
  ticks_nodup := h.ticks_nodup.sublist hticks
  starts_nodup := h.starts_nodup.sublist hstarts
  ticks_lt t ht := by
    obtain ⟨old, hold, hid⟩ := List.mem_map.mp (hticks.subset (List.mem_map_of_mem ht))
    exact hid ▸ (h.ticks_lt old hold).trans_le hnow
  starts_lt s hs := by
    obtain ⟨old, hold, hid⟩ := List.mem_map.mp (hstarts.subset (List.mem_map_of_mem hs))
    exact hid ▸ (h.starts_lt old hold).trans_le hnow
  failed_lt tickId hmem := (h.failed_lt tickId (hfailed hmem)).trans_le hnow

/-- An added tick gets a new id. -/
theorem FreshIds.addTick {w : TickChain} (h : FreshIds w) : FreshIds w.addTick where
  ticks_nodup := List.nodup_cons.mpr ⟨fun hmem => by
    obtain ⟨t, ht, hid⟩ := List.mem_map.mp hmem
    exact Nat.lt_irrefl _ (hid ▸ h.ticks_lt t ht), h.ticks_nodup⟩
  starts_nodup := h.starts_nodup
  ticks_lt := by
    rintro t (_ | ⟨_, ht⟩)
    · exact Nat.lt_succ_self _
    · exact (h.ticks_lt t ht).trans (Nat.lt_succ_self _)
  starts_lt s hs := (h.starts_lt s hs).trans (Nat.lt_succ_self _)
  failed_lt tickId hmem := (h.failed_lt tickId hmem).trans (Nat.lt_succ_self _)

theorem FreshIds.modifyTick {w : TickChain} (h : FreshIds w) (tickId : ℕ)
    {change : TickJob → TickJob} (hchange : ∀ t, (change t).id = t.id) :
    FreshIds (w.modifyTick tickId change) := by
  have hids : (w.modifyTick tickId change).ticks.map (·.id) = w.ticks.map (·.id) :=
    map_key_replace hchange w.ticks
  exact h.of_sublist (hids ▸ List.Sublist.refl _) (List.Sublist.refl _) (List.Subset.refl _)
    (Nat.le_refl _)

theorem FreshIds.removeTick {w : TickChain} (h : FreshIds w) (tickId : ℕ) :
    FreshIds (w.removeTick tickId) :=
  h.of_sublist (List.filter_sublist.map _) (List.Sublist.refl _) (List.Subset.refl _)
    (Nat.le_refl _)

theorem FreshIds.endStart {w : TickChain} (h : FreshIds w) (startId : ℕ) :
    FreshIds (w.endStart startId) :=
  h.of_sublist (List.Sublist.refl _) (List.filter_sublist.map _) (List.Subset.refl _)
    (Nat.le_refl _)

theorem FreshIds.setRow {w : TickChain} (h : FreshIds w) (row : Option DispatchRow) :
    FreshIds { w with row := row } :=
  ⟨h.ticks_nodup, h.starts_nodup, h.ticks_lt, h.starts_lt, h.failed_lt⟩

/-- A pending tick that stays pending. -/
theorem FreshIds.pendingTicks_modifyTick {w : TickChain} (h : FreshIds w) {t : TickJob}
    {tickId : ℕ} {change : TickJob → TickJob} (ht : w.tick tickId = some t)
    (hpending : t.phase ≠ .spent) (hchange : (change t).phase ≠ .spent) :
    (w.modifyTick tickId change).pendingTicks =
      w.pendingTicks.map fun t => if t.id = tickId then change t else t := by
  refine filter_replace_of_keep w.ticks fun other hother hid => ?_
  rw [(h.tick_eq ht).2.2 other hother hid]
  simp [hpending, hchange]

/-! ### The invariant -/

/-- At most one token; an active row has it until a tick of its cycle fails for good. -/
structure OneToken (w : TickChain) : Prop where
  ids : FreshIds w
  one : w.tokens ≤ 1
  alive : w.active → w.tokens = if w.cycleFailed then 0 else 1
  /-- An active row is older than every pending tick. -/
  cycle : ∀ row, w.row = some row → row.active → ∃ startedAt, row.startedAt = some startedAt ∧
    startedAt ≤ w.now ∧ ∀ t ∈ w.pendingTicks, startedAt ≤ t.id

/-- A pending tick has the token. -/
theorem OneToken.pending_eq {w : TickChain} (h : OneToken w) {t : TickJob} {tickId : ℕ}
    (ht : w.tick tickId = some t) (hpending : t.phase ≠ .spent) :
    w.pendingTicks = [t] ∧ w.savedStarts = [] := by
  have hmem : t ∈ w.pendingTicks := mem_pendingTicks.mpr ⟨(h.ids.tick_eq ht).1, hpending⟩
  have hone := h.one
  have hpos := List.length_pos_of_mem hmem
  unfold tokens at hone
  obtain ⟨only, honly⟩ := List.length_eq_one_iff.mp
    (show w.pendingTicks.length = 1 by omega)
  refine ⟨?_, List.length_eq_zero_iff.mp (by omega)⟩
  rw [honly, List.mem_singleton] at hmem
  rw [honly, hmem]

/-- A start that has saved its row has the token. -/
theorem OneToken.saved_eq {w : TickChain} (h : OneToken w) {s : StartCall} {startId : ℕ}
    (hs : w.starts.find? (·.id = startId) = some s) (hsaved : s.saved) :
    w.savedStarts = [s] ∧ w.pendingTicks = [] := by
  have hmem : s ∈ w.savedStarts := List.mem_filter.mpr ⟨List.mem_of_find?_eq_some hs, hsaved⟩
  have hone := h.one
  have hpos := List.length_pos_of_mem hmem
  unfold tokens at hone
  obtain ⟨only, honly⟩ := List.length_eq_one_iff.mp
    (show w.savedStarts.length = 1 by omega)
  refine ⟨?_, List.length_eq_zero_iff.mp (by omega)⟩
  rw [honly, List.mem_singleton] at hmem
  rw [honly, hmem]

/-- Steps that leave the row alone and pass the token on, if anything, to a tick that is newer. -/
theorem OneToken.of_row_eq {w w' : TickChain} (h : OneToken w) (hids : FreshIds w')
    (hrow : w'.row = w.row) (hfailed : w'.failed = w.failed) (hnow : w.now ≤ w'.now)
    (htokens : w'.tokens = w.tokens)
    (hpending : ∀ t' ∈ w'.pendingTicks, w.now ≤ t'.id ∨ ∃ t ∈ w.pendingTicks, t.id = t'.id) :
    OneToken w' := by
  refine ⟨hids, htokens ▸ h.one, fun hactive => ?_, fun row hrow' hactive => ?_⟩
  · have halive := h.alive (by rwa [active, ← hrow])
    rwa [htokens, cycleFailed, hrow, hfailed]
  · obtain ⟨startedAt, hstarted, hle, hall⟩ := h.cycle row (hrow ▸ hrow') hactive
    refine ⟨startedAt, hstarted, hle.trans hnow, fun t' ht' => ?_⟩
    rcases hpending t' ht' with hnew | ⟨t, ht, hid⟩
    · exact hle.trans hnew
    · exact hid ▸ hall t ht

/-- Steps that end with an inactive row. -/
theorem OneToken.of_inactive {w' : TickChain} (hids : FreshIds w') (hone : w'.tokens ≤ 1)
    (hinactive : w'.active = false) : OneToken w' := by
  refine ⟨hids, hone, fun hactive => ?_, fun row hrow hactive => ?_⟩
  · rw [hinactive] at hactive
    cases hactive
  · simp [active, hrow, hactive] at hinactive

/-- The token is given up with the cycle. -/
theorem OneToken.of_no_token {w' : TickChain} (hids : FreshIds w') (hticks : w'.pendingTicks = [])
    (hstarts : w'.savedStarts = []) (hinactive : w'.active = false) : OneToken w' :=
  .of_inactive hids (by simp [tokens, hticks, hstarts]) hinactive

/-- A cycle that is taken down is inactive. -/
theorem active_deactivate (w : TickChain) : w.deactivate.active = false := by
  unfold active deactivate
  cases w.row <;> simp

/-- A tick that stays pending keeps the token. -/
theorem OneToken.modifyTick {w : TickChain} (h : OneToken w) {t : TickJob} {tickId : ℕ}
    {change : TickJob → TickJob} (ht : w.tick tickId = some t) (hpending : t.phase ≠ .spent)
    (hphase : (change t).phase ≠ .spent) (hid : ∀ t, (change t).id = t.id) :
    OneToken (w.modifyTick tickId change) := by
  have hmoved := h.ids.pendingTicks_modifyTick ht hpending hphase
  refine h.of_row_eq (h.ids.modifyTick tickId hid) rfl rfl (Nat.le_refl _) ?_ ?_
  · simp only [tokens, hmoved, List.length_map]
    rfl
  · rw [hmoved]
    rintro t' ht'
    obtain ⟨old, hold, rfl⟩ := List.mem_map.mp ht'
    refine .inr ⟨old, hold, ?_⟩
    split
    · exact (hid old).symm
    · rfl

/-- A tick that has decided gives the token up. -/
theorem OneToken.tokens_spent {w : TickChain} (h : OneToken w) {t : TickJob} {tickId : ℕ}
    (ht : w.tick tickId = some t) (hpending : t.phase ≠ .spent) :
    (w.setPhase tickId .spent).pendingTicks = [] ∧ w.savedStarts = [] ∧ w.tokens = 1 := by
  obtain ⟨honly, hnone⟩ := h.pending_eq ht hpending
  refine ⟨?_, hnone, by simp [tokens, honly, hnone]⟩
  rw [pendingTicks_spent, honly]
  simp [(h.ids.tick_eq ht).2.1]

/-- A new tick takes over a token that was given up. -/
theorem OneToken.addTick {w v : TickChain} (h : OneToken w) (hids : FreshIds v)
    (hrow : v.row = w.row) (hfailed : v.failed = w.failed) (hnow : v.now = w.now)
    (htokens : w.tokens = 1) (hticks : v.pendingTicks = []) (hstarts : v.savedStarts = []) :
    OneToken v.addTick := by
  have hpending := pendingTicks_addTick v
  rw [hticks] at hpending
  have hstarts' : v.addTick.savedStarts = [] := hstarts
  refine h.of_row_eq hids.addTick hrow hfailed (hnow ▸ Nat.le_succ _) ?_ ?_
  · rw [htokens, tokens, hpending, hstarts']
    rfl
  · rw [hpending]
    rintro t' ht'
    rw [List.mem_singleton.mp ht']
    exact .inl (Nat.le_of_eq hnow.symm)

/-- The last failed attempt of a tick gives the token up and fails its cycle. -/
theorem OneToken.fail {w : TickChain} (h : OneToken w) {t : TickJob} {tickId : ℕ}
    (ht : w.tick tickId = some t) (hpending : t.phase ≠ .spent) :
    OneToken { w.removeTick tickId with failed := tickId :: w.failed } := by
  obtain ⟨honly, hnone⟩ := h.pending_eq ht hpending
  obtain ⟨-, hid, -⟩ := h.ids.tick_eq ht
  have hids := h.ids.removeTick tickId
  have hticks : (w.removeTick tickId).pendingTicks = [] := by
    rw [pendingTicks_removeTick, honly]
    simp [hid]
  let v : TickChain := { w.removeTick tickId with failed := tickId :: w.failed }
  have hgone : v.pendingTicks = [] := hticks
  have hstarts : v.savedStarts = [] := hnone
  have hzero : v.tokens = 0 := by simp [tokens, hgone, hstarts]
  refine ⟨⟨hids.ticks_nodup, hids.starts_nodup, hids.ticks_lt, hids.starts_lt, ?_⟩,
    hzero ▸ Nat.zero_le _, ?_, ?_⟩
  · rintro failedId (_ | ⟨_, hmem⟩)
    · exact hid ▸ h.ids.ticks_lt t (h.ids.tick_eq ht).1
    · exact h.ids.failed_lt failedId hmem
  · intro hactive
    rw [hzero]
    cases hrow : w.row with
    | none => simp [active, TickChain.removeTick, hrow] at hactive
    | some row =>
      have hrowactive : row.active := by
        simpa [active, TickChain.removeTick, hrow] using hactive
      obtain ⟨startedAt, hstarted, -, hall⟩ := h.cycle row hrow hrowactive
      have hle : startedAt ≤ tickId := hid ▸ hall t (by simp [honly])
      simp [cycleFailed, TickChain.removeTick, hrow, hstarted, hle]
  · intro row hrow hactive
    obtain ⟨startedAt, hstarted, hle, -⟩ := h.cycle row hrow hactive
    refine ⟨startedAt, hstarted, hle, fun t ht => ?_⟩
    have ht : t ∈ v.pendingTicks := ht
    rw [hgone] at ht
    cases ht

/-- A start that saves its row, with no other start still to queue its tick, is the only one that
has. -/
theorem FreshIds.length_saved {w : TickChain} (h : FreshIds w) {s : StartCall} {startId : ℕ}
    (hs : w.starts.find? (·.id = startId) = some s) (hothers : ∀ s ∈ w.starts, s.saved = false) :
    ((w.starts.map fun s => if s.id = startId then { s with saved := true } else s).filter
      (·.saved)).length = 1 := by
  let starts := w.starts.map fun s => if s.id = startId then { s with saved := true } else s
  have hmem := List.mem_of_find?_eq_some hs
  have hid : s.id = startId := by simpa using List.find?_some hs
  have honly : ∀ x ∈ starts.filter (·.saved), x = { s with saved := true } := by
    intro x hx
    obtain ⟨hx, hsaved⟩ := List.mem_filter.mp hx
    obtain ⟨old, hold, rfl⟩ := List.mem_map.mp hx
    split at hsaved
    · rename_i hsame
      obtain rfl := List.inj_on_of_nodup_map h.starts_nodup hold hmem (hsame.trans hid.symm)
      simp [hsame]
    · rw [hothers old hold] at hsaved
      cases hsaved
  have hnodup : (starts.map (·.id)).Nodup := by
    rw [map_key_replace (f := fun s : StartCall => { s with saved := true }) (fun _ => rfl)]
    exact h.starts_nodup
  refine Nat.le_antisymm ?_ (List.length_pos_of_mem (a := { s with saved := true }) ?_)
  · exact (List.subperm_of_subset ((List.Nodup.of_map _ hnodup).filter _)
      (fun x hx => List.mem_singleton.mpr (honly x hx))).length_le
  · exact List.mem_filter.mpr ⟨List.mem_map.mpr ⟨s, hmem, by simp [hid]⟩, rfl⟩

/-- A start that saves its row as active has the token when there was none. -/
theorem OneToken.save {w : TickChain} {s : StartCall} {startId : ℕ}
    {thresholdPercent : Option ℕ} (hids : FreshIds w)
    (hs : w.starts.find? (·.id = startId) = some s) (hticks : w.pendingTicks = [])
    (hothers : ∀ s ∈ w.starts, s.saved = false) :
    OneToken { w with
      row := some ⟨true, thresholdPercent, some w.now⟩
      starts := w.starts.map fun s =>
        if s.id = startId then { s with saved := true } else s } := by
  let starts := w.starts.map fun s => if s.id = startId then { s with saved := true } else s
  have hstarts : starts.map (·.id) = w.starts.map (·.id) :=
    map_key_replace (f := fun s : StartCall => { s with saved := true }) (fun _ => rfl) w.starts
  let v : TickChain :=
    { w with row := some ⟨true, thresholdPercent, some w.now⟩, starts := starts }
  have htokens : v.tokens = 1 := by
    have hvticks : v.pendingTicks = [] := hticks
    have hvstarts : v.savedStarts.length = 1 := hids.length_saved hs hothers
    rw [tokens, hvticks, hvstarts]
    rfl
  have hfine : v.cycleFailed = false := by
    simp only [cycleFailed, v, Option.any_some, List.any_eq_false, decide_eq_true_eq, not_le]
    exact hids.failed_lt
  have halive : v.tokens = if v.cycleFailed then 0 else 1 := by
    rw [htokens, hfine]
    rfl
  refine ⟨⟨hids.ticks_nodup, hstarts ▸ hids.starts_nodup, hids.ticks_lt, ?_, hids.failed_lt⟩,
    Nat.le_of_eq htokens, fun _ => halive, ?_⟩
  · intro x hx
    obtain ⟨old, hold, holdid⟩ := List.mem_map.mp (hstarts ▸ List.mem_map_of_mem hx)
    exact holdid ▸ hids.starts_lt old hold
  · rintro row ⟨⟩ -
    refine ⟨w.now, rfl, Nat.le_refl _, fun t ht => ?_⟩
    have ht : t ∈ w.pendingTicks := ht
    rw [hticks] at ht
    cases ht

/-- A start that reads the row takes a fresh id. -/
theorem OneToken.startRead {w : TickChain} (h : OneToken w) (thresholdPercent : Option ℕ) :
    OneToken { w with
      now := w.now + 1
      starts := ⟨w.now, thresholdPercent, false⟩ :: w.starts } := by
  refine h.of_row_eq ⟨h.ids.ticks_nodup, ?_, ?_, ?_, ?_⟩ rfl rfl (Nat.le_succ _) rfl
    fun t ht => .inr ⟨t, ht, rfl⟩
  · refine List.nodup_cons.mpr ⟨fun hmem => ?_, h.ids.starts_nodup⟩
    obtain ⟨s, hs, hid⟩ := List.mem_map.mp hmem
    exact Nat.lt_irrefl _ (hid ▸ h.ids.starts_lt s hs)
  · intro t ht
    exact (h.ids.ticks_lt t ht).trans (Nat.lt_succ_self _)
  · rintro s (_ | ⟨_, hs⟩)
    · exact Nat.lt_succ_self _
    · exact (h.ids.starts_lt s hs).trans (Nat.lt_succ_self _)
  · intro tickId hmem
    exact (h.ids.failed_lt tickId hmem).trans (Nat.lt_succ_self _)

/-- The saved starts that are left when one ends. -/
theorem savedStarts_endStart (w : TickChain) (startId : ℕ) :
    (w.endStart startId).savedStarts = w.savedStarts.filter (·.id ≠ startId) := by
  simp only [savedStarts, endStart, List.filter_filter, Bool.and_comm]

/-- A start that queues its tick hands the token on. -/
theorem OneToken.startAdd {w : TickChain} (h : OneToken w) {s : StartCall} {startId : ℕ}
    (hs : w.starts.find? (·.id = startId) = some s) (hsaved : s.saved) :
    OneToken (w.endStart startId).addTick := by
  obtain ⟨honly, hnone⟩ := h.saved_eq hs hsaved
  have hid : s.id = startId := by simpa using List.find?_some hs
  have hended : (w.endStart startId).savedStarts = [] := by
    rw [savedStarts_endStart, honly]
    simp [hid]
  exact h.addTick (h.ids.endStart startId) rfl rfl rfl (by simp [tokens, honly, hnone]) hnone hended

/-- A spent tick has no token. -/
theorem OneToken.complete {w : TickChain} (h : OneToken w) {t : TickJob} {tickId : ℕ}
    (ht : w.tick tickId = some t) (hspent : t.phase = .spent) : OneToken (w.removeTick tickId) := by
  have hsame : (w.removeTick tickId).pendingTicks = w.pendingTicks := by
    rw [pendingTicks_removeTick]
    refine List.filter_eq_self.mpr fun other hother => decide_eq_true fun hid => ?_
    obtain ⟨hmem, hpending⟩ := mem_pendingTicks.mp hother
    rw [(h.ids.tick_eq ht).2.2 other hmem hid] at hpending
    exact hpending hspent
  refine h.of_row_eq (h.ids.removeTick tickId) rfl rfl (Nat.le_refl _) ?_ ?_
  · simp only [tokens, hsame]
    rfl
  · intro t' ht'
    exact .inr ⟨t', hsame ▸ ht', rfl⟩

/-- A guarded step keeps the token one. -/
theorem OneToken.step {w w' : TickChain} {e : TickEvent} (h : OneToken w)
    (hclear : startsClear d w e) (hstep : TickChain.step floorShare d w e = some w') :
    OneToken w' := by
  cases step_cases hstep with
  | startRead thresholdPercent => exact h.startRead thresholdPercent
  | started s startId reads hs hstarts =>
    obtain ⟨hticks, hothers⟩ := of_decide_eq_true hclear hstarts
    exact .save h.ids hs hticks hothers
  | notStarted s startId reads =>
    have hfewer : (w.endStart startId).savedStarts.length ≤ w.savedStarts.length := by
      rw [savedStarts_endStart]
      exact List.length_filter_le _ _
    exact .of_inactive ((h.ids.endStart startId).setRow _)
      ((Nat.add_le_add_left hfewer _).trans h.one) rfl
  | startAdd s startId hs hsaved => exact h.startAdd hs hsaved
  | stopped =>
    exact .of_inactive (h.ids.setRow _) h.one (active_deactivate w)
  | picked t tickId ht hphase =>
    exact h.modifyTick ht (by simp [hphase]) (by simp) fun _ => rfl
  | readActive t tickId thresholdPercent ht hphase _ =>
    exact h.modifyTick ht (by simp [hphase]) (by simp) fun _ => rfl
  | readInactive t tickId ht hphase hidle =>
    obtain ⟨hticks, hstarts, -⟩ := h.tokens_spent ht (by simp [hphase])
    exact .of_no_token (h.ids.modifyTick tickId fun _ => rfl) hticks hstarts hidle
  | deactivated t tickId _ _ ht hphase =>
    obtain ⟨hticks, hstarts, -⟩ := h.tokens_spent ht (by simp [hphase])
    have hids : FreshIds (w.setPhase tickId .spent) := h.ids.modifyTick tickId fun _ => rfl
    exact .of_no_token (hids.setRow _) hticks hstarts (active_deactivate _)
  | scheduled t tickId _ _ ht hphase =>
    obtain ⟨hticks, hstarts, htokens⟩ := h.tokens_spent ht (by simp [hphase])
    have hids : FreshIds (w.setPhase tickId .spent) := h.ids.modifyTick tickId fun _ => rfl
    exact h.addTick hids rfl rfl rfl htokens hticks hstarts
  | requeued t tickId ht hpending => exact h.modifyTick ht hpending (by simp) fun _ => rfl
  | failed t tickId ht hpending => exact h.fail ht hpending
  | completed t tickId ht hspent => exact h.complete ht hspent

/-! ### A row that stays inactive -/

/-- The row is inactive and nothing is on its way to make it active or to queue a tick. -/
structure Idle (w : TickChain) : Prop where
  inactive : w.active = false
  undecided : ∀ t ∈ w.ticks, ∀ thresholdPercent, t.phase ≠ .running thresholdPercent
  unsaved : ∀ s ∈ w.starts, s.saved = false

/-- An idle chain after one of its ticks was moved on, short of reading the row as active. -/
theorem Idle.modifyTick {w : TickChain} (h : Idle w) (tickId : ℕ) {change : TickJob → TickJob}
    (hid : ∀ t, (change t).id = t.id)
    (hphase : ∀ t thresholdPercent, (change t).phase ≠ .running thresholdPercent) :
    Idle (w.modifyTick tickId change) ∧
      (w.modifyTick tickId change).ticks.map (·.id) ⊆ w.ticks.map (·.id) := by
  refine ⟨⟨h.inactive, fun t ht => ?_, h.unsaved⟩, ?_⟩
  · obtain ⟨old, hold, rfl⟩ := List.mem_map.mp ht
    split
    · exact hphase old
    · exact h.undecided old hold
  · have hids : (w.modifyTick tickId change).ticks.map (·.id) = w.ticks.map (·.id) :=
      map_key_replace hid w.ticks
    exact hids ▸ List.Subset.refl _

/-- An idle chain after one of its ticks was removed. -/
theorem Idle.removeTick {w : TickChain} (h : Idle w) (tickId : ℕ) :
    (∀ t ∈ (w.removeTick tickId).ticks, ∀ thresholdPercent, t.phase ≠ .running thresholdPercent) ∧
      (w.removeTick tickId).ticks.map (·.id) ⊆ w.ticks.map (·.id) :=
  ⟨fun t ht => h.undecided t (List.mem_of_mem_filter ht), (List.filter_sublist.map _).subset⟩

/-- Without a start that saves its row, an idle chain stays idle and queues no tick. -/
theorem Idle.step {w w' : TickChain} {e : TickEvent} (h : Idle w) (hsaves : savesNoStart e)
    (hstep : TickChain.step floorShare d w e = some w') :
    Idle w' ∧ w'.ticks.map (·.id) ⊆ w.ticks.map (·.id) := by
  cases step_cases hstep with
  | startRead thresholdPercent =>
    exact ⟨⟨h.inactive, h.undecided, List.forall_mem_cons.mpr ⟨rfl, h.unsaved⟩⟩,
      List.Subset.refl _⟩
  | started | notStarted => cases hsaves
  | startAdd s startId hs hsaved =>
    rw [h.unsaved s (List.mem_of_find?_eq_some hs)] at hsaved
    cases hsaved
  | stopped => exact ⟨⟨active_deactivate w, h.undecided, h.unsaved⟩, List.Subset.refl _⟩
  | readActive t tickId thresholdPercent ht hphase hactive =>
    rw [h.inactive] at hactive
    cases hactive
  | deactivated t tickId thresholdPercent reads ht hphase
  | scheduled t tickId thresholdPercent reads ht hphase =>
    exact absurd hphase (h.undecided t (List.mem_of_find?_eq_some ht) thresholdPercent)
  | picked t tickId | readInactive t tickId | requeued t tickId =>
    exact h.modifyTick tickId (fun _ => rfl) (by simp)
  | failed t tickId | completed t tickId =>
    exact ⟨⟨h.inactive, (h.removeTick tickId).1, h.unsaved⟩, (h.removeTick tickId).2⟩

/-- Until a start saves its row, an idle chain only runs out. -/
theorem Idle.reaches {w w' : TickChain} (h : Idle w)
    (hrun : Run.Reaches (TickChain.step floorShare d) (fun _ e => savesNoStart e) w w') :
    w'.active = false ∧ w'.ticks.map (·.id) ⊆ w.ticks.map (·.id) := by
  let RunsOut (v : TickChain) : Prop := Idle v ∧ v.ticks.map (·.id) ⊆ w.ticks.map (·.id)
  have hkept : RunsOut w' := hrun.invariant ⟨h, List.Subset.refl _⟩
    fun _ _ _ hv hsaves hstep =>
      have hnext := hv.1.step hsaves hstep
      ⟨hnext.1, fun _ hmem => hv.2 (hnext.2 hmem)⟩
  exact ⟨hkept.1.inactive, hkept.2⟩

/-! ### The chain of a dispatch row -/

/-- A chain without ticks and starts under an inactive row. -/
theorem oneToken_of_idle {w : TickChain} (hticks : w.ticks = []) (hstarts : w.starts = [])
    (hfailed : w.failed = []) (hinactive : w.active = false) : OneToken w := by
  refine .of_no_token ⟨?_, ?_, ?_, ?_, ?_⟩ ?_ ?_ hinactive <;>
    simp [hticks, hstarts, hfailed, pendingTicks, savedStarts]

/-- With nothing in the middle of its execution, every tick is pending and every token a tick. -/
theorem tokens_settled {w : TickChain} (h : w.settled) : w.tokens = w.ticks.length := by
  have hticks : w.pendingTicks = w.ticks :=
    List.filter_eq_self.mpr fun t ht => by simp [h.2 t ht]
  simp [tokens, hticks, savedStarts, h.1]

/-- One tick chain for a dispatch row: where no start finds a tick left over, never more than one
tick is queued or has still to decide; with nothing in the middle of its execution an active row
has exactly one tick until a tick of its cycle fails for good, and then none; and an inactive row
has at most one, which queues no successor. -/
theorem one_tick_chain {w₀ w : TickChain} (hticks : w₀.ticks = []) (hstarts : w₀.starts = [])
    (hfailed : w₀.failed = []) (hinactive : w₀.active = false)
    (hrun : Run.Reaches (TickChain.step floorShare d) (fun w e => startsClear d w e) w₀ w) :
    w.pendingTicks.length ≤ 1 ∧
      (w.settled → w.active → w.ticks.length = if w.cycleFailed then 0 else 1) ∧
      (w.settled → w.active = false → w.ticks.length ≤ 1 ∧ ∀ w',
        Run.Reaches (TickChain.step floorShare d) (fun _ e => savesNoStart e) w w' →
          w'.active = false ∧ w'.ticks.map (·.id) ⊆ w.ticks.map (·.id)) := by
  have hone : OneToken w := hrun.invariant (oneToken_of_idle hticks hstarts hfailed hinactive)
    fun _ _ _ hv hclear hstep => hv.step hclear hstep
  refine ⟨(Nat.le_add_right _ _).trans hone.one, fun hsettled hactive => ?_,
    fun hsettled hidle => ⟨?_, fun w' hrest => ?_⟩⟩
  · rw [← tokens_settled hsettled]
    exact hone.alive hactive
  · rw [← tokens_settled hsettled]
    exact hone.one
  · refine Idle.reaches ⟨hidle, fun t ht => ?_, ?_⟩ hrest
    · simp [hsettled.2 t ht]
    · simp [hsettled.1]

/-- A dispatch row that was never started. -/
def unstarted : TickChain := ⟨0, none, [], [], []⟩

/-- What a start and a tick read of a pool with one model, none held. -/
def someWork : StartReads × TickReads :=
  (⟨["a"], [], false, 0, 0⟩, ⟨["a"], [], none, 0, 0, 0, 5, 20, 0, 0, 0, [], false⟩)

/-- The events of a start, and of a tick that queues its successor. -/
def startUp (startId : ℕ) : List TickEvent :=
  [.startRead none, .startSave startId someWork.1, .startAdd startId]

/-- A cycle whose first tick has queued the second and completed. -/
theorem one_tick_chain_started :
    ∃ w : TickChain, w.active ∧ w.settled ∧ w.ticks.length = if w.cycleFailed then 0 else 1 := by
  obtain ⟨w, hrun, hready⟩ := Run.exists_reaches (step (fun l p => l * p / 100) (.pool .google))
    (fun w e => startsClear (.pool .google) w e) unstarted
    (startUp 0 ++ [.pick 1, .readState 1, .decide 1 someWork.2, .complete 1])
    (fun w => w.active && decide (w.starts = []) && w.ticks.all (·.phase = .queued)) (by decide)
  simp only [Bool.and_eq_true, decide_eq_true_eq, List.all_eq_true] at hready
  obtain ⟨⟨hactive, hstarts⟩, hticks⟩ := hready
  exact ⟨w, hactive, ⟨hstarts, hticks⟩,
    (one_tick_chain rfl rfl rfl rfl hrun).2.1 ⟨hstarts, hticks⟩ hactive⟩

/-- A tick that has queued its successor is still executing, and a stop leaves the tick that
waits: two ticks at once, and later an inactive row with a tick.  A tick that has failed its last
attempt leaves an active row without one. -/
theorem stop_leaves_its_tick :
    (∃ w, Run.Reaches (step (fun l p => l * p / 100) (.pool .google)) Run.always unstarted w ∧
      w.ticks.length = 2) ∧
    (∃ w, Run.Reaches (step (fun l p => l * p / 100) (.pool .google)) Run.always unstarted w ∧
      w.settled ∧ w.active = false ∧ w.ticks.length = 1) ∧
    ∃ w, Run.Reaches (step (fun l p => l * p / 100) (.pool .google)) Run.always unstarted w ∧
      w.settled ∧ w.active = true ∧ w.ticks.length = 0 := by
  have hsettled {w : TickChain} {active : Bool} {length : ℕ}
      (h : (decide (w.starts = []) && w.ticks.all (·.phase = .queued) &&
        decide (w.active = active) && decide (w.ticks.length = length)) = true) :
      w.settled ∧ w.active = active ∧ w.ticks.length = length := by
    simp only [Bool.and_eq_true, decide_eq_true_eq, List.all_eq_true] at h
    obtain ⟨⟨⟨hstarts, hticks⟩, hactive⟩, hlength⟩ := h
    exact ⟨⟨hstarts, hticks⟩, hactive, hlength⟩
  refine ⟨?_, ?_, ?_⟩
  · obtain ⟨w, hrun, htwo⟩ := Run.exists_reaches (step (fun l p => l * p / 100) (.pool .google))
      Run.always unstarted (startUp 0 ++ [.pick 1, .readState 1, .decide 1 someWork.2])
      (fun w => w.ticks.length = 2) (by decide)
    exact ⟨w, hrun, of_decide_eq_true htwo⟩
  · obtain ⟨w, hrun, hleft⟩ := Run.exists_reaches (step (fun l p => l * p / 100) (.pool .google))
      Run.always unstarted (startUp 0 ++ [.stop])
      (fun w => decide (w.starts = []) && w.ticks.all (·.phase = .queued) &&
        decide (w.active = false) && decide (w.ticks.length = 1)) (by decide)
    exact ⟨w, hrun, hsettled hleft⟩
  · obtain ⟨w, hrun, hfailed⟩ := Run.exists_reaches (step (fun l p => l * p / 100) (.pool .google))
      Run.always unstarted (startUp 0 ++ (List.replicate 3 [.pick 1, .throws 1]).flatten)
      (fun w => decide (w.starts = []) && w.ticks.all (·.phase = .queued) &&
        decide (w.active = true) && decide (w.ticks.length = 0)) (by decide)
    exact ⟨w, hrun, hsettled hfailed⟩

end TickChain

end Connections
