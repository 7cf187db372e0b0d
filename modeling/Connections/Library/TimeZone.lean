import Mathlib.Data.Int.Order.Basic

/-!
# Clocks of a time zone

The clock of a zone runs ahead of the instants by an offset that changes now and then.  Where it is
put forward it skips readings, and where it is put back it shows them again.  A reading belongs to
the first instant that shows it; one that is skipped is taken by the offset from before the skip.
-/

namespace Clock

/-- From an instant on, the clock has another offset. -/
structure Change where
  start : ℤ
  offset : ℤ
  deriving DecidableEq, Repr

/-- The offset before the first change, and the changes in their order. -/
structure TimeZone where
  initial : ℤ
  changes : List Change
  increasing : changes.Pairwise fun a b => a.start < b.start
  deriving DecidableEq, Repr

/-- The offset at an instant, when some changes are ahead. -/
def offsetFrom (offset : ℤ) : List Change → ℤ → ℤ
  | [], _ => offset
  | change :: later, t => if t < change.start then offset else offsetFrom change.offset later t

/-- The instants that show a reading, when some changes are ahead. -/
def instantsFrom (offset : ℤ) : List Change → ℤ → List ℤ
  | [], reading => [reading - offset]
  | change :: later, reading =>
    (if reading - offset < change.start then [reading - offset] else []) ++
      (instantsFrom change.offset later reading).filter (change.start ≤ ·)

/-- The listed instants are the ones that show the reading. -/
theorem mem_instantsFrom {offset : ℤ} {changes : List Change} {reading t : ℤ} :
    t ∈ instantsFrom offset changes reading ↔ t + offsetFrom offset changes t = reading := by
  induction changes generalizing offset with
  | nil =>
    simp only [instantsFrom, offsetFrom, List.mem_singleton]
    omega
  | cons change later ih =>
    have hfirst : t ∈ (if reading - offset < change.start then [reading - offset] else []) ↔
        t = reading - offset ∧ t < change.start := by
      split
      · rw [List.mem_singleton]
        omega
      · simp only [List.not_mem_nil, false_iff]
        omega
    rw [instantsFrom, offsetFrom, List.mem_append, hfirst, List.mem_filter, ih, decide_eq_true_eq]
    split <;> omega

/-- They are listed in their order. -/
theorem pairwise_instantsFrom (offset : ℤ) (changes : List Change) (reading : ℤ) :
    (instantsFrom offset changes reading).Pairwise (· < ·) := by
  induction changes generalizing offset with
  | nil => exact List.pairwise_singleton _ _
  | cons change later ih =>
    refine List.pairwise_append.mpr ⟨?_, (ih change.offset).filter _, ?_⟩
    · split
      · exact List.pairwise_singleton _ _
      · exact .nil
    · intro first hfirst next hnext
      have hstart := of_decide_eq_true (List.mem_filter.mp hnext).2
      split at hfirst
      · rw [List.mem_singleton.mp hfirst]
        omega
      · cases hfirst

/-- A clock below a reading that it does not show from there on is put past it. -/
theorem exists_change_past {offset reading t : ℤ} {changes : List Change}
    (hbelow : t + offsetFrom offset changes t < reading)
    (hskipped : ∀ u, t ≤ u → u + offsetFrom offset changes u ≠ reading) :
    ∃ change ∈ changes, t < change.start ∧
      t + offsetFrom offset changes t ≤
        change.start - 1 + offsetFrom offset changes (change.start - 1) ∧
      change.start - 1 + offsetFrom offset changes (change.start - 1) < reading := by
  induction changes generalizing offset with
  | nil =>
    simp only [offsetFrom] at hbelow hskipped
    exact absurd (Int.sub_add_cancel reading offset) (hskipped _ (by omega))
  | cons change later ih =>
    by_cases hbefore : t < change.start
    · have hlast : change.start - 1 < change.start := by omega
      refine ⟨change, List.mem_cons_self, hbefore, ?_, ?_⟩
      · rw [offsetFrom, if_pos hbefore, offsetFrom, if_pos hlast]
        omega
      · rw [offsetFrom, if_pos hbefore] at hbelow
        rw [offsetFrom, if_pos hlast]
        by_contra hreached
        refine hskipped (reading - offset) (by omega) ?_
        rw [offsetFrom, if_pos (by omega), Int.sub_add_cancel]
    · -- Behind the change the clock is the one of the later changes.
      have hsame : ∀ u, t ≤ u →
          offsetFrom offset (change :: later) u = offsetFrom change.offset later u := by
        intro u hu
        rw [offsetFrom, if_neg (by omega)]
      rw [hsame t (Int.le_refl t)] at hbelow ⊢
      obtain ⟨next, hnext, hlater, hlow, hhigh⟩ :=
        ih hbelow fun u hu => hsame u hu ▸ hskipped u hu
      refine ⟨next, List.mem_cons_of_mem _ hnext, hlater, ?_, ?_⟩
      · rwa [hsame _ (by omega)]
      · rwa [hsame _ (by omega)]

namespace TimeZone

variable (zone : TimeZone)

/-- The offset at an instant. -/
def offset (t : ℤ) : ℤ := offsetFrom zone.initial zone.changes t

/-- What the clock shows at an instant. -/
def localTime (t : ℤ) : ℤ := t + zone.offset t

/-- The instants that show a reading, in their order. -/
def instants (reading : ℤ) : List ℤ := instantsFrom zone.initial zone.changes reading

/-- An instant shows no more than another one, and is not later when it shows as much. -/
def Precedes (t u : ℤ) : Prop :=
  zone.localTime t < zone.localTime u ∨ zone.localTime t = zone.localTime u ∧ t ≤ u

instance (t u : ℤ) : Decidable (zone.Precedes t u) := inferInstanceAs (Decidable (_ ∨ _))

/-- The instant that all others of a list precede. -/
def last : List ℤ → Option ℤ
  | [] => none
  | t :: rest =>
    match last rest with
    | some u => if zone.Precedes t u then some u else some t
    | none => some t

/-- The instants right before the changes, as far as they show less than a reading. -/
def endsBelow (reading : ℤ) : List ℤ :=
  (zone.changes.map (·.start - 1)).filter (zone.localTime · < reading)

/-- The last instant that shows the greatest reading below one that is skipped. -/
def lastBefore (reading : ℤ) : ℤ := (zone.last (zone.endsBelow reading)).getD 0

/-- The instant of a reading. -/
def utc (reading : ℤ) : ℤ :=
  match zone.instants reading with
  | first :: _ => first
  | [] => reading - zone.offset (zone.lastBefore reading)

/-- What the clock shows at the instant of a reading: the reading, or where it goes on after it. -/
def settle (reading : ℤ) : ℤ := zone.localTime (zone.utc reading)

variable {zone}

theorem mem_instants {reading t : ℤ} : t ∈ zone.instants reading ↔ zone.localTime t = reading :=
  mem_instantsFrom

/-- A reading that is shown belongs to the first instant that shows it. -/
theorem utc_of_shown {reading t : ℤ} (hshown : zone.localTime t = reading) :
    zone.localTime (zone.utc reading) = reading ∧ zone.utc reading ≤ t := by
  have hmem : t ∈ zone.instants reading := mem_instants.mpr hshown
  have horder : (zone.instants reading).Pairwise (· < ·) := pairwise_instantsFrom _ _ _
  cases hinstants : zone.instants reading with
  | nil =>
    rw [hinstants] at hmem
    cases hmem
  | cons first rest =>
    have hutc : zone.utc reading = first := by rw [utc, hinstants]
    have hfirst : first ∈ zone.instants reading := hinstants ▸ List.mem_cons_self
    rw [hinstants] at hmem horder
    rw [hutc]
    refine ⟨mem_instants.mp hfirst, ?_⟩
    rcases List.mem_cons.mp hmem with rfl | hlater
    · exact Int.le_refl _
    · exact Int.le_of_lt ((List.pairwise_cons.mp horder).1 t hlater)

/-- A reading that is skipped is taken by the offset of the last instant before the skip. -/
theorem utc_of_skipped {reading : ℤ} (hskipped : ∀ t, zone.localTime t ≠ reading) :
    zone.utc reading = reading - zone.offset (zone.lastBefore reading) := by
  have hnone : zone.instants reading = [] :=
    List.eq_nil_iff_forall_not_mem.mpr fun t ht => hskipped t (mem_instants.mp ht)
  rw [utc, hnone]

theorem Precedes.refl (t : ℤ) : zone.Precedes t t := .inr ⟨rfl, Int.le_refl t⟩

theorem last_eq_none {instants : List ℤ} (h : zone.last instants = none) : instants = [] := by
  cases instants with
  | nil => rfl
  | cons t rest =>
    unfold last at h
    split at h
    · split at h <;> cases h
    · cases h

/-- The last instant of a list is one of them, and all of them precede it. -/
theorem last_eq_some {instants : List ℤ} {u : ℤ} (h : zone.last instants = some u) :
    u ∈ instants ∧ ∀ t ∈ instants, zone.Precedes t u := by
  induction instants generalizing u with
  | nil => cases h
  | cons t rest ih =>
    unfold last at h
    split at h
    · rename_i v hrest
      obtain ⟨hmem, hall⟩ := ih hrest
      split at h
      · rename_i hprecedes
        cases h
        exact ⟨List.mem_cons_of_mem _ hmem, List.forall_mem_cons.mpr ⟨hprecedes, hall⟩⟩
      · rename_i hlater
        cases h
        refine ⟨List.mem_cons_self, List.forall_mem_cons.mpr ⟨.refl t, ?_⟩⟩
        intro w hw
        have hbelow := hall w hw
        unfold Precedes at hlater hbelow ⊢
        omega
    · rename_i hnone
      cases h
      rw [last_eq_none hnone]
      refine ⟨List.mem_cons_self, fun w hw => ?_⟩
      rw [List.mem_singleton.mp hw]
      exact .refl t

/-- The last instant before a skip is one before a change, and the instants below the skipped
reading precede it. -/
theorem lastBefore_spec {reading t : ℤ} (hskipped : ∀ t, zone.localTime t ≠ reading)
    (hbelow : zone.localTime t < reading) :
    (∃ change ∈ zone.changes, zone.lastBefore reading = change.start - 1) ∧
      zone.localTime (zone.lastBefore reading) < reading ∧
        zone.Precedes t (zone.lastBefore reading) := by
  obtain ⟨change, hchange, hlater, hlow, hhigh⟩ :=
    exists_change_past hbelow fun u _ => hskipped u
  have hmem : change.start - 1 ∈ zone.endsBelow reading :=
    List.mem_filter.mpr ⟨List.mem_map_of_mem hchange, decide_eq_true hhigh⟩
  cases hlast : zone.last (zone.endsBelow reading) with
  | none =>
    rw [last_eq_none hlast] at hmem
    cases hmem
  | some u =>
    have heq : zone.lastBefore reading = u := by rw [lastBefore, hlast, Option.getD_some]
    obtain ⟨hin, hall⟩ := last_eq_some hlast
    obtain ⟨hin, hless⟩ := List.mem_filter.mp hin
    obtain ⟨before, hbefore, hstart⟩ := List.mem_map.mp hin
    have hmost := hall _ hmem
    change zone.localTime t ≤ zone.localTime (change.start - 1) at hlow
    rw [heq]
    refine ⟨⟨before, hbefore, hstart.symm⟩, of_decide_eq_true hless, ?_⟩
    unfold Precedes at hmost ⊢
    omega

/-- The instant of a reading is the reading less an offset of the zone. -/
theorem exists_utc_eq (reading : ℤ) : ∃ t, zone.utc reading = reading - zone.offset t := by
  by_cases hshown : ∃ t, zone.localTime t = reading
  · obtain ⟨t, ht⟩ := hshown
    have hshows := (utc_of_shown ht).1
    refine ⟨zone.utc reading, ?_⟩
    unfold localTime at hshows
    omega
  · exact ⟨_, utc_of_skipped fun t ht => hshown ⟨t, ht⟩⟩

/-! ### Skips within a day -/

/-- Without a change in between the offset stays. -/
theorem offsetFrom_eq {offset a b : ℤ} {changes : List Change} (hab : a ≤ b)
    (hnone : ∀ change ∈ changes, a < change.start → b < change.start) :
    offsetFrom offset changes a = offsetFrom offset changes b := by
  induction changes generalizing offset with
  | nil => rfl
  | cons change later ih =>
    rw [List.forall_mem_cons] at hnone
    simp only [offsetFrom]
    by_cases hbefore : a < change.start
    · rw [if_pos hbefore, if_pos (hnone.1 hbefore)]
    · rw [if_neg hbefore, if_neg (by omega)]
      exact ih hnone.2

/-- How far a change puts the clock forward. -/
def forward (zone : TimeZone) (change : Change) : ℤ :=
  zone.offset change.start - zone.offset (change.start - 1)

/-- At every change the clock is past all that it has shown before an earlier one, no change comes
on the heels of a skip, and what is skipped goes on within its own day. -/
def SkipsWithin (zone : TimeZone) (day : ℤ) : Prop :=
  ∀ change ∈ zone.changes,
    (∀ later ∈ zone.changes, change.start < later.start →
      zone.localTime (change.start - 1) < zone.localTime (later.start - 1) ∧
        change.start + zone.forward change ≤ later.start) ∧
      (zone.localTime change.start - 1 + zone.forward change) / day ≤
        (zone.localTime (change.start - 1) + 1) / day

instance (zone : TimeZone) (day : ℤ) : Decidable (zone.SkipsWithin day) :=
  inferInstanceAs (Decidable (∀ _ ∈ _, _))

/-- Every clock has shown less at some time. -/
theorem exists_localTime_lt (zone : TimeZone) (reading : ℤ) : ∃ t, zone.localTime t < reading := by
  unfold localTime offset
  cases zone.changes with
  | nil => exact ⟨reading - zone.initial - 1, by simp only [offsetFrom]; omega⟩
  | cons change later =>
    refine ⟨min (change.start - 1) (reading - zone.initial - 1), ?_⟩
    rw [offsetFrom, if_pos (by omega)]
    omega

/-- A skipped reading is skipped by the change behind the last instant before it. -/
theorem exists_change_of_skipped {day reading : ℤ} (hzone : zone.SkipsWithin day)
    (hskipped : ∀ t, zone.localTime t ≠ reading) :
    ∃ change ∈ zone.changes, zone.lastBefore reading = change.start - 1 ∧
      zone.localTime (change.start - 1) < reading ∧ reading < zone.localTime change.start := by
  obtain ⟨t, hbelow⟩ := exists_localTime_lt zone reading
  obtain ⟨⟨change, hchange, hlast⟩, hlow, -⟩ := lastBefore_spec hskipped hbelow
  rw [hlast] at hlow
  refine ⟨change, hchange, hlast, hlow, Int.lt_of_not_ge fun hpast => ?_⟩
  -- Were the clock not past the reading here, a later change would put it there from higher up.
  have hbehind : zone.localTime change.start < reading :=
    lt_of_le_of_ne hpast (hskipped _)
  obtain ⟨later, hlater, hstart, -, hhigh⟩ :=
    exists_change_past hbehind fun u _ => hskipped u
  have hcaught := ((hzone change hchange).1 later hlater hstart).1
  have hmost := (lastBefore_spec hskipped hhigh).2.2
  rw [hlast] at hmost
  unfold Precedes at hmost
  omega

/-- A skipped reading goes on within its own day. -/
theorem settle_div {day : ℤ} (hday : 0 < day) (hzone : zone.SkipsWithin day) (reading : ℤ) :
    zone.settle reading / day = reading / day := by
  by_cases hshown : ∃ t, zone.localTime t = reading
  · obtain ⟨t, ht⟩ := hshown
    rw [settle, (utc_of_shown ht).1]
  · have hskipped : ∀ t, zone.localTime t ≠ reading := fun t ht => hshown ⟨t, ht⟩
    obtain ⟨change, hchange, hlast, hlow, hhigh⟩ := exists_change_of_skipped hzone hskipped
    obtain ⟨hheels, hwithin⟩ := hzone change hchange
    have hutc := utc_of_skipped hskipped
    rw [hlast] at hutc
    have hstays : zone.offset change.start = zone.offset (zone.utc reading) := by
      refine offsetFrom_eq ?_ fun later hlater hbehind => ?_
      · unfold localTime at hlow
        omega
      · have hclear := (hheels later hlater hbehind).2
        unfold localTime at hhigh
        unfold forward at hclear
        omega
    have hsettle : zone.settle reading = reading + zone.forward change := by
      rw [settle, localTime, ← hstays, hutc, forward]
      omega
    have hmore : reading ≤ zone.settle reading := by
      unfold localTime at hlow hhigh
      rw [hsettle, forward]
      omega
    have hfirst : (zone.localTime (change.start - 1) + 1) / day ≤ reading / day :=
      Int.ediv_le_ediv hday (by omega)
    have hnext : reading / day ≤ zone.settle reading / day := Int.ediv_le_ediv hday hmore
    have hlanded : zone.settle reading / day ≤
        (zone.localTime change.start - 1 + zone.forward change) / day :=
      Int.ediv_le_ediv hday (by omega)
    omega

end TimeZone

end Clock
