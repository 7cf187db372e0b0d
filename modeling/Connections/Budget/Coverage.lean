import Connections.Budget.Ledger

/-!
# Every call is counted

A budgeted call counts against a day as soon as it may be billed on it, and as long as it was.
While no midnight falls between a grant and the end of its call, and no run with such a call is
deleted, each of these calls has its own reservation or its own recorded row on that day, so the
committed sum never falls short of what they come to.
-/

namespace Connections

/-- What the two parties of a call have agreed on so far. -/
def Call.Sound (now : ℕ) (c : Call) : Prop :=
  (match c.worker with
    | .reserving _ _ | .refused | .granted => c.provider = .notSent
    | .replied (some amount) => ∃ billedAt, c.provider = .billed amount billedAt
    | .flushing (some amount) txStart =>
      ∃ billedAt, billedAt ≤ txStart ∧ c.provider = .billed amount billedAt
    | _ => True) ∧
  ∀ amount billedAt, c.provider = .billed amount billedAt → amount ≤ c.tokens ∧ billedAt ≤ now

/-- A call whose reservation was inserted. -/
def Call.pastGrant (c : Call) : Bool :=
  match c.worker with
  | .reserving _ _ | .refused => false
  | _ => true

/-- Whether the reserve transaction of a call began at or after an instant. -/
def Call.beganSince (c : Call) (since : ℕ) : Bool :=
  match c.worker with
  | .reserving txStart _ => since ≤ txStart
  | _ => true

/-- A call that is still reserving has never reached the provider. -/
theorem Call.Sound.notSent {c : Call} {now : ℕ} (h : c.Sound now)
    (hworker : (∃ txStart progress, c.worker = .reserving txStart progress) ∨ c.worker = .refused ∨
      c.worker = .granted) : c.provider = .notSent := by
  rcases hworker with ⟨txStart, progress, hw⟩ | hw | hw <;>
    simpa only [Call.Sound, hw] using h.1

theorem Call.due_le_tokens {c : Call} {now : ℕ} (h : c.Sound now) (since : ℕ) :
    c.due since ≤ c.tokens := by
  unfold due
  split
  · exact Nat.le_refl _
  · unfold billedSince
    split
    · split
      · exact (h.2 _ _ ‹_›).1
      · exact Nat.zero_le _
    · exact Nat.zero_le _

theorem Call.due_of_mayBeBilled {c : Call} {since : ℕ} (h : c.mayBeBilled) :
    c.due since = c.tokens :=
  if_pos h

/-- A call that is not exposed owes nothing. -/
theorem Call.due_eq_zero {c : Call} {since : ℕ} (h : c.exposed since = false) :
    c.due since = 0 := by
  simp only [exposed, Bool.or_eq_false_iff, Option.isSome_eq_false_iff,
    Option.isNone_iff_eq_none] at h
  simp [due, h.1, h.2]

/-- Only the exposed calls owe anything. -/
theorem sum_due_filter_exposed (calls : List Call) (since : ℕ) :
    ((calls.filter (·.exposed since)).map (·.due since)).sum = (calls.map (·.due since)).sum := by
  induction calls with
  | nil => rfl
  | cons c calls ih =>
    cases hc : c.exposed since with
    | true => simp [hc, ih]
    | false => simp [hc, ih, Call.due_eq_zero hc]

/-- The provider may end a call in flight in any way. -/
theorem Call.Sound.reprovide {c : Call} {now : ℕ} {provider : CallProvider} (h : c.Sound now)
    (hc : c.provider = .inFlight) :
    match c.worker with
    | .reserving _ _ | .refused | .granted => provider = .notSent
    | .replied (some amount) => ∃ billedAt, provider = .billed amount billedAt
    | .flushing (some amount) txStart =>
      ∃ billedAt, billedAt ≤ txStart ∧ provider = .billed amount billedAt
    | _ => True := by
  have hs := h.1
  rw [hc] at hs
  split at hs <;> simp_all

namespace Ledger

variable {floorShare : ℕ → ℕ → ℕ} {models : FreeTierId → List String}

/-- How the rows and the calls of a ledger hang together. -/
structure WellFormed (models : FreeTierId → List String) (l : Ledger) : Prop where
  calls_nodup : (l.calls.map (·.id)).Nodup
  runs_nodup : (l.runs.map (·.id)).Nodup
  call_fresh : ∀ c ∈ l.calls, c.id < l.nextId ∧ c.runId < l.nextId
  run_fresh : ∀ run ∈ l.runs, run.id < l.nextId
  reservation_fresh : ∀ r ∈ l.reservations, r.id < l.nextId
  prompt_fresh : ∀ p ∈ l.prompts, p.id < l.nextId
  reservation_call : ∀ r ∈ l.reservations, ∀ c ∈ l.calls, r.id = c.id →
    r.tier = c.tier ∧ r.strategyRunId = c.runId ∧ r.reservedTokens = c.tokens ∧ c.pastGrant
  prompt_call : ∀ p ∈ l.prompts, ∀ c ∈ l.calls, p.id = c.id →
    p.strategyRunId = c.runId ∧ ∃ reported, c.worker = .flushed reported
  call_run : ∀ c ∈ l.calls, ∀ run ∈ l.runs, run.id = c.runId → run.budgetTier = some c.tier
  run_model : ∀ run ∈ l.runs, ∀ tier, run.budgetTier = some tier →
    run.modelName ∈ (models tier).map some
  call_sound : ∀ c ∈ l.calls, c.Sound l.now

/-- A call is counted on the current day by its reservation, or by its recorded row. -/
inductive Counted (models : FreeTierId → List String) (l : Ledger) (c : Call) : Prop
  | reserved (r : FreeTierReservation) : r ∈ l.reservations → r.id = c.id → r.tier = c.tier →
      l.today ≤ r.createdAt → c.due l.today ≤ r.reservedTokens → Counted models l c
  | recorded (p : PromptUsage) (tokens : ℕ) : p ∈ l.prompts → p.id = c.id →
      l.onModels (models c.tier) p → l.today ≤ p.createdAt → p.totalTokens = some tokens →
      c.due l.today ≤ tokens → Counted models l c

/-- Every call that counts against the current day is counted on it. -/
def Covered (models : FreeTierId → List String) (l : Ledger) : Prop :=
  ∀ c ∈ l.calls, c.exposed l.today → Counted models l c

/-- A covered ledger commits at least what its calls come to. -/
theorem dueTokens_le_committedTokens {l : Ledger} (hl : WellFormed models l)
    (hcovered : Covered models l) (tier : FreeTierId) :
    l.dueTokens tier ≤ l.committedTokens models tier := by
  let exposed := (l.calls.filter (·.tier = tier)).filter (·.exposed l.today)
  let rows : List (ℕ × ℕ) :=
    (l.reservations.filter fun r => r.tier = tier ∧ l.today ≤ r.createdAt).map
      (fun r => (r.id, r.reservedTokens)) ++
    (l.prompts.filter fun p => l.onModels (models tier) p ∧ l.today ≤ p.createdAt).map
      (fun p => (p.id, p.totalTokens.getD 0))
  have hdue : l.dueTokens tier = (exposed.map (·.due l.today)).sum :=
    (sum_due_filter_exposed _ _).symm
  have hkeys : (exposed.map (·.id)).Nodup :=
    hl.calls_nodup.sublist
      ((List.filter_sublist.trans List.filter_sublist).map _)
  have hcover : ∀ c ∈ exposed, ∃ row ∈ rows, row.1 = c.id ∧ c.due l.today ≤ row.2 := fun c hc => by
    obtain ⟨hc, hexposed⟩ := List.mem_filter.mp hc
    obtain ⟨hmem, htier⟩ := List.mem_filter.mp hc
    have htier : c.tier = tier := by simpa using htier
    cases hcovered c hmem hexposed with
    | reserved r hr hid hrtier hday hle =>
      refine ⟨(r.id, r.reservedTokens), List.mem_append_left _ ?_, hid, hle⟩
      exact List.mem_map.mpr ⟨r, List.mem_filter.mpr
        ⟨hr, by simpa using ⟨hrtier.trans htier, hday⟩⟩, rfl⟩
    | recorded p tokens hp hid hmodels hday htotal hle =>
      refine ⟨(p.id, p.totalTokens.getD 0), List.mem_append_right _ ?_, hid, ?_⟩
      · rw [htier] at hmodels
        exact List.mem_map.mpr ⟨p, List.mem_filter.mpr ⟨hp, by simpa using ⟨hmodels, hday⟩⟩, rfl⟩
      · simpa [htotal] using hle
  have hbound : (exposed.map (·.due l.today)).sum ≤ (rows.map (·.2)).sum :=
    Escrow.sum_le_of_covered exposed rows hkeys hcover
  have hsum : (rows.map (·.2)).sum =
      l.reservedTokens tier l.today + l.promptTokens (models tier) l.today := by
    simp [rows, reservedTokens, promptTokens, List.map_map, Function.comp_def]
  have husage : l.promptTokens (models tier) l.today ≤ l.getUsage (models tier) l.today := by
    unfold getUsage
    split
    · rename_i hnone
      simp [promptTokens, onModels, hnone]
    · exact Nat.le_add_right _ _
  rw [hdue, committedTokens]
  omega

/-! ### One step -/

/-- Membership after one call was replaced. -/
theorem mem_setCall {l : Ledger} {c c' k : Call} (hc : c ∈ l.calls) (hid : c'.id = c.id) :
    k ∈ (l.setCall c').calls ↔ k = c' ∨ k ∈ l.calls ∧ k.id ≠ c.id := by
  simp only [setCall, List.mem_map]
  constructor
  · rintro ⟨j, hj, rfl⟩
    split
    · exact .inl rfl
    · rename_i hne
      exact .inr ⟨hj, hid ▸ hne⟩
  · rintro (rfl | ⟨hk, hne⟩)
    · exact ⟨c, hc, by simp [hid]⟩
    · exact ⟨k, hk, by simp [hid, hne]⟩

theorem setCall_ids (l : Ledger) (c : Call) :
    (l.setCall c).calls.map (·.id) = l.calls.map (·.id) := by
  simp only [setCall, List.map_map]
  apply List.map_congr_left
  intro k _
  simp only [Function.comp_apply]
  split
  · exact (‹k.id = c.id›).symm
  · rfl

/-- A call moved on: it keeps its identity, and stays granted and flushed once it was. -/
structure Follows (now : ℕ) (c c' : Call) : Prop where
  id : c'.id = c.id
  runId : c'.runId = c.runId
  tier : c'.tier = c.tier
  tokens : c'.tokens = c.tokens
  sound : c'.Sound now
  pastGrant : c.pastGrant → c'.pastGrant
  flushed : ∀ reported, c.worker = .flushed reported → c'.worker = .flushed reported

/-- A call moved on without a row: it neither becomes exposed nor owes more. -/
structure Moves (now since : ℕ) (c c' : Call) : Prop extends Follows now c c' where
  exposed : c'.exposed since → c.exposed since
  due : c'.due since ≤ c.due since

/-- A counted call stays counted while its own rows stay. -/
theorem Counted.mono {l l' : Ledger} {c : Call} (h : Counted models l c)
    (htoday : l'.today = l.today)
    (hreservations : ∀ r ∈ l.reservations, r.id = c.id → ∃ r' ∈ l'.reservations,
      r'.id = r.id ∧ r'.tier = r.tier ∧ r'.createdAt = r.createdAt ∧
        r'.reservedTokens = r.reservedTokens)
    (hprompts : ∀ p ∈ l.prompts, p.id = c.id → p ∈ l'.prompts ∧
      (l.onModels (models c.tier) p → l'.onModels (models c.tier) p)) :
    Counted models l' c := by
  cases h with
  | reserved r hr hid htier hday hle =>
    obtain ⟨r', hr', hid', htier', hcreated, htokens⟩ := hreservations r hr hid
    exact .reserved r' hr' (hid'.trans hid) (htier'.trans htier)
      (by rw [htoday, hcreated]; exact hday) (by rw [htoday, htokens]; exact hle)
  | recorded p tokens hp hid hmodels hday htotal hle =>
    obtain ⟨hp', hmodels'⟩ := hprompts p hp hid
    exact .recorded p tokens hp' hid (hmodels' hmodels) (htoday ▸ hday) htotal (htoday ▸ hle)

/-- A counted call stays counted while no row is lost. -/
theorem Counted.grow {l l' : Ledger} {c : Call} (h : Counted models l c)
    (htoday : l'.today = l.today) (hreservations : l.reservations ⊆ l'.reservations)
    (hprompts : l.prompts ⊆ l'.prompts)
    (hmodels : ∀ p, l.onModels (models c.tier) p → l'.onModels (models c.tier) p) :
    Counted models l' c :=
  h.mono htoday (fun r hr _ => ⟨r, hreservations hr, rfl, rfl, rfl, rfl⟩)
    fun p hp _ => ⟨hprompts hp, hmodels p⟩

/-- A call that moves on is still counted by its row. -/
theorem Counted.moves {l : Ledger} {c c' : Call} (h : Counted models l c)
    (hm : Moves l.now l.today c c') : Counted models l c' := by
  cases h with
  | reserved r hr hid htier hday hle =>
    exact .reserved r hr (hid.trans hm.id.symm) (htier.trans hm.tier.symm) hday
      (hm.due.trans hle)
  | recorded p tokens hp hid hmodels hday htotal hle =>
    exact .recorded p tokens hp (hid.trans hm.id.symm) (hm.tier ▸ hmodels) hday htotal
      (hm.due.trans hle)

/-- Replacing a call, and adding at most its own rows, keeps the ledger well formed. -/
theorem WellFormed.replace {l l' : Ledger} {c c' : Call} (hl : WellFormed models l)
    (hc : c ∈ l.calls) (hf : Follows l.now c c') (hcalls : l'.calls = (l.setCall c').calls)
    (hruns : l'.runs = l.runs) (hnow : l'.now = l.now) (hnext : l'.nextId = l.nextId)
    (hreservations : ∀ r ∈ l'.reservations,
      (∃ s ∈ l.reservations, s.id = r.id ∧ s.tier = r.tier ∧ s.strategyRunId = r.strategyRunId ∧
        s.reservedTokens = r.reservedTokens) ∨
      r.id = c.id ∧ r.tier = c.tier ∧ r.strategyRunId = c.runId ∧ r.reservedTokens = c.tokens ∧
        c'.pastGrant)
    (hprompts : ∀ p ∈ l'.prompts, p ∈ l.prompts ∨
      p.id = c.id ∧ p.strategyRunId = c.runId ∧ ∃ reported, c'.worker = .flushed reported) :
    WellFormed models l' := by
  have hmem : ∀ k, k ∈ l'.calls ↔ k = c' ∨ k ∈ l.calls ∧ k.id ≠ c.id := fun k => by
    rw [hcalls]
    exact mem_setCall hc hf.id
  constructor
  case calls_nodup =>
    rw [hcalls, setCall_ids]
    exact hl.calls_nodup
  case runs_nodup => exact hruns ▸ hl.runs_nodup
  case call_fresh =>
    intro k hk
    rw [hnext]
    rcases (hmem k).mp hk with rfl | ⟨hk, -⟩
    · rw [hf.id, hf.runId]
      exact hl.call_fresh c hc
    · exact hl.call_fresh k hk
  case run_fresh => exact hruns ▸ hnext ▸ hl.run_fresh
  case reservation_fresh =>
    intro r hr
    rw [hnext]
    rcases hreservations r hr with ⟨s, hs, hid, -⟩ | ⟨hid, -⟩
    · exact hid ▸ hl.reservation_fresh s hs
    · exact hid ▸ (hl.call_fresh c hc).1
  case prompt_fresh =>
    intro p hp
    rw [hnext]
    rcases hprompts p hp with hp | ⟨hid, -⟩
    · exact hl.prompt_fresh p hp
    · exact hid ▸ (hl.call_fresh c hc).1
  case reservation_call =>
    intro r hr k hk hid
    rcases (hmem k).mp hk with rfl | ⟨hk, hne⟩
    · rw [hf.tier, hf.runId, hf.tokens]
      rcases hreservations r hr with ⟨s, hs, hsid, htier, hrun, htokens⟩ | ⟨-, hrow⟩
      · obtain ⟨h1, h2, h3, h4⟩ :=
          hl.reservation_call s hs c hc (hsid.trans (hid.trans hf.id))
        exact ⟨htier ▸ h1, hrun ▸ h2, htokens ▸ h3, hf.pastGrant h4⟩
      · exact hrow
    · rcases hreservations r hr with ⟨s, hs, hsid, htier, hrun, htokens⟩ | ⟨hrid, -⟩
      · obtain ⟨h1, h2, h3, h4⟩ := hl.reservation_call s hs k hk (hsid.trans hid)
        exact ⟨htier ▸ h1, hrun ▸ h2, htokens ▸ h3, h4⟩
      · exact absurd (hid.symm.trans hrid) hne
  case prompt_call =>
    intro p hp k hk hid
    rcases (hmem k).mp hk with rfl | ⟨hk, hne⟩
    · rw [hf.runId]
      rcases hprompts p hp with hp | ⟨-, hrow⟩
      · obtain ⟨h1, reported, h2⟩ := hl.prompt_call p hp c hc (hid.trans hf.id)
        exact ⟨h1, reported, hf.flushed reported h2⟩
      · exact hrow
    · rcases hprompts p hp with hp | ⟨hpid, -⟩
      · exact hl.prompt_call p hp k hk hid
      · exact absurd (hid.symm.trans hpid) hne
  case call_run =>
    intro k hk run hrun hid
    rw [hruns] at hrun
    rcases (hmem k).mp hk with rfl | ⟨hk, -⟩
    · rw [hf.tier]
      exact hl.call_run c hc run hrun (hid.trans hf.runId)
    · exact hl.call_run k hk run hrun hid
  case run_model => exact hruns ▸ hl.run_model
  case call_sound =>
    intro k hk
    rw [hnow]
    rcases (hmem k).mp hk with rfl | ⟨hk, -⟩
    · exact hf.sound
    · exact hl.call_sound k hk

/-- Moving one call on keeps the ledger well formed and covered, whatever the locks. -/
theorem setCall_keeps {l : Ledger} {c c' : Call} (hl : WellFormed models l)
    (hcovered : Covered models l) (hc : c ∈ l.calls) (hm : Moves l.now l.today c c')
    (lock : FreeTierId → Option ℕ) :
    WellFormed models { l.setCall c' with lock := lock } ∧
      Covered models { l.setCall c' with lock := lock } := by
  refine ⟨hl.replace hc hm.toFollows rfl rfl rfl rfl (fun r hr => .inl ⟨r, hr, rfl, rfl, rfl, rfl⟩)
    fun p hp => .inl hp, fun k hk hexposed => ?_⟩
  have hrows : ∀ k : Call, Counted models l k →
      Counted models { l.setCall c' with lock := lock } k := fun k h =>
    h.grow rfl (List.Subset.refl _) (List.Subset.refl _) fun _ hmodels => hmodels
  rcases (mem_setCall hc hm.id).mp hk with rfl | ⟨hk, -⟩
  · exact hrows _ ((hcovered c hc (hm.exposed hexposed)).moves hm)
  · exact hrows _ (hcovered k hk hexposed)

/-- A worker that goes anywhere but to a grant moves the call on. -/
theorem withWorker_moves {c : Call} {now since : ℕ} {worker : CallWorker}
    (hsound : (c.withWorker worker).Sound now) (hne : worker ≠ .granted)
    (hpast : c.pastGrant → (c.withWorker worker).pastGrant)
    (hflushed : ∀ reported, c.worker = .flushed reported → worker = .flushed reported) :
    Moves now since c (c.withWorker worker) := by
  have hbilled : (c.withWorker worker).billedSince since = c.billedSince since := rfl
  have hmay : (c.withWorker worker).mayBeBilled → c.mayBeBilled := by
    unfold Call.mayBeBilled Call.withWorker
    cases c.provider <;> cases worker <;> simp_all
  refine ⟨⟨rfl, rfl, rfl, rfl, hsound, hpast, hflushed⟩, ?_, ?_⟩
  · simp only [Call.exposed, hbilled, Bool.or_eq_true]
    exact Or.imp_left hmay
  · unfold Call.due
    rw [hbilled]
    by_cases h' : (c.withWorker worker).mayBeBilled
    · rw [if_pos h', if_pos (hmay h')]
      exact Nat.le_refl c.tokens
    · rw [if_neg h']
      split
      · rename_i h
        have hnone : c.billedSince since = none := by
          unfold Call.billedSince
          split
          · rename_i hprovider
            simp [Call.mayBeBilled, hprovider] at h
          · rfl
        simp [hnone]
      · exact Nat.le_refl _

/-- The reserve transaction of a call goes on, or ends without a grant. -/
theorem reserving_moves {c : Call} {now since txStart : ℕ} {progress : ReserveStep}
    {worker : CallWorker} (h : c.Sound now) (hc : c.worker = .reserving txStart progress)
    (hworker : worker = .refused ∨ ∃ progress', worker = .reserving txStart progress') :
    Moves now since c (c.withWorker worker) := by
  have hprovider : c.provider = .notSent := h.notSent (.inl ⟨_, _, hc⟩)
  refine withWorker_moves ⟨?_, h.2⟩ ?_ ?_ ?_
  · rcases hworker with rfl | ⟨_, rfl⟩ <;> exact hprovider
  · rcases hworker with rfl | ⟨_, rfl⟩ <;> exact CallWorker.noConfusion
  · simp [Call.pastGrant, hc]
  · simp [hc]

/-- Whether a reserve transaction would be granted by what it has read. -/
def grants (l : Ledger) (c : Call) : Bool :=
  match c.worker with
  | .reserving _ (.readModels threshold reserved _ (some prompts) (some evaluations)) =>
    reserved + (prompts + evaluations) + c.tokens ≤ threshold ∧ l.runs.any (·.id = c.runId)
  | _ => false

/-- A granted call enters with its reservation. -/
theorem granted_keeps {l : Ledger} {c : Call} {txStart : ℕ} {progress : ReserveStep}
    (hl : WellFormed models l) (hcovered : Covered models l) (hc : c ∈ l.calls)
    (hworker : c.worker = .reserving txStart progress) (hday : l.today ≤ txStart)
    (lock : FreeTierId → Option ℕ) :
    let v : Ledger := { l with
      lock := lock
      reservations := ⟨c.id, c.tier, c.runId, c.tokens, .pending, txStart⟩ :: l.reservations }
    WellFormed models (v.setCall (c.withWorker .granted)) ∧
      Covered models (v.setCall (c.withWorker .granted)) := by
  intro v
  have hsound := hl.call_sound c hc
  have hprovider : c.provider = .notSent := hsound.notSent (.inl ⟨_, _, hworker⟩)
  have hf : Follows l.now c (c.withWorker .granted) :=
    ⟨rfl, rfl, rfl, rfl, ⟨hprovider, hsound.2⟩, fun _ => rfl, by simp [hworker]⟩
  refine ⟨hl.replace hc hf rfl rfl rfl rfl ?_ fun p hp => .inl hp, fun k hk hexposed => ?_⟩
  · rintro r (_ | ⟨_, hr⟩)
    · exact .inr ⟨rfl, rfl, rfl, rfl, rfl⟩
    · exact .inl ⟨r, hr, rfl, rfl, rfl, rfl⟩
  · rcases (mem_setCall (l := v) hc hf.id).mp hk with rfl | ⟨hk, -⟩
    · exact .reserved _ List.mem_cons_self rfl rfl hday (Call.due_le_tokens hf.sound _)
    · exact (hcovered k hk hexposed).grow rfl (List.subset_cons_self _ _) (List.Subset.refl _)
        fun _ hmodels => hmodels

/-- A flush settles a call: its row takes over from its reservation when usage was reported, and
the reservation stays otherwise. -/
theorem flushed_keeps {l : Ledger} {c : Call} {reported : Option ℕ} {txStart : ℕ}
    (hl : WellFormed models l) (hcovered : Covered models l) (hc : c ∈ l.calls)
    (hworker : c.worker = .flushing reported txStart) (hrun : ∃ run ∈ l.runs, run.id = c.runId) :
    let v : Ledger := { l with
      reservations := l.settleReservation c.id reported.isSome
      prompts := ⟨c.id, c.runId, reported, txStart⟩ :: l.prompts }
    WellFormed models (v.setCall (c.withWorker (.flushed reported))) ∧
      Covered models (v.setCall (c.withWorker (.flushed reported))) := by
  intro v
  have hsound := hl.call_sound c hc
  have hm : Moves l.now l.today c (c.withWorker (.flushed reported)) :=
    withWorker_moves ⟨trivial, hsound.2⟩ (by simp) (fun _ => rfl) (by simp [hworker])
  -- A kept reservation keeps what it holds; a deleted one is the call's own.
  have hkept : ∀ r ∈ l.settleReservation c.id reported.isSome, ∃ s ∈ l.reservations,
      s.id = r.id ∧ s.tier = r.tier ∧ s.strategyRunId = r.strategyRunId ∧
        s.reservedTokens = r.reservedTokens := by
    intro r hr
    unfold settleReservation at hr
    split at hr
    · exact ⟨r, (List.mem_filter.mp hr).1, rfl, rfl, rfl, rfl⟩
    · obtain ⟨s, hs, rfl⟩ := List.mem_map.mp hr
      refine ⟨s, hs, ?_⟩
      split <;> exact ⟨rfl, rfl, rfl, rfl⟩
  have hstays : ∀ r ∈ l.reservations, r.id ≠ c.id ∨ reported = none →
      ∃ s ∈ l.settleReservation c.id reported.isSome, s.id = r.id ∧ s.tier = r.tier ∧
        s.createdAt = r.createdAt ∧ s.reservedTokens = r.reservedTokens := by
    intro r hr hstay
    unfold settleReservation
    split
    · rename_i hsome
      rcases hstay with hne | hnone
      · exact ⟨r, List.mem_filter.mpr ⟨hr, by simpa using hne⟩, rfl, rfl, rfl, rfl⟩
      · simp [hnone] at hsome
    · refine ⟨_, List.mem_map.mpr ⟨r, hr, rfl⟩, ?_⟩
      split <;> exact ⟨rfl, rfl, rfl, rfl⟩
  refine ⟨hl.replace hc hm.toFollows rfl rfl rfl rfl (fun r hr => .inl (hkept r hr)) ?_,
    fun k hk hexposed => ?_⟩
  · rintro p (_ | ⟨_, hp⟩)
    · exact .inr ⟨rfl, rfl, reported, rfl⟩
    · exact .inl hp
  · rcases (mem_setCall (l := v) hc hm.id).mp hk with rfl | ⟨hk, hne⟩
    · have hcounted := (hcovered c hc (hm.exposed hexposed)).moves hm
      cases reported with
      | none =>
        exact hcounted.mono rfl (fun r hr _ => hstays r hr (.inr rfl))
          fun p hp _ => ⟨List.mem_cons_of_mem _ hp, fun hmodels => hmodels⟩
      | some amount =>
        obtain ⟨billedAt, hle, hprovider⟩ : ∃ billedAt, billedAt ≤ txStart ∧
            c.provider = .billed amount billedAt := by
          simpa only [Call.Sound, hworker] using hsound.1
        have hmay : (c.withWorker (.flushed (some amount))).mayBeBilled = false := by
          simp [Call.mayBeBilled, Call.withWorker, hprovider]
        have hsince : l.today ≤ billedAt ∧
            (c.withWorker (.flushed (some amount))).billedSince l.today = some amount := by
          have hexposed' : (c.withWorker (.flushed (some amount))).exposed l.today := hexposed
          simp only [Call.exposed, hmay, Bool.false_or] at hexposed'
          simp only [Call.billedSince, Call.withWorker, hprovider] at hexposed' ⊢
          by_cases h : l.today ≤ billedAt
          · exact ⟨h, if_pos h⟩
          · simp [h] at hexposed'
        obtain ⟨run, hmem, hid⟩ := hrun
        refine .recorded _ amount List.mem_cons_self rfl ?_ (hsince.1.trans hle) rfl ?_
        · refine List.any_eq_true.mpr ⟨run, hmem, ?_⟩
          simp only [decide_eq_true_eq]
          exact ⟨hid, hl.run_model run hmem c.tier (hl.call_run c hc run hmem hid)⟩
        · change (c.withWorker (.flushed (some amount))).due l.today ≤ amount
          simp [Call.due, hmay, hsince.2]
    · exact (hcovered k hk hexposed).mono rfl
        (fun r hr hid => hstays r hr (.inl (hid ▸ hne)))
        fun p hp _ => ⟨List.mem_cons_of_mem _ hp, fun hmodels => hmodels⟩

/-- A step of a call keeps the ledger well formed, and covered unless it grants a reservation
dated to an earlier day. -/
theorem callStep_keeps {l l' : Ledger} {c : Call} {e : CallEvent} (hl : WellFormed models l)
    (hcovered : Covered models l) (hc : c ∈ l.calls)
    (hday : e = .insert → l.grants c → c.beganSince l.today)
    (h : callStep floorShare models l c e = some l') :
    WellFormed models l' ∧ Covered models l' := by
  have hsound := hl.call_sound c hc
  have hworker : ∀ {worker : CallWorker} (lock : FreeTierId → Option ℕ),
      Moves l.now l.today c (c.withWorker worker) →
      WellFormed models { l.setCall (c.withWorker worker) with lock := lock } ∧
        Covered models { l.setCall (c.withWorker worker) with lock := lock } :=
    fun lock hm => setCall_keeps hl hcovered hc hm lock
  cases callStep_cases floorShare models h with
  | locked txStart percent hw _ _ =>
    exact hworker _ (reserving_moves hsound hw (.inr ⟨_, rfl⟩))
  | inactive txStart hw => exact hworker l.lock (reserving_moves hsound hw (.inl rfl))
  | readReservations txStart threshold hw =>
    exact hworker l.lock (reserving_moves hsound hw (.inr ⟨_, rfl⟩))
  | readModels txStart threshold reserved read hw _ =>
    exact hworker l.lock (reserving_moves hsound hw (.inr ⟨_, rfl⟩))
  | readPrompts txStart threshold reserved since evaluations hw =>
    exact hworker l.lock (reserving_moves hsound hw (.inr ⟨_, rfl⟩))
  | readEvaluations txStart threshold reserved since prompts hw =>
    exact hworker l.lock (reserving_moves hsound hw (.inr ⟨_, rfl⟩))
  | granted txStart threshold reserved since prompts evaluations hw hfits hrun =>
    have hgrants : l.grants c := by simpa [grants, hw, hfits] using hrun
    have hbegan : l.today ≤ txStart := by simpa [Call.beganSince, hw] using hday rfl hgrants
    exact granted_keeps hl hcovered hc hw hbegan _
  | refused txStart progress _ hw => exact hworker _ (reserving_moves hsound hw (.inl rfl))
  | sent hw =>
    have hprovider : c.provider = .notSent := hsound.notSent (.inr (.inr hw))
    have hmay : c.mayBeBilled := by simp [Call.mayBeBilled, hw, hprovider]
    have hm : Moves l.now l.today c { c with worker := .sent, provider := .inFlight } :=
      ⟨⟨rfl, rfl, rfl, rfl, ⟨trivial, by simp⟩, fun _ => rfl, by simp [hw]⟩,
        fun _ => by simp [Call.exposed, hmay], Call.due_of_mayBeBilled hmay ▸ Nat.le_refl _⟩
    exact setCall_keeps hl hcovered hc hm l.lock
  | billed amount hprovider hle =>
    have hmay : c.mayBeBilled := by simp [Call.mayBeBilled, hprovider]
    have hm : Moves l.now l.today c { c with provider := .billed amount l.now } := by
      refine ⟨⟨rfl, rfl, rfl, rfl, ⟨hsound.reprovide hprovider, ?_⟩, fun hp => hp,
        fun _ hf => hf⟩, fun _ => by simp [Call.exposed, hmay], ?_⟩
      · rintro _ _ ⟨⟩
        exact ⟨hle, Nat.le_refl _⟩
      · rw [Call.due_of_mayBeBilled hmay]
        simp only [Call.due, Call.mayBeBilled, Call.billedSince]
        by_cases hday : l.today ≤ l.now <;> simp [hday, hle]
    exact setCall_keeps hl hcovered hc hm l.lock
  | closed hprovider =>
    have hmay : c.mayBeBilled := by simp [Call.mayBeBilled, hprovider]
    have hm : Moves l.now l.today c { c with provider := .closed } :=
      ⟨⟨rfl, rfl, rfl, rfl, ⟨hsound.reprovide hprovider, by simp⟩, fun hp => hp,
        fun _ hf => hf⟩, fun _ => by simp [Call.exposed, hmay],
        Nat.zero_le _⟩
    exact setCall_keeps hl hcovered hc hm l.lock
  | repliedUsage amount billedAt hw hprovider =>
    exact hworker l.lock (withWorker_moves ⟨⟨billedAt, hprovider⟩, hsound.2⟩ (by simp)
      (fun _ => rfl) (by simp [hw]))
  | repliedSilent hw =>
    exact hworker l.lock (withWorker_moves ⟨trivial, hsound.2⟩ (by simp) (fun _ => rfl)
      (by simp [hw]))
  | flushBegun reported hw =>
    refine hworker l.lock (withWorker_moves ⟨?_, hsound.2⟩ (by simp) (fun _ => rfl) (by simp [hw]))
    cases reported with
    | none => trivial
    | some amount =>
      obtain ⟨billedAt, hprovider⟩ : ∃ billedAt, c.provider = .billed amount billedAt := by
        simpa only [Call.Sound, hw] using hsound.1
      exact ⟨billedAt, (hsound.2 _ _ hprovider).2, hprovider⟩
  | flushed reported txStart hw hrun => exact flushed_keeps hl hcovered hc hw hrun
  | died hrefused hflushed =>
    exact hworker _ (withWorker_moves ⟨trivial, hsound.2⟩ (by simp) (fun _ => rfl)
      fun reported hw => absurd hw (hflushed reported))

/-- Losing rows but no call, as time goes on, keeps the ledger well formed. -/
theorem WellFormed.shrink {l l' : Ledger} (hl : WellFormed models l)
    (hcalls : l'.calls = l.calls) (hruns : l'.runs.Sublist l.runs)
    (hreservations : l'.reservations ⊆ l.reservations) (hprompts : l'.prompts ⊆ l.prompts)
    (hnow : l.now ≤ l'.now) (hnext : l'.nextId = l.nextId) : WellFormed models l' where
  calls_nodup := hcalls ▸ hl.calls_nodup
  runs_nodup := hl.runs_nodup.sublist (hruns.map _)
  call_fresh := hcalls ▸ hnext ▸ hl.call_fresh
  run_fresh run hrun := hnext ▸ hl.run_fresh run (hruns.subset hrun)
  reservation_fresh r hr := hnext ▸ hl.reservation_fresh r (hreservations hr)
  prompt_fresh p hp := hnext ▸ hl.prompt_fresh p (hprompts hp)
  reservation_call r hr c hc := hl.reservation_call r (hreservations hr) c (hcalls ▸ hc)
  prompt_call p hp c hc := hl.prompt_call p (hprompts hp) c (hcalls ▸ hc)
  call_run c hc run hrun := hl.call_run c (hcalls ▸ hc) run (hruns.subset hrun)
  run_model run hrun := hl.run_model run (hruns.subset hrun)
  call_sound c hc := by
    obtain ⟨hparties, hbilled⟩ := hl.call_sound c (hcalls ▸ hc)
    exact ⟨hparties, fun amount billedAt h =>
      ⟨(hbilled amount billedAt h).1, (hbilled amount billedAt h).2.trans hnow⟩⟩

/-- A midnight takes nothing out of the count when no call may still be billed after it. -/
theorem tick_keeps {l : Ledger} (hl : WellFormed models l) (hcovered : Covered models l) (ms : ℕ)
    (hday : startOfTodayUtc (l.now + ms) = l.today ∨ ∀ c ∈ l.calls, c.mayBeBilled = false) :
    WellFormed models { l with now := l.now + ms } ∧
      Covered models { l with now := l.now + ms } := by
  refine ⟨hl.shrink rfl (List.Sublist.refl _) (fun _ h => h) (fun _ h => h)
    (Nat.le_add_right _ _) rfl, fun c hc hexposed => ?_⟩
  have same (hsame : startOfTodayUtc (l.now + ms) = l.today) :
      Counted models { l with now := l.now + ms } c := by
    refine (hcovered c hc ?_).grow hsame (List.Subset.refl _) (List.Subset.refl _)
      fun _ hmodels => hmodels
    exact hsame ▸ hexposed
  rcases hday with hsame | hquiet
  · exact same hsame
  · by_cases hsame : startOfTodayUtc (l.now + ms) = l.today
    · exact same hsame
    · -- A call billed before the tick was billed before the new day.
      have hlater : l.now < startOfTodayUtc (l.now + ms) := by
        simp only [today, startOfTodayUtc, dayMs] at hsame ⊢
        omega
      simp only [Call.exposed, hquiet c hc, Bool.false_or] at hexposed
      change (c.billedSince (startOfTodayUtc (l.now + ms))).isSome at hexposed
      unfold Call.billedSince at hexposed
      split at hexposed
      · rename_i amount billedAt hprovider
        have hbilled := ((hl.call_sound c hc).2 amount billedAt hprovider).2
        rw [if_neg (by omega)] at hexposed
        cases hexposed
      · cases hexposed

/-- Deleting runs takes nothing out of the count when no exposed call is theirs. -/
theorem deleteRunTx_keeps {l : Ledger} (hl : WellFormed models l) (hcovered : Covered models l)
    (doomed : BudgetRun → Bool) (deleting : List ℕ)
    (hspared : ∀ c ∈ l.calls, c.exposed l.today → l.dooms doomed c.runId = false) :
    WellFormed models { l.deleteRunTx doomed with deleting := deleting } ∧
      Covered models { l.deleteRunTx doomed with deleting := deleting } := by
  refine ⟨hl.shrink rfl List.filter_sublist (fun _ h => (List.mem_filter.mp h).1)
    (fun _ h => (List.mem_filter.mp h).1) (Nat.le_refl _) rfl, fun c hc hexposed => ?_⟩
  have hkept : l.dooms doomed c.runId = false := hspared c hc hexposed
  refine (hcovered c hc hexposed).mono rfl (fun r hr hid => ⟨r, ?_, rfl, rfl, rfl, rfl⟩)
    fun p hp hid => ⟨?_, fun hmodels => ?_⟩
  · rw [← (hl.reservation_call r hr c hc hid).2.1] at hkept
    exact List.mem_filter.mpr ⟨hr, by simp [hkept]⟩
  · rw [← (hl.prompt_call p hp c hc hid).1] at hkept
    exact List.mem_filter.mpr ⟨hp, by simp [hkept]⟩
  · obtain ⟨run, hrun, hon⟩ := List.any_eq_true.mp hmodels
    refine List.any_eq_true.mpr ⟨run, List.mem_filter.mpr ⟨hrun, ?_⟩, hon⟩
    have hown : run.id = c.runId := by
      simp only [decide_eq_true_eq] at hon
      exact hon.1.trans (hl.prompt_call p hp c hc hid).1
    simp only [dooms, List.any_eq_false, Bool.and_eq_true, decide_eq_true_eq, not_and,
      Bool.not_eq_true] at hkept
    simp [hkept run hrun hown]

/-- An id that is drawn for anything leaves the ledger well formed. -/
theorem WellFormed.drawId {l : Ledger} (hl : WellFormed models l) :
    WellFormed models { l with nextId := l.nextId + 1 } :=
  { hl with
    call_fresh := fun c hc =>
      ⟨Nat.lt_succ_of_lt (hl.call_fresh c hc).1, Nat.lt_succ_of_lt (hl.call_fresh c hc).2⟩
    run_fresh := fun run hrun => Nat.lt_succ_of_lt (hl.run_fresh run hrun)
    reservation_fresh := fun r hr => Nat.lt_succ_of_lt (hl.reservation_fresh r hr)
    prompt_fresh := fun p hp => Nat.lt_succ_of_lt (hl.prompt_fresh p hp) }

/-- A new run owns no row and no call yet. -/
theorem createRun_keeps {l : Ledger} (hl : WellFormed models l) (hcovered : Covered models l)
    {run : BudgetRun} (hid : run.id = l.nextId)
    (hmodel : ∀ tier, run.budgetTier = some tier → run.modelName ∈ (models tier).map some) :
    WellFormed models { l with nextId := l.nextId + 1, runs := run :: l.runs } ∧
      Covered models { l with nextId := l.nextId + 1, runs := run :: l.runs } := by
  refine ⟨{ hl.drawId with runs_nodup := ?_, run_fresh := ?_, call_run := ?_, run_model := ?_ },
    fun c hc hexposed => (hcovered c hc hexposed).grow rfl (List.Subset.refl _)
      (List.Subset.refl _) fun p hmodels => ?_⟩
  · refine List.nodup_cons.mpr ⟨fun hmem => ?_, hl.runs_nodup⟩
    obtain ⟨other, hother, heq⟩ := List.mem_map.mp hmem
    have heq : other.id = run.id := heq
    have := hl.run_fresh other hother
    omega
  · rintro other (_ | ⟨_, hother⟩)
    · exact hid ▸ Nat.lt_succ_self _
    · exact Nat.lt_succ_of_lt (hl.run_fresh other hother)
  · rintro c hc other (_ | ⟨_, hother⟩) howner
    · have := (hl.call_fresh c hc).2
      omega
    · exact hl.call_run c hc other hother howner
  · rintro other (_ | ⟨_, hother⟩)
    · exact hmodel
    · exact hl.run_model other hother
  · obtain ⟨other, hother, hon⟩ := List.any_eq_true.mp hmodels
    exact List.any_eq_true.mpr ⟨other, List.mem_cons_of_mem _ hother, hon⟩

/-- A reserve transaction that begins takes the tier of its run. -/
theorem begin_keeps {l : Ledger} (hl : WellFormed models l) (hcovered : Covered models l)
    {run : BudgetRun} {tier : FreeTierId} (hrun : run ∈ l.runs) (htier : run.budgetTier = some tier)
    (tokens : ℕ) :
    let c : Call := ⟨l.nextId, run.id, tier, tokens, .reserving l.now .begun, .notSent⟩
    let l' : Ledger := { l with nextId := l.nextId + 1, calls := c :: l.calls }
    WellFormed models l' ∧ Covered models l' := by
  intro c l'
  refine ⟨{ hl.drawId with
    calls_nodup := ?_, call_fresh := ?_, reservation_call := ?_, prompt_call := ?_,
    call_run := ?_, call_sound := ?_ }, ?_⟩
  · refine List.nodup_cons.mpr ⟨fun hmem => ?_, hl.calls_nodup⟩
    obtain ⟨c, hc, heq⟩ := List.mem_map.mp hmem
    have heq : c.id = l.nextId := heq
    have := (hl.call_fresh c hc).1
    omega
  · rintro c (_ | ⟨_, hc⟩)
    · exact ⟨Nat.lt_succ_self _, Nat.lt_succ_of_lt (hl.run_fresh run hrun)⟩
    · exact hl.drawId.call_fresh c hc
  · rintro r hr c (_ | ⟨_, hc⟩) hid
    · exact absurd hid (Nat.ne_of_lt (hl.reservation_fresh r hr))
    · exact hl.reservation_call r hr c hc hid
  · rintro p hp c (_ | ⟨_, hc⟩) hid
    · exact absurd hid (Nat.ne_of_lt (hl.prompt_fresh p hp))
    · exact hl.prompt_call p hp c hc hid
  · rintro c (_ | ⟨_, hc⟩) other hother hid
    · rwa [List.inj_on_of_nodup_map hl.runs_nodup hother hrun hid]
    · exact hl.call_run c hc other hother hid
  · rintro c (_ | ⟨_, hc⟩)
    · exact ⟨rfl, by simp⟩
    · exact hl.call_sound c hc
  · rintro c (_ | ⟨_, hc⟩) hexposed
    · simp [Call.exposed, Call.mayBeBilled, Call.billedSince] at hexposed
    · exact (hcovered c hc hexposed).grow rfl (List.Subset.refl _) (List.Subset.refl _)
        fun _ hmodels => hmodels

/-- The row of an unbudgeted reply is nobody's recorded row. -/
theorem flushUnbudgeted_keeps {l : Ledger} (hl : WellFormed models l)
    (hcovered : Covered models l) {p : PromptUsage} (hid : p.id = l.nextId) :
    WellFormed models { l with nextId := l.nextId + 1, prompts := p :: l.prompts } ∧
      Covered models { l with nextId := l.nextId + 1, prompts := p :: l.prompts } := by
  refine ⟨{ hl.drawId with prompt_fresh := ?_, prompt_call := ?_ },
    fun c hc hexposed => (hcovered c hc hexposed).grow rfl (List.Subset.refl _)
      (List.subset_cons_self _ _) fun _ hmodels => hmodels⟩
  · rintro q (_ | ⟨_, hq⟩)
    · exact hid ▸ Nat.lt_succ_self _
    · exact Nat.lt_succ_of_lt (hl.prompt_fresh q hq)
  · rintro q (_ | ⟨_, hq⟩) c hc hown
    · have := (hl.call_fresh c hc).1
      omega
    · exact hl.prompt_call q hq c hc hown

/-- A status change moves no token. -/
theorem setStatus_keeps {l : Ledger} (hl : WellFormed models l) (hcovered : Covered models l)
    (runId : ℕ) (status : StrategyRunStatus) :
    let runs := l.runs.map fun run => if run.id = runId then { run with status := status } else run
    WellFormed models { l with runs := runs } ∧ Covered models { l with runs := runs } := by
  intro runs
  have hsame : ∀ run ∈ runs, ∃ old ∈ l.runs, run.id = old.id ∧ run.modelName = old.modelName ∧
      run.budgetTier = old.budgetTier := by
    intro run hrun
    obtain ⟨old, hold, rfl⟩ := List.mem_map.mp hrun
    refine ⟨old, hold, ?_⟩
    split <;> exact ⟨rfl, rfl, rfl⟩
  refine ⟨{ hl with runs_nodup := ?_, run_fresh := ?_, call_run := ?_, run_model := ?_ },
    fun c hc hexposed => (hcovered c hc hexposed).grow rfl (List.Subset.refl _)
      (List.Subset.refl _) fun p hmodels => ?_⟩
  · have hids : runs.map (·.id) = l.runs.map (·.id) := by
      simp only [runs, List.map_map]
      exact List.map_congr_left fun run _ => by
        simp only [Function.comp_apply]
        split <;> rfl
    exact hids ▸ hl.runs_nodup
  · intro run hrun
    obtain ⟨old, hold, hid, -⟩ := hsame run hrun
    exact hid ▸ hl.run_fresh old hold
  · intro c hc run hrun hid
    obtain ⟨old, hold, holdid, -, htier⟩ := hsame run hrun
    exact htier ▸ hl.call_run c hc old hold (holdid ▸ hid)
  · intro run hrun tier htier
    obtain ⟨old, hold, -, hmodel, holdtier⟩ := hsame run hrun
    exact hmodel ▸ hl.run_model old hold tier (holdtier ▸ htier)
  · obtain ⟨old, hold, hon⟩ := List.any_eq_true.mp hmodels
    refine List.any_eq_true.mpr ⟨_, List.mem_map.mpr ⟨old, hold, rfl⟩, ?_⟩
    split <;> exact hon

/-- Steps that leave every call on the day's count: no midnight while a call may be billed or
between a reserve transaction's start and its grant, and no deletion of a run with a call that
counts. -/
def quiet (l : Ledger) : BudgetEvent → Bool
  | .tick ms => startOfTodayUtc (l.now + ms) = l.today || l.calls.all fun c => !c.mayBeBilled
  | .call id .insert =>
    (l.calls.find? (·.id = id)).all fun c => !l.grants c || c.beganSince l.today
  | .deleteRun runId =>
    l.calls.all fun c => !(c.exposed l.today && l.dooms (fun run => run.id = runId) c.runId)
  | .deleteErroredRuns strategyName modelName =>
    l.calls.all fun c =>
      !(c.exposed l.today && l.dooms (matchesErrored strategyName modelName) c.runId)
  | _ => true

/-- A ledger that is well formed and covered. -/
def Accounted (models : FreeTierId → List String) (l : Ledger) : Prop :=
  WellFormed models l ∧ Covered models l

/-- Steps that touch neither the calls nor their rows. -/
theorem Accounted.congr {l l' : Ledger} (hl : Accounted models l) (hcalls : l'.calls = l.calls)
    (hruns : l'.runs = l.runs) (hreservations : l'.reservations = l.reservations)
    (hprompts : l'.prompts = l.prompts) (hnow : l'.now = l.now) (hnext : l'.nextId = l.nextId) :
    Accounted models l' := by
  have htoday : l'.today = l.today := congrArg startOfTodayUtc hnow
  refine ⟨hl.1.shrink hcalls (hruns ▸ List.Sublist.refl _) (hreservations ▸ List.Subset.refl _)
    (hprompts ▸ List.Subset.refl _) hnow.ge hnext, ?_⟩
  intro c hc hexposed
  refine (hl.2 c (hcalls ▸ hc) (htoday ▸ hexposed)).grow htoday
    (hreservations ▸ List.Subset.refl _) (hprompts ▸ List.Subset.refl _) fun p hmodels => ?_
  rwa [onModels, hruns]

/-- A quiet step keeps the ledger accounted. -/
theorem step_keeps {l l' : Ledger} {e : BudgetEvent} (hl : Accounted models l)
    (hquiet : l.quiet e) (h : step floorShare models l e = some l') : Accounted models l' := by
  have ⟨hwf, hcovered⟩ := hl
  cases e with
  | tick ms =>
    cases h
    refine tick_keeps hwf hcovered ms ?_
    simpa [quiet] using hquiet
  | setDispatch tier state =>
    simp only [step] at h
    split at h
    · cases h
      exact hl.congr rfl rfl rfl rfl rfl rfl
    · cases h
  | createRun strategyName modelName budgetTier =>
    simp only [step] at h
    split at h
    · rename_i hmodel
      cases h
      refine createRun_keeps hwf hcovered rfl fun tier htier => ?_
      have htier : budgetTier = some tier := htier
      simpa [htier] using hmodel
    · cases h
  | setStatus runId status =>
    cases h
    exact setStatus_keeps hwf hcovered runId status
  | begin runId tokens =>
    obtain ⟨run, hfind, h⟩ := Option.bind_eq_some_iff.mp h
    obtain ⟨tier, htier, rfl⟩ := Option.map_eq_some_iff.mp h
    have hid : run.id = runId := by simpa using List.find?_some hfind
    exact hid ▸ begin_keeps hwf hcovered (List.mem_of_find?_eq_some hfind) htier tokens
  | call id event =>
    obtain ⟨c, hfind, h⟩ := Option.bind_eq_some_iff.mp h
    refine callStep_keeps hwf hcovered (List.mem_of_find?_eq_some hfind) ?_ h
    rintro rfl hgrants
    simpa [quiet, hfind, hgrants] using hquiet
  | flushUnbudgeted runId totalTokens =>
    obtain ⟨run, -, h⟩ := Option.bind_eq_some_iff.mp h
    split at h
    · cases h
      exact flushUnbudgeted_keeps hwf hcovered rfl
    · cases h
  | evaluate runId judgeModel totalTokens =>
    cases h
    exact hl.congr rfl rfl rfl rfl rfl rfl
  | checkDelete runId =>
    obtain ⟨run, -, h⟩ := Option.bind_eq_some_iff.mp h
    split at h
    · cases h
    · cases h
      exact hl.congr rfl rfl rfl rfl rfl rfl
  | deleteRun runId =>
    simp only [step] at h
    split at h
    · cases h
      refine deleteRunTx_keeps hwf hcovered _ _ fun c hc hexposed => ?_
      have := List.all_eq_true.mp hquiet c hc
      simpa [hexposed] using this
    · cases h
  | deleteErroredRuns strategyName modelName =>
    cases h
    refine deleteRunTx_keeps hwf hcovered _ l.deleting fun c hc hexposed => ?_
    have := List.all_eq_true.mp hquiet c hc
    simpa [hexposed] using this

/-- In a run of quiet steps every call that has been or may still be billed on the current day is
counted on it, and what a tier commits never falls short of what its calls come to. -/
theorem committed_covers_calls {l₀ l : Ledger} (hstart : WellFormed models l₀)
    (hcalls : l₀.calls = [])
    (h : Run.Reaches (step floorShare models) (fun l e => l.quiet e) l₀ l) :
    (∀ c ∈ l.calls, c.exposed l.today → Counted models l c) ∧
      ∀ tier, l.dueTokens tier ≤ l.committedTokens models tier := by
  have hfirst : Accounted models l₀ := ⟨hstart, by simp [Covered, hcalls]⟩
  have hlast : Accounted models l :=
    h.invariant hfirst fun _ _ _ hl hquiet hstep => step_keeps hl hquiet hstep
  exact ⟨hlast.2, dueTokens_le_committedTokens hlast.1 hlast.2⟩

/-- Empty tables, with one tier's dispatch active at a threshold. -/
def opening (now : ℕ) (tier : FreeTierId) (thresholdPercent : ℕ) : Ledger where
  now := now
  nextId := 1
  dispatch := Function.update (fun _ => none) tier (some ⟨true, thresholdPercent⟩)
  lock := fun _ => none
  runs := []
  reservations := []
  prompts := []
  evaluations := []
  calls := []
  deleting := []

theorem opening_wellFormed (now : ℕ) (tier : FreeTierId) (thresholdPercent : ℕ) :
    WellFormed models (opening now tier thresholdPercent) := by
  constructor <;> simp [opening]

/-- The share of a limit without rounding errors. -/
def exactShare (limit percent : ℕ) : ℕ := limit * percent / 100

/-- One model a tier. -/
def oneModelEach : FreeTierId → List String
  | .flagship => ["gpt-5"]
  | .mini => ["gpt-5-mini"]

/-- The events of one reserve transaction. -/
def reserveEvents (id : ℕ) : List BudgetEvent :=
  [.lock, .readReservations, .readModels, .readPrompts, .readEvaluations, .insert].map (.call id)

/-- A run's first call on the flagship tier, up to the provider. -/
def callSent (tokens : ℕ) : List BudgetEvent :=
  .createRun "llm-openai" (some "gpt-5") (some .flagship) :: .begin 1 tokens ::
    reserveEvents 2 ++ [.call 2 .send]

/-- The events of a billed call that reports its usage and is flushed. -/
def callFlushed (tokens amount : ℕ) : List BudgetEvent :=
  callSent tokens ++ [.bill amount, .reply true, .beginFlush, .commitFlush].map (.call 2)

/-- A call of the day is counted by its reservation, then by its row. -/
theorem committed_covers_calls_flushed :
    ∃ l : Ledger, l.dueTokens .flagship = 700 ∧ l.reservations = [] ∧
      l.dueTokens .flagship ≤ l.committedTokens oneModelEach .flagship := by
  obtain ⟨l, hrun, hdue⟩ := Run.exists_reaches (step exactShare oneModelEach)
    (fun l e => l.quiet e) (opening 5000 .flagship 80) (callFlushed 1000 700)
    (fun l => l.dueTokens .flagship = 700 ∧ l.reservations = []) (by decide)
  simp only [decide_eq_true_eq] at hdue
  exact ⟨l, hdue.1, hdue.2,
    (committed_covers_calls (opening_wellFormed _ _ _) rfl hrun).2 .flagship⟩

/-- A call in flight at midnight counts against the new day and its reservation does not; a call
of today counts no more once its run is deleted. -/
theorem committed_misses_calls :
    (∃ l, Run.Reaches (step exactShare oneModelEach) Run.always
        (opening (dayMs - 1000) .flagship 80) l ∧
      l.dueTokens .flagship = 1000 ∧ l.committedTokens oneModelEach .flagship = 0) ∧
    ∃ l, Run.Reaches (step exactShare oneModelEach) Run.always (opening 5000 .flagship 80) l ∧
      l.dueTokens .flagship = 700 ∧ l.committedTokens oneModelEach .flagship = 0 := by
  constructor
  · obtain ⟨l, hrun, hshort⟩ := Run.exists_reaches (step exactShare oneModelEach) Run.always
      (opening (dayMs - 1000) .flagship 80) (callSent 1000 ++ [.tick 2000])
      (fun l => l.dueTokens .flagship = 1000 ∧ l.committedTokens oneModelEach .flagship = 0)
      (by decide)
    exact ⟨l, hrun, by simpa using hshort⟩
  · obtain ⟨l, hrun, hshort⟩ := Run.exists_reaches (step exactShare oneModelEach) Run.always
      (opening 5000 .flagship 80)
      (callFlushed 1000 700 ++ [.setStatus 1 .completed, .checkDelete 1, .deleteRun 1])
      (fun l => l.dueTokens .flagship = 700 ∧ l.committedTokens oneModelEach .flagship = 0)
      (by decide)
    exact ⟨l, hrun, by simpa using hshort⟩

end Ledger

end Connections
