import Connections.Budget.Coverage
import Mathlib.Algebra.Order.BigOperators.Group.List
import Mathlib.Algebra.Order.Group.Nat

/-!
# The threshold of a day

On a day on which a tier's spend all comes from budgeted calls, the tier's rows and the reserve
transaction that holds its lock form an escrow account: the reservations are held, the recorded
rows are used, and the reads of the transaction are its quote.  Every step of the ledger is a step
of that account or none, so the committed sum never passes the threshold, and neither does what
the calls were billed.
-/

namespace Connections

open Escrow

/-- What the reserve transaction of a call has read, once it holds the lock. -/
def Call.quote (c : Call) : Option (Quote ℕ) :=
  match c.worker with
  | .reserving _ (.locked _) => some .idle
  | .reserving _ (.readReservations _ reserved) => some (.held reserved)
  | .reserving _ (.readModels _ reserved _ none _) => some (.held reserved)
  | .reserving _ (.readModels _ reserved _ (some prompts) _) => some (.both reserved prompts)
  | _ => none

/-- A reserve transaction works with one threshold, and has found no evaluation on the day. -/
def Call.ReadsOf (threshold since : ℕ) (c : Call) : Prop :=
  match c.worker with
  | .reserving _ (.locked t) | .reserving _ (.readReservations t _) => t = threshold
  | .reserving _ (.readModels t _ s _ evaluations) =>
    t = threshold ∧ s = since ∧ ∀ read ∈ evaluations, read = 0
  | _ => True

/-- A call of the day: it began on it, and was billed on it if it was. -/
def Call.OnDay (since : ℕ) (c : Call) : Prop :=
  c.beganSince since ∧ ∀ amount billedAt, c.provider = .billed amount billedAt → since ≤ billedAt

namespace Ledger

variable {floorShare : ℕ → ℕ → ℕ} {models : FreeTierId → List String} {tier : FreeTierId}
  {percent : ℕ}

/-- The escrow account of a tier. -/
def account (models : FreeTierId → List String) (tier : FreeTierId) (l : Ledger)
    (quote : Quote ℕ) : Account ℕ :=
  ⟨l.reservedTokens tier l.today, l.promptTokens (models tier) l.today, quote⟩

/-- Steps within one day of a tier: its dispatch row stays as it is, no run is deleted, every run
on one of its models is budgeted on it, and its models judge nothing. -/
def withinDay (models : FreeTierId → List String) (tier : FreeTierId) (l : Ledger) :
    BudgetEvent → Bool
  | .tick ms => startOfTodayUtc (l.now + ms) = l.today
  | .setDispatch other _ => other ≠ tier
  | .createRun _ modelName budgetTier =>
    modelName ∈ (models tier).map some → budgetTier = some tier
  | .evaluate _ judgeModel _ => judgeModel ∉ models tier
  | .deleteRun _ | .deleteErroredRuns _ _ => false
  | _ => true

/-- A ledger on the morning of such a day. -/
structure DayOpening (models : FreeTierId → List String) (tier : FreeTierId) (percent : ℕ)
    (l : Ledger) : Prop where
  wellFormed : WellFormed models l
  no_calls : l.calls = []
  dispatch : l.dispatch tier = some ⟨true, percent⟩
  nothing_committed : l.committedTokens models tier = 0
  budgeted : ∀ run ∈ l.runs, run.modelName ∈ (models tier).map some → run.budgetTier = some tier
  prompt_run : ∀ p ∈ l.prompts, p.strategyRunId < l.nextId

/-- A ledger in the course of such a day, with the quote of the transaction that has the lock. -/
structure InDay (models : FreeTierId → List String) (tier : FreeTierId) (percent threshold : ℕ)
    (l : Ledger) (quote : Quote ℕ) : Prop where
  accounted : Accounted models l
  dispatch : l.dispatch tier = some ⟨true, percent⟩
  budgeted : ∀ run ∈ l.runs, run.modelName ∈ (models tier).map some → run.budgetTier = some tier
  prompt_run : ∀ p ∈ l.prompts, p.strategyRunId < l.nextId
  no_evaluation : l.evaluationTokens (models tier) l.today = 0
  call_day : ∀ c ∈ l.calls, c.OnDay l.today
  call_reads : ∀ c ∈ l.calls, c.tier = tier → c.ReadsOf threshold l.today
  call_quote : ∀ c ∈ l.calls, c.tier = tier → ∀ q, c.quote = some q →
    l.lock tier = some c.id ∧ quote = q

/-- While one transaction of the tier has read something, no other one has. -/
theorem InDay.no_other_quote {threshold : ℕ} {l : Ledger} {quote : Quote ℕ}
    (h : InDay models tier percent threshold l quote) {id : ℕ} (hlock : l.lock tier = some id)
    {c : Call} (hc : c ∈ l.calls) (htier : c.tier = tier) (hne : c.id ≠ id) : c.quote = none := by
  cases hquote : c.quote with
  | none => rfl
  | some q =>
    have := (h.call_quote c hc htier q hquote).1
    rw [hlock, Option.some.injEq] at this
    exact absurd this.symm hne

/-- Within a day every step is quiet. -/
theorem InDay.quiet {threshold : ℕ} {l : Ledger} {quote : Quote ℕ} {e : BudgetEvent}
    (h : InDay models tier percent threshold l quote) (hok : l.withinDay models tier e) :
    l.quiet e := by
  cases e with
  | tick ms => simp_all [withinDay, Ledger.quiet]
  | call id event =>
    cases event with
    | insert =>
      simp only [Ledger.quiet]
      cases hfind : l.calls.find? (·.id = id) with
      | none => rfl
      | some c => simp [(h.call_day c (List.mem_of_find?_eq_some hfind)).1]
    | _ => rfl
  | deleteRun => simp [withinDay] at hok
  | deleteErroredRuns => simp [withinDay] at hok
  | _ => rfl

/-- Replacing a call of the day by its next state. -/
theorem InDay.replace {threshold : ℕ} {l l' : Ledger} {quote quote' : Quote ℕ} {c : Call}
    (h : InDay models tier percent threshold l quote) (c' : Call) (hc : c ∈ l.calls)
    (hid : c'.id = c.id) (htier : c'.tier = c.tier) (haccounted : Accounted models l')
    (hcalls : l'.calls = (l.setCall c').calls) (hruns : l'.runs = l.runs) (hnow : l'.now = l.now)
    (hnext : l'.nextId = l.nextId) (hdispatch : l'.dispatch = l.dispatch)
    (hevaluations : l'.evaluations = l.evaluations)
    (hprompts : ∀ p ∈ l'.prompts, p ∈ l.prompts ∨ p.strategyRunId = c.runId)
    (hday : c'.OnDay l.today) (hreads : c.tier = tier → c'.ReadsOf threshold l.today)
    (hown : c.tier = tier → ∀ q, c'.quote = some q → l'.lock tier = some c.id ∧ quote' = q)
    (hothers : ∀ k ∈ l.calls, k.id ≠ c.id → k.tier = tier → ∀ q, k.quote = some q →
      l'.lock tier = some k.id ∧ quote' = q) :
    InDay models tier percent threshold l' quote' := by
  have hmem : ∀ k, k ∈ l'.calls ↔ k = c' ∨ k ∈ l.calls ∧ k.id ≠ c.id := fun k => by
    rw [hcalls]
    exact mem_setCall hc hid
  have htoday : l'.today = l.today := by rw [today, today, hnow]
  constructor
  case accounted => exact haccounted
  case dispatch => exact hdispatch ▸ h.dispatch
  case budgeted => exact hruns ▸ h.budgeted
  case prompt_run =>
    intro p hp
    rw [hnext]
    rcases hprompts p hp with hp | hrun
    · exact h.prompt_run p hp
    · exact hrun ▸ (h.accounted.1.call_fresh c hc).2
  case no_evaluation =>
    rw [htoday, evaluationTokens, hevaluations]
    exact h.no_evaluation
  case call_day =>
    intro k hk
    rw [htoday]
    rcases (hmem k).mp hk with rfl | ⟨hk, -⟩
    · exact hday
    · exact h.call_day k hk
  case call_reads =>
    intro k hk hktier
    rw [htoday]
    rcases (hmem k).mp hk with rfl | ⟨hk, -⟩
    · exact hreads (htier ▸ hktier)
    · exact h.call_reads k hk hktier
  case call_quote =>
    intro k hk hktier q hq
    rcases (hmem k).mp hk with rfl | ⟨hk, hne⟩
    · exact hid ▸ hown (htier ▸ hktier) q hq
    · exact hothers k hk hne hktier q hq

/-- The account looks at the clock, at the rows, and at the runs of the prompt rows. -/
theorem account_runs {l l' : Ledger} {quote : Quote ℕ} (hnow : l'.now = l.now)
    (hreservations : l'.reservations = l.reservations) (hprompts : l'.prompts = l.prompts)
    (hon : ∀ p ∈ l.prompts, l'.onModels (models tier) p = l.onModels (models tier) p) :
    account models tier l' quote = account models tier l quote := by
  have htoday : l'.today = l.today := by rw [today, today, hnow]
  have hheld : l'.reservedTokens tier l.today = l.reservedTokens tier l.today := by
    rw [reservedTokens, reservedTokens, hreservations]
  have hused : l'.promptTokens (models tier) l.today = l.promptTokens (models tier) l.today := by
    rw [promptTokens, promptTokens, hprompts,
      List.filter_congr fun p hp => decide_eq_decide.mpr (by rw [hon p hp])]
  rw [account, account, htoday, hheld, hused]

/-- What a quote is checked against is the clock, the reservations, the prompts and the runs. -/
theorem account_congr {l l' : Ledger} (hnow : l'.now = l.now)
    (hreservations : l'.reservations = l.reservations) (hprompts : l'.prompts = l.prompts)
    (hruns : l'.runs = l.runs) (quote : Quote ℕ) :
    account models tier l' quote = account models tier l quote :=
  account_runs hnow hreservations hprompts fun p _ => by rw [onModels, onModels, hruns]

/-- The next state of the day, and the step of its account if there is one. -/
def Advances (models : FreeTierId → List String) (tier : FreeTierId) (percent threshold : ℕ)
    (l : Ledger) (quote : Quote ℕ) (l' : Ledger) : Prop :=
  ∃ quote', InDay models tier percent threshold l' quote' ∧
    (account models tier l' quote' = account models tier l quote ∨
      Step threshold (account models tier l quote) (account models tier l' quote'))

/-- A call with no quote has read nothing that could be wrong. -/
theorem readsOf_of_quote_eq_none {c : Call} {threshold since : ℕ} (h : c.quote = none) :
    c.ReadsOf threshold since := by
  unfold Call.ReadsOf
  split
  · simp_all [Call.quote]
  · simp_all [Call.quote]
  · rename_i prompts _ hworker
    cases prompts <;> simp [Call.quote, hworker] at h
  · trivial

/-- Only a reserve transaction has a quote. -/
theorem reserving_of_quote {c : Call} {q : Quote ℕ} (h : c.quote = some q) :
    ∃ txStart progress, c.worker = .reserving txStart progress := by
  unfold Call.quote at h
  split at h
  all_goals first
    | exact ⟨_, _, ‹_›⟩
    | cases h

theorem unlock_lock_of_ne {l : Ledger} {c : Call}
    (h : c.tier ≠ tier ∨ l.lock tier ≠ some c.id) : (l.unlock c).lock tier = l.lock tier := by
  have hne : l.lock c.tier = some c.id → tier ≠ c.tier := fun hlock => by
    rcases h with hne | hne
    · exact hne.symm
    · rintro rfl
      exact hne hlock
  simp only [unlock]
  split
  · simp [Function.update_of_ne (hne ‹_›)]
  · rfl

/-- A call that has read nothing, or no longer needs what it read, moves on; it may drop its
lock. -/
theorem InDay.silent {threshold : ℕ} {l : Ledger} {quote : Quote ℕ} {c c' : Call}
    {lock : FreeTierId → Option ℕ} (h : InDay models tier percent threshold l quote)
    (hc : c ∈ l.calls) (hid : c'.id = c.id) (htier : c'.tier = c.tier) (hquote : c'.quote = none)
    (hday : c'.OnDay l.today) (hlock : lock = l.lock ∨ lock = (l.unlock c).lock)
    (haccounted : Accounted models { l.setCall c' with lock := lock }) :
    Advances models tier percent threshold l quote { l.setCall c' with lock := lock } := by
  have replace (quote' : Quote ℕ)
      (hothers : ∀ k ∈ l.calls, k.id ≠ c.id → k.tier = tier → ∀ q, k.quote = some q →
        lock tier = some k.id ∧ quote' = q) :
      InDay models tier percent threshold { l.setCall c' with lock := lock } quote' :=
    h.replace c' hc hid htier haccounted rfl rfl rfl rfl rfl rfl (fun p hp => .inl hp) hday
      (fun _ => readsOf_of_quote_eq_none hquote) (fun _ q hq => by simp [hquote] at hq) hothers
  by_cases hmine : l.lock tier = some c.id
  · -- No other transaction has read anything, so whatever was read is dropped.
    refine ⟨.idle, replace .idle fun k hk hne hktier q hq => ?_, .inr (Step.abandon _)⟩
    simp [h.no_other_quote hmine hk hktier hne] at hq
  · refine ⟨quote, replace quote fun k hk _ hktier q hq => ?_,
      .inl (account_congr rfl rfl rfl rfl quote)⟩
    have hsame : lock tier = l.lock tier := by
      rcases hlock with rfl | rfl
      · rfl
      · exact unlock_lock_of_ne (.inr hmine)
    exact hsame ▸ h.call_quote k hk hktier q hq

/-- A call of the other tier moves on. -/
theorem InDay.elsewhere {threshold : ℕ} {l : Ledger} {quote : Quote ℕ} {c c' : Call}
    {lock : FreeTierId → Option ℕ} (h : InDay models tier percent threshold l quote)
    (hc : c ∈ l.calls) (hid : c'.id = c.id) (htier : c'.tier = c.tier) (hother : c.tier ≠ tier)
    (hday : c'.OnDay l.today) (hlock : lock tier = l.lock tier)
    (haccounted : Accounted models { l.setCall c' with lock := lock }) :
    Advances models tier percent threshold l quote { l.setCall c' with lock := lock } := by
  refine ⟨quote, h.replace c' hc hid htier haccounted rfl rfl rfl rfl rfl rfl (fun p hp => .inl hp)
    hday (fun hown => absurd hown hother) (fun hown => absurd hown hother) ?_,
    .inl (account_congr rfl rfl rfl rfl quote)⟩
  exact fun k hk _ hktier q hq => by
    rw [show ({ l.setCall c' with lock := lock } : Ledger).lock tier = l.lock tier from hlock]
    exact h.call_quote k hk hktier q hq

/-- The transaction that has the lock reads on, and its quote with it. -/
theorem InDay.reading {threshold txStart : ℕ} {l : Ledger} {quote : Quote ℕ}
    {c : Call} {progress progress' : ReserveStep}
    (h : InDay models tier percent threshold l quote) (before after : Quote ℕ) (hc : c ∈ l.calls)
    (hworker : c.worker = .reserving txStart progress) (hbefore : c.quote = some before)
    (hafter : (c.withWorker (.reserving txStart progress')).quote = some after)
    (hreads : c.tier = tier →
      (c.withWorker (.reserving txStart progress')).ReadsOf threshold l.today)
    (hstep : c.tier = tier → after = before ∨
      Step threshold (account models tier l before) (account models tier l after))
    (haccounted : Accounted models (l.setCall (c.withWorker (.reserving txStart progress')))) :
    Advances models tier percent threshold l quote
      (l.setCall (c.withWorker (.reserving txStart progress'))) := by
  have hday : (c.withWorker (.reserving txStart progress')).OnDay l.today := by
    obtain ⟨hbegan, hbilled⟩ := h.call_day c hc
    refine ⟨?_, hbilled⟩
    simpa only [Call.beganSince, hworker, Call.withWorker_worker] using hbegan
  by_cases hown : c.tier = tier
  · obtain ⟨hlock, rfl⟩ := h.call_quote c hc hown before hbefore
    refine ⟨after, h.replace (c.withWorker (.reserving txStart progress')) hc rfl rfl haccounted rfl
      rfl rfl rfl rfl rfl (fun p hp => .inl hp) hday hreads (fun _ q hq => ⟨hlock, ?_⟩)
      fun k hk hne hktier q hq => ?_, ?_⟩
    · simpa using hafter.symm.trans hq
    · simp [h.no_other_quote hlock hk hktier hne] at hq
    · rcases hstep hown with rfl | hstep
      · exact .inl (account_congr rfl rfl rfl rfl _)
      · exact .inr hstep
  · exact h.elsewhere hc rfl rfl hown hday rfl haccounted

/-! ### Rows that come and go -/

/-- One more reservation is counted if it is of the tier and was made since. -/
theorem reservedTokens_cons (l : Ledger) (r : FreeTierReservation) (tier : FreeTierId)
    (since : ℕ) :
    ({ l with reservations := r :: l.reservations } : Ledger).reservedTokens tier since =
      (if r.tier = tier ∧ since ≤ r.createdAt then r.reservedTokens else 0) +
        l.reservedTokens tier since := by
  simp only [reservedTokens, List.filter_cons]
  by_cases h : r.tier = tier ∧ since ≤ r.createdAt <;> simp [h]

/-- One more prompt is counted if it is on one of the models and was made since. -/
theorem promptTokens_cons (l : Ledger) (p : PromptUsage) (ms : List String) (since : ℕ) :
    ({ l with prompts := p :: l.prompts } : Ledger).promptTokens ms since =
      (if l.onModels ms p ∧ since ≤ p.createdAt then p.totalTokens.getD 0 else 0) +
        l.promptTokens ms since := by
  simp only [promptTokens, List.filter_cons]
  change ((if decide (l.onModels ms p ∧ since ≤ p.createdAt) = true then
    p :: List.filter (fun q => decide (l.onModels ms q ∧ since ≤ q.createdAt)) l.prompts
    else List.filter (fun q => decide (l.onModels ms q ∧ since ≤ q.createdAt)) l.prompts).map
      (·.totalTokens.getD 0)).sum = _
  by_cases h : l.onModels ms p ∧ since ≤ p.createdAt <;> simp [h]

/-- An unrecorded settlement holds what it held. -/
theorem reservedTokens_unrecorded (l : Ledger) (id : ℕ) (tier : FreeTierId) (since : ℕ) :
    ({ l with reservations := l.settleReservation id false } : Ledger).reservedTokens tier since =
      l.reservedTokens tier since := by
  simp only [reservedTokens, settleReservation, Bool.false_eq_true, ↓reduceIte]
  induction l.reservations with
  | nil => rfl
  | cons r rows ih =>
    simp only [List.map_cons, List.filter_cons]
    by_cases hid : r.id = id <;> by_cases h : r.tier = tier ∧ since ≤ r.createdAt <;>
      simpa [hid, h] using ih

/-- A recorded settlement splits what was held into what stays and the call's own rows. -/
theorem reservedTokens_recorded (l : Ledger) (id : ℕ) (tier : FreeTierId) (since : ℕ) :
    ∃ own, l.reservedTokens tier since =
        ({ l with reservations := l.settleReservation id true } : Ledger).reservedTokens tier since
          + own ∧
      (∀ r ∈ l.reservations, r.id = id → r.tier = tier → since ≤ r.createdAt →
        r.reservedTokens ≤ own) ∧
      ((∀ r ∈ l.reservations, r.id = id → r.tier ≠ tier) → own = 0) := by
  let held := l.reservations.filter fun r => r.tier = tier ∧ since ≤ r.createdAt
  let own := ((held.filter fun r => r.id = id).map (·.reservedTokens)).sum
  have hstays : ((l.settleReservation id true).filter fun r =>
      r.tier = tier ∧ since ≤ r.createdAt) = held.filter fun r => ¬r.id = id := by
    simp only [settleReservation, held, ↓reduceIte, List.filter_filter]
    exact List.filter_congr fun r _ => by simp only [Bool.and_comm, ne_eq]
  refine ⟨own, ?_, fun r hr hid htier hday => ?_, fun hnone => ?_⟩
  · have hsplit := List.sum_map_filter_add_sum_map_filter_not (fun r => r.id = id)
      (fun r : FreeTierReservation => r.reservedTokens) held
    calc l.reservedTokens tier since = (held.map (·.reservedTokens)).sum := rfl
      _ = ((held.filter fun r => ¬r.id = id).map (·.reservedTokens)).sum + own := by
        rw [← hsplit, Nat.add_comm]
      _ = _ := by rw [reservedTokens, hstays]
  · refine List.le_sum_of_mem (List.mem_map_of_mem ?_)
    exact List.mem_filter.mpr
      ⟨List.mem_filter.mpr ⟨hr, by simpa using ⟨htier, hday⟩⟩, by simpa using hid⟩
  · have hnil : (held.filter fun r => r.id = id) = [] := by
      refine List.filter_eq_nil_iff.mpr fun r hr => ?_
      obtain ⟨hmem, hmine⟩ := List.mem_filter.mp hr
      simp only [decide_eq_true_eq] at hmine ⊢
      exact fun hid => hnone r hmem hid hmine.1
    simp [own, hnil]

/-! ### One step -/

/-- A grant escrows its tokens. -/
theorem InDay.granted {threshold : ℕ} {l l' : Ledger} {quote : Quote ℕ} {c : Call}
    {txStart limit reserved since prompts evaluations : ℕ}
    (h : InDay models tier percent threshold l quote) (hc : c ∈ l.calls)
    (hworker : c.worker = .reserving txStart
      (.readModels limit reserved since (some prompts) (some evaluations)))
    (hfits : reserved + (prompts + evaluations) + c.tokens ≤ limit)
    (hl' : l' = { l.unlock c with
      reservations := ⟨c.id, c.tier, c.runId, c.tokens, .pending, txStart⟩ ::
        l.reservations }.setCall (c.withWorker .granted))
    (haccounted : Accounted models l') : Advances models tier percent threshold l quote l' := by
  obtain ⟨hbegan, hbilled⟩ := h.call_day c hc
  have hrow := reservedTokens_cons l ⟨c.id, c.tier, c.runId, c.tokens, .pending, txStart⟩ tier
    l.today
  have hdue : account models tier l' = fun q =>
      ⟨(if c.tier = tier ∧ l.today ≤ txStart then c.tokens else 0) + l.reservedTokens tier l.today,
        l.promptTokens (models tier) l.today, q⟩ := by
    funext q
    rw [← hrow, hl']
    rfl
  have replace (quote' : Quote ℕ)
      (hothers : ∀ k ∈ l.calls, k.id ≠ c.id → k.tier = tier → ∀ q, k.quote = some q →
        (l.unlock c).lock tier = some k.id ∧ quote' = q) :
      InDay models tier percent threshold l' quote' := by
    subst hl'
    exact h.replace (c.withWorker .granted) hc rfl rfl haccounted rfl rfl rfl rfl rfl rfl
      (fun p hp => .inl hp) ⟨rfl, hbilled⟩ (fun _ => trivial)
      (fun _ q hq => by simp [Call.quote, Call.withWorker] at hq) hothers
  by_cases hown : c.tier = tier
  · have hreads := h.call_reads c hc hown
    simp only [Call.ReadsOf, hworker] at hreads
    obtain ⟨rfl, -, hnone⟩ := hreads
    obtain ⟨hlock, rfl⟩ := h.call_quote c hc hown (.both reserved prompts)
      (by simp [Call.quote, hworker])
    have hzero : evaluations = 0 := hnone evaluations rfl
    have hday : l.today ≤ txStart := by simpa [Call.beganSince, hworker] using hbegan
    refine ⟨.idle, replace .idle fun k hk hne hktier q hq => ?_, .inr ?_⟩
    · simp [h.no_other_quote hlock hk hktier hne] at hq
    · rw [hdue]
      simp only [hown, hday, and_self, ↓reduceIte]
      rw [Nat.add_comm c.tokens]
      exact Step.grant _ reserved prompts c.tokens rfl (by omega)
  · refine ⟨quote, replace quote fun k hk _ hktier q hq => ?_, .inl ?_⟩
    · rw [unlock_lock_of_ne (.inl hown)]
      exact h.call_quote k hk hktier q hq
    · rw [hdue]
      simp [hown, account]

/-- A settlement uses at most what the call had escrowed. -/
theorem InDay.flushed {threshold : ℕ} {l l' : Ledger} {quote : Quote ℕ} {c : Call}
    {reported : Option ℕ} {txStart : ℕ} (h : InDay models tier percent threshold l quote)
    (hc : c ∈ l.calls) (hworker : c.worker = .flushing reported txStart)
    (hl' : l' = { l with
      reservations := l.settleReservation c.id reported.isSome
      prompts := ⟨c.id, c.runId, reported, txStart⟩ :: l.prompts }.setCall
        (c.withWorker (.flushed reported)))
    (haccounted : Accounted models l') : Advances models tier percent threshold l quote l' := by
  obtain ⟨hl, hcovered⟩ := h.accounted
  obtain ⟨-, hbilled⟩ := h.call_day c hc
  have hin : InDay models tier percent threshold l' quote := by
    subst hl'
    refine h.replace (c.withWorker (.flushed reported)) hc rfl rfl haccounted rfl rfl rfl rfl rfl
      rfl ?_ ⟨rfl, hbilled⟩
      (fun _ => trivial) (fun _ q hq => by simp [Call.quote, Call.withWorker] at hq)
      fun k hk _ hktier q hq => h.call_quote k hk hktier q hq
    rintro p (_ | ⟨_, hp⟩)
    · exact .inr rfl
    · exact .inl hp
  refine ⟨quote, hin, ?_⟩
  have hrow := promptTokens_cons l ⟨c.id, c.runId, reported, txStart⟩ (models tier) l.today
  generalize hused : (if l.onModels (models tier) ⟨c.id, c.runId, reported, txStart⟩ ∧
    l.today ≤ txStart then reported.getD 0 else 0) = used at hrow
  have haccount : account models tier l' quote =
      ⟨({ l with reservations := l.settleReservation c.id reported.isSome } :
        Ledger).reservedTokens tier l.today,
        l.promptTokens (models tier) l.today + used, quote⟩ := by
    rw [Nat.add_comm, ← hrow, hl']
    rfl
  rw [haccount]
  cases reported with
  | none =>
    left
    have hzero : used = 0 := by
      rw [← hused]
      simp
    rw [Option.isSome_none, reservedTokens_unrecorded, hzero]
    rfl
  | some amount =>
    obtain ⟨own, hsplit, hle, hnone⟩ := reservedTokens_recorded l c.id tier l.today
    by_cases hown : c.tier = tier
    · right
      refine Step.settle _ _ own used hsplit ?_
      obtain ⟨billedAt, -, hprovider⟩ : ∃ billedAt, billedAt ≤ txStart ∧
          c.provider = .billed amount billedAt := by
        simpa only [Call.Sound, hworker] using (hl.call_sound c hc).1
      have hsince : c.billedSince l.today = some amount := by
        simp [Call.billedSince, hprovider, hbilled amount billedAt hprovider]
      have hmay : c.mayBeBilled = false := by simp [Call.mayBeBilled, hprovider]
      have hdue : c.due l.today = amount := by simp [Call.due, hmay, hsince]
      have hamount : amount ≤ own := by
        -- The call counts, and it has no row yet, so its reservation is still there.
        cases hcovered c hc (by simp [Call.exposed, hsince]) with
        | reserved r hr hid htier hday hcount =>
          exact (hdue ▸ hcount).trans (hle r hr hid (htier.trans hown) hday)
        | recorded p tokens hp hid =>
          obtain ⟨-, settled, hsettled⟩ := hl.prompt_call p hp c hc hid
          rw [hworker] at hsettled
          cases hsettled
      rw [← hused]
      split
      · exact hamount
      · exact Nat.zero_le own
    · left
      have hzero : own = 0 := hnone fun r hr hid htier =>
        hown (htier ▸ (hl.reservation_call r hr c hc hid).1).symm
      have hnot : used = 0 := by
        rw [← hused, if_neg]
        rintro ⟨hmodels, -⟩
        obtain ⟨run, hrun, hon⟩ := List.any_eq_true.mp hmodels
        simp only [decide_eq_true_eq] at hon
        have htier := hl.call_run c hc run hrun hon.1
        rw [h.budgeted run hrun hon.2, Option.some.injEq] at htier
        exact hown htier.symm
      rw [hzero, Nat.add_zero] at hsplit
      rw [Option.isSome_some, ← hsplit, hnot]
      rfl

/-- A call that gets the lock quotes nothing yet. -/
theorem InDay.locked {l l' : Ledger} {quote : Quote ℕ} {c : Call} {txStart share : ℕ}
    (h : InDay models tier percent (floorShare (dailyLimitTokens tier) percent) l quote)
    (hc : c ∈ l.calls) (hw : c.worker = .reserving txStart .begun) (hfree : l.lock c.tier = none)
    (hdispatch : l.dispatch c.tier = some ⟨true, share⟩)
    (hl' : l' = { l with lock := Function.update l.lock c.tier (some c.id) }.setCall
      (c.withWorker (.reserving txStart (.locked (floorShare (dailyLimitTokens c.tier) share)))))
    (haccounted : Accounted models l') :
    Advances models tier percent (floorShare (dailyLimitTokens tier) percent) l quote l' := by
  obtain ⟨hbegan, hbilled⟩ := h.call_day c hc
  subst hl'
  have hday : (c.withWorker (.reserving txStart
      (.locked (floorShare (dailyLimitTokens c.tier) share)))).OnDay l.today := by
    refine ⟨?_, hbilled⟩
    simpa only [Call.beganSince, hw, Call.withWorker_worker] using hbegan
  by_cases hown : c.tier = tier
  · subst hown
    obtain rfl : percent = share := by simpa [h.dispatch] using hdispatch
    refine ⟨.idle, h.replace (c.withWorker (.reserving txStart
        (.locked (floorShare (dailyLimitTokens c.tier) percent)))) hc rfl rfl haccounted rfl rfl
      rfl rfl rfl rfl (fun p hp => .inl hp) hday (fun _ => rfl) (fun _ q hq => ⟨?_, ?_⟩)
      (fun k hk _ hktier q hq => ?_), .inr (Step.abandon _)⟩
    · exact Function.update_self _ _ _
    · simpa [Call.quote, Call.withWorker] using hq
    · have := (h.call_quote k hk hktier q hq).1
      rw [hfree] at this
      cases this
  · refine h.elsewhere hc rfl rfl hown hday ?_ haccounted
    simp [Function.update_of_ne (Ne.symm hown)]

/-- A call that reads the models of its tier goes on to the queries, or without models has used
nothing. -/
theorem InDay.readModels {l l' : Ledger} {quote : Quote ℕ} {c : Call}
    {txStart limit reserved : ℕ} {read : Option ℕ}
    (h : InDay models tier percent (floorShare (dailyLimitTokens tier) percent) l quote)
    (hc : c ∈ l.calls) (hw : c.worker = .reserving txStart (.readReservations limit reserved))
    (hread : read = (if models c.tier = [] then some 0 else none))
    (hl' : l' = l.setCall (c.withWorker (.reserving txStart
      (.readModels limit reserved l.today read read))))
    (haccounted : Accounted models l') :
    Advances models tier percent (floorShare (dailyLimitTokens tier) percent) l quote l' := by
  have hreads := h.call_reads c hc
  subst hl'
  have hlimit : c.tier = tier →
      limit = floorShare (dailyLimitTokens tier) percent := fun hown => by
    simpa only [Call.ReadsOf, hw] using hreads hown
  by_cases hmodels : models c.tier = []
  · rw [if_pos hmodels] at hread
    subst hread
    refine h.reading (.held reserved) (.both reserved 0) hc hw (by simp [Call.quote, hw]) rfl
      (fun hown => ⟨hlimit hown, rfl, by simp⟩) (fun hown => .inr ?_) haccounted
    subst hown
    have hzero : l.promptTokens (models c.tier) l.today = 0 := by
      simp [promptTokens, onModels, hmodels]
    have hused : Step (floorShare (dailyLimitTokens c.tier) percent)
        (account models c.tier l (.held reserved))
        (account models c.tier l (.both reserved (l.promptTokens (models c.tier) l.today))) :=
      Step.readUsed _ reserved rfl
    rwa [hzero] at hused
  · rw [if_neg hmodels] at hread
    subst hread
    exact h.reading (.held reserved) (.held reserved) hc hw (by simp [Call.quote, hw]) rfl
      (fun hown => ⟨hlimit hown, rfl, by simp⟩) (fun _ => .inl rfl) haccounted

/-- Within a day a step of a call is a step of the account, or leaves it as it is. -/
theorem InDay.callStep {l l' : Ledger} {quote : Quote ℕ} {c : Call} {e : CallEvent}
    (h : InDay models tier percent (floorShare (dailyLimitTokens tier) percent) l quote)
    (hc : c ∈ l.calls) (hstep : callStep floorShare models l c e = some l')
    (haccounted : Accounted models l') :
    Advances models tier percent (floorShare (dailyLimitTokens tier) percent) l quote l' := by
  obtain ⟨hbegan, hbilled⟩ := h.call_day c hc
  have hreads := h.call_reads c hc
  have hquiet (hprovider : c.provider = .inFlight) : c.quote = none := by
    cases hq : c.quote with
    | none => rfl
    | some q =>
      have hnot := (h.accounted.1.call_sound c hc).notSent (.inl (reserving_of_quote hq))
      rw [hprovider] at hnot
      cases hnot
  cases callStep_cases floorShare models hstep with
  | locked txStart share hw hfree hdispatch =>
    exact h.locked hc hw hfree hdispatch rfl haccounted
  | inactive txStart hw => exact h.silent hc rfl rfl rfl ⟨rfl, hbilled⟩ (.inl rfl) haccounted
  | readReservations txStart limit hw =>
    refine h.reading .idle (.held _) hc hw (by simp [Call.quote, hw]) rfl
      (fun hown => ?_) (fun hown => .inr ?_) haccounted
    · simpa only [Call.ReadsOf, hw, Call.withWorker_worker] using hreads hown
    · subst hown
      exact Step.readHeld _
  | readModels txStart limit reserved read hw hread =>
    exact h.readModels hc hw hread rfl haccounted
  | readPrompts txStart limit reserved since evaluations hw =>
    refine h.reading (.held reserved) (.both reserved _) hc hw (by simp [Call.quote, hw]) rfl
      (fun hown => ?_) (fun hown => .inr ?_) haccounted
    · simpa only [Call.ReadsOf, hw, Call.withWorker_worker] using hreads hown
    · have hsince : since = l.today := by
        have := hreads hown
        simp only [Call.ReadsOf, hw] at this
        exact this.2.1
      subst hown hsince
      exact Step.readUsed _ reserved rfl
  | readEvaluations txStart limit reserved since prompts hw =>
    have hquote : ∃ q, c.quote = some q ∧ ∀ read, (c.withWorker (.reserving txStart
        (.readModels limit reserved since prompts read))).quote = some q := by
      cases prompts with
      | none => exact ⟨.held reserved, by simp [Call.quote, hw], fun _ => rfl⟩
      | some prompts => exact ⟨.both reserved prompts, by simp [Call.quote, hw], fun _ => rfl⟩
    obtain ⟨q, hbefore, hafter⟩ := hquote
    refine h.reading q q hc hw hbefore (hafter _) (fun hown => ?_) (fun _ => .inl rfl) haccounted
    have hread := hreads hown
    simp only [Call.ReadsOf, hw] at hread
    obtain ⟨hlimit, rfl, -⟩ := hread
    refine ⟨hlimit, rfl, ?_⟩
    rw [hown, h.no_evaluation]
    simp
  | granted txStart limit reserved since prompts evaluations hw hfits _ =>
    exact h.granted hc hw hfits rfl haccounted
  | refused txStart progress _ hw =>
    exact h.silent hc rfl rfl rfl ⟨rfl, hbilled⟩ (.inr rfl) haccounted
  | sent hw =>
    exact h.silent hc rfl rfl rfl ⟨rfl, by simp⟩ (.inl rfl) haccounted
  | billed amount hprovider hle =>
    refine h.silent hc rfl rfl (hquiet hprovider) ⟨hbegan, ?_⟩ (.inl rfl) haccounted
    rintro _ _ ⟨⟩
    exact Nat.sub_le _ _
  | closed hprovider =>
    exact h.silent hc rfl rfl (hquiet hprovider) ⟨hbegan, by simp⟩ (.inl rfl) haccounted
  | repliedUsage amount billedAt hw hprovider =>
    exact h.silent hc rfl rfl rfl ⟨rfl, hbilled⟩ (.inl rfl) haccounted
  | repliedSilent hw => exact h.silent hc rfl rfl rfl ⟨rfl, hbilled⟩ (.inl rfl) haccounted
  | flushBegun reported hw => exact h.silent hc rfl rfl rfl ⟨rfl, hbilled⟩ (.inl rfl) haccounted
  | flushed reported txStart hw _ => exact h.flushed hc hw rfl haccounted
  | died _ _ => exact h.silent hc rfl rfl rfl ⟨rfl, hbilled⟩ (.inr rfl) haccounted

/-- A step that leaves the calls and the locks alone keeps the day. -/
theorem InDay.frame {threshold : ℕ} {l l' : Ledger} {quote : Quote ℕ}
    (h : InDay models tier percent threshold l quote) (haccounted : Accounted models l')
    (hcalls : l'.calls = l.calls) (hlock : l'.lock = l.lock) (htoday : l'.today = l.today)
    (hdispatch : l'.dispatch tier = l.dispatch tier)
    (hruns : ∀ run ∈ l'.runs, run.modelName ∈ (models tier).map some →
      run.budgetTier = some tier)
    (hprompts : ∀ p ∈ l'.prompts, p.strategyRunId < l'.nextId)
    (hevaluations : l'.evaluationTokens (models tier) l'.today = 0)
    (haccount : account models tier l' quote = account models tier l quote) :
    Advances models tier percent threshold l quote l' := by
  refine ⟨quote, ?_, .inl haccount⟩
  constructor
  case accounted => exact haccounted
  case dispatch => exact hdispatch.trans h.dispatch
  case budgeted => exact hruns
  case prompt_run => exact hprompts
  case no_evaluation => exact hevaluations
  case call_day => exact hcalls ▸ htoday ▸ h.call_day
  case call_reads => exact hcalls ▸ htoday ▸ h.call_reads
  case call_quote => exact hcalls ▸ hlock ▸ h.call_quote

/-! ### The events of a day -/

section Events

variable {threshold : ℕ} {l l' : Ledger} {quote : Quote ℕ}

theorem InDay.tick {ms : ℕ} (h : InDay models tier percent threshold l quote)
    (htoday : startOfTodayUtc (l.now + ms) = l.today)
    (hstep : Ledger.step floorShare models l (.tick ms) = some l')
    (haccounted : Accounted models l') : Advances models tier percent threshold l quote l' := by
  cases hstep
  have hevaluations := h.no_evaluation
  refine h.frame haccounted rfl rfl htoday rfl h.budgeted h.prompt_run ?_ ?_
  · rw [← htoday] at hevaluations
    exact hevaluations
  · change (⟨l.reservedTokens tier (startOfTodayUtc (l.now + ms)),
      l.promptTokens (models tier) (startOfTodayUtc (l.now + ms)), quote⟩ : Account ℕ) = _
    rw [htoday]
    rfl

/-- A new run on one of the tier's models is budgeted by the tier, and has no rows yet. -/
theorem InDay.createRun {strategyName : String} {modelName : Option String}
    {budgetTier : Option FreeTierId} (h : InDay models tier percent threshold l quote)
    (hbudget : modelName ∈ (models tier).map some → budgetTier = some tier)
    (hstep : Ledger.step floorShare models l (.createRun strategyName modelName budgetTier) =
      some l') (haccounted : Accounted models l') :
    Advances models tier percent threshold l quote l' := by
  simp only [Ledger.step] at hstep
  split at hstep
  · cases hstep
    refine h.frame haccounted rfl rfl rfl rfl ?_
      (fun p hp => Nat.lt_succ_of_lt (h.prompt_run p hp)) h.no_evaluation
      (account_runs rfl rfl rfl fun p hp => ?_)
    · rintro run (_ | ⟨_, hrun⟩) hmodel
      · exact hbudget hmodel
      · exact h.budgeted run hrun hmodel
    · have hne : l.nextId ≠ p.strategyRunId := Nat.ne_of_gt (h.prompt_run p hp)
      simp [onModels, hne]
  · cases hstep

theorem InDay.setStatus {runId : ℕ} {status : StrategyRunStatus}
    (h : InDay models tier percent threshold l quote)
    (hstep : Ledger.step floorShare models l (.setStatus runId status) = some l')
    (haccounted : Accounted models l') : Advances models tier percent threshold l quote l' := by
  cases hstep
  refine h.frame haccounted rfl rfl rfl rfl ?_ h.prompt_run h.no_evaluation
    (account_runs rfl rfl rfl fun p _ => ?_)
  · intro run hrun hmodel
    obtain ⟨old, hold, rfl⟩ := List.mem_map.mp hrun
    by_cases hid : old.id = runId
    · rw [if_pos hid] at hmodel ⊢
      exact h.budgeted old hold hmodel
    · rw [if_neg hid] at hmodel ⊢
      exact h.budgeted old hold hmodel
  · simp only [onModels, List.any_map]
    congr 1
    funext run
    simp only [Function.comp_apply]
    split <;> rfl

/-- A call that begins has done nothing yet. -/
theorem InDay.begun {runId tokens : ℕ} (h : InDay models tier percent threshold l quote)
    (hstep : Ledger.step floorShare models l (.begin runId tokens) = some l')
    (haccounted : Accounted models l') : Advances models tier percent threshold l quote l' := by
  obtain ⟨run, -, hstep⟩ := Option.bind_eq_some_iff.mp hstep
  obtain ⟨other, -, rfl⟩ := Option.map_eq_some_iff.mp hstep
  refine ⟨quote, ?_, .inl rfl⟩
  constructor
  case accounted => exact haccounted
  case dispatch => exact h.dispatch
  case budgeted => exact h.budgeted
  case prompt_run => exact fun p hp => Nat.lt_succ_of_lt (h.prompt_run p hp)
  case no_evaluation => exact h.no_evaluation
  case call_day =>
    rintro c (_ | ⟨_, hc⟩)
    · exact ⟨decide_eq_true (Nat.sub_le _ _), by simp⟩
    · exact h.call_day c hc
  case call_reads =>
    rintro c (_ | ⟨_, hc⟩) hown
    · trivial
    · exact h.call_reads c hc hown
  case call_quote =>
    rintro c (_ | ⟨_, hc⟩) hown q hq
    · cases hq
    · exact h.call_quote c hc hown q hq

/-- A run without a budget leaves rows that are not the tier's. -/
theorem InDay.flushUnbudgeted {runId : ℕ} {totalTokens : Option ℕ}
    (h : InDay models tier percent threshold l quote)
    (hstep : Ledger.step floorShare models l (.flushUnbudgeted runId totalTokens) = some l')
    (haccounted : Accounted models l') : Advances models tier percent threshold l quote l' := by
  obtain ⟨run, hfind, hstep⟩ := Option.bind_eq_some_iff.mp hstep
  split at hstep
  · rename_i hnone
    cases hstep
    have hrun := List.mem_of_find?_eq_some hfind
    have hid : run.id = runId := by simpa using List.find?_some hfind
    refine h.frame haccounted rfl rfl rfl rfl h.budgeted ?_ h.no_evaluation ?_
    · rintro p (_ | ⟨_, hp⟩)
      · exact Nat.lt_succ_of_lt (hid ▸ h.accounted.1.run_fresh run hrun)
      · exact Nat.lt_succ_of_lt (h.prompt_run p hp)
    · have hnot : ¬ (l.onModels (models tier) ⟨l.nextId, runId, totalTokens, l.now⟩ ∧
          l.today ≤ l.now) := by
        rintro ⟨hon, -⟩
        obtain ⟨other, hother, hmodel⟩ := List.any_eq_true.mp hon
        simp only [decide_eq_true_eq] at hmodel
        have hsame : other = run :=
          List.inj_on_of_nodup_map h.accounted.1.runs_nodup hother hrun
            (hmodel.1.trans hid.symm)
        have hbudget := h.budgeted other hother hmodel.2
        rw [hsame, hnone] at hbudget
        cases hbudget
      have hrow := promptTokens_cons l ⟨l.nextId, runId, totalTokens, l.now⟩ (models tier)
        l.today
      rw [if_neg hnot, Nat.zero_add] at hrow
      exact congrArg (fun used => (⟨l.reservedTokens tier l.today, used, quote⟩ : Account ℕ)) hrow
  · cases hstep

/-- A judge's call on a model of no tier leaves no evaluation of the tier's. -/
theorem InDay.evaluate {runId : ℕ} {judgeModel : String} {totalTokens : Option ℕ}
    (h : InDay models tier percent threshold l quote) (hjudge : judgeModel ∉ models tier)
    (hstep : Ledger.step floorShare models l (.evaluate runId judgeModel totalTokens) = some l')
    (haccounted : Accounted models l') : Advances models tier percent threshold l quote l' := by
  cases hstep
  refine h.frame haccounted rfl rfl rfl rfl h.budgeted h.prompt_run ?_ rfl
  have hevaluations := h.no_evaluation
  simp only [evaluationTokens] at hevaluations ⊢
  rw [List.filter_cons_of_neg (by simp [hjudge])]
  exact hevaluations

end Events

/-- Within a day a step of the ledger is a step of the tier's account, or leaves it as it is. -/
theorem InDay.step {l l' : Ledger} {quote : Quote ℕ} {e : BudgetEvent}
    (h : InDay models tier percent (floorShare (dailyLimitTokens tier) percent) l quote)
    (hok : l.withinDay models tier e) (hstep : step floorShare models l e = some l') :
    Advances models tier percent (floorShare (dailyLimitTokens tier) percent) l quote l' := by
  have haccounted : Accounted models l' := step_keeps h.accounted (h.quiet hok) hstep
  cases e with
  | tick ms => exact h.tick (by simpa [withinDay] using hok) hstep haccounted
  | setDispatch other state =>
    have hother : other ≠ tier := by simpa [withinDay] using hok
    simp only [Ledger.step] at hstep
    split at hstep
    · cases hstep
      exact h.frame haccounted rfl rfl rfl (Function.update_of_ne hother.symm state l.dispatch)
        h.budgeted h.prompt_run h.no_evaluation rfl
    · cases hstep
  | createRun strategyName modelName budgetTier =>
    exact h.createRun (of_decide_eq_true hok) hstep haccounted
  | setStatus runId status => exact h.setStatus hstep haccounted
  | begin runId tokens => exact h.begun hstep haccounted
  | call id event =>
    obtain ⟨c, hfind, hstep⟩ := Option.bind_eq_some_iff.mp hstep
    exact h.callStep (List.mem_of_find?_eq_some hfind) hstep haccounted
  | flushUnbudgeted runId totalTokens => exact h.flushUnbudgeted hstep haccounted
  | evaluate runId judgeModel totalTokens =>
    exact h.evaluate (by simpa [withinDay] using hok) hstep haccounted
  | checkDelete runId =>
    obtain ⟨run, -, hstep⟩ := Option.bind_eq_some_iff.mp hstep
    split at hstep
    · cases hstep
    · cases hstep
      exact h.frame haccounted rfl rfl rfl rfl h.budgeted h.prompt_run h.no_evaluation rfl
  | deleteRun runId => simp [withinDay] at hok
  | deleteErroredRuns strategyName modelName => simp [withinDay] at hok

/-! ### A day -/

/-- A tier in the course of a day that keeps its threshold. -/
def KeepsThreshold (models : FreeTierId → List String) (tier : FreeTierId) (percent threshold : ℕ)
    (l : Ledger) : Prop :=
  ∃ quote, InDay models tier percent threshold l quote ∧
    Safe threshold (account models tier l quote)

theorem DayOpening.keepsThreshold {l : Ledger} (h : DayOpening models tier percent l)
    (threshold : ℕ) : KeepsThreshold models tier percent threshold l := by
  have hnothing := h.nothing_committed
  simp only [committedTokens, Nat.add_eq_zero_iff] at hnothing
  have hused : l.promptTokens (models tier) l.today = 0 ∧
      l.evaluationTokens (models tier) l.today = 0 := by
    by_cases hmodels : models tier = []
    · simp [promptTokens, evaluationTokens, onModels, hmodels]
    · simpa [getUsage, hmodels] using hnothing.2
  refine ⟨.idle, ?_, ⟨?_, trivial⟩⟩
  · constructor
    case accounted => exact ⟨h.wellFormed, by simp [Covered, h.no_calls]⟩
    case dispatch => exact h.dispatch
    case budgeted => exact h.budgeted
    case prompt_run => exact h.prompt_run
    case no_evaluation => exact hused.2
    all_goals simp [h.no_calls]
  · simp [account, hnothing.1, hused.1]

/-- A step within the day keeps the threshold. -/
theorem KeepsThreshold.step {l l' : Ledger} {e : BudgetEvent}
    (h : KeepsThreshold models tier percent (floorShare (dailyLimitTokens tier) percent) l)
    (hok : l.withinDay models tier e) (hstep : Ledger.step floorShare models l e = some l') :
    KeepsThreshold models tier percent (floorShare (dailyLimitTokens tier) percent) l' := by
  obtain ⟨quote, hin, hsafe⟩ := h
  obtain ⟨quote', hin', hsame | haccount⟩ := hin.step hok hstep
  · exact ⟨quote', hin', hsame ▸ hsafe⟩
  · exact ⟨quote', hin', haccount.safe hsafe⟩

/-- What was billed is owed. -/
theorem billedTokens_le_dueTokens (l : Ledger) (tier : FreeTierId) :
    l.billedTokens tier ≤ l.dueTokens tier := by
  refine List.sum_le_sum fun c _ => ?_
  unfold Call.due
  split
  · rename_i h
    have hnone : c.billedSince l.today = none := by
      unfold Call.billedSince
      split
      · rename_i hprovider
        simp [Call.mayBeBilled, hprovider] at h
      · rfl
    simp [hnone]
  · exact Nat.le_refl _

/-- Throughout a day of budgeted calls, the day's reservations and recorded usage together come
to at least what the calls were billed, and never to more than the threshold. -/
theorem billedTokens_le_threshold {l₀ l : Ledger} (hstart : DayOpening models tier percent l₀)
    (h : Run.Reaches (Ledger.step floorShare models) (fun l e => l.withinDay models tier e) l₀ l) :
    l.billedTokens tier ≤ l.committedTokens models tier ∧
      l.committedTokens models tier ≤ floorShare (dailyLimitTokens tier) percent ∧
      l.billedTokens tier ≤ floorShare (dailyLimitTokens tier) percent := by
  have hkeeps : KeepsThreshold models tier percent (floorShare (dailyLimitTokens tier) percent) l :=
    h.invariant (hstart.keepsThreshold _) fun _ _ _ hl hok hstep => hl.step hok hstep
  obtain ⟨quote, hin, hsafe⟩ := hkeeps
  have hbilled : l.billedTokens tier ≤ l.committedTokens models tier :=
    (l.billedTokens_le_dueTokens tier).trans
      (dueTokens_le_committedTokens hin.accounted.1 hin.accounted.2 tier)
  have hcommitted : l.committedTokens models tier ≤
      floorShare (dailyLimitTokens tier) percent := by
    refine le_trans ?_ hsafe.within
    unfold committedTokens getUsage account
    split
    · exact Nat.add_le_add_left (Nat.zero_le _) _
    · rw [hin.no_evaluation]
      exact Nat.le_refl _
  exact ⟨hbilled, hcommitted, hbilled.trans hcommitted⟩

/-- A day with one call flushed, a second one whose worker died after the provider took it, and
a third one that the threshold refuses. -/
theorem billedTokens_le_threshold_refused :
    ∃ l : Ledger, l.billedTokens .flagship = 1700 ∧
      l.committedTokens oneModelEach .flagship = 2200 ∧
      l.committedTokens oneModelEach .flagship ≤ exactShare 250000 1 := by
  let second : List BudgetEvent := .begin 1 1500 :: reserveEvents 3 ++
    [.send, .bill 1000, .die].map (.call 3)
  let third : List BudgetEvent := .begin 1 1000 :: reserveEvents 4
  obtain ⟨l, hrun, hbilled⟩ := Run.exists_reaches (Ledger.step exactShare oneModelEach)
    (fun l e => l.withinDay oneModelEach .flagship e) (opening 5000 .flagship 1)
    (callFlushed 1000 700 ++ second ++ third)
    (fun l => l.billedTokens .flagship = 1700 ∧ l.committedTokens oneModelEach .flagship = 2200)
    (by decide)
  simp only [decide_eq_true_eq] at hbilled
  have hday : DayOpening oneModelEach .flagship 1 (opening 5000 .flagship 1) :=
    ⟨opening_wellFormed _ _ _, rfl, rfl, rfl, by simp [opening], by simp [opening]⟩
  exact ⟨l, hbilled.1, hbilled.2, (billedTokens_le_threshold hday hrun).2.1⟩

end Ledger

end Connections
