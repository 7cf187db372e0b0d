import Connections.Library.KeyedTable
import Connections.Library.Run

/-!
# Rate limit holds

The table of holds and the calls on it.  A call reaches the database more than once: a per-minute
cooldown reads the account's row before it upserts, and the cleanup finds the expired rows before
it removes them.  The steps of different calls interleave.
-/

namespace Connections

open KeyedTable

/-- Why an account-wide hold was set. -/
inductive RateLimitHoldReason
  | daily
  | perMinuteCooldown
  deriving DecidableEq, Repr

/-- The unique key of a hold; an account-wide one has no model. -/
structure HoldKey where
  strategyName : String
  modelName : Option String
  deriving DecidableEq, Repr

/-- The columns of a hold besides its id and its key. -/
structure RateLimitHold where
  reason : Option RateLimitHoldReason
  heldAt : ℕ
  resetAt : ℕ
  deriving DecidableEq, Repr

/-- What a caller asks for. -/
structure HoldOptions where
  modelName : Option String
  reason : Option RateLimitHoldReason
  resetInSeconds : ℕ
  deriving DecidableEq, Repr

/-- How far a call has come. -/
inductive HoldCall
  /-- A cooldown has read the account's row. -/
  | checking (strategyName : String) (opts : HoldOptions) (row : Option (Row HoldKey RateLimitHold))
  /-- A hold is about to be upserted. -/
  | writing (key : HoldKey) (hold : RateLimitHold)
  /-- The cleanup has found the expired rows. -/
  | clearing (expired : List (Row HoldKey RateLimitHold))
  deriving DecidableEq, Repr

/-- The table of holds, and the calls in progress, numbered in the order they began. -/
structure HoldStore where
  now : ℕ
  table : Table HoldKey RateLimitHold
  nextCall : ℕ
  calls : List (ℕ × HoldCall)

/-- What happens to the store. -/
inductive HoldEvent
  | tick (ms : ℕ)
  /-- A call of `hold`, up to its read if it makes one. -/
  | hold (strategyName : String) (opts : HoldOptions)
  /-- A cooldown judges the row that it has read. -/
  | check (callId : ℕ)
  | upsert (callId : ℕ)
  /-- A call of `clearExpired`, up to its find, with the instant it took beforehand. -/
  | find (strategyName : Option String) (cutoff : ℕ)
  | remove (callId : ℕ)
  /-- The caller is gone, or its query throws. -/
  | abandon (callId : ℕ)
  deriving DecidableEq, Repr

namespace HoldStore

/-- No holds and no calls. -/
def fresh : HoldStore := ⟨0, Table.empty, 0, []⟩

/-- A row while its hold lasts. -/
def live (now : ℕ) (row : Option (Row HoldKey RateLimitHold)) :
    Option (Row HoldKey RateLimitHold) :=
  row.filter fun row => now < row.value.resetAt

/-- The account-wide row of a strategy. -/
def accountRow (w : HoldStore) (strategyName : String) : Option (Row HoldKey RateLimitHold) :=
  w.table.lookup ⟨strategyName, none⟩

/-- The live account-wide row of a strategy. -/
def liveAccountRow (w : HoldStore) (strategyName : String) :
    Option (Row HoldKey RateLimitHold) :=
  live w.now (w.accountRow strategyName)

/-- The reason of the live account-wide hold. -/
def heldReason (w : HoldStore) (strategyName : String) : Option RateLimitHoldReason :=
  (w.liveAccountRow strategyName).bind (·.value.reason)

/-- The expired rows, of one strategy or of all. -/
def expired (w : HoldStore) (strategyName : Option String) (cutoff : ℕ) :
    List (Row HoldKey RateLimitHold) :=
  w.table.rows.filter fun row =>
    row.value.resetAt ≤ cutoff && strategyName.all (row.key.strategyName = ·)

/-- The row that a call writes from now on. -/
def stamped (w : HoldStore) (opts : HoldOptions) : RateLimitHold :=
  ⟨opts.reason, w.now, w.now + opts.resetInSeconds * 1000⟩

/-- A call in progress. -/
def callOf (w : HoldStore) (callId : ℕ) : Option HoldCall :=
  (w.calls.find? (·.1 = callId)).map (·.2)

/-- A call that ends. -/
def drop (w : HoldStore) (callId : ℕ) : HoldStore :=
  { w with calls := w.calls.filter (·.1 ≠ callId) }

/-- A call that begins. -/
def begin (w : HoldStore) (call : HoldCall) : HoldStore :=
  { w with nextCall := w.nextCall + 1, calls := (w.nextCall, call) :: w.calls }

/-- A call that moves on. -/
def advance (w : HoldStore) (callId : ℕ) (call : HoldCall) : HoldStore :=
  { w.drop callId with calls := (callId, call) :: (w.drop callId).calls }

/-- One step of the store; an event that cannot happen is refused. -/
def step (w : HoldStore) : HoldEvent → Option HoldStore
  | .tick ms => some { w with now := w.now + ms }
  | .hold strategyName opts =>
    -- Account-wide callers pass a reason.
    if opts.modelName = none ∧ opts.reason = none then none
    else if opts.reason = some .perMinuteCooldown then
      some (w.begin (.checking strategyName opts (w.accountRow strategyName)))
    else some (w.begin (.writing ⟨strategyName, opts.modelName⟩ (w.stamped opts)))
  | .check callId =>
    match w.callOf callId with
    | some (.checking strategyName opts row) =>
      if (live w.now row).bind (·.value.reason) = some .daily then some (w.drop callId)
      else some (w.advance callId (.writing ⟨strategyName, opts.modelName⟩ (w.stamped opts)))
    | _ => none
  | .upsert callId =>
    match w.callOf callId with
    | some (.writing key hold) => some { w.drop callId with table := w.table.upsert key hold }
    | _ => none
  | .find strategyName cutoff =>
    if cutoff ≤ w.now then some (w.begin (.clearing (w.expired strategyName cutoff))) else none
  | .remove callId =>
    match w.callOf callId with
    | some (.clearing expired) =>
      some { w.drop callId with table := w.table.remove (expired.map (·.id)) }
    | _ => none
  | .abandon callId => (w.callOf callId).map fun _ => w.drop callId

/-- What one step can do, branch by branch. -/
inductive StepCase (w : HoldStore) : HoldEvent → HoldStore → Prop
  | ticked (ms : ℕ) : StepCase w (.tick ms) { w with now := w.now + ms }
  | read (strategyName : String) (opts : HoldOptions) : opts.reason = some .perMinuteCooldown →
      StepCase w (.hold strategyName opts)
        (w.begin (.checking strategyName opts (w.accountRow strategyName)))
  | stamped (strategyName : String) (opts : HoldOptions) :
      opts.reason ≠ some .perMinuteCooldown → (opts.modelName = none → opts.reason ≠ none) →
      StepCase w (.hold strategyName opts)
        (w.begin (.writing ⟨strategyName, opts.modelName⟩ (w.stamped opts)))
  | deferred (callId : ℕ) : StepCase w (.check callId) (w.drop callId)
  | passed (callId : ℕ) (strategyName : String) (opts : HoldOptions)
      (row : Option (Row HoldKey RateLimitHold)) :
      w.callOf callId = some (.checking strategyName opts row) →
      (live w.now row).bind (·.value.reason) ≠ some .daily →
      StepCase w (.check callId)
        (w.advance callId (.writing ⟨strategyName, opts.modelName⟩ (w.stamped opts)))
  | upserted (callId : ℕ) (key : HoldKey) (hold : RateLimitHold) :
      w.callOf callId = some (.writing key hold) →
      StepCase w (.upsert callId) { w.drop callId with table := w.table.upsert key hold }
  | found (strategyName : Option String) (cutoff : ℕ) : cutoff ≤ w.now →
      StepCase w (.find strategyName cutoff) (w.begin (.clearing (w.expired strategyName cutoff)))
  | removed (callId : ℕ) (expired : List (Row HoldKey RateLimitHold)) :
      w.callOf callId = some (.clearing expired) →
      StepCase w (.remove callId)
        { w.drop callId with table := w.table.remove (expired.map (·.id)) }
  | abandoned (callId : ℕ) : StepCase w (.abandon callId) (w.drop callId)

/-- Every step is one of the branches. -/
theorem step_cases {w w' : HoldStore} {e : HoldEvent} (h : w.step e = some w') :
    StepCase w e w' := by
  cases e with
  | tick ms =>
    cases h
    exact .ticked ms
  | hold strategyName opts =>
    simp only [step] at h
    split at h
    · cases h
    · rename_i hreason
      split at h
      · cases h
        exact .read strategyName opts ‹_›
      · cases h
        exact .stamped strategyName opts ‹_› fun hmodel hnone => hreason ⟨hmodel, hnone⟩
  | check callId =>
    simp only [step] at h
    split at h
    · rename_i hcall
      split at h
      · cases h
        exact .deferred callId
      · cases h
        exact .passed callId _ _ _ hcall ‹_›
    · cases h
  | upsert callId =>
    simp only [step] at h
    split at h
    · cases h
      exact .upserted callId _ _ ‹_›
    · cases h
  | find strategyName cutoff =>
    simp only [step] at h
    split at h
    · cases h
      exact .found strategyName cutoff ‹_›
    · cases h
  | remove callId =>
    simp only [step] at h
    split at h
    · cases h
      exact .removed callId _ ‹_›
    · cases h
  | abandon callId =>
    obtain ⟨call, -, rfl⟩ := Option.map_eq_some_iff.mp h
    exact .abandoned callId

end HoldStore

end Connections
