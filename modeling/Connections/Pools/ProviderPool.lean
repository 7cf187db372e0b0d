import Mathlib.Data.Nat.Notation

/-!
# Provider pools

One row for each LLM provider: its dispatching strategy and, for the free-tier providers, how a
rate-limit hold is scoped, how the daily quota resets and what stops the background dispatcher.
Knobs that the source reads from the environment are not part of a row; the functions that use
them take them as arguments.
-/

namespace Connections

/-- Pool ids, one for each provider. -/
inductive ProviderPoolId
  | google
  | groq
  | openrouter
  | mistral
  | sambanova
  | openai
  | ollama
  | nvidia
  deriving DecidableEq, Repr

/-- Where a rate-limit hold applies: to one model, or to the whole strategy. -/
inductive HoldScope
  | model
  | account
  deriving DecidableEq, Repr

/-- How the daily quota reset is timed. -/
inductive ResetSchedule
  | fixedCron (pattern tz : String)
  | selfRearm (maxDelayMs : ℕ)
  deriving DecidableEq, Repr

/-- What makes the background dispatcher stop for the day. -/
inductive DispatchStop
  | untilHeld
  | accountBudget
  deriving DecidableEq, Repr

/-- The free-tier axes along which the pools differ. -/
structure FreeTierConfig where
  holdScope : HoldScope
  resetSchedule : ResetSchedule
  stop : DispatchStop
  /-- Only a provider without rate-limit headers escalates a streak of hits into a park. -/
  persistentRateLimitPark : Bool
  deriving DecidableEq, Repr

namespace ProviderPoolId

/-- Every pool, the free-tier ones in burn order first. -/
def all : List ProviderPoolId :=
  [google, groq, openrouter, mistral, sambanova, openai, ollama, nvidia]

theorem mem_all (pool : ProviderPoolId) : pool ∈ all := by
  cases pool <;> decide

/-- The dispatching strategy of a pool. -/
def strategyName : ProviderPoolId → String
  | google => "llm-google"
  | groq => "llm-groq"
  | openrouter => "llm-openrouter"
  | mistral => "llm-mistral"
  | sambanova => "llm-sambanova"
  | openai => "llm-openai"
  | ollama => "llm-ollama"
  | nvidia => "llm-nvidia"

/-- The name of the queue a pool's runs ride. -/
def runsQueue : ProviderPoolId → String
  | google => "llm-google-runs"
  | groq => "llm-groq-runs"
  | openrouter => "llm-openrouter-runs"
  | mistral => "llm-mistral-runs"
  | sambanova => "llm-sambanova-runs"
  | openai => "llm-openai-runs"
  | ollama => "llm-ollama-runs"
  | nvidia => "llm-nvidia-runs"

/-- The cap of every self-rearming resume service. -/
def selfRearmMaxDelayMs : ℕ := 15 * 60000

/-- The free-tier row of a pool, when its provider has a free tier. -/
def freeTier : ProviderPoolId → Option FreeTierConfig
  | google => some ⟨.model, .fixedCron "1 0 * * *" "America/Los_Angeles", .untilHeld, false⟩
  | groq => some ⟨.model, .selfRearm selfRearmMaxDelayMs, .untilHeld, false⟩
  | openrouter => some ⟨.account, .fixedCron "5 0 * * *" "UTC", .accountBudget, false⟩
  | mistral => some ⟨.model, .selfRearm selfRearmMaxDelayMs, .untilHeld, true⟩
  | sambanova => some ⟨.model, .selfRearm selfRearmMaxDelayMs, .untilHeld, false⟩
  | openai | ollama | nvidia => none

end ProviderPoolId

/-- The pool of a strategy name, if it is a provider pool. -/
def providerPool (strategyName : String) : Option ProviderPoolId :=
  ProviderPoolId.all.find? (·.strategyName = strategyName)

/-- Looking up a pool's own strategy finds that pool. -/
theorem providerPool_strategyName (pool : ProviderPoolId) :
    providerPool pool.strategyName = some pool := by
  cases pool <;> decide

/-- A pool found for a strategy name dispatches under that name. -/
theorem strategyName_of_providerPool {name : String} {pool : ProviderPoolId}
    (h : providerPool name = some pool) : pool.strategyName = name := by
  simpa using List.find?_some h

/-- The queue that processes a strategy's runs. -/
def queueForStrategy (strategyName : String) : String :=
  match providerPool strategyName with
  | some pool => pool.runsQueue
  | none => "strategy-runs"

end Connections
