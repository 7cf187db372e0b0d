import Connections.Strategy.Alternation

/-!
# The bound on a request's input tokens

A budgeted run reserves the worst case of a call before it makes it.  The bound takes the part of
the conversation that an earlier reply reported at that figure and the rest by its bytes.  A known
prefix stays a prefix while the conversation grows, so the bound holds before every call.
-/

namespace Connections

/-- How a provider counts the input tokens of a request: an overhead for the request, and for each
message its framing and its text, which has at most a token for each byte. -/
structure TokenCount where
  requestOverhead : ℕ
  messageOverhead : ChatMessage → ℕ
  textTokens : ChatMessage → ℕ
  requestOverhead_le : requestOverhead ≤ requestOverheadTokens
  messageOverhead_le : ∀ message, messageOverhead message ≤ perMessageOverheadTokens
  textTokens_le : ∀ message, textTokens message ≤ message.content.utf8ByteSize

namespace TokenCount

variable (count : TokenCount)

/-- The tokens of one message. -/
def message (message : ChatMessage) : ℕ :=
  count.messageOverhead message + count.textTokens message

/-- The tokens of a request. -/
def request (messages : List ChatMessage) : ℕ :=
  count.requestOverhead + (messages.map count.message).sum

theorem message_le (message : ChatMessage) :
    count.message message ≤ message.content.utf8ByteSize + perMessageOverheadTokens := by
  have hoverhead := count.messageOverhead_le message
  have htext := count.textTokens_le message
  unfold TokenCount.message
  omega

theorem request_append (messages more : List ChatMessage) :
    count.request (messages ++ more) = count.request messages + (more.map count.message).sum := by
  simp only [request, List.map_append, List.sum_append]
  omega

/-- What a request costs after its first messages is bounded by bytes. -/
theorem sum_message_le (messages : List ChatMessage) :
    (messages.map count.message).sum ≤
      (messages.map fun m => m.content.utf8ByteSize + perMessageOverheadTokens).sum := by
  induction messages with
  | nil => exact Nat.le_refl 0
  | cons message messages ih =>
    have hmessage := count.message_le message
    simp only [List.map_cons, List.sum_cons]
    omega

end TokenCount

/-- A known part describes a conversation when it covers a prefix of it at no less than its
cost. -/
structure KnownPrefix.Describes (known : KnownPrefix) (count : TokenCount)
    (messages : List ChatMessage) : Prop where
  covers : known.messageCount ≤ messages.length
  cost : count.request (messages.take known.messageCount) ≤ known.tokens

section Bound

variable {count : TokenCount} {known : KnownPrefix} {messages : List ChatMessage}

/-- A prefix of a conversation stays one when the conversation goes on. -/
theorem KnownPrefix.Describes.append (h : known.Describes count messages)
    (more : List ChatMessage) : known.Describes count (messages ++ more) where
  covers := by
    have hcovers := h.covers
    rw [List.length_append]
    omega
  cost := by
    rw [List.take_append_of_le_length h.covers]
    exact h.cost

/-- A reply that reports its request's tokens describes the conversation through it. -/
theorem knownPrefixAfterReply_describes (count : TokenCount) (request : List ChatMessage)
    (assistantContent : String) :
    (knownPrefixAfterReply request.length (count.request request) assistantContent).Describes count
      (request ++ [⟨.assistant, assistantContent⟩]) where
  covers := by simp [knownPrefixAfterReply]
  cost := by
    have hreply := count.message_le (ChatMessage.mk .assistant assistantContent)
    have hall : (request ++ [ChatMessage.mk .assistant assistantContent]).take
        (request.length + 1) = request ++ [ChatMessage.mk .assistant assistantContent] :=
      List.take_of_length_le (by simp)
    simp only [knownPrefixAfterReply, hall, count.request_append, List.map_singleton,
      List.sum_singleton]
    simp only at hreply
    omega

/-- The bound is sound for every conversation that the known part describes. -/
theorem request_le_inputTokenUpperBound {known : Option KnownPrefix}
    (h : ∀ k, known = some k → k.Describes count messages) :
    count.request messages ≤ inputTokenUpperBound messages known := by
  have hbytes := count.sum_message_le messages
  have hoverhead := count.requestOverhead_le
  cases known with
  | none =>
    simp only [inputTokenUpperBound, TokenCount.request, List.drop_zero]
    omega
  | some k =>
    have hdescribes := h k rfl
    have hcost := hdescribes.cost
    have hrest := count.sum_message_le (messages.drop k.messageCount)
    have hsplit := count.request_append (messages.take k.messageCount)
      (messages.drop k.messageCount)
    rw [List.take_append_drop] at hsplit
    simp only [inputTokenUpperBound, hdescribes.covers, ↓reduceIte]
    omega

end Bound

section Loop

variable {text : TextOps} {limits : RunLimits} {loop next : RunLoop} {now : ℕ}
  {reservation : Option ℕ} {outcome : SolveStepOutcome} {batch : FlushBatch}
  {holds : List HoldRequest}

/-- The tokens that a reply reports are the ones that the provider counted for its request. -/
def SolveStepOutcome.ReportsTokens (outcome : SolveStepOutcome) (count : TokenCount)
    (request : List ChatMessage) : Prop :=
  ∀ data usage, outcome = .ok data → data.usage = some usage →
    usage.promptTokens = count.request request

variable (text limits loop now) in
theorem handleReply_knownPrefix (promptType : SolvePromptType) (request : List ChatMessage)
    (data : SolveStepSuccess) :
    let next := (handleReply text limits loop now promptType request data).1
    ∃ content, next.messages = request ++ [⟨.assistant, content⟩] ∧
      next.knownPrefix = match data.usage with
        | some usage => some (knownPrefixAfterReply request.length usage.promptTokens content)
        | none => loop.knownPrefix :=
  ⟨_, rfl, rfl⟩

/-- What an iteration leaves known describes what it leaves of the conversation. -/
theorem runIteration_knownPrefix {count : TokenCount}
    (hknown : ∀ k, loop.knownPrefix = some k → k.Describes count loop.messages)
    (hreports : outcome.ReportsTokens count loop.request)
    (h : runIteration text limits loop now reservation outcome = .flush next batch holds) :
    ∀ k, next.knownPrefix = some k → k.Describes count next.messages := by
  unfold runIteration at h
  split at h
  · cases h
  · cases outcome with
    | ok data =>
      simp only at h
      generalize (if loop.state.lastFailedGuess.isSome = true then SolvePromptType.retry
        else .initialSolve) = promptType at h
      obtain ⟨content, hmessages, hknownPrefix⟩ :=
        handleReply_knownPrefix text limits loop now promptType loop.request data
      cases h
      intro k hk
      change (handleReply text limits loop now promptType loop.request data).1.knownPrefix =
        some k at hk
      change k.Describes count
        (handleReply text limits loop now promptType loop.request data).1.messages
      rw [hmessages]
      rw [hknownPrefix] at hk
      cases husage : data.usage with
      | some usage =>
        rw [husage] at hk
        cases hk
        rw [hreports data usage rfl husage]
        exact knownPrefixAfterReply_describes count loop.request content
      | none =>
        rw [husage] at hk
        exact ((hknown k hk).append _).append _
    | error failure =>
      cases h
      exact hknown

end Loop

namespace RunWorld

section Runs

variable {text : TextOps} {limits : RunLimits} {puzzle : Puzzle} {strategyName : String}
  {runId trialNumber : ℕ} {count : TokenCount}

/-- Every reply that reports tokens reports the provider's own count of the messages it got. -/
def reportsTokens (count : TokenCount) (w : RunWorld) : RunEvent → Prop
  | .iterate _ _ outcome => ∀ loop, w.worker = some (.looping loop) →
      outcome.ReportsTokens count loop.request
  | _ => True

/-- What a live loop knows describes its conversation. -/
def PrefixDescribed (count : TokenCount) (w : RunWorld) : Prop :=
  ∀ loop, w.worker = some (.looping loop) →
    ∀ k, loop.knownPrefix = some k → k.Describes count loop.messages

/-- Every step keeps what is known a prefix of the conversation. -/
theorem step_prefixDescribed {w w' : RunWorld} {e : RunEvent} (h : PrefixDescribed count w)
    (hreports : reportsTokens count w e)
    (hstep : step text limits puzzle strategyName runId trialNumber w e = some w') :
    PrefixDescribed count w' := by
  intro loop hworker
  cases step_cases hstep with
  | created => cases hworker
  | loaded => cases hworker
  | enteredTerminal => cases hworker
  | enteredHeld => cases hworker
  | enteredLoop =>
    -- A resumed run knows nothing about its history.
    cases hworker
    intro k hk
    cases hk
  | parked => cases hworker
  | flushed rows before next batch holds now reservation outcome hbefore hrows hflush =>
    cases (worker_flushed hworker).2
    have hnext := runIteration_knownPrefix (h before hbefore) (hreports before hbefore) hflush
    exact hnext
  | crashed => cases hworker
  | flipped rows run _ hnone => exact absurd hworker (by simp [hnone])

/-- Before every call of every run, whatever history it was resumed from, what is known is a prefix
of the messages to be sent at no less than its cost, and the bound is at least what the provider
counts for them. -/
theorem inputTokenUpperBound_sound {before w : RunWorld} {loop : RunLoop}
    (hidle : before.worker = none)
    (hrun : Run.Reaches (step text limits puzzle strategyName runId trialNumber)
      (reportsTokens count) before w)
    (hworker : w.worker = some (.looping loop)) :
    (∀ k, loop.knownPrefix = some k → k.messageCount ≤ loop.messages.length ∧
        count.request (loop.request.take k.messageCount) ≤ k.tokens) ∧
      count.request loop.request ≤ inputTokenUpperBound loop.request loop.knownPrefix := by
  have hfirst : PrefixDescribed count before := by
    intro loop hloop
    rw [hidle] at hloop
    cases hloop
  have hknown := hrun.invariant hfirst (fun _ _ _ hinv hreports hstep =>
    step_prefixDescribed hinv hreports hstep) loop hworker
  have hrequest : ∀ k, loop.knownPrefix = some k → k.Describes count loop.request :=
    fun k hk => (hknown k hk).append _
  exact ⟨fun k hk => ⟨(hknown k hk).covers, (hrequest k hk).cost⟩,
    request_le_inputTokenUpperBound hrequest⟩

/-- A provider that counts every byte as a token. -/
def byteTokens : TokenCount where
  requestOverhead := requestOverheadTokens
  messageOverhead _ := perMessageOverheadTokens
  textTokens message := message.content.utf8ByteSize
  requestOverhead_le := Nat.le_refl _
  messageOverhead_le _ := Nat.le_refl _
  textTokens_le _ := Nat.le_refl _

/-- A reply that reports the tokens of its request. -/
def reportingReply (proposals : List (List String)) (promptTokens : ℕ) : SolveStepOutcome :=
  .ok { response := "", groups := proposals, proposalWords := proposals.map some
        categoryByGroup := [], textIssues := [], model := "gpt-5-mini", contextWindow := none
        latencyMs := 0, usage := some ⟨promptTokens, 0, promptTokens, none⟩, requestBody := none }

theorem reportingReply_reports {proposals : List (List String)} {promptTokens : ℕ}
    {request : List ChatMessage} (h : promptTokens = count.request request) :
    (reportingReply proposals promptTokens).ReportsTokens count request := by
  intro data usage hdata husage
  cases hdata
  cases husage
  exact h

/-- A run that goes on after a reply that reported its tokens. -/
theorem inputTokenUpperBound_sound_after_reply :
    ∃ (w : RunWorld) (loop : RunLoop), w.worker = some (.looping loop) ∧
      loop.knownPrefix.map (·.messageCount) = some 2 ∧
      byteTokens.request loop.request ≤ inputTokenUpperBound loop.request loop.knownPrefix := by
  let advance := step asciiText defaultLimits insectsAndTrees "llm-openai" 1 1
  let before : List RunEvent :=
    [.load 0 (some "gpt-5-mini") none none false none, .enter 0 false]
  let sent := ((Run.exec advance Run.always fresh before).bind (·.loop?)).map (·.request)
  let reply := reportingReply [["ANT", "BEE", "FLY", "OAK"]] (byteTokens.request (sent.getD []))
  have hlast : ((Run.exec advance Run.always fresh (before ++ [.iterate 1 none reply])).bind
      (·.loop?)).map (fun loop => loop.knownPrefix.map (·.messageCount)) = some (some 2) := by
    decide
  obtain ⟨loop, hloop, hcount⟩ := Option.map_eq_some_iff.mp hlast
  obtain ⟨w, hexec, hw⟩ := Option.bind_eq_some_iff.mp hloop
  have hrun : Run.Reaches advance (reportsTokens byteTokens) fresh w := by
    refine Run.exec_reaches_of hexec fun i v e hv he => ?_
    rcases i with _ | _ | _ | i <;> cases he <;> try trivial
    intro other hworker
    have hbefore : Run.exec advance Run.always fresh before = some v := hv
    have hother : v.loop? = some other := loop?_eq_some.mpr hworker
    have hsent : sent = some other.request := by
      simp only [sent, hbefore, Option.bind_some, hother, Option.map_some]
    refine reportingReply_reports ?_
    rw [hsent, Option.getD_some]
  exact ⟨w, loop, loop?_eq_some.mp hw, hcount,
    (inputTokenUpperBound_sound rfl hrun (loop?_eq_some.mp hw)).2⟩

end Runs

end RunWorld

end Connections
