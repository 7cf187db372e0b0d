import Connections.Strategy.Resume
import Mathlib.Data.List.Chain

/-!
# Alternating conversations

A request holds whole exchanges and one more turn of the user.  The loop keeps it so whatever a call
comes back with, and a resumed run finds whole exchanges in the request stored with its last call,
in whichever layout the provider had sent it.
-/

namespace Connections

/-- Whole exchanges: a turn of the user and its reply, any number of times. -/
inductive Exchanges : List ChatMessage → Prop
  | nil : Exchanges []
  | snoc {history : List ChatMessage} (prompt reply : String) : Exchanges history →
      Exchanges (history ++ [⟨.user, prompt⟩, ⟨.assistant, reply⟩])

/-- User and assistant take turns, and the user has the first and the last one. -/
structure AwaitsReply (turns : List ChatMessage) : Prop where
  alternates : turns.IsChain fun a b => a.role ≠ b.role
  first : turns.head?.map (·.role) = some .user
  last : turns.getLast?.map (·.role) = some .user

/-- A prompt after whole exchanges awaits its reply. -/
theorem Exchanges.awaitsReply {history : List ChatMessage} (h : Exchanges history)
    (prompt : String) : AwaitsReply (history ++ [⟨.user, prompt⟩]) := by
  induction h generalizing prompt with
  | nil => exact ⟨List.isChain_singleton _, rfl, rfl⟩
  | @snoc history asked reply _ ih =>
    have hsplit : history ++ [⟨.user, asked⟩, ⟨.assistant, reply⟩] ++ [⟨.user, prompt⟩] =
        (history ++ [⟨.user, asked⟩]) ++ [⟨.assistant, reply⟩, ⟨.user, prompt⟩] := by
      simp
    obtain ⟨halternates, hfirst, -⟩ := ih asked
    rw [hsplit]
    refine ⟨halternates.append ?_ ?_, ?_, by simp⟩
    · simp
    · simp
    · rw [List.head?_append_of_ne_nil _ (by simp)]
      exact hfirst

/-! ### Stored requests -/

/-- The layouts in which the providers are sent a conversation, in the order in which they are
tried. -/
inductive TurnLayout
  | messages
  | input
  | contents
  deriving DecidableEq, Repr

namespace TurnLayout

/-- The field that holds the turns. -/
def key : TurnLayout → String
  | messages => "messages"
  | input => "input"
  | contents => "contents"

/-- The field of a turn that holds its content. -/
def contentKey : TurnLayout → String
  | contents => "parts"
  | _ => "content"

/-- What the assistant is called. -/
def assistantRole : TurnLayout → String
  | contents => "model"
  | _ => "assistant"

def roleName (layout : TurnLayout) : ChatRole → String
  | .user => "user"
  | .assistant => layout.assistantRole

end TurnLayout

/-- A content is stored as one text, or as parts that make it up. -/
inductive EncodesContent (content : String) : Json → Prop
  | text : EncodesContent content (.str content)
  | parts {parts : List Json} {texts : List String} :
      List.Forall₂ (fun (part : Json) text => part.field "text" = some (.str text)) parts texts →
      String.join texts = content → EncodesContent content (.arr parts)

/-- A stored turn; its object can have further fields. -/
structure EncodesTurn (layout : TurnLayout) (item : Json) (turn : ChatMessage) : Prop where
  role : item.field "role" = some (.str (layout.roleName turn.role))
  content : ∃ content, item.field layout.contentKey = some content ∧
    EncodesContent turn.content content

/-- A stored request encodes some turns: in the field of one layout, without the field of a layout
that is tried before it. -/
structure Encodes (body : Json) (turns : List ChatMessage) : Prop where
  encoded : ∃ layout items, body.field (TurnLayout.key layout) = some (.arr items) ∧
    List.Forall₂ (EncodesTurn layout) items turns ∧
    (layout ≠ .messages → body.field (TurnLayout.key .messages) = none) ∧
    (layout = .contents → body.field (TurnLayout.key .input) = none)

/-- The request of a layout that stores every content as one part. -/
def encodeTurns (layout : TurnLayout) (turns : List ChatMessage) : Json :=
  .obj [(layout.key, .arr (turns.map fun turn => .obj
    [("role", .str (layout.roleName turn.role)),
      (layout.contentKey, .arr [.obj [("text", .str turn.content)]])]))]

/-- The encoding of a layout is one that the layout allows. -/
theorem encodes_encodeTurns (layout : TurnLayout) (turns : List ChatMessage) :
    Encodes (encodeTurns layout turns) turns := by
  refine ⟨layout, _, by simp [encodeTurns, Json.field]; rfl, ?_, ?_, ?_⟩
  · rw [List.forall₂_map_left_iff, List.forall₂_same]
    intro turn _
    have hkey : ("role" = layout.contentKey) = False := by
      cases layout <;> simp [TurnLayout.contentKey]
    have hparts : List.Forall₂ (fun (part : Json) text => part.field "text" = some (.str text))
        [.obj [("text", .str turn.content)]] [turn.content] := .cons (by simp [Json.field]) .nil
    refine ⟨by simp [Json.field], _, by simp [Json.field, hkey], .parts hparts ?_⟩
    simp [String.join]
  · intro hlayout
    cases layout <;> simp_all [encodeTurns, Json.field, TurnLayout.key]
  · rintro rfl
    simp [encodeTurns, Json.field, TurnLayout.key]

/-- A list can be read if each of its items can. -/
theorem mapM_eq_some_of_forall₂ {α β : Type} {R : α → β → Prop} {f : α → Option β} {as : List α}
    {bs : List β} (h : List.Forall₂ R as bs) (hf : ∀ a b, R a b → f a = some b) :
    as.mapM f = some bs := by
  induction h with
  | nil => rfl
  | cons hab _ ih =>
    rw [List.mapM_cons, hf _ _ hab, ih]
    rfl

/-- The text of a turn is found in its content. -/
theorem turnContent_of_encodes {content : String} {raw : Json} (h : EncodesContent content raw) :
    turnContent raw = some content := by
  cases h with
  | text => rfl
  | @parts parts texts hparts hjoin =>
    have htexts : parts.mapM (fun (part : Json) => (part.field "text").bind Json.str?) =
        some texts := by
      refine mapM_eq_some_of_forall₂ hparts fun part text htext => ?_
      rw [htext]
      rfl
    rw [turnContent, htexts, ← hjoin]
    rfl

/-- A turn that a layout encodes is read back. -/
theorem normalizeTurn_of_encodes {layout : TurnLayout} {item : Json} {turn : ChatMessage}
    (h : EncodesTurn layout item turn) :
    normalizeTurn layout.contentKey layout.assistantRole item = some turn := by
  obtain ⟨role, text⟩ := turn
  obtain ⟨raw, hraw, hcontent⟩ := h.content
  have hrole := h.role
  simp only [normalizeTurn, hrole, hraw, Option.bind_some, Json.str?,
    turnContent_of_encodes hcontent, Option.pure_def, Option.bind_eq_bind]
  cases role with
  | user => simp [TurnLayout.roleName]
  | assistant => cases layout <;> simp [TurnLayout.roleName, TurnLayout.assistantRole]

/-- A stored request gives its turns back, without the last one. -/
theorem reconstructMessages_of_encodes {body : Json} {turns : List ChatMessage}
    (h : Encodes body turns) : reconstructMessages (some body) = turns.dropLast := by
  obtain ⟨layout, items, hfield, hitems, hmessages, hinput⟩ := h.encoded
  have hturns : normalizeTurns (body.field layout.key) layout.contentKey layout.assistantRole =
      some turns := by
    rw [normalizeTurns, hfield]
    exact mapM_eq_some_of_forall₂ hitems fun item turn => normalizeTurn_of_encodes
  have habsent : ∀ contentKey assistantRole, normalizeTurns none contentKey assistantRole = none :=
    fun _ _ => rfl
  cases layout with
  | messages =>
    simp only [TurnLayout.key, TurnLayout.contentKey, TurnLayout.assistantRole] at hturns
    simp [reconstructMessages, hturns]
  | input =>
    have hnone := hmessages (by decide)
    simp only [TurnLayout.key, TurnLayout.contentKey, TurnLayout.assistantRole] at hturns hnone
    simp [reconstructMessages, hturns, hnone, habsent]
  | contents =>
    have hnone := hmessages (by decide)
    have hnone' := hinput rfl
    simp only [TurnLayout.key, TurnLayout.contentKey, TurnLayout.assistantRole]
      at hturns hnone hnone'
    simp [reconstructMessages, hturns, hnone, hnone', habsent]

/-! ### The loop and its restarts -/

/-- The turns that a loop sends with its next call. -/
def RunLoop.request (loop : RunLoop) : List ChatMessage :=
  loop.messages ++ [⟨.user, loop.prompt⟩]

/-- The request body that a call leaves behind. -/
def SolveStepOutcome.requestBody : SolveStepOutcome → Option Json
  | ok data => data.requestBody
  | error failure => failure.requestBody

section Loop

variable {text : TextOps} {limits : RunLimits} {loop next : RunLoop} {now : ℕ}
  {reservation : Option ℕ} {outcome : SolveStepOutcome} {batch : FlushBatch}
  {holds : List HoldRequest}

variable (text limits loop now) in

/-- A reply that is handled becomes the last turn of the conversation. -/
theorem handleReply_messages (promptType : SolvePromptType) (request : List ChatMessage)
    (data : SolveStepSuccess) : ∃ reply,
    (handleReply text limits loop now promptType request data).1.messages =
      request ++ [⟨.assistant, reply⟩] :=
  ⟨_, rfl⟩

/-- What a call stores of its request is the request itself. -/
theorem handleReply_prompts (promptType : SolvePromptType) (request : List ChatMessage)
    (data : SolveStepSuccess) :
    ∀ prompt ∈ (handleReply text limits loop now promptType request data).2.prompts,
      prompt.promptText = transcriptText request ∧ prompt.requestBody = data.requestBody := by
  unfold handleReply
  simp only
  split
  · intro prompt hprompt
    rw [List.mem_singleton.mp hprompt]
    exact ⟨rfl, rfl⟩
  · intro prompt hprompt
    rw [List.mem_singleton.mp hprompt]
    exact ⟨rfl, rfl⟩

/-- A reply closes the exchange, and a failed call takes its prompt back. -/
theorem runIteration_messages
    (h : runIteration text limits loop now reservation outcome = .flush next batch holds) :
    next.messages = loop.messages ∨
      ∃ reply, next.messages = loop.messages ++ [⟨.user, loop.prompt⟩, ⟨.assistant, reply⟩] := by
  unfold runIteration at h
  split at h
  · cases h
  · cases outcome with
    | ok data =>
      cases h
      obtain ⟨reply, hreply⟩ := handleReply_messages text limits loop now
        (if loop.state.lastFailedGuess.isSome then .retry else .initialSolve) loop.request data
      exact .inr ⟨reply, hreply.trans (List.append_assoc _ _ _)⟩
    | error failure =>
      cases h
      exact .inl rfl

/-- Every row of a call holds the request that was sent. -/
theorem runIteration_prompts
    (h : runIteration text limits loop now reservation outcome = .flush next batch holds) :
    ∀ prompt ∈ batch.prompts, prompt.promptText = transcriptText loop.request ∧
      prompt.requestBody = outcome.requestBody := by
  unfold runIteration at h
  split at h
  · cases h
  · cases outcome with
    | ok data =>
      cases h
      exact handleReply_prompts _ loop.request data
    | error failure =>
      cases h
      intro prompt hprompt
      rw [List.mem_singleton.mp hprompt]
      exact ⟨rfl, rfl⟩

end Loop

namespace RunWorld

section Runs

variable {text : TextOps} {limits : RunLimits} {puzzle : Puzzle} {strategyName : String}
  {runId trialNumber : ℕ}

/-- A call leaves no request body behind, or one that encodes the turns it was sent. -/
def keepsSentTurns (w : RunWorld) : RunEvent → Prop
  | .iterate _ _ outcome => ∀ loop body, w.worker = some (.looping loop) →
      outcome.requestBody = some body → Encodes body loop.request
  | _ => True

/-- The loop holds whole exchanges, and so does every stored request but for its last turn. -/
structure Alternating (w : RunWorld) : Prop where
  loop : ∀ loop, w.worker = some (.looping loop) → Exchanges loop.messages
  stored : ∀ rows, w.rows = some rows → ∀ prompt ∈ rows.prompts, ∀ body,
    prompt.requestBody = some body → Exchanges (reconstructMessages (some body))

theorem alternating_fresh : Alternating fresh where
  loop := by simp [fresh]
  stored := by simp [fresh]

/-- The body found is that of a stored prompt. -/
theorem latestRequestBody_mem {prompts : List SolvePrompt} {body : Json}
    (h : latestRequestBody prompts = some body) :
    ∃ prompt ∈ prompts, prompt.requestBody = some body := by
  obtain ⟨prompt, hhead, hbody⟩ := Option.bind_eq_some_iff.mp h
  exact ⟨prompt, (List.mem_insertionSort _).mp (List.mem_of_mem_head? hhead), hbody⟩

/-- A resumed run starts with whole exchanges. -/
theorem Alternating.rebuilt {w : RunWorld} (h : Alternating w) {rows : RunRows}
    (hrows : w.rows = some rows) :
    Exchanges (reconstructMessages (latestRequestBody rows.prompts)) := by
  cases hbody : latestRequestBody rows.prompts with
  | none => exact .nil
  | some body =>
    obtain ⟨prompt, hprompt, hstored⟩ := latestRequestBody_mem hbody
    exact h.stored rows hrows prompt hprompt body hstored

/-- A step of a run whose calls keep their turns keeps the conversation alternating. -/
theorem step_alternating {w w' : RunWorld} {e : RunEvent} (h : Alternating w)
    (hkeeps : keepsSentTurns w e)
    (hstep : step text limits puzzle strategyName runId trialNumber w e = some w') :
    Alternating w' := by
  cases step_cases hstep with
  | created now model contextWindow budgetTier manualRetry maxOutputTokens hworker hrows =>
    refine ⟨by simp, ?_⟩
    rintro rows ⟨⟩
    simp
  | loaded => exact ⟨by simp, h.stored⟩
  | enteredTerminal => exact ⟨by simp, h.stored⟩
  | enteredHeld rows run model manualRetry maxOutputTokens now held hworker hrows =>
    refine ⟨by simp, ?_⟩
    rintro _ ⟨⟩
    exact h.stored rows hrows
  | enteredLoop rows run model manualRetry maxOutputTokens now held hworker hrows =>
    refine ⟨?_, h.stored⟩
    rintro _ ⟨⟩
    exact h.rebuilt hrows
  | parked rows loop now reservation outcome run hworker hrows =>
    refine ⟨by simp, ?_⟩
    rintro _ ⟨⟩
    exact h.stored rows hrows
  | flushed rows loop next batch holds now reservation outcome hworker hrows hflush =>
    have hloop := h.loop loop hworker
    constructor
    · intro after hafter
      cases (worker_flushed hafter).2
      rcases runIteration_messages hflush with hsame | ⟨reply, hmore⟩
      · exact hsame ▸ hloop
      · exact hmore ▸ hloop.snoc _ _
    · rintro _ ⟨⟩ prompt hprompt body hbody
      rcases List.mem_append.mp hprompt with hprompt | hprompt
      · exact h.stored rows hrows prompt hprompt body hbody
      · have hsent := (runIteration_prompts hflush prompt hprompt).2
        rw [reconstructMessages_of_encodes (hkeeps loop body hworker (hsent ▸ hbody)),
          RunLoop.request, List.dropLast_concat]
        exact hloop
  | crashed => exact ⟨by simp, h.stored⟩
  | flipped rows run e hworker hrows =>
    refine ⟨by simp [hworker], ?_⟩
    rintro _ ⟨⟩
    exact h.stored rows hrows

/-- Every request of a run awaits its reply, also after resumes, and what its call leaves behind
gives back exactly the turns before the last one. -/
theorem requests_alternate {w : RunWorld} {loop : RunLoop}
    (hrun : Run.Reaches (step text limits puzzle strategyName runId trialNumber) keepsSentTurns
      fresh w)
    (hworker : w.worker = some (.looping loop)) :
    AwaitsReply loop.request ∧
      ∀ now reservation outcome next batch holds,
        keepsSentTurns w (.iterate now reservation outcome) →
        runIteration text limits loop now reservation outcome = .flush next batch holds →
        ∀ prompt ∈ batch.prompts, prompt.promptText = transcriptText loop.request ∧
          ∀ body, prompt.requestBody = some body →
            reconstructMessages (some body) = loop.request.dropLast := by
  have halternating : Alternating w :=
    hrun.invariant alternating_fresh fun _ _ _ hinv hkeeps hstep =>
      step_alternating hinv hkeeps hstep
  refine ⟨(halternating.loop loop hworker).awaitsReply loop.prompt, ?_⟩
  intro now reservation outcome next batch holds hkeeps hflush prompt hprompt
  obtain ⟨htext, hsent⟩ := runIteration_prompts hflush prompt hprompt
  refine ⟨htext, fun body hbody => ?_⟩
  exact reconstructMessages_of_encodes (hkeeps loop body hworker (hsent ▸ hbody))

/-- A call that failed, with the request it was sent in the layout of one provider. -/
def failedCall (body : Json) : SolveStepOutcome :=
  .error { error := "503", code := .modelError, requestBody := some body, statusCode := some 503
           errorName := none, isRetryable := none, retryAfterSeconds := none
           dailyResetSeconds := none, usage := none }

/-- A run whose second call fails, and which goes on from the request stored with it. -/
theorem resumed_request_awaits_reply :
    ∃ (w : RunWorld) (loop : RunLoop), w.worker = some (.looping loop) ∧
      loop.messages.length = 2 ∧ AwaitsReply loop.request := by
  let advance := step asciiText defaultLimits insectsAndTrees "llm-google" 1 1
  let before : List RunEvent :=
    [.load 0 (some "gemini-2.5-flash") none none false none, .enter 0 false,
      .iterate 1 none (plainReply [["ANT", "BEE", "FLY", "OAK"]])]
  let sent := ((Run.exec advance Run.always fresh before).bind (·.loop?)).map (·.request)
  let body := encodeTurns .contents (sent.getD [])
  let events := before ++ [.iterate 2 none (failedCall body), .crash,
    .load 3 (some "gemini-2.5-flash") none none false none, .enter 3 false]
  have hlast : ((Run.exec advance Run.always fresh events).bind (·.loop?)).map
      (·.messages.length) = some 2 := by decide
  obtain ⟨loop, hloop, hlength⟩ := Option.map_eq_some_iff.mp hlast
  obtain ⟨w, hexec, hw⟩ := Option.bind_eq_some_iff.mp hloop
  have hrun : Run.Reaches advance keepsSentTurns fresh w := by
    refine Run.exec_reaches_of hexec fun i v e hv he => ?_
    rcases i with _ | _ | _ | _ | _ | _ | _ | i <;> cases he <;> try trivial
    · intro other other' _ hnone
      cases hnone
    · intro other other' hworker hbody
      cases hbody
      have hsent : sent = some other.request := by
        have hloop : v.loop? = some other := by rw [loop?, hworker]
        have hbefore : Run.exec advance Run.always fresh before = some v := hv
        simp only [sent, hbefore, Option.bind_some, hloop, Option.map_some]
      have hturns : sent.getD [] = other.request := by rw [hsent, Option.getD_some]
      exact hturns ▸ encodes_encodeTurns .contents (sent.getD [])
  exact ⟨w, loop, loop?_eq_some.mp hw, hlength, (requests_alternate hrun (loop?_eq_some.mp hw)).1⟩

end Runs

end RunWorld

end Connections
