import Connections.Strategy.Entities
import Mathlib.Algebra.GroupWithZero.Nat
import Mathlib.Data.String.Basic

/-!
# The conversation of a run

Prompts, the transcript stored with a call, the history rebuilt from a stored request, and the
bound on a request's input tokens.
-/

namespace Connections

/-- Who speaks in a turn. -/
inductive ChatRole
  | user
  | assistant
  deriving DecidableEq, Repr

/-- One turn of a conversation. -/
structure ChatMessage where
  role : ChatRole
  content : String
  deriving DecidableEq, Repr

/-- A JSON value.  A number is the double `mantissa * 2 ^ exponent`. -/
inductive Json
  | null
  | bool (b : Bool)
  | num (mantissa exponent : ℤ)
  | str (s : String)
  | arr (items : List Json)
  | obj (fields : List (String × Json))

namespace Json

/-- A field of an object; anything else has none. -/
def field (key : String) : Json → Option Json
  | obj fields => (fields.find? (·.1 = key)).map (·.2)
  | _ => none

/-- A text value. -/
def str? : Json → Option String
  | str s => some s
  | _ => none

/-- The items of an array value. -/
def arr? : Json → Option (List Json)
  | arr items => some items
  | _ => none

end Json

/-- A number of groups, given in quarters, as it is printed: a board whose size is no multiple of
the group size has a fraction. -/
def groupCountText (quarters : ℕ) : String :=
  let fraction :=
    match quarters % 4 with
    | 0 => ""
    | 1 => ".25"
    | 2 => ".5"
    | _ => ".75"
  toString (quarters / 4) ++ fraction

/-- The lines of the answer format that both prompts end with, for the whole groups. -/
def answerFormatLines (n : ℕ) : List String :=
  ["Then produce your final answer using EXACTLY the format below. Output nothing before " ++
      "### GROUPS and nothing after the last line of ### ANSWER.",
    "", "### GROUPS"] ++
    (List.range n).map (fun i => s!"#### Group {i + 1}\nCategory: <short category name>\n" ++
      "Words: <ITEM1>, <ITEM2>, <ITEM3>, <ITEM4>\n") ++
    ["### ANSWER"] ++ List.replicate n "<ITEM1>, <ITEM2>, <ITEM3>, <ITEM4>"

/-- The prompt that opens a conversation; the number of groups is given in quarters. -/
def buildInitialPrompt (items : List String) (quarters : ℕ) : String :=
  "\n".intercalate (
    ["You are an expert solver for the NYT Connections puzzle.", "", "Task:",
      s!"Analyze the {quarters} provided items and group them into exactly " ++
        groupCountText quarters ++ " distinct sets of 4 items each, where every set shares a " ++
          "clear, logical category or connection.",
      "", "Items:", ", ".intercalate items, "", "Rules:",
      "1. Use EVERY item from the list above EXACTLY ONCE.",
      "2. Do NOT add new words, alter spellings, or substitute items.",
      "3. Every group MUST contain EXACTLY 4 items.", ""] ++ answerFormatLines (quarters / 4))

/-- A guess that failed, with the wording of its result. -/
structure FailedGuess where
  items : List String
  result : String
  deriving DecidableEq, Repr

/-- The prompt that follows a failed guess.  The result is one of the two wordings the runner
writes, both already in lower case. -/
def buildRetryPrompt (remainingItems : List String) (lockedInGroups : List (List String))
    (lastFailedGuess : FailedGuess) (quarters : ℕ) : String :=
  let guess := ", ".intercalate lastFailedGuess.items
  "\n".intercalate (
    ["You are an expert solver for the NYT Connections puzzle.", "",
      "Feedback on Previous Guess:", s!"- Guess submitted: {guess}",
      s!"- Result: {lastFailedGuess.result}",
      "- Guidance: " ++
        if lastFailedGuess.result = "one away" ∨ lastFailedGuess.result = "offby1" then
          "Exactly 3 of these 4 items belong together in a category, but 1 item does not belong."
        else "These 4 items do NOT all belong to the same category."] ++
    (if lockedInGroups.isEmpty then []
      else ["", "Already Solved Groups (Do NOT include these items in your proposals):"] ++
        lockedInGroups.mapIdx fun idx group =>
          s!"- Solved Group {idx + 1}: " ++ ", ".intercalate group) ++
    ["", "Task:",
      s!"Analyze the remaining {quarters} items and group them into exactly " ++
        groupCountText quarters ++ " distinct sets of 4 items each.",
      "", "Remaining Items:", ", ".intercalate remainingItems, "", "Rules:",
      "1. Use EVERY item from the remaining list above EXACTLY ONCE.",
      s!"2. Do NOT re-submit the failed guess ({guess}).",
      "3. Do NOT use items from the already solved groups.",
      "4. Every group MUST contain EXACTLY 4 items.", ""] ++ answerFormatLines (quarters / 4))

/-- The transcript stored with a call. -/
def transcriptText (messages : List ChatMessage) : String :=
  "\n\n".intercalate (messages.map fun m =>
    "[" ++ (match m.role with | .user => "User" | .assistant => "Assistant") ++ "]\n" ++ m.content)

/-- The category of a group number, from the last entry for it. -/
def categoryOf (categoryMap : List (ℕ × String)) (groupNum : ℕ) : Option String :=
  (categoryMap.reverse.find? (·.1 = groupNum)).map (·.2)

/-- The compact restatement of a reply that held several answer attempts; a hole for a group that
failed to parse is skipped. -/
def formatCompactAnswer (proposalWords : List (Option (List String)))
    (categoryMap : List (ℕ × String)) : String :=
  let groups := (proposalWords.mapIdx fun index words => words.map (index + 1, ·)).filterMap id
  let groupsSection := "\n\n".intercalate (groups.map fun (groupNum, words) =>
    s!"Group {groupNum}\n" ++
      (match categoryOf categoryMap groupNum with
        | some category => if category = "" then "" else "Category: " ++ category ++ "\n"
        | none => "") ++
      "Words: " ++ ", ".intercalate words)
  let answerSection := "\n".intercalate (groups.map fun (_, words) => ", ".intercalate words)
  "### GROUPS\n" ++ groupsSection ++ "\n\n### ANSWER\n" ++ answerSection

section Reconstruction

/-- The content of a stored turn: a plain text, or a list of parts that each carry one. -/
def turnContent (rawContent : Json) : Option String :=
  match rawContent with
  | .str s => some s
  | .arr parts =>
    (parts.mapM fun (part : Json) => (part.field "text").bind Json.str?).map (String.join ·)
  | _ => none

/-- One stored turn in a provider's layout, or nothing when it has another shape. -/
def normalizeTurn (contentKey assistantRole : String) (item : Json) : Option ChatMessage := do
  let rawRole ← (item.field "role").bind Json.str?
  let role ← if rawRole = "user" then some ChatRole.user
    else if rawRole = assistantRole then some ChatRole.assistant else none
  let content ← (item.field contentKey).bind turnContent
  return ⟨role, content⟩

/-- The stored turns of a request in a provider's layout. -/
def normalizeTurns (value : Option Json) (contentKey assistantRole : String) :
    Option (List ChatMessage) :=
  (value.bind Json.arr?).bind fun items => items.mapM (normalizeTurn contentKey assistantRole)

/-- The history that a resumed run starts with: the turns of its last request without the final
user turn, in the first layout that fits. -/
def reconstructMessages (latestRequestBody : Option Json) : List ChatMessage :=
  match latestRequestBody with
  | none => []
  | some body =>
    ((normalizeTurns (body.field "messages") "content" "assistant").orElse fun _ =>
      (normalizeTurns (body.field "input") "content" "assistant").orElse fun _ =>
        normalizeTurns (body.field "contents") "parts" "model").getD [] |>.dropLast

end Reconstruction

/-- Framing tokens of one message. -/
def perMessageOverheadTokens : ℕ := 8

/-- Framing tokens of a request whose conversation is counted from bytes alone. -/
def requestOverheadTokens : ℕ := 64

/-- The first `messageCount` messages of a conversation cost at most `tokens`. -/
structure KnownPrefix where
  messageCount : ℕ
  tokens : ℕ
  deriving DecidableEq, Repr

/-- An upper bound on the input tokens of a request: a known part at its reported cost and the
rest by its bytes. -/
def inputTokenUpperBound (messages : List ChatMessage) (known : Option KnownPrefix) : ℕ :=
  let byBytes (start : ℕ) : ℕ :=
    ((messages.drop start).map fun m => m.content.utf8ByteSize + perMessageOverheadTokens).sum
  match known with
  | some k =>
    if k.messageCount ≤ messages.length then k.tokens + byBytes k.messageCount
    else requestOverheadTokens + byBytes 0
  | none => requestOverheadTokens + byBytes 0

/-- What a reply that reported its request's tokens says about the conversation through it. -/
def knownPrefixAfterReply (requestMessageCount promptTokens : ℕ) (assistantContent : String) :
    KnownPrefix :=
  { messageCount := requestMessageCount + 1
    tokens := promptTokens + assistantContent.utf8ByteSize + perMessageOverheadTokens }

end Connections
