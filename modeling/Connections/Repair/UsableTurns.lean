import Connections.Repair.HistoryLoss
import Connections.Strategy.Alternation

/-!
# Stored requests that a conversation can be rebuilt from

The runner reads the turns of a stored request in the first layout that fits; the audit asks for any
layout with turns.  An empty list in an earlier layout hides the turns of a later one from the
runner, and nothing else tells the two apart.
-/

namespace Connections

/-- The turns of a stored request, in the first layout that fits. -/
def priorMessages (requestBody : Json) : Option (List ChatMessage) :=
  (normalizeTurns (requestBody.field "messages") "content" "assistant").orElse fun _ =>
    (normalizeTurns (requestBody.field "input") "content" "assistant").orElse fun _ =>
      normalizeTurns (requestBody.field "contents") "parts" "model"

/-- The runner finds turns in the request stored with a call. -/
def FindsTurns (requestBody : Option Json) : Prop :=
  ∃ turns, requestBody.bind priorMessages = some turns ∧ turns ≠ []

/-- The turns of a stored request in one layout. -/
def turnsIn (requestBody : Option Json) (layout : TurnLayout) : Option (List ChatMessage) :=
  normalizeTurns (requestBody.bind (·.field layout.key)) layout.contentKey layout.assistantRole

/-- A stored request has turns in some layout. -/
def HasTurns (requestBody : Option Json) : Prop :=
  ∃ layout turns, turnsIn requestBody layout = some turns ∧ turns ≠ []

/-- Without turns the history starts empty. -/
theorem reconstructMessages_of_not_findsTurns {requestBody : Option Json}
    (h : ¬ FindsTurns requestBody) : reconstructMessages requestBody = [] := by
  cases requestBody with
  | none => rfl
  | some body =>
    change ((priorMessages body).getD []).dropLast = []
    cases hturns : priorMessages body with
    | none => rfl
    | some turns =>
      have hempty : turns = [] := by
        by_contra hne
        exact h ⟨turns, hturns, hne⟩
      rw [hempty]
      rfl

/-- The runner reads a layout only where each one before it does not fit. -/
theorem bind_priorMessages (requestBody : Option Json) :
    requestBody.bind priorMessages = (turnsIn requestBody .messages).orElse fun _ =>
      (turnsIn requestBody .input).orElse fun _ => turnsIn requestBody .contents := by
  cases requestBody with
  | none => rfl
  | some body => rfl

/-- What the runner finds is there in some layout. -/
theorem HasTurns.of_findsTurns {requestBody : Option Json} (h : FindsTurns requestBody) :
    HasTurns requestBody := by
  obtain ⟨turns, hturns, hne⟩ := h
  rw [bind_priorMessages] at hturns
  cases hmessages : turnsIn requestBody .messages with
  | some found =>
    rw [hmessages] at hturns
    cases hturns
    exact ⟨.messages, turns, hmessages, hne⟩
  | none =>
    cases hinput : turnsIn requestBody .input with
    | some found =>
      rw [hmessages, hinput] at hturns
      cases hturns
      exact ⟨.input, turns, hinput, hne⟩
    | none =>
      rw [hmessages, hinput] at hturns
      exact ⟨.contents, turns, hturns, hne⟩

/-! ### The audit's reading -/

/-- A list is mapped just when each of its elements is. -/
theorem mapM_isSome {α β : Type} (f : α → Option β) (as : List α) :
    (as.mapM f).isSome = as.all fun a => (f a).isSome := by
  induction as with
  | nil => rfl
  | cons a as ih =>
    rw [List.mapM_cons, List.all_cons, ← ih]
    cases f a <;> cases as.mapM f <;> rfl

/-- A mapped list is empty just when the list is. -/
theorem mapM_eq_nil {α β : Type} {f : α → Option β} {as : List α} {bs : List β}
    (h : as.mapM f = some bs) : bs = [] ↔ as = [] := by
  cases as with
  | nil =>
    cases h
    simp
  | cons a as =>
    rw [List.mapM_cons] at h
    obtain ⟨b, -, h⟩ := Option.bind_eq_some_iff.mp h
    obtain ⟨rest, -, h⟩ := Option.bind_eq_some_iff.mp h
    cases h
    simp

theorem turnContent_isSome (rawContent : Json) :
    (turnContent rawContent).isSome = match rawContent with
      | .str _ => true
      | .arr parts => parts.all fun part => ((part.field "text").bind Json.str?).isSome
      | _ => false := by
  cases rawContent <;> simp [turnContent, ← mapM_isSome]

/-- The audit takes a role and a content that the runner reads for a turn. -/
theorem isTurn_eq_and (contentKey assistantRole : String) (item : Json) :
    isTurn contentKey assistantRole item =
      (((item.field "role").bind Json.str? = some "user" ||
          (item.field "role").bind Json.str? = some assistantRole) &&
        ((item.field contentKey).bind turnContent).isSome) := by
  unfold isTurn
  cases item.field contentKey with
  | none => rfl
  | some raw =>
    rw [Option.bind_some, turnContent_isSome]
    cases raw <;> rfl

/-- The audit takes for a turn what the runner reads as one. -/
theorem isTurn_eq (contentKey assistantRole : String) (item : Json) :
    isTurn contentKey assistantRole item =
      (normalizeTurn contentKey assistantRole item).isSome := by
  rw [isTurn_eq_and]
  unfold normalizeTurn
  generalize (item.field contentKey).bind turnContent = content
  cases (item.field "role").bind Json.str? with
  | none => simp
  | some role =>
    by_cases huser : role = "user"
    · cases content <;> simp [huser]
    · by_cases hassistant : role = assistantRole
      · subst hassistant
        cases content <;> simp [huser]
      · simp [huser, hassistant]

/-- The audit accepts the list of a layout just when the runner reads turns in it. -/
theorem isTurnsArray_iff (value : Option Json) (contentKey assistantRole : String) :
    isTurnsArray value contentKey assistantRole ↔
      ∃ turns, normalizeTurns value contentKey assistantRole = some turns ∧ turns ≠ [] := by
  unfold isTurnsArray normalizeTurns
  cases value.bind Json.arr? with
  | none => simp
  | some items =>
    have hall : items.all (isTurn contentKey assistantRole) =
        (items.mapM (normalizeTurn contentKey assistantRole)).isSome := by
      rw [mapM_isSome]
      congr 1
      funext item
      exact isTurn_eq contentKey assistantRole item
    simp only [hall, Option.bind_some, Bool.and_eq_true, Bool.not_eq_true',
      List.isEmpty_eq_false_iff]
    constructor
    · rintro ⟨hne, hsome⟩
      obtain ⟨turns, hturns⟩ := Option.isSome_iff_exists.mp hsome
      exact ⟨turns, hturns, mt (mapM_eq_nil hturns).mp hne⟩
    · rintro ⟨turns, hturns, hne⟩
      exact ⟨mt (mapM_eq_nil hturns).mpr hne, by rw [hturns]; rfl⟩

/-- The audit accepts a stored request just when some layout has turns. -/
theorem hasReconstructableHistory_iff (requestBody : Option Json) :
    hasReconstructableHistory requestBody ↔ HasTurns requestBody := by
  simp only [hasReconstructableHistory, Bool.or_eq_true, isTurnsArray_iff]
  constructor
  · rintro ((h | h) | h)
    · exact ⟨.messages, h⟩
    · exact ⟨.input, h⟩
    · exact ⟨.contents, h⟩
  · rintro ⟨_ | _ | _, h⟩
    · exact .inl (.inl h)
    · exact .inl (.inr h)
    · exact .inr h

end Connections
