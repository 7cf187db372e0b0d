import Connections.Library.Run
import Mathlib.Data.Nat.Init

/-!
# Potentials of a step function

A potential that no accepted step raises, and that every accepted step lowers unless it is quiet,
bounds the steps that are not quiet.  An endless order of events that are not all quiet from some
point on is therefore refused in the end.
-/

namespace Run

variable {σ ε : Type*}

/-- The steps that are not quiet, in an order of events up to its first refused one. -/
def busySteps (step : σ → ε → Option σ) (quiet : σ → Bool) (s : σ) : List ε → ℕ
  | [] => 0
  | e :: es =>
    match step s e with
    | some t => (if quiet t then 0 else 1) + busySteps step quiet t es
    | none => 0

/-- The state after so many of an endless order of events, if all of them were accepted. -/
def after (step : σ → ε → Option σ) (s : σ) (events : ℕ → ε) : ℕ → Option σ
  | 0 => some s
  | n + 1 => (after step s events n).bind fun t => step t (events n)

/-- A measure of the states with an invariant that no accepted step raises; a step that is not
quiet lowers it. -/
structure Potential (step : σ → ε → Option σ) (quiet : σ → Bool) (Inv : σ → Prop)
    (measure : σ → ℕ) : Prop where
  keeps : ∀ s e t, Inv s → step s e = some t → Inv t
  falls : ∀ s e t, Inv s → step s e = some t → measure t + (if quiet t then 0 else 1) ≤ measure s

namespace Potential

variable {step : σ → ε → Option σ} {quiet : σ → Bool} {Inv : σ → Prop} {measure : σ → ℕ}

/-- The steps that are not quiet are at most the measure of the first state. -/
theorem busySteps_le (h : Potential step quiet Inv measure) {s : σ} (hs : Inv s) (es : List ε) :
    busySteps step quiet s es ≤ measure s := by
  induction es generalizing s with
  | nil => exact Nat.zero_le _
  | cons e es ih =>
    unfold busySteps
    split
    · rename_i t hstep
      have hrest := ih (h.keeps s e t hs hstep)
      have hfalls := h.falls s e t hs hstep
      omega
    · exact Nat.zero_le _

/-- Until an event is refused the invariant holds and the measure does not rise. -/
theorem after_or_refused (h : Potential step quiet Inv measure) {s t : σ} {events : ℕ → ε}
    {m : ℕ} (ht : Inv t) (hafter : after step s events m = some t) {n : ℕ} (hn : m ≤ n) :
    (∃ k u, after step s events k = some u ∧ Inv u ∧ step u (events k) = none) ∨
      ∃ u, after step s events n = some u ∧ Inv u ∧ measure u ≤ measure t := by
  induction n, hn using Nat.le_induction with
  | base => exact .inr ⟨t, hafter, ht, Nat.le_refl _⟩
  | succ n _ ih =>
    rcases ih with hrefused | ⟨u, hu, hinv, hle⟩
    · exact .inl hrefused
    · cases hstep : step u (events n) with
      | none => exact .inl ⟨n, u, hu, hinv, hstep⟩
      | some v =>
        have hfalls := h.falls u (events n) v hinv hstep
        refine .inr ⟨v, ?_, h.keeps u (events n) v hinv hstep, by omega⟩
        rw [after, hu, Option.bind_some, hstep]

/-- When only patient events make quiet steps, an endless order of events that does not become
patient for good is refused in the end. -/
theorem exists_refused (h : Potential step quiet Inv measure) (patient : ε → Prop)
    (hquiet : ∀ s e t, Inv s → step s e = some t → quiet t = true → patient e) {s : σ}
    (hs : Inv s) {events : ℕ → ε} (hevents : ∀ m, ∃ n, m ≤ n ∧ ¬ patient (events n)) :
    ∃ n t, after step s events n = some t ∧ Inv t ∧ step t (events n) = none := by
  -- From every state on the way the next impatient event is refused or lowers the measure.
  have hfrom : ∀ bound m t, measure t = bound → after step s events m = some t → Inv t →
      ∃ n u, after step s events n = some u ∧ Inv u ∧ step u (events n) = none := by
    intro bound
    induction bound using Nat.strongRecOn with
    | ind bound ih =>
      intro m t hmeasure hafter ht
      obtain ⟨n, hn, himpatient⟩ := hevents m
      rcases h.after_or_refused ht hafter hn with hrefused | ⟨u, hu, hinv, hle⟩
      · exact hrefused
      · cases hstep : step u (events n) with
        | none => exact ⟨n, u, hu, hinv, hstep⟩
        | some v =>
          have hbusy : quiet v ≠ true := fun hq => himpatient (hquiet u _ v hinv hstep hq)
          have hfalls := h.falls u (events n) v hinv hstep
          rw [if_neg hbusy] at hfalls
          refine ih (measure v) (by omega) (n + 1) v rfl ?_ (h.keeps u _ v hinv hstep)
          rw [after, hu, Option.bind_some, hstep]
  exact hfrom (measure s) 0 s rfl rfl hs

end Potential

end Run
