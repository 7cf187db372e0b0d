import Mathlib.Order.Basic
import Mathlib.Tactic.TypeStar

/-!
# Loops that may not end

One pass of a loop either hands a state on to the next pass or leaves the loop with a result.
Passes are run under fuel: a loop ends when some amount of fuel yields a result, and a loop that
never ends yields none under any amount.
-/

namespace Loop

/-- What one pass of a loop comes to. -/
inductive Pass (σ ρ : Type*)
  | next (s : σ)
  | leave (r : ρ)

variable {σ ρ : Type*}

/-- At most `fuel` passes of a loop. -/
def run (pass : σ → Pass σ ρ) : ℕ → σ → Option ρ
  | 0, _ => none
  | fuel + 1, s => match pass s with
    | .next s' => run pass fuel s'
    | .leave r => some r

/-- The loop ends with a result. -/
def EndsWith (pass : σ → Pass σ ρ) (s : σ) (r : ρ) : Prop := ∃ fuel, run pass fuel s = some r

/-- The loop ends. -/
def Ends (pass : σ → Pass σ ρ) (s : σ) : Prop := ∃ r, EndsWith pass s r

variable {pass : σ → Pass σ ρ} {s s' : σ} {r r' : ρ} {fuel : ℕ}

theorem run_succ_next (h : pass s = .next s') : run pass (fuel + 1) s = run pass fuel s' := by
  simp [run, h]

theorem run_succ_leave (h : pass s = .leave r) : run pass (fuel + 1) s = some r := by
  simp [run, h]

/-- More fuel changes no result. -/
theorem run_add (h : run pass fuel s = some r) (more : ℕ) :
    run pass (fuel + more) s = some r := by
  induction fuel generalizing s with
  | zero => cases h
  | succ fuel ih =>
    rw [Nat.add_right_comm]
    cases hpass : pass s with
    | next s' =>
      rw [run_succ_next hpass] at h ⊢
      exact ih h
    | leave r' =>
      rw [run_succ_leave hpass] at h ⊢
      exact h

/-- A loop has one result. -/
theorem EndsWith.unique (h : EndsWith pass s r) (h' : EndsWith pass s r') : r = r' := by
  obtain ⟨fuel, hfuel⟩ := h
  obtain ⟨fuel', hfuel'⟩ := h'
  have hleft := run_add hfuel fuel'
  have hright := run_add hfuel' fuel
  rw [Nat.add_comm, hleft] at hright
  exact Option.some.inj hright

/-- What the first state satisfies and every pass keeps gives what the leaving pass makes of it. -/
theorem EndsWith.invariant (Inv : σ → Prop) (Post : ρ → Prop)
    (keeps : ∀ s s', Inv s → pass s = .next s' → Inv s')
    (leaves : ∀ s r, Inv s → pass s = .leave r → Post r)
    (hs : Inv s) (h : EndsWith pass s r) : Post r := by
  obtain ⟨fuel, hfuel⟩ := h
  induction fuel generalizing s with
  | zero => cases hfuel
  | succ fuel ih =>
    cases hpass : pass s with
    | next s' =>
      rw [run_succ_next hpass] at hfuel
      exact ih (keeps s s' hs hpass) hfuel
    | leave r' =>
      rw [run_succ_leave hpass] at hfuel
      cases hfuel
      exact leaves s r hs hpass

/-- A loop ends when a measure of its states goes down with every pass. -/
theorem ends_of_measure (Inv : σ → Prop) (measure : σ → ℕ)
    (keeps : ∀ s s', Inv s → pass s = .next s' → Inv s' ∧ measure s' < measure s)
    (hs : Inv s) : Ends pass s := by
  induction hn : measure s using Nat.strongRecOn generalizing s with
  | ind n ih =>
    cases hpass : pass s with
    | next s' =>
      obtain ⟨hs', hlt⟩ := keeps s s' hs hpass
      obtain ⟨r, fuel, hfuel⟩ := ih (measure s') (hn ▸ hlt) hs' rfl
      exact ⟨r, fuel + 1, by rw [run_succ_next hpass, hfuel]⟩
    | leave r => exact ⟨r, 1, run_succ_leave hpass⟩

/-- A loop never ends when every pass keeps a property and none leaves under it. -/
theorem not_ends_of_invariant (Inv : σ → Prop)
    (keeps : ∀ s, Inv s → ∃ s', pass s = .next s' ∧ Inv s') (hs : Inv s) : ¬ Ends pass s := by
  rintro ⟨r, h⟩
  refine h.invariant Inv (fun _ => False) ?_ ?_ hs
  · intro s s' hs hpass
    obtain ⟨t, ht, hinv⟩ := keeps s hs
    rw [hpass] at ht
    cases ht
    exact hinv
  · intro s r hs hpass
    obtain ⟨t, ht, -⟩ := keeps s hs
    rw [hpass] at ht
    cases ht

end Loop
