import Mathlib.Data.List.Perm.Basic
import Mathlib.Data.Option.Basic
import Mathlib.Tactic.TypeStar

/-!
# Runs of a guarded partial step function

A system is a step function that may refuse an event.  A run is a finite order of events,
each of which meets a guard in the state before it; invariants and simulations are proved
once here for every such system.  Last come some facts about systems whose parties are listed.
-/

namespace Run

variable {σ ε : Type*}

/-- `t` is reached from `s` by accepted events, each meeting `ok` in the state before it. -/
inductive Reaches (step : σ → ε → Option σ) (ok : σ → ε → Prop) (s : σ) : σ → Prop
  | start : Reaches step ok s s
  | snoc {t u : σ} {e : ε} : Reaches step ok s t → ok t e → step t e = some u →
      Reaches step ok s u

/-- The guard that every event meets. -/
abbrev always : σ → ε → Prop := fun _ _ => True

variable {step : σ → ε → Option σ} {ok : σ → ε → Prop} {s t u : σ}

/-- A property of the first state that every guarded step keeps holds in every state reached. -/
theorem Reaches.invariant {Inv : σ → Prop} (first : Inv s)
    (keeps : ∀ t e u, Inv t → ok t e → step t e = some u → Inv u)
    (h : Reaches step ok s t) : Inv t := by
  induction h with
  | start => exact first
  | snoc _ hok hstep ih => exact keeps _ _ _ ih hok hstep

/-- Runs compose. -/
theorem Reaches.append (h : Reaches step ok s t) (h' : Reaches step ok t u) :
    Reaches step ok s u := by
  induction h' with
  | start => exact h
  | snoc _ he hstep ih => exact ih.snoc he hstep

/-- A system whose guarded steps are each matched by a run of another one, under `view`,
only reaches states whose views the other one reaches. -/
theorem Reaches.simulate {τ η : Type*} {astep : τ → η → Option τ} {aok : τ → η → Prop}
    {view : σ → τ} {Inv : σ → Prop} (first : Inv s)
    (keeps : ∀ t e u, Inv t → ok t e → step t e = some u →
      Inv u ∧ Reaches astep aok (view t) (view u))
    (h : Reaches step ok s t) : Inv t ∧ Reaches astep aok (view s) (view t) := by
  induction h with
  | start => exact ⟨first, .start⟩
  | snoc _ he hstep ih =>
    have hnext := keeps _ _ _ ih.1 he hstep
    exact ⟨hnext.1, ih.2.append hnext.2⟩

/-- The state after a list of events, when each one meets the guard and is accepted. -/
def exec (step : σ → ε → Option σ) (ok : σ → ε → Prop) [∀ s e, Decidable (ok s e)] (s : σ) :
    List ε → Option σ
  | [] => some s
  | e :: es => if ok s e then (step s e).bind fun t => exec step ok t es else none

/-- An executed list of events is a run. -/
theorem exec_reaches [∀ s e, Decidable (ok s e)] {es : List ε}
    (h : exec step ok s es = some t) : Reaches step ok s t := by
  induction es generalizing s with
  | nil =>
    cases h
    exact .start
  | cons e es ih =>
    simp only [exec] at h
    split at h
    · rename_i he
      obtain ⟨v, hv, hrest⟩ := Option.bind_eq_some_iff.mp h
      exact (Reaches.start.snoc he hv).append (ih hrest)
    · cases h

/-- An executed list of events is a guarded run, when each event meets the guard where it is
executed. -/
theorem exec_reaches_of {es : List ε} (h : exec step always s es = some t)
    (hok : ∀ i v e, exec step always s (es.take i) = some v → es[i]? = some e → ok v e) :
    Reaches step ok s t := by
  induction es generalizing s with
  | nil =>
    cases h
    exact .start
  | cons e es ih =>
    simp only [exec, always, ↓reduceIte] at h
    obtain ⟨v, hv, hrest⟩ := Option.bind_eq_some_iff.mp h
    refine (Reaches.start.snoc (hok 0 s e rfl rfl) hv).append (ih hrest ?_)
    intro i u e' hu he'
    refine hok (i + 1) u e' ?_ he'
    simpa [exec, always, hv] using hu

/-- Executed events that end in a state with a checked property show that it can be reached. -/
theorem exists_reaches (step : σ → ε → Option σ) (ok : σ → ε → Prop) [∀ s e, Decidable (ok s e)]
    (s : σ) (es : List ε) (P : σ → Bool) (h : (exec step ok s es).map P = some true) :
    ∃ t, Reaches step ok s t ∧ P t = true := by
  obtain ⟨t, ht, hP⟩ := Option.map_eq_some_iff.mp h
  exact ⟨t, exec_reaches ht, hP⟩

/-- The step together with a record of what its steps noted. -/
def logged {ν : Type*} (step : σ → ε → Option σ) (note : σ → ε → σ → Option ν) (s : σ × List ν)
    (e : ε) : Option (σ × List ν) :=
  (step s.1 e).map fun t => (t, s.2 ++ (note s.1 e t).toList)

section Logged

variable {ν : Type*} {note : σ → ε → σ → Option ν}

/-- A run with a record is a run. -/
theorem Reaches.unlogged {earlier log : List ν}
    (h : Reaches (logged step note) (fun v e => ok v.1 e) (s, earlier) (t, log)) :
    Reaches step ok s t := by
  have hfst : ∀ v w, Reaches (logged step note) (fun v e => ok v.1 e) v w →
      Reaches step ok v.1 w.1 := by
    intro v w hvw
    induction hvw with
    | start => exact .start
    | snoc _ he hstep ih =>
      obtain ⟨u, hu, rfl⟩ := Option.map_eq_some_iff.mp hstep
      exact ih.snoc he hu
  exact hfst _ _ h

end Logged

/-! ### Parties in a list, of which a step replaces one -/

section Parties

variable {α β : Type*} {l : List α} {i : ℕ}

/-- What holds of every party holds after one of them was replaced. -/
theorem forall_mem_set {P : α → Prop} {b : α} (h : ∀ a ∈ l, P a) (hb : P b) :
    ∀ a ∈ l.set i b, P a := by
  intro a ha
  rcases List.mem_or_eq_of_mem_set ha with hold | rfl
  · exact h a hold
  · exact hb

/-- What holds of every party holds when another one joins. -/
theorem forall_mem_concat {P : α → Prop} {b : α} (h : ∀ a ∈ l, P a) (hb : P b) :
    ∀ a ∈ l ++ [b], P a := by
  rw [List.forall_mem_append, List.forall_mem_singleton]
  exact ⟨h, hb⟩

/-- Replacing a party takes away what it gave and adds what its successor gives. -/
theorem perm_filterMap_set {f : α → Option β} {a : α} (b : α) (h : l[i]? = some a) :
    ((f a).toList ++ (l.set i b).filterMap f).Perm ((f b).toList ++ l.filterMap f) := by
  induction l generalizing i with
  | nil => cases h
  | cons c l ih =>
    have hcons (d : α) (m : List α) : (d :: m).filterMap f = (f d).toList ++ m.filterMap f := by
      cases hd : f d <;> simp [hd]
    cases i with
    | zero =>
      cases h
      rw [List.set_cons_zero, hcons, hcons]
      exact List.perm_append_comm_assoc _ _ _
    | succ i =>
      rw [List.set_cons_succ, hcons, hcons]
      refine (List.perm_append_comm_assoc _ _ _).trans ?_
      exact ((ih h).append_left _).trans (List.perm_append_comm_assoc _ _ _)

end Parties

end Run
