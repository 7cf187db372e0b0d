import Connections.Library.Run

/-!
# Checkpointed emission

A deterministic machine emits items.  A process runs it over a store, keeps the items it has
emitted in memory, and now and then commits them together with the machine's state.  It can crash
at any moment, and the next process starts from the last commit.
-/

namespace Checkpoint

variable {σ α : Type*} (next : σ → Option (α × σ))

/-- The items that the machine emits on its way from one state to another. -/
inductive Emits : σ → List α → σ → Prop
  | nil (s : σ) : Emits s [] s
  | cons {s t u : σ} {a : α} {l : List α} : next s = some (a, t) → Emits t l u →
      Emits s (a :: l) u

variable {next} {s t u v : σ} {a : α} {l m : List α}

namespace Emits

theorem append (h : Emits next s l t) (h' : Emits next t m u) : Emits next s (l ++ m) u := by
  induction h with
  | nil s => exact h'
  | cons hnext _ ih => exact .cons hnext (ih h')

theorem snoc (h : Emits next s l t) (hnext : next t = some (a, u)) :
    Emits next s (l ++ [a]) u :=
  h.append (.cons hnext (.nil u))

/-- Of two emissions from one state, the longer one goes on from where the shorter one is. -/
theorem continues (h : Emits next s l t) (h' : Emits next s m u) (hle : l.length ≤ m.length) :
    ∃ rest, m = l ++ rest ∧ Emits next t rest u := by
  induction h generalizing m with
  | nil s => exact ⟨m, rfl, h'⟩
  | cons hnext _ ih =>
    cases h' with
    | nil => simp at hle
    | cons hnext' h' =>
      rw [hnext] at hnext'
      cases hnext'
      obtain ⟨rest, rfl, hrest⟩ := ih h' (by simpa using hle)
      exact ⟨rest, rfl, hrest⟩

/-- An emission that has come to its end is the longest one. -/
theorem prefix_of_ended (h : Emits next s l t) (hend : next t = none) (h' : Emits next s m u) :
    m <+: l := by
  rcases Nat.le_total m.length l.length with hle | hle
  · obtain ⟨rest, rfl, -⟩ := h'.continues h hle
    exact List.prefix_append m rest
  · obtain ⟨rest, rfl, hrest⟩ := h.continues h' hle
    cases hrest with
    | nil => simp
    | cons hnext => rw [hend] at hnext; cases hnext

/-- Two emissions that have come to their ends are the same. -/
theorem unique_of_ended (h : Emits next s l t) (hend : next t = none) (h' : Emits next s m u)
    (hend' : next u = none) : m = l ∧ u = t := by
  have hlength : m.length = l.length := Nat.le_antisymm
    (h.prefix_of_ended hend h').length_le (h'.prefix_of_ended hend' h).length_le
  obtain ⟨rest, rfl, hrest⟩ := h.continues h' (Nat.le_of_eq hlength.symm)
  obtain rfl : rest = [] := by simpa using hlength
  cases hrest with
  | nil => simp

end Emits

/-- The last commit, the log, and the process: the machine's state and the items since. -/
structure Store (σ α : Type*) where
  saved : σ
  log : List α
  live : Option (σ × List α)

/-- What can happen to the store. -/
inductive Event
  | start
  | emit
  | flush
  | stop
  deriving DecidableEq, Repr

variable (next)

/-- One step of the store. -/
def step (w : Store σ α) : Event → Option (Store σ α)
  | .start => some { w with live := some (w.saved, []) }
  | .emit => w.live.bind fun (current, pending) => (next current).map fun (a, after) =>
      { w with live := some (after, pending ++ [a]) }
  | .flush => w.live.map fun (current, pending) =>
      { saved := current, log := w.log ++ pending, live := some (current, []) }
  | .stop => some { w with live := none }

/-- The log is what the machine emits up to the last commit, and what is in memory goes on from
there. -/
structure Faithful (first : σ) (w : Store σ α) : Prop where
  log : Emits next first w.log w.saved
  live : ∀ current pending, w.live = some (current, pending) →
    Emits next w.saved pending current

theorem step_faithful {first : σ} {w w' : Store σ α} {e : Event} (h : Faithful next first w)
    (hstep : step next w e = some w') : Faithful next first w' := by
  cases e with
  | start =>
    cases hstep
    refine ⟨h.log, ?_⟩
    rintro _ _ ⟨⟩
    exact .nil _
  | emit =>
    obtain ⟨⟨current, pending⟩, hlive, hstep⟩ := Option.bind_eq_some_iff.mp hstep
    obtain ⟨⟨a, after⟩, hnext, rfl⟩ := Option.map_eq_some_iff.mp hstep
    refine ⟨h.log, ?_⟩
    rintro _ _ ⟨⟩
    exact (h.live current pending hlive).snoc hnext
  | flush =>
    obtain ⟨⟨current, pending⟩, hlive, rfl⟩ := Option.map_eq_some_iff.mp hstep
    refine ⟨h.log.append (h.live current pending hlive), ?_⟩
    rintro _ _ ⟨⟩
    exact .nil _
  | stop =>
    cases hstep
    exact ⟨h.log, nofun⟩

/-- However often the process stops, the log is what the machine emits up to the last commit. -/
theorem reaches_faithful {first : σ} {w : Store σ α}
    (h : Run.Reaches (step next) Run.always ⟨first, [], none⟩ w) : Faithful next first w :=
  h.invariant ⟨.nil first, by simp⟩ fun _ _ _ hinv _ hstep => step_faithful next hinv hstep

end Checkpoint
