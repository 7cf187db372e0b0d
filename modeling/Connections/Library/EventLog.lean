import Connections.Library.Run

/-!
# Live state over a durable log

A process keeps a live summary of a log of events.  It appends batches to the durable log and
can crash at any moment; when it is opened again the summary is replayed from the log.
-/

namespace EventLog

variable {σ α : Type*}

/-- A durable log, the live summary of the process that is open on it, and the summary that a
process had right after its last append. -/
structure Sourced (σ α : Type*) where
  log : List α
  live : Option σ
  lastFlushed : Option σ

/-- What can happen to the process. -/
inductive Event (α : Type*)
  | open
  | append (batch : List α)
  | crash

variable (apply : σ → α → σ) (init : σ)

/-- The summary of a log. -/
def replay (log : List α) : σ := log.foldl apply init

/-- Opening replays the log; appending updates the live summary and the log together. -/
def step (s : Sourced σ α) : Event α → Option (Sourced σ α)
  | .open => some { s with live := some (replay apply init s.log) }
  | .append batch => s.live.map fun live =>
      { log := s.log ++ batch, live := some (batch.foldl apply live)
        lastFlushed := some (batch.foldl apply live) }
  | .crash => some { s with live := none }

/-- The process before anything happened. -/
def Sourced.fresh : Sourced σ α := ⟨[], none, none⟩

/-- Every summary in use is the one replayed from the log. -/
structure Faithful (s : Sourced σ α) : Prop where
  live : ∀ x, s.live = some x → x = replay apply init s.log
  lastFlushed : ∀ x, s.lastFlushed = some x → x = replay apply init s.log

/-- Before the first event no summary is in use. -/
theorem fresh_faithful : Faithful apply init Sourced.fresh where
  live x hx := by cases hx
  lastFlushed x hx := by cases hx

/-- Every step leaves each summary in use what a replay gives. -/
theorem step_faithful {s t : Sourced σ α} {e : Event α} (h : Faithful apply init s)
    (hstep : step apply init s e = some t) : Faithful apply init t := by
  cases e with
  | «open» =>
    cases hstep
    exact ⟨fun x hx => (Option.some.inj hx).symm, h.lastFlushed⟩
  | append batch =>
    obtain ⟨live, hlive, rfl⟩ := Option.map_eq_some_iff.mp hstep
    have happend : batch.foldl apply live = replay apply init (s.log ++ batch) := by
      rw [h.live live hlive, replay, replay, List.foldl_append]
    exact ⟨fun x hx => (Option.some.inj hx).symm.trans happend,
      fun x hx => (Option.some.inj hx).symm.trans happend⟩
  | crash =>
    cases hstep
    exact ⟨nofun, h.lastFlushed⟩

/-- In every run, whatever is live or was live at the last append is what a replay gives. -/
theorem reaches_faithful {t : Sourced σ α}
    (h : Run.Reaches (step apply init) Run.always Sourced.fresh t) : Faithful apply init t :=
  h.invariant (fresh_faithful apply init) fun _ _ _ hinv _ hstep =>
    step_faithful apply init hinv hstep

end EventLog
