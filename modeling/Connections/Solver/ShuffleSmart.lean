import Connections.Solver.Search
import Connections.Strategy.BoardInvariant
import Mathlib.Algebra.Order.Floor.Ring
import Mathlib.Data.Rat.Floor

/-!
# The smart shuffle

The smart shuffle draws four of the words left and draws again while it has tried that group
before.  The groups it has tried are in memory only, and a job that picks the run up finds them in
the stored guesses; whatever is drawn and wherever a worker is cut short, no group is stored twice.
-/

namespace Connections

/-- The draws of the random source, each at least zero and below one. -/
structure RandomDraws where
  draw : ℕ → ℚ
  nonneg (t : ℕ) : 0 ≤ draw t
  lt_one (t : ℕ) : draw t < 1

namespace RandomDraws

/-- The draws behind some that are used up. -/
def drop (draws : RandomDraws) (used : ℕ) : RandomDraws where
  draw t := draws.draw (used + t)
  nonneg t := draws.nonneg (used + t)
  lt_one t := draws.lt_one (used + t)

/-- One number, drawn again and again. -/
def same (q : ℚ) (h : 0 ≤ q ∧ q < 1) : RandomDraws where
  draw _ := q
  nonneg _ := h.1
  lt_one _ := h.2

/-- A position up to `i`, from one draw. -/
def position (draws : RandomDraws) (t i : ℕ) : Fin (i + 1) :=
  ⟨⌊draws.draw t * (i + 1 : ℕ)⌋.toNat, by
    have hpos : (0 : ℚ) < (i + 1 : ℕ) := by exact_mod_cast Nat.succ_pos i
    have hbelow : draws.draw t * (i + 1 : ℕ) < (i + 1 : ℕ) :=
      mul_lt_of_lt_one_left hpos (draws.lt_one t)
    have hfloor : ⌊draws.draw t * (i + 1 : ℕ)⌋ < (i + 1 : ℕ) := Int.floor_lt.mpr hbelow
    omega⟩

end RandomDraws

section Sample

variable {α : Type*}

/-- The last `k` positions, each swapped with a drawn one at or before it. -/
def shuffleLast {n : ℕ} (draws : RandomDraws) (copy : Vector α n) (k : ℕ) (hk : k ≤ n) :
    Vector α n :=
  match k, hk with
  | 0, _ => copy
  | k + 1, hk =>
    let i := n - 1 - k
    let j := draws.position k i
    (shuffleLast draws copy k (Nat.le_of_succ_le hk)).swap i j (by omega) (by omega)

/-- Some elements of a pool: shuffle its last positions, then take them. -/
def sampleRandom (draws : RandomDraws) (pool : List α) (k : ℕ) (hk : k ≤ pool.length) : List α :=
  (shuffleLast draws pool.toArray.toVector k hk).toList.drop (pool.length - k)

theorem shuffleLast_perm {n : ℕ} (draws : RandomDraws) (copy : Vector α n) (k : ℕ) (hk : k ≤ n) :
    (shuffleLast draws copy k hk).Perm copy := by
  induction k with
  | zero => exact .refl copy
  | succ k ih =>
    rw [shuffleLast]
    exact (Vector.swap_perm _ _).trans (ih _)

/-- A sample has the asked number of elements, and none more often than the pool. -/
theorem sampleRandom_spec (draws : RandomDraws) (pool : List α) (k : ℕ) (hk : k ≤ pool.length) :
    (sampleRandom draws pool k hk).length = k ∧ (sampleRandom draws pool k hk).Subperm pool := by
  constructor
  · rw [sampleRandom, List.length_drop, Vector.length_toList]
    exact Nat.sub_sub_self hk
  · have hperm : (shuffleLast draws pool.toArray.toVector k hk).toList.Perm pool := by
      simpa using (shuffleLast_perm draws pool.toArray.toVector k hk).toList
    exact (List.drop_sublist _ _).subperm.trans hperm.subperm

end Sample

/-- The number of `k`-combinations of `n` elements. -/
def combinationCount (n k : ℕ) : ℕ :=
  (List.range k).foldl (fun result i => result * (n - i) / (i + 1)) 1

/-- Every division of the loop is exact. -/
theorem combinationCount_eq_choose (n k : ℕ) : combinationCount n k = n.choose k := by
  induction k with
  | zero => exact (Nat.choose_zero_right n).symm
  | succ k ih =>
    have hcount : combinationCount n (k + 1) = combinationCount n k * (n - k) / (k + 1) := by
      rw [combinationCount, List.range_succ, List.foldl_append]
      rfl
    rw [hcount, ih, ← Nat.choose_succ_right_eq]
    exact Nat.mul_div_left _ (Nat.succ_pos k)

/-- Sample groups until one has not been tried, a limited number of times. -/
def rollGroup (pool : List String) (hpool : groupSize ≤ pool.length) (tried : List String) :
    ℕ → RandomDraws → Option (List String)
  | 0, _ => none
  | attempts + 1, draws =>
    let group := sampleRandom draws pool groupSize hpool
    if groupKey group ∉ tried then some group
    else rollGroup pool hpool tried attempts (draws.drop groupSize)

/-- A group that has not been tried, or none. -/
def pickRandomGroup (draws : RandomDraws) (pool tried : List String) : Option (List String) :=
  if hpool : groupSize ≤ pool.length then
    rollGroup pool hpool tried (combinationCount pool.length groupSize * 10) draws
  else none

theorem rollGroup_eq_some {pool tried words : List String} {hpool : groupSize ≤ pool.length}
    {attempts : ℕ} {draws : RandomDraws}
    (h : rollGroup pool hpool tried attempts draws = some words) :
    words.length = groupSize ∧ words.Subperm pool ∧ groupKey words ∉ tried := by
  induction attempts generalizing draws with
  | zero => cases h
  | succ attempts ih =>
    simp only [rollGroup] at h
    split at h
    · rename_i hfresh
      cases h
      obtain ⟨hlength, hsub⟩ := sampleRandom_spec draws pool groupSize hpool
      exact ⟨hlength, hsub, hfresh⟩
    · exact ih h

/-- What is picked is four words of the pool that have not been tried together. -/
theorem pickRandomGroup_eq_some {draws : RandomDraws} {pool tried words : List String}
    (h : pickRandomGroup draws pool tried = some words) :
    words.length = groupSize ∧ words.Subperm pool ∧ groupKey words ∉ tried := by
  unfold pickRandomGroup at h
  split at h
  · exact rollGroup_eq_some h
  · cases h

/-- The key of a group does not depend on the order of its words. -/
theorem groupKey_perm {words other : List String} (h : words.Perm other) :
    groupKey words = groupKey other := by
  rw [groupKey, groupKey, insertionSort_eq_of_perm h]

/-! ### Fresh guesses -/

/-- The words of a board that no successful guess has taken. -/
def wordsLeft (board : List String) (guesses : List Guess) : List String :=
  board.filter fun w => ∀ guess ∈ solvedGuesses guesses, w ∉ guess.words

/-- Guesses of which each is four words left on the board, under a key of its own. -/
inductive FreshGuesses (board : List String) : List Guess → Prop
  | nil : FreshGuesses board []
  | snoc {guesses : List Guess} {guess : Guess} : FreshGuesses board guesses →
      guess.words.length = groupSize → guess.words.Subperm (wordsLeft board guesses) →
      (∀ earlier ∈ guesses, groupKey earlier.words ≠ groupKey guess.words) →
      FreshGuesses board (guesses ++ [guess])

section Fresh

variable {board : List String} {guesses : List Guess}

theorem wordsLeft_nil (board : List String) : wordsLeft board [] = board := by
  simp [wordsLeft, solvedGuesses]

/-- A successful guess takes its words, another one leaves the board as it is. -/
theorem wordsLeft_snoc (board : List String) (guesses : List Guess) (guess : Guess) :
    wordsLeft board (guesses ++ [guess]) =
      if guess.result = .success then (wordsLeft board guesses).filter (· ∉ guess.words)
      else wordsLeft board guesses := by
  by_cases hresult : guess.result = .success
  · have hsolved : solvedGuesses (guesses ++ [guess]) = solvedGuesses guesses ++ [guess] := by
      simp [solvedGuesses, hresult]
    rw [if_pos hresult, wordsLeft, wordsLeft, List.filter_filter, hsolved]
    refine List.filter_congr fun w _ => ?_
    simp [or_imp, forall_and, and_comm]
  · rw [if_neg hresult]
    simp [wordsLeft, solvedGuesses, hresult]

/-- The words left do not depend on the order of the board. -/
theorem wordsLeft_perm {other : List String} (h : board.Perm other) (guesses : List Guess) :
    (wordsLeft board guesses).Perm (wordsLeft other guesses) :=
  h.filter _

/-- No two fresh guesses have one key. -/
theorem FreshGuesses.pairwise (h : FreshGuesses board guesses) :
    guesses.Pairwise fun a b => groupKey a.words ≠ groupKey b.words := by
  induction h with
  | nil => exact .nil
  | snoc _ _ _ hkeys ih =>
    refine List.pairwise_append.mpr ⟨ih, List.pairwise_singleton _ _, ?_⟩
    intro earlier hearlier guess hguess
    rw [List.mem_singleton.mp hguess]
    exact hkeys earlier hearlier

/-- A fresh guess is four of the words that the guesses before it have left. -/
theorem FreshGuesses.drawn (h : FreshGuesses board guesses) {before after : List Guess}
    {guess : Guess} (hsplit : guesses = before ++ guess :: after) :
    guess.words.length = groupSize ∧ guess.words.Subperm (wordsLeft board before) := by
  induction h generalizing after with
  | nil => simp at hsplit
  | @snoc guesses last _ hlength hsub _ ih =>
    rcases List.eq_nil_or_concat after with rfl | ⟨rest, other, rfl⟩
    · obtain ⟨rfl, hlast⟩ := List.append_inj' hsplit rfl
      cases hlast
      exact ⟨hlength, hsub⟩
    · rw [List.concat_eq_append, ← List.cons_append, ← List.append_assoc] at hsplit
      exact ih (List.append_inj' hsplit rfl).1

end Fresh

/-! ### The run -/

/-- What can happen to a run of the smart shuffle. -/
inductive ShuffleEvent
  | load (now : ℕ)
  | enter
  /-- One pass of the loop, on what the random source draws. -/
  | guess (now : ℕ) (draws : RandomDraws)
  | crash

namespace SolverWorld

/-- The group that a worker picks for its next guess. -/
def picked (w : SolverWorld) (draws : RandomDraws) : Option (List String) :=
  match w.worker with
  | some (.looping loop) => pickRandomGroup draws loop.run.availableWords loop.triedGroups
  | _ => none

/-- The event as one of the solver, with the group picked. -/
def solverEvent (w : SolverWorld) : ShuffleEvent → SolverEvent
  | .load now => .load now
  | .enter => .enter
  | .guess now draws => .guess now (w.picked draws)
  | .crash => .crash

variable {text : TextOps} {puzzle : Puzzle} {runId trialNumber : ℕ}

variable (text puzzle runId trialNumber) in
/-- One step of a run of the smart shuffle. -/
def shuffleStep (w : SolverWorld) (e : ShuffleEvent) : Option SolverWorld :=
  step text puzzle "shuffle-smart" runId trialNumber w (w.solverEvent e)

theorem picked_looping {w : SolverWorld} {loop : SolverLoop}
    (hworker : w.worker = some (.looping loop)) (draws : RandomDraws) :
    w.picked draws = pickRandomGroup draws loop.run.availableWords loop.triedGroups := by
  rw [picked, hworker]

/-- The solver takes every group that a worker picks. -/
theorem shuffleStep_guess_isSome {w : SolverWorld} {loop : SolverLoop} {rows : SolverRows}
    (hworker : w.worker = some (.looping loop)) (hrows : w.rows = some rows) (now : ℕ)
    (draws : RandomDraws) :
    (shuffleStep text puzzle runId trialNumber w (.guess now draws)).isSome := by
  have hsample : canSample "shuffle-smart" loop (w.picked draws) := by
    rw [picked_looping hworker]
    cases hpicked : pickRandomGroup draws loop.run.availableWords loop.triedGroups with
    | none => rfl
    | some words =>
      obtain ⟨hlength, hsub, hfresh⟩ := pickRandomGroup_eq_some hpicked
      simp [canSample, hlength, hsub, hfresh]
  simp only [shuffleStep, solverEvent, step, hworker, hrows, hsample, ↓reduceIte]
  split <;> rfl

/-- What a worker carries agrees with some guesses. -/
structure Carries (board : List String) (loop : SolverLoop) (guesses : List Guess) : Prop where
  fresh : FreshGuesses board guesses
  left : loop.run.availableWords = wordsLeft board guesses
  tried : ∀ guess ∈ guesses, groupKey guess.words ∈ loop.triedGroups

/-- The stored run and its worker agree with the guesses made. -/
structure Shuffles (board : List String) (w : SolverWorld) : Prop where
  stored : ∀ rows, w.rows = some rows →
    FreshGuesses board rows.guesses ∧ rows.run.availableWords = wordsLeft board rows.guesses
  loaded : ∀ run, w.worker = some (.loaded run) → ∃ rows, w.rows = some rows ∧ rows.run = run
  looping : ∀ loop, w.worker = some (.looping loop) → ∃ rows, w.rows = some rows ∧
    Carries board loop (rows.guesses ++ loop.pendingGuesses)

/-- A judged guess takes its words when it succeeds. -/
theorem availableWords_afterGuess (strategyName : String) (now : ℕ) (run : StrategyRun)
    (words : List String) (result : GuessResult) :
    (afterGuess strategyName now run words result).availableWords =
      if result = .success then run.availableWords.filter (· ∉ words)
      else run.availableWords := by
  unfold afterGuess
  by_cases hresult : result = .success
  · simp only [hresult, ↓reduceIte]
    split <;> rfl
  · simp only [hresult, ↓reduceIte]
    split
    · split <;> rfl
    · rfl

/-- A pass of the loop carries one more fresh guess, or none. -/
theorem Carries.pass {board : List String} {loop next : SolverLoop} {stored : List Guess}
    (h : Carries board loop (stored ++ loop.pendingGuesses)) {now : ℕ} {draws : RandomDraws}
    (hguess : loop.guess text puzzle "shuffle-smart" now
      (pickRandomGroup draws loop.run.availableWords loop.triedGroups) = some next) :
    Carries board next (stored ++ next.pendingGuesses) := by
  have hsampling : "shuffle-smart" ∉ enumeratingStrategies := by decide
  unfold SolverLoop.guess pickWords at hguess
  rw [if_neg hsampling, if_pos rfl] at hguess
  cases hpicked : pickRandomGroup draws loop.run.availableWords loop.triedGroups with
  | none =>
    rw [hpicked] at hguess
    cases hguess
    exact ⟨h.fresh, h.left, h.tried⟩
  | some words =>
    rw [hpicked] at hguess
    cases hguess
    obtain ⟨hlength, hsub, hnew⟩ := pickRandomGroup_eq_some hpicked
    simp only [SolverLoop.stage, ← List.append_assoc]
    refine ⟨h.fresh.snoc hlength (h.left ▸ hsub) ?_, ?_, ?_⟩
    · intro earlier hearlier hsame
      exact hnew (hsame ▸ h.tried earlier hearlier)
    · rw [availableWords_afterGuess, wordsLeft_snoc, h.left]
    · intro guess hmem
      rw [if_pos (by decide)]
      rcases List.mem_append.mp hmem with hmem | hmem
      · exact List.mem_cons_of_mem _ (h.tried guess hmem)
      · rw [List.mem_singleton.mp hmem]
        exact List.mem_cons_self

/-- A pass keeps its guess in memory or stores it with the run. -/
theorem Shuffles.afterPass {board : List String} {w : SolverWorld} (hw : Shuffles board w)
    {rows : SolverRows} (hrows : w.rows = some rows) {next : SolverLoop}
    (hnext : Carries board next (rows.guesses ++ next.pendingGuesses)) (now : ℕ) :
    Shuffles board (w.afterPass rows next now) := by
  have hpass := afterPass_cases w rows next now
  generalize w.afterPass rows next now = after at hpass ⊢
  cases hpass with
  | kept =>
    refine ⟨hw.stored, by simp, ?_⟩
    rintro _ ⟨⟩
    exact ⟨rows, hrows, hnext⟩
  | flushed =>
    refine ⟨?_, by simp, ?_⟩
    · rintro _ ⟨⟩
      exact ⟨hnext.fresh, hnext.left⟩
    · rintro _ ⟨⟩
      refine ⟨_, rfl, ?_⟩
      simp only [flushBatch, List.append_nil]
      exact ⟨hnext.fresh, hnext.left, hnext.tried⟩
  | ended =>
    refine ⟨?_, by simp, by simp⟩
    rintro _ ⟨⟩
    exact ⟨hnext.fresh, hnext.left⟩

/-- Every step keeps the run in agreement with its guesses. -/
theorem Shuffles.step {w w' : SolverWorld} {e : ShuffleEvent}
    (hw : Shuffles (computeInitialWordOrder text puzzle "shuffle-smart") w)
    (hstep : shuffleStep text puzzle runId trialNumber w e = some w') :
    Shuffles (computeInitialWordOrder text puzzle "shuffle-smart") w' := by
  have hcase := step_cases hstep
  generalize hevent : w.solverEvent e = event at hcase
  cases hcase with
  | created now run hworker hrows hrun =>
    refine ⟨?_, ?_, by simp⟩
    · rintro _ ⟨⟩
      exact ⟨.nil, by rw [wordsLeft_nil, hrun]; rfl⟩
    · rintro _ ⟨⟩
      exact ⟨_, rfl, rfl⟩
  | loaded now rows hworker hrows hmodel =>
    refine ⟨hw.stored, ?_, by simp⟩
    rintro _ ⟨⟩
    exact ⟨rows, hrows, rfl⟩
  | enteredTerminal | threw | crashed => exact ⟨hw.stored, by simp, by simp⟩
  | entered run rows hworker hrows hstatus =>
    obtain ⟨rows', hrows', hrun⟩ := hw.loaded run hworker
    obtain rfl : rows = rows' := Option.some.inj (hrows.symm.trans hrows')
    obtain ⟨hfresh, hleft⟩ := hw.stored rows hrows
    refine ⟨hw.stored, by simp, ?_⟩
    rintro _ ⟨⟩
    refine ⟨rows, hrows, ?_⟩
    simp only [enteredLoop, List.append_nil]
    refine ⟨hfresh, hrun ▸ hleft, fun guess hguess => ?_⟩
    rw [if_pos (by decide)]
    exact List.mem_map_of_mem hguess
  | passed now sample loop next rows hworker hrows hguess =>
    obtain ⟨rows', hrows', hcarries⟩ := hw.looping loop hworker
    obtain rfl : rows = rows' := Option.some.inj (hrows.symm.trans hrows')
    cases e with
    | guess now' draws =>
      cases hevent
      rw [picked_looping hworker] at hguess
      exact hw.afterPass hrows (hcarries.pass hguess) now
    | load | enter | crash => cases hevent

/-- Whatever is drawn and wherever a worker is cut short, no two stored guesses of the smart shuffle
are one set of words, and each is four words that the guesses before it have left on the board. -/
theorem shuffle_smart_never_repeats (hdistinct : puzzle.boardWords.Nodup) {w : SolverWorld}
    (hrun : Run.Reaches (shuffleStep text puzzle runId trialNumber) Run.always fresh w) :
    w.guesses.Pairwise (fun a b => a.words.toFinset ≠ b.words.toFinset) ∧
      ∀ before guess after, w.guesses = before ++ guess :: after →
        guess.words.length = groupSize ∧ guess.words.Nodup ∧
          ∀ word ∈ guess.words, word ∈ wordsLeft puzzle.boardWords before := by
  have hboard := computeInitialWordOrder_perm text puzzle "shuffle-smart"
  have hshuffles : Shuffles (computeInitialWordOrder text puzzle "shuffle-smart") w := by
    refine hrun.invariant ⟨by simp [fresh], by simp [fresh], by simp [fresh]⟩ ?_
    exact fun _ _ _ hw _ hstep => hw.step hstep
  have hfresh : FreshGuesses (computeInitialWordOrder text puzzle "shuffle-smart") w.guesses := by
    cases hrows : w.rows with
    | none =>
      simp only [guesses, hrows]
      exact .nil
    | some rows =>
      simp only [guesses, hrows]
      exact (hshuffles.stored rows hrows).1
  have hdrawn : ∀ before guess after, w.guesses = before ++ guess :: after →
      guess.words.length = groupSize ∧ guess.words.Nodup ∧
        ∀ word ∈ guess.words, word ∈ wordsLeft puzzle.boardWords before := by
    intro before guess after hsplit
    obtain ⟨hlength, hsub⟩ := hfresh.drawn hsplit
    obtain ⟨words, hperm, hsublist⟩ := hsub.trans (wordsLeft_perm hboard before).subperm
    refine ⟨hlength, hperm.nodup_iff.mp ((hdistinct.filter _).sublist hsublist), ?_⟩
    exact fun word hword => hsublist.subset (hperm.mem_iff.mpr hword)
  refine ⟨hfresh.pairwise.imp_of_mem fun {a b} ha hb hkeys hsets => hkeys ?_, hdrawn⟩
  -- Guesses of the same words, each once, are rearrangements and have one key.
  have hnodup : ∀ guess ∈ w.guesses, guess.words.Nodup := by
    intro guess hguess
    obtain ⟨before, after, hsplit⟩ := List.append_of_mem hguess
    exact (hdrawn before guess after hsplit).2.1
  exact groupKey_perm (List.perm_of_nodup_nodup_toFinset_eq (hnodup a ha) (hnodup b hb) hsets)

/-- A run whose first worker is gone before its guess is stored; the second one draws that group
again, then both groups. -/
theorem shuffle_smart_never_repeats_two_groups :
    ∃ w : SolverWorld, w.guesses.length = 3 ∧
      w.guesses.Pairwise fun a b => a.words.toFinset ≠ b.words.toFinset := by
  let low := RandomDraws.same 0 (by norm_num)
  let high := RandomDraws.same (99 / 100) (by norm_num)
  obtain ⟨w, hrun, hthree⟩ := Run.exists_reaches
    (shuffleStep asciiText RunWorld.insectsAndTrees 1 0) Run.always fresh
    [.load 0, .enter, .guess 1 low, .crash, .load 2, .enter, .guess 3 low, .guess 4 high,
      .guess 5 high] (fun w => w.guesses.length = 3) (by decide +kernel)
  exact ⟨w, of_decide_eq_true hthree, (shuffle_smart_never_repeats (by decide) hrun).1⟩

end SolverWorld

end Connections
