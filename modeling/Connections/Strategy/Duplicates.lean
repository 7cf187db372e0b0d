import Connections.Strategy.BoardInvariant

/-!
# Duplicate guesses

A guess is a duplicate when all words of an earlier guess occur in it.  For guesses without
repeated words this is the comparison of their sets; a guess that repeats a word is smaller as a
set, and makes duplicates of larger ones.
-/

namespace Connections

/-- Two guesses of the same words, in whatever order and however often. -/
def SameWords (a b : List String) : Prop := a ⊆ b ∧ b ⊆ a

instance (a b : List String) : Decidable (SameWords a b) :=
  inferInstanceAs (Decidable (a ⊆ b ∧ b ⊆ a))

/-- Stored guesses as the loop remembers them. -/
def priorOf (guesses : List Guess) : List PriorGuess :=
  guesses.map fun guess => ⟨guess.words, guess.result⟩

/-- Guesses of four words, each judged after the ones before it. -/
inductive Judged (text : TextOps) (puzzle : Puzzle) : List Guess → Prop
  | nil : Judged text puzzle []
  | snoc {before : List Guess} {guess : Guess} : Judged text puzzle before →
      guess.words.length = groupSize →
      guess.result = judgeGuess text puzzle (priorOf before) guess.words →
      Judged text puzzle (before ++ [guess])

section Judge

variable {text : TextOps} {puzzle : Puzzle}

theorem Judged.four {guesses : List Guess} (h : Judged text puzzle guesses) :
    ∀ guess ∈ guesses, guess.words.length = groupSize := by
  induction h with
  | nil => simp
  | @snoc before guess _ hfour _ ih =>
    intro g hg
    rcases List.mem_append.mp hg with hg | hg
    · exact ih g hg
    · rw [List.mem_singleton.mp hg]
      exact hfour

/-- Every guess was judged after the ones stored before it. -/
theorem Judged.split {guesses : List Guess} (h : Judged text puzzle guesses)
    {earlier later : List Guess} {guess : Guess} (hsplit : guesses = earlier ++ guess :: later) :
    guess.result = judgeGuess text puzzle (priorOf earlier) guess.words := by
  induction h generalizing later with
  | nil => simp at hsplit
  | @snoc before last _ _ hresult ih =>
    rcases List.eq_nil_or_concat later with rfl | ⟨front, final, rfl⟩
    · obtain ⟨rfl, hlast⟩ := List.append_inj' hsplit rfl
      cases hlast
      exact hresult
    · have hfront : before ++ [last] = (earlier ++ guess :: front) ++ [final] := by
        rw [hsplit, List.concat_eq_append, List.append_assoc, List.cons_append]
      exact ih (List.append_inj' hfront rfl).1

/-- Among guesses of one size the flag is a test of inclusion. -/
theorem isDuplicate_iff {guesses : List Guess} {words : List String}
    (hsize : ∀ guess ∈ guesses, guess.words.length = words.length) :
    isDuplicate (priorOf guesses) words = true ↔ ∃ guess ∈ guesses, guess.words ⊆ words := by
  simp only [isDuplicate, priorOf, List.any_map, List.any_eq_true, Function.comp_apply,
    Bool.and_eq_true, decide_eq_true_eq, List.all_eq_true]
  constructor
  · rintro ⟨guess, hguess, -, hsub⟩
    exact ⟨guess, hguess, hsub⟩
  · rintro ⟨guess, hguess, hsub⟩
    exact ⟨guess, hguess, hsize guess hguess, hsub⟩

/-- The puzzle itself never calls a guess a duplicate. -/
theorem evaluateGuessOnPuzzle_ne_duplicate (words : List String) :
    evaluateGuessOnPuzzle text puzzle words ≠ .duplicate := by
  have search : ∀ (groups : List AnswerGroup) (seen : Bool),
      evaluateGroups text (words.map (normalizeForComparison text)) seen groups ≠ .duplicate := by
    intro groups
    induction groups with
    | nil => intro seen; cases seen <;> simp [evaluateGroups]
    | cons group groups ih =>
      intro seen
      unfold evaluateGroups
      simp only
      split
      · simp
      · exact ih _
  exact search _ _

theorem judgeGuess_duplicate_iff (priorGuesses : List PriorGuess) (words : List String) :
    judgeGuess text puzzle priorGuesses words = .duplicate ↔
      isDuplicate priorGuesses words = true := by
  unfold judgeGuess
  split
  · simp [*]
  · simp [*, evaluateGuessOnPuzzle_ne_duplicate]

end Judge

section Loop

variable (text : TextOps) (limits : RunLimits) (puzzle : Puzzle) (now : ℕ)

/-- What a submitted guess leaves of the memory of the loop. -/
theorem submitGuess_priorGuesses (ev : Evaluation) (words : List String) (result : GuessResult) :
    (submitGuess limits puzzle now ev words result).state.priorGuesses =
      ev.state.priorGuesses ++ [⟨words, result⟩] := by
  simp only [submitGuess, LlmRunLoopState.record]
  split <;> rfl

/-- The guesses of a reply are judged one after the other. -/
theorem evaluateProposals_judged (stored : List Guess) (ev : Evaluation)
    (proposals : List LlmProposal)
    (hfour : ∀ proposal ∈ proposals, proposal.words.length = groupSize)
    (hprior : ev.state.priorGuesses = priorOf (stored ++ ev.pendingGuesses))
    (hjudged : Judged text puzzle (stored ++ ev.pendingGuesses)) :
    let next := (evaluateProposals text limits puzzle now ev proposals).1
    next.state.priorGuesses = priorOf (stored ++ next.pendingGuesses) ∧
      Judged text puzzle (stored ++ next.pendingGuesses) := by
  revert hfour hprior hjudged
  induction ev, proposals using evaluateProposals_induct text limits puzzle now with
  | nil ev => exact fun _ hprior hjudged => ⟨hprior, hjudged⟩
  | skipped ev tagged proposal rest result htagged ih =>
    intro hfour hprior hjudged
    rw [← htagged.state, ← htagged.pendingGuesses] at hprior
    rw [← htagged.pendingGuesses] at hjudged
    exact ih (List.forall_mem_cons.mp hfour).2 hprior hjudged
  | submitted ev tagged proposal rest words caseMismatch next htagged hsubmit hnext =>
    have hnow : proposal.words.length = groupSize →
        ev.state.priorGuesses = priorOf (stored ++ ev.pendingGuesses) →
        Judged text puzzle (stored ++ ev.pendingGuesses) →
        next.state.priorGuesses = priorOf (stored ++ next.pendingGuesses) ∧
          Judged text puzzle (stored ++ next.pendingGuesses) := by
      intro hproposal hprior hjudged
      obtain ⟨-, hlength⟩ := resolveProposal_submit hsubmit
      obtain ⟨guess, hwords, hresult, hpending, -⟩ := submitGuess_extends limits puzzle now tagged
        words (judgeGuess text puzzle ev.state.priorGuesses words)
      rw [← hnext, htagged.pendingGuesses] at hpending
      rw [hpending, ← List.append_assoc]
      constructor
      · rw [hnext, submitGuess_priorGuesses, htagged.state, ← hresult, ← hwords, hprior]
        simp [priorOf]
      · refine hjudged.snoc ?_ ?_
        · rw [hwords, hlength, hproposal]
        · rw [hresult, hwords, hprior]
    refine ⟨fun hfour hprior hjudged => hnow (hfour _ List.mem_cons_self) hprior hjudged, ?_⟩
    intro result _ _ ih hfour hprior hjudged
    obtain ⟨hproposal, hrest⟩ := List.forall_mem_cons.mp hfour
    obtain ⟨hprior', hjudged'⟩ := hnow hproposal hprior hjudged
    exact ih hrest hprior' hjudged'

/-- A loop remembers exactly the stored guesses, each judged after the ones before it. -/
structure RunLoop.Remembers (loop : RunLoop) (guesses : List Guess) : Prop where
  prior : loop.state.priorGuesses = priorOf guesses
  judged : Judged text loop.puzzle guesses

theorem handleReply_remembers {loop : RunLoop} {stored : List Guess}
    (h : loop.Remembers text stored) (promptType : SolvePromptType) (request : List ChatMessage)
    (data : SolveStepSuccess) :
    let result := handleReply text limits loop now promptType request data
    result.1.Remembers text (stored ++ result.2.guesses) := by
  unfold handleReply
  simp only
  split
  · refine ⟨?_, ?_⟩
    · rw [List.append_nil]
      exact h.prior
    · rw [List.append_nil]
      exact h.judged
  · generalize hentries : buildProposalEntries _ _ _ _ = entries
    have hfour : ∀ proposal ∈ entries, proposal.words.length = groupSize :=
      hentries ▸ buildProposalEntries_four _ _ _ _
    generalize hev : (⟨_, _, [], data.textIssues⟩ : Evaluation) = ev
    have hempty : stored ++ ev.pendingGuesses = stored := by
      rw [← hev]
      exact List.append_nil stored
    have hprior : ev.state.priorGuesses = priorOf (stored ++ ev.pendingGuesses) := by
      rw [hempty, ← hev]
      exact h.prior
    obtain ⟨hnext, hjudged⟩ := evaluateProposals_judged text limits loop.puzzle now stored ev
      entries hfour hprior (by rw [hempty]; exact h.judged)
    refine ⟨?_, hjudged⟩
    split
    · exact hnext
    · exact hnext

theorem classifyFailedCall_priorGuesses (pool : Option ProviderPoolId)
    (freeTier : Option FreeTierConfig) (failure : SolveStepFailure) (run : StrategyRun)
    (state : LlmRunLoopState) :
    (classifyFailedCall limits pool freeTier now failure run state).2.2.priorGuesses =
      state.priorGuesses := by
  by_cases h : failure.code = .duplicateGroup
  · simp [classifyFailedCall, h]
  · exact congrArg RunHistory.priorGuesses
      (classifyFailedCall_history limits now pool freeTier failure run state h)

/-- A flushed iteration leaves the loop with the stored guesses and its own. -/
theorem runIteration_remembers {loop next : RunLoop} {stored : List Guess}
    {reservation : Option ℕ} {outcome : SolveStepOutcome} {batch : FlushBatch}
    {holds : List HoldRequest} (hloop : loop.Remembers text stored)
    (h : runIteration text limits loop now reservation outcome = .flush next batch holds) :
    next.Remembers text (stored ++ batch.guesses) ∧ next.puzzle = loop.puzzle := by
  unfold runIteration at h
  split at h
  · cases h
  · cases outcome with
    | ok data =>
      cases h
      exact ⟨handleReply_remembers text limits now hloop _ _ data, rfl⟩
    | error failure =>
      cases h
      refine ⟨⟨?_, ?_⟩, rfl⟩
      · rw [List.append_nil]
        exact (classifyFailedCall_priorGuesses limits now _ _ failure _ _).trans hloop.prior
      · rw [List.append_nil]
        exact hloop.judged

end Loop

namespace RunWorld

section Runs

variable {text : TextOps} {limits : RunLimits} {puzzle : Puzzle} {strategyName : String}
  {runId trialNumber : ℕ}

/-- The stored guesses are judged one after the other, and a loop goes on from them. -/
structure JudgedRun (text : TextOps) (puzzle : Puzzle) (w : RunWorld) : Prop where
  stored : Judged text puzzle.fixups w.guesses
  live : ∀ loop, w.loop? = some loop →
    loop.puzzle = puzzle.fixups ∧ loop.Remembers text w.guesses

theorem judgedRun_fresh : JudgedRun text puzzle fresh where
  stored := .nil
  live _ h := by cases h

/-- A step that keeps the guesses and leaves no loop keeps them judged. -/
theorem JudgedRun.closed {w w' : RunWorld} (h : JudgedRun text puzzle w)
    (hguesses : w'.guesses = w.guesses) (hloop : w'.loop? = none) : JudgedRun text puzzle w' where
  stored := hguesses ▸ h.stored
  live _ h' := by
    rw [hloop] at h'
    cases h'

/-- Every step keeps the guesses judged, also a restart. -/
theorem judgedRun_step {w w' : RunWorld} {e : RunEvent} (hw : JudgedRun text puzzle w)
    (hn : Numbered w)
    (hstep : step text limits puzzle strategyName runId trialNumber w e = some w') :
    JudgedRun text puzzle w' := by
  cases step_cases hstep with
  | created _ _ _ _ _ _ hworker hrows => exact hw.closed (by simp [guesses, hrows]) rfl
  | loaded rows _ _ _ _ _ _ hworker hrows hmodel =>
    exact hw.closed (by simp [guesses, hrows]) rfl
  | enteredTerminal rows _ _ _ _ _ _ hworker hrows hterminal =>
    exact hw.closed (by simp [guesses]) rfl
  | enteredHeld rows _ _ _ _ _ _ hworker hrows hterminal =>
    exact hw.closed (by simp [guesses, hrows, saveRun]) rfl
  | enteredLoop rows run model manualRetry maxOutputTokens _ _ hworker hrows hterminal =>
    have hguesses : w.guesses = rows.guesses := by simp [guesses, hrows]
    have hnumbered := hn.stored
    rw [hguesses] at hnumbered
    refine ⟨hw.stored, ?_⟩
    rintro _ ⟨⟩
    refine ⟨rfl, ?_, ?_⟩
    · simp only [rebuiltLoop, loadLlmGuessesForRun_of_numbered hnumbered, guesses, hrows]
      rfl
    · exact hw.stored
  | parked rows loop _ _ _ run hworker hrows hpark =>
    exact hw.closed (by simp [guesses, hrows, saveRun]) rfl
  | flushed rows loop next batch _ now _ _ hworker hrows hflush =>
    have hguesses : w.guesses = rows.guesses := by simp [guesses, hrows]
    obtain ⟨hpuzzle, hremembers⟩ := hw.live loop (loop?_eq_some.mpr hworker)
    rw [hguesses] at hremembers
    obtain ⟨hnext, hsame⟩ := runIteration_remembers text limits now hremembers hflush
    rw [hpuzzle] at hsame
    refine ⟨?_, ?_⟩
    · have hjudged := hnext.judged
      rw [hsame] at hjudged
      exact hjudged
    · intro loop' hloop'
      cases (worker_flushed (loop?_eq_some.mp hloop')).2
      exact ⟨hsame, hnext.prior, hnext.judged⟩
  | crashed => exact hw.closed (by simp [guesses]) rfl
  | flipped rows run _ hworker hrows =>
    exact hw.closed (by simp [guesses, hrows]) (by simp [loop?, hworker])

/-- Over every run, whatever restarts it had, the guesses were judged one after the other. -/
theorem judgedRun_reaches {w : RunWorld} {ok : RunWorld → RunEvent → Prop}
    (h : Run.Reaches (step text limits puzzle strategyName runId trialNumber) ok fresh w) :
    JudgedRun text puzzle w := by
  induction h with
  | start => exact judgedRun_fresh
  | snoc hbefore _ hstep ih => exact judgedRun_step ih (numbered_reaches hbefore) hstep

/-- The duplicate flag of a guess is exact, and a group that was never tried succeeds, exactly when
no earlier guess is made of only some of its words, unless one is made of all of them.  An earlier
guess can only be so when it repeats a word. -/
theorem duplicate_exact_iff {w : RunWorld} {rows : RunRows} {earlier later : List Guess}
    {guess : Guess}
    (hrun : Run.Reaches (step text limits puzzle strategyName runId trialNumber) Run.always fresh w)
    (hrows : w.rows = some rows) (hsplit : rows.guesses = earlier ++ guess :: later) :
    ((guess.result = .duplicate ↔ ∃ g ∈ earlier, SameWords g.words guess.words) ∧
        ∀ group ∈ puzzle.fixups.answerGroups, group.words.length = 4 →
          SameWords guess.words group.words →
          (∀ g ∈ earlier, ¬ SameWords g.words group.words) → guess.result = .success) ↔
      ((∃ g ∈ earlier, g.words ⊆ guess.words ∧ ¬ guess.words ⊆ g.words) →
        ∃ g ∈ earlier, SameWords g.words guess.words) := by
  have hjudged : Judged text puzzle.fixups rows.guesses := by
    simpa [guesses, hrows] using (judgedRun_reaches hrun).stored
  have hfour := hjudged.four
  rw [hsplit] at hfour
  have hresult := hjudged.split hsplit
  have hflag : guess.result = .duplicate ↔ ∃ g ∈ earlier, g.words ⊆ guess.words := by
    rw [hresult, judgeGuess_duplicate_iff]
    refine isDuplicate_iff fun g hg => ?_
    rw [hfour g (List.mem_append_left _ hg), hfour guess (by simp)]
  constructor
  · rintro ⟨hexact, -⟩ ⟨g, hg, hsub, -⟩
    exact hexact.mp (hflag.mpr ⟨g, hg, hsub⟩)
  · intro hcondition
    have hexact : guess.result = .duplicate ↔ ∃ g ∈ earlier, SameWords g.words guess.words := by
      rw [hflag]
      constructor
      · rintro ⟨g, hg, hsub⟩
        by_cases hsup : guess.words ⊆ g.words
        · exact ⟨g, hg, hsub, hsup⟩
        · exact hcondition ⟨g, hg, hsub, hsup⟩
      · rintro ⟨g, hg, hsub, -⟩
        exact ⟨g, hg, hsub⟩
    refine ⟨hexact, fun group hgroup hlength hsame hnew => ?_⟩
    have hfresh : guess.result ≠ .duplicate := by
      intro hduplicate
      obtain ⟨g, hg, hsub, hsup⟩ := hexact.mp hduplicate
      exact hnew g hg ⟨List.Subset.trans hsub hsame.1, List.Subset.trans hsame.2 hsup⟩
    rw [hresult] at hfresh ⊢
    have hno := mt (judgeGuess_duplicate_iff (priorOf earlier) guess.words).mpr hfresh
    rw [judgeGuess, if_neg hno]
    exact evaluateGuessOnPuzzle_of_covers text hgroup hlength fun w hw => hsame.2 hw

/-- A miss and its repetition in another order: the second guess is a duplicate of the first. -/
theorem duplicate_exact_after_miss :
    ∃ first second : Guess, first.words = ["ANT", "BEE", "FLY", "OAK"] ∧
      second.words = ["OAK", "FLY", "BEE", "ANT"] ∧
      (second.result = .duplicate ↔ ∃ g ∈ [first], SameWords g.words second.words) := by
  obtain ⟨w, hrun, hguesses⟩ := Run.exists_reaches
    (step asciiText defaultLimits insectsAndTrees "llm-openai" 1 1) Run.always fresh
    [.load 0 (some "gpt-5-mini") none none false none, .enter 0 false,
      .iterate 1 none (plainReply [["ANT", "BEE", "FLY", "OAK"]]), .crash,
      .load 2 (some "gpt-5-mini") none none false none, .enter 2 false,
      .iterate 3 none (plainReply [["OAK", "FLY", "BEE", "ANT"]])]
    (fun w => w.rows.any fun rows => rows.guesses.map (·.words) =
      [["ANT", "BEE", "FLY", "OAK"], ["OAK", "FLY", "BEE", "ANT"]]) (by decide)
  simp only [Option.any_eq_true, decide_eq_true_eq] at hguesses
  obtain ⟨rows, hrows, hwords⟩ := hguesses
  obtain ⟨first, rest, hfirst, hfirstWords, hrest⟩ := List.map_eq_cons_iff.mp hwords
  obtain ⟨second, tail, hsecond, hsecondWords, htail⟩ := List.map_eq_cons_iff.mp hrest
  obtain rfl := List.map_eq_nil_iff.mp htail
  have hsplit : rows.guesses = [first] ++ second :: [] := by rw [hfirst, hsecond]; rfl
  refine ⟨first, second, hfirstWords, hsecondWords,
    ((duplicate_exact_iff hrun hrows hsplit).mpr ?_).1⟩
  rintro ⟨g, hg, -, hmissing⟩
  rw [List.mem_singleton.mp hg, hfirstWords, hsecondWords] at hmissing
  exact absurd (by decide) hmissing

/-- After a guess that names a word twice, the untried group that it is part of is recorded as a
duplicate. -/
theorem repeated_word_makes_duplicate :
    ∃ (w : RunWorld) (rows : RunRows) (first second : Guess),
      Run.Reaches (step asciiText defaultLimits insectsAndTrees "llm-openai" 1 1) Run.always fresh
        w ∧
      w.rows = some rows ∧ rows.guesses = [first, second] ∧ second.result = .duplicate ∧
      (∃ group ∈ insectsAndTrees.fixups.answerGroups, SameWords second.words group.words) ∧
      ¬ SameWords first.words second.words := by
  obtain ⟨w, hrun, hguesses⟩ := Run.exists_reaches
    (step asciiText defaultLimits insectsAndTrees "llm-openai" 1 1) Run.always fresh
    [.load 0 (some "gpt-5-mini") none none false none, .enter 0 false,
      .iterate 1 none (plainReply [["ANT", "ANT", "BEE", "FLY"]]),
      .iterate 2 none (plainReply [["ANT", "BEE", "FLY", "GNAT"]])]
    (fun w => w.rows.any fun rows => rows.guesses.map (fun guess => (guess.words, guess.result)) =
      [(["ANT", "ANT", "BEE", "FLY"], .offByOne), (["ANT", "BEE", "FLY", "GNAT"], .duplicate)])
    (by decide)
  simp only [Option.any_eq_true, decide_eq_true_eq] at hguesses
  obtain ⟨rows, hrows, hwords⟩ := hguesses
  obtain ⟨first, rest, hfirst, hfirstWords, hrest⟩ := List.map_eq_cons_iff.mp hwords
  obtain ⟨second, tail, hsecond, hsecondWords, htail⟩ := List.map_eq_cons_iff.mp hrest
  obtain rfl := List.map_eq_nil_iff.mp htail
  simp only [Prod.mk.injEq] at hfirstWords hsecondWords
  refine ⟨w, rows, first, second, hrun, hrows, by rw [hfirst, hsecond], hsecondWords.2, ?_, ?_⟩
  · rw [hsecondWords.1]
    decide
  · rw [hfirstWords.1, hsecondWords.1]
    decide

end Runs

end RunWorld

end Connections
