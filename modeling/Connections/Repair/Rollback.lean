import Connections.Repair.HistoryLoss
import Connections.Strategy.BoardInvariant

/-!
# The rollback of a run

Both repairs delete the rows of a run from a prompt on and store the words that were left before it.
Each of them cuts the prompts of a run in two: the guesses of the first part remain, and their
solved words are the ones taken off the board.
-/

namespace Connections

/-- The rows of one run, as a script loads them. -/
structure RunTables where
  run : StrategyRun
  prompts : List (WithId SolvePrompt)
  proposals : List ProposalRow
  guesses : List (WithId Guess)

/-- A submitted proposal became the guess of an id. -/
def ProposalRow.Became (proposal : ProposalRow) (guessId : ℕ) : Prop :=
  proposal.row.status = .used ∧ proposal.guessId = some guessId

/-- What the keys of the tables and every runner that wrote them guarantee: ids are unique, a
proposal belongs to a prompt, every guess is one submitted proposal with the same words, and a call
that failed, or was tried again under the same number, submitted nothing. -/
structure RunTables.Sound (t : RunTables) : Prop where
  promptIds : (t.prompts.map (·.id)).Nodup
  guessIds : (t.guesses.map (·.id)).Nodup
  solvePrompt : ∀ proposal ∈ t.proposals, ∃ prompt ∈ t.prompts,
    prompt.id = proposal.solvePromptId
  submitted : ∀ guess ∈ t.guesses, ∃ proposal ∈ t.proposals, proposal.Became guess.id
  words : ∀ proposal ∈ t.proposals, ∀ guess ∈ t.guesses, proposal.Became guess.id →
    proposal.row.words = guess.row.words
  once : ∀ p ∈ t.proposals, ∀ q ∈ t.proposals, ∀ id, p.Became id → q.Became id →
    p.solvePromptId = q.solvePromptId
  callError : ∀ prompt ∈ t.prompts, prompt.row.status = .callError →
    ∀ proposal ∈ t.proposals, proposal.solvePromptId = prompt.id → ∀ id, ¬ proposal.Became id
  attempts : ∀ p ∈ t.prompts, ∀ q ∈ t.prompts, p.id ≠ q.id →
    p.row.promptNumber = q.row.promptNumber → p.row.attemptNumber ≤ q.row.attemptNumber →
    ∀ proposal ∈ t.proposals, proposal.solvePromptId = p.id → ∀ id, ¬ proposal.Became id

/-- What a script is about to do to a run. -/
structure RollbackPlan where
  cutoffPromptNumber : ℕ
  availableWords : List String
  taintedGuessIds : List ℕ
  deriving DecidableEq, Repr

/-- The two repair scripts. -/
inductive RepairScript
  | resumeCorrupted
  | manualRetryHistoryLoss
  deriving DecidableEq, Repr

/-- The plan of a script for a run, if it flags the run. -/
def RepairScript.plan (script : RepairScript) (originalWords : List String) (t : RunTables) :
    Option RollbackPlan :=
  match script with
  | .resumeCorrupted =>
    (findResumeCorruption t.proposals (guessMap t.guesses) originalWords t.prompts).map
      fun corruption => ⟨corruption.badPromptNumber,
        corruption.availableWordsBeforeCorruption, corruption.taintedGuessIds⟩
  | .manualRetryHistoryLoss =>
    (planManualRetryHistoryRepair t.proposals (guessMap t.guesses) originalWords t.prompts).map
      fun repair => ⟨repair.cutoffPromptNumber, repair.availableWordsBeforeCutoff,
        repair.taintedGuessIds⟩

/-- The transaction both scripts apply: the tainted guesses and the prompts from the cutoff on go,
with the prompts their proposals, and the run is reset. -/
def RunTables.applyPlan (t : RunTables) (plan : RollbackPlan) (now : ℕ) : RunTables :=
  let taintedSolvePromptIds :=
    (t.prompts.filter (plan.cutoffPromptNumber ≤ ·.row.promptNumber)).map (·.id)
  { run := { t.run with
      availableWords := plan.availableWords, status := .error, finishedAt := some now
      updatedAt := now }
    prompts := t.prompts.filter (·.id ∉ taintedSolvePromptIds)
    proposals := t.proposals.filter (·.solvePromptId ∉ taintedSolvePromptIds)
    guesses := t.guesses.filter (·.id ∉ plan.taintedGuessIds) }

/-- The words of the groups that a run has solved. -/
def RunTables.solvedWords (t : RunTables) : List String :=
  (t.guesses.filter (·.row.result = .success)).flatMap (·.row.words)

/-- Every guess of the run belongs to one of its prompts. -/
def RunTables.GuessesBelong (t : RunTables) : Prop :=
  ∀ guess ∈ t.guesses, ∃ proposal ∈ t.proposals, proposal.Became guess.id ∧
    ∃ prompt ∈ t.prompts, prompt.id = proposal.solvePromptId

/-- A solved guess of one of the prompts names the word. -/
def RunTables.SolvedIn (t : RunTables) (prompts : List (WithId SolvePrompt)) (word : String) :
    Prop :=
  ∃ prompt ∈ prompts, ∃ proposal ∈ t.proposals, proposal.solvePromptId = prompt.id ∧
    ∃ guess ∈ t.guesses, proposal.Became guess.id ∧ guess.row.result = .success ∧
      word ∈ guess.row.words

/-- The submitted proposals of a call, unless it failed. -/
def answeredSteps (proposals : List ProposalRow) (guessesById : ℕ → Option Guess)
    (prompt : WithId SolvePrompt) : List (List String × Guess) :=
  if prompt.row.status = .callError then [] else usedSteps proposals guessesById prompt.id

/-- The words of the groups that submitted proposals solved. -/
def solvedWordsOf (steps : List (List String × Guess)) : List String :=
  (steps.filter (·.2.result = .success)).flatMap (·.1)

/-- The type of the prompt that answers to submitted proposals. -/
def askedAfter (steps : List (List String × Guess)) : SolvePromptType :=
  if (steps.getLast?.map (·.2.result)).getD .success = .success then .initialSolve else .retry

/-- A later prompt that does not answer to what was submitted before it. -/
def unasked (proposals : List ProposalRow) (guessesById : ℕ → Option Guess)
    (before : List (WithId SolvePrompt)) (prompt : WithId SolvePrompt) : Bool :=
  before ≠ [] ∧ prompt.row.promptType ≠
    askedAfter (before.flatMap (answeredSteps proposals guessesById))

/-- The elements up to the first one that is flagged behind those before it. -/
def keepUntil {α : Type} (flagged : List α → α → Bool) (before : List α) : List α → List α
  | [] => before
  | a :: as => if flagged before a then before else keepUntil flagged (before ++ [a]) as

/-- The prompts that a script leaves alone: those before the first prompt of the wrong type, or
those numbered below the trigger row. -/
def RepairScript.keptPrompts (script : RepairScript) (t : RunTables) :
    List (WithId SolvePrompt) :=
  match script with
  | .resumeCorrupted =>
    keepUntil (unasked t.proposals (guessMap t.guesses)) []
      (t.prompts.insertionSort fun a b => a.row.promptNumber < b.row.promptNumber ∨
        (a.row.promptNumber = b.row.promptNumber ∧ a.row.attemptNumber ≤ b.row.attemptNumber))
  | .manualRetryHistoryLoss =>
    (t.prompts.insertionSort fun a b => a.row.promptNumber ≤ b.row.promptNumber).filter
      fun prompt => (findManualRetryHistoryLoss (t.prompts.map (·.row))).any
        (prompt.row.promptNumber < ·.triggerPromptNumber)

/-- A plan cuts the prompts of a run in two: it takes the guesses of the second part back and the
words of the groups solved in the first part off the board. -/
structure RunTables.CutBy (t : RunTables) (originalWords : List String) (plan : RollbackPlan)
    (kept cut : List (WithId SolvePrompt)) : Prop where
  prompts : (kept ++ cut).Perm t.prompts
  kept_lt : ∀ prompt ∈ kept, ∀ proposal ∈ t.proposals, proposal.solvePromptId = prompt.id →
    ∀ id, proposal.Became id → prompt.row.promptNumber < plan.cutoffPromptNumber
  words : ∃ solved : List String, plan.availableWords = originalWords.filter (· ∉ solved) ∧
    ∀ word, word ∈ solved ↔ t.SolvedIn kept word
  tainted : plan.taintedGuessIds = cut.flatMap fun prompt => usedGuessIds t.proposals prompt.id

/-- The guesses of a prompt are those its proposals became. -/
theorem mem_usedGuessIds {proposals : List ProposalRow} {promptId guessId : ℕ} :
    guessId ∈ usedGuessIds proposals promptId ↔
      ∃ proposal ∈ proposals, proposal.solvePromptId = promptId ∧ proposal.Became guessId := by
  simp only [usedGuessIds, proposalsByPrompt, List.mem_filterMap, List.mem_filter,
    decide_eq_true_eq, ProposalRow.Became]
  constructor
  · rintro ⟨proposal, ⟨hmem, hprompt⟩, hguess⟩
    split at hguess
    · exact ⟨proposal, hmem, hprompt, ‹_›, hguess⟩
    · cases hguess
  · rintro ⟨proposal, hmem, hprompt, hused, hguess⟩
    exact ⟨proposal, ⟨hmem, hprompt⟩, by rw [if_pos hused, hguess]⟩

section Cut

variable {t : RunTables} {originalWords : List String} {plan : RollbackPlan}
  {kept cut : List (WithId SolvePrompt)}

/-- The guesses that remain are those of the prompts before the cut. -/
theorem RunTables.CutBy.remains_iff (h : t.CutBy originalWords plan kept cut) (hsound : t.Sound)
    {guess : WithId Guess} {proposal : ProposalRow} (hproposal : proposal ∈ t.proposals)
    (hbecame : proposal.Became guess.id) :
    guess.id ∉ plan.taintedGuessIds ↔
      ∃ prompt ∈ kept, prompt.id = proposal.solvePromptId := by
  rw [h.tainted]
  have hids : ((kept ++ cut).map (·.id)).Nodup := (h.prompts.map _).nodup_iff.mpr hsound.promptIds
  rw [List.map_append] at hids
  constructor
  · intro hnot
    obtain ⟨prompt, hprompt, hid⟩ := hsound.solvePrompt proposal hproposal
    rcases List.mem_append.mp (h.prompts.mem_iff.mpr hprompt) with hkept | hcut
    · exact ⟨prompt, hkept, hid⟩
    · refine absurd (List.mem_flatMap.mpr ⟨prompt, hcut, ?_⟩) hnot
      exact mem_usedGuessIds.mpr ⟨proposal, hproposal, hid.symm, hbecame⟩
  · rintro ⟨prompt, hkept, hid⟩ htainted
    obtain ⟨other, hcut, hmem⟩ := List.mem_flatMap.mp htainted
    obtain ⟨q, hq, hqid, hqbecame⟩ := mem_usedGuessIds.mp hmem
    have hsame := hsound.once proposal hproposal q hq guess.id hbecame hqbecame
    refine (List.nodup_append.mp hids).2.2 prompt.id (List.mem_map_of_mem hkept) other.id
      (List.mem_map_of_mem hcut) ?_
    rw [hid, hsame, hqid]

/-- The words that the plan takes off the board are those of the solved guesses that remain. -/
theorem RunTables.CutBy.solvedIn_iff (h : t.CutBy originalWords plan kept cut) (hsound : t.Sound)
    (now : ℕ) (word : String) :
    t.SolvedIn kept word ↔ word ∈ (t.applyPlan plan now).solvedWords := by
  simp only [RunTables.solvedWords, RunTables.applyPlan, List.mem_flatMap, List.mem_filter,
    decide_eq_true_eq]
  constructor
  · rintro ⟨prompt, hkept, proposal, hproposal, hid, guess, hguess, hbecame, hsuccess, hword⟩
    refine ⟨guess, ⟨⟨hguess, ?_⟩, hsuccess⟩, hword⟩
    exact (h.remains_iff hsound hproposal hbecame).mpr ⟨prompt, hkept, hid.symm⟩
  · rintro ⟨guess, ⟨⟨hguess, hremains⟩, hsuccess⟩, hword⟩
    obtain ⟨proposal, hproposal, hbecame⟩ := hsound.submitted guess hguess
    obtain ⟨prompt, hkept, hid⟩ := (h.remains_iff hsound hproposal hbecame).mp hremains
    exact ⟨prompt, hkept, proposal, hproposal, hid.symm, guess, hguess, hbecame, hsuccess, hword⟩

/-- Every guess that remains belongs to a prompt that remains. -/
theorem RunTables.CutBy.guessesBelong (h : t.CutBy originalWords plan kept cut)
    (hsound : t.Sound) (now : ℕ) : (t.applyPlan plan now).GuessesBelong := by
  intro guess hguess
  obtain ⟨hmem, hremains⟩ := List.mem_filter.mp hguess
  rw [decide_eq_true_eq] at hremains
  obtain ⟨proposal, hproposal, hbecame⟩ := hsound.submitted guess hmem
  obtain ⟨prompt, hkept, hid⟩ := (h.remains_iff hsound hproposal hbecame).mp hremains
  have hprompt : prompt ∈ t.prompts := h.prompts.mem_iff.mp (List.mem_append_left _ hkept)
  have hlt := h.kept_lt prompt hkept proposal hproposal hid.symm guess.id hbecame
  have huntainted : prompt.id ∉
      (t.prompts.filter (plan.cutoffPromptNumber ≤ ·.row.promptNumber)).map (·.id) := by
    intro htainted
    obtain ⟨other, hother, hsame⟩ := List.mem_map.mp htainted
    obtain ⟨hother, hle⟩ := List.mem_filter.mp hother
    rw [List.inj_on_of_nodup_map hsound.promptIds hother hprompt hsame,
      decide_eq_true_eq] at hle
    omega
  refine ⟨proposal, ?_, hbecame, prompt, ?_, hid⟩
  · exact List.mem_filter.mpr ⟨hproposal, by simpa [← hid] using huntainted⟩
  · exact List.mem_filter.mpr ⟨hprompt, by simpa using huntainted⟩

end Cut

/-! ### The plans of the two scripts -/

section Plans

variable {t : RunTables}

/-- With ids that differ, a look-up by id finds the guess that has it. -/
theorem guessMap_eq_some_iff (hids : (t.guesses.map (·.id)).Nodup) {id : ℕ} {row : Guess} :
    guessMap t.guesses id = some row ↔ ∃ guess ∈ t.guesses, guess.id = id ∧ guess.row = row := by
  constructor
  · intro h
    obtain ⟨guess, hfound, hrow⟩ := Option.map_eq_some_iff.mp h
    exact ⟨guess, List.mem_reverse.mp (List.mem_of_find?_eq_some hfound),
      by simpa using List.find?_some hfound, hrow⟩
  · rintro ⟨guess, hmem, rfl, rfl⟩
    exact guessMap_of_mem hids hmem

/-- A proposal that was used is found with the guess it became. -/
theorem usedStep_eq_some_iff (hids : (t.guesses.map (·.id)).Nodup) {proposal : ProposalRow}
    {step : List String × Guess} :
    usedStep (guessMap t.guesses) proposal = some step ↔
      ∃ guess ∈ t.guesses, proposal.Became guess.id ∧ step = (proposal.row.words, guess.row) := by
  unfold usedStep ProposalRow.Became
  split
  · rename_i hused
    simp only [Option.map_eq_some_iff, Option.bind_eq_some_iff, guessMap_eq_some_iff hids]
    constructor
    · rintro ⟨row, ⟨id, hid, guess, hguess, rfl, rfl⟩, rfl⟩
      exact ⟨guess, hguess, ⟨hused, hid⟩, rfl⟩
    · rintro ⟨guess, hguess, ⟨-, hid⟩, rfl⟩
      exact ⟨guess.row, ⟨guess.id, hid, guess, hguess, rfl, rfl⟩, rfl⟩
  · rename_i hused
    simp [hused]

/-- The used steps of a prompt are its proposals with the guesses they became. -/
theorem mem_usedSteps (hids : (t.guesses.map (·.id)).Nodup) {promptId : ℕ}
    {step : List String × Guess} :
    step ∈ usedSteps t.proposals (guessMap t.guesses) promptId ↔
      ∃ proposal ∈ t.proposals, proposal.solvePromptId = promptId ∧
        ∃ guess ∈ t.guesses, proposal.Became guess.id ∧
          step = (proposal.row.words, guess.row) := by
  simp only [usedSteps, proposalsByPrompt, List.mem_insertionSort, List.mem_filterMap,
    List.mem_filter, decide_eq_true_eq, usedStep_eq_some_iff hids, and_assoc]

/-- The used guesses of a prompt are those its proposals became. -/
theorem mem_usedGuesses (hids : (t.guesses.map (·.id)).Nodup) {promptId : ℕ} {row : Guess} :
    row ∈ usedGuesses t.proposals (guessMap t.guesses) promptId ↔
      ∃ proposal ∈ t.proposals, proposal.solvePromptId = promptId ∧
        ∃ guess ∈ t.guesses, proposal.Became guess.id ∧ guess.row = row := by
  simp only [usedGuesses, List.mem_insertionSort, List.mem_filterMap, mem_usedGuessIds,
    guessMap_eq_some_iff hids]
  constructor
  · rintro ⟨id, ⟨proposal, hproposal, hprompt, hbecame⟩, guess, hguess, rfl, hrow⟩
    exact ⟨proposal, hproposal, hprompt, guess, hguess, hbecame, hrow⟩
  · rintro ⟨proposal, hproposal, hprompt, guess, hguess, hbecame, hrow⟩
    exact ⟨guess.id, ⟨proposal, hproposal, hprompt, hbecame⟩, guess, hguess, rfl, hrow⟩

/-- What both scripts read off a prompt, skipping the calls that failed, is what it solved. -/
theorem RunTables.Sound.mem_flatMap_iff (hsound : t.Sound)
    {words : WithId SolvePrompt → List String} {word : String}
    (hwords : ∀ prompt, word ∈ words prompt ↔ ∃ proposal ∈ t.proposals,
      proposal.solvePromptId = prompt.id ∧ ∃ guess ∈ t.guesses, proposal.Became guess.id ∧
        guess.row.result = .success ∧ word ∈ guess.row.words)
    {prompts : List (WithId SolvePrompt)} (hsub : prompts ⊆ t.prompts) :
    (word ∈ prompts.flatMap fun prompt =>
      if prompt.row.status = .callError then [] else words prompt) ↔ t.SolvedIn prompts word := by
  simp only [List.mem_flatMap, RunTables.SolvedIn]
  refine exists_congr fun prompt => and_congr_right fun hprompt => ?_
  split
  · rename_i hstatus
    constructor
    · intro h
      cases h
    · rintro ⟨proposal, hproposal, hid, guess, -, hbecame, -⟩
      exact absurd hbecame
        (hsound.callError prompt (hsub hprompt) hstatus proposal hproposal hid guess.id)
  · exact hwords prompt

open Classical in
/-- The scan goes on behind a part that it kept whole, and behind no other. -/
theorem keepUntil_append {α : Type} (flagged : List α → α → Bool)
    (before xs ys : List α) :
    keepUntil flagged before (xs ++ ys) =
      if keepUntil flagged before xs = before ++ xs then keepUntil flagged (before ++ xs) ys
      else keepUntil flagged before xs := by
  induction xs generalizing before with
  | nil => simp [keepUntil]
  | cons x xs ih =>
    simp only [List.cons_append, keepUntil]
    by_cases hflag : flagged before x
    · simp [hflag]
    · simp only [hflag, Bool.false_eq_true, ↓reduceIte]
      rw [ih, List.append_assoc, List.singleton_append]

/-- Taking words off a board one batch after the other. -/
theorem filter_notMem_append (words solved more : List String) :
    (words.filter (· ∉ solved)).filter (· ∉ more) = words.filter (· ∉ solved ++ more) := by
  rw [List.filter_filter]
  refine List.filter_congr fun w _ => ?_
  rw [Bool.eq_iff_iff]
  simp [and_comm]

/-- The solved words of two parts are collected part by part. -/
theorem solvedWordsOf_append (steps more : List (List String × Guess)) :
    solvedWordsOf (steps ++ more) = solvedWordsOf steps ++ solvedWordsOf more := by
  simp [solvedWordsOf]

/-! #### The script for corrupted resumes -/

/-- A submitted guess takes the words it solved off the board and decides what is asked next. -/
theorem submit_spec (replay : Replay) (step : List String × Guess) :
    let after := replay.submit step
    after.bad = replay.bad ∧ after.taintedGuessIds = replay.taintedGuessIds ∧
      after.availableWords = replay.availableWords.filter (· ∉ solvedWordsOf [step]) ∧
      ∀ steps, promptTypeAfter after.lastFailedGuess = askedAfter (steps ++ [step]) := by
  unfold Replay.submit askedAfter solvedWordsOf
  by_cases hsuccess : step.2.result = .success
  · simp [hsuccess, promptTypeAfter]
  · simp [hsuccess, promptTypeAfter]

/-- Submitting guesses takes the solved words off the board and moves on to the last guess. -/
theorem foldl_submit_spec (replay : Replay) (before steps : List (List String × Guess))
    (htype : promptTypeAfter replay.lastFailedGuess = askedAfter before) :
    let after := steps.foldl Replay.submit replay
    after.bad = replay.bad ∧ after.taintedGuessIds = replay.taintedGuessIds ∧
      after.availableWords = replay.availableWords.filter (· ∉ solvedWordsOf steps) ∧
      promptTypeAfter after.lastFailedGuess = askedAfter (before ++ steps) := by
  induction steps generalizing replay before with
  | nil => simp [solvedWordsOf, htype]
  | cons step steps ih =>
    obtain ⟨hbad, htainted, hwords, hasked⟩ := submit_spec replay step
    obtain ⟨hbad', htainted', hwords', hasked'⟩ :=
      ih (replay.submit step) (before ++ [step]) (hasked before)
    rw [List.foldl_cons]
    refine ⟨hbad'.trans hbad, htainted'.trans htainted, hwords'.trans ?_, hasked'.trans ?_⟩
    · rw [hwords, ← List.singleton_append (l := steps), solvedWordsOf_append, filter_notMem_append]
    · rw [List.append_assoc, List.singleton_append]

variable (proposals : List ProposalRow) (guessesById : ℕ → Option Guess)

/-- A prompt that is flagged: nothing is submitted from it on. -/
theorem visit_flagged {replay : Replay} {prompt : WithId SolvePrompt} {i : ℕ}
    (hbad : replay.bad = none) (hi : 0 < i)
    (htype : prompt.row.promptType ≠ promptTypeAfter replay.lastFailedGuess) :
    replay.visit proposals guessesById prompt i =
      { replay with
        bad := some (prompt.row.promptNumber, replay.availableWords)
        taintedGuessIds := replay.taintedGuessIds ++ usedGuessIds proposals prompt.id } := by
  unfold Replay.visit
  rw [expectedType_eq]
  simp [hbad, hi, htype, usedGuessIds]

/-- A prompt before the first flagged one is replayed. -/
theorem visit_unflagged {replay : Replay} {prompt : WithId SolvePrompt} {i : ℕ}
    (hbad : replay.bad = none)
    (hflag : ¬ (0 < i ∧ prompt.row.promptType ≠ promptTypeAfter replay.lastFailedGuess)) :
    replay.visit proposals guessesById prompt i =
      (answeredSteps proposals guessesById prompt).foldl Replay.submit replay := by
  simp only [Replay.visit, expectedType_eq, hbad, hflag, and_false, ↓reduceIte,
    Option.isSome_none, Bool.false_eq_true, answeredSteps]
  split
  · rfl
  · rfl

/-- A prompt behind the first flagged one loses its guesses. -/
theorem visit_tainted {replay : Replay} {prompt : WithId SolvePrompt} {i : ℕ}
    {bad : ℕ × List String} (hbad : replay.bad = some bad) :
    replay.visit proposals guessesById prompt i =
      { replay with
        taintedGuessIds := replay.taintedGuessIds ++ usedGuessIds proposals prompt.id } := by
  simp [Replay.visit, hbad, usedGuessIds]

/-- The replay cuts the prompts at the first one that does not answer to the guesses before it. -/
theorem visitAll_split (originalWords : List String) (visited : List (WithId SolvePrompt)) :
    let replay := Replay.visitAll proposals guessesById ⟨originalWords, none, none, []⟩ visited
    let kept := keepUntil (unasked proposals guessesById) [] visited
    (visited = kept ∧ replay.bad = none ∧ replay.taintedGuessIds = [] ∧
      replay.availableWords = originalWords.filter
        (· ∉ solvedWordsOf (kept.flatMap (answeredSteps proposals guessesById))) ∧
      promptTypeAfter replay.lastFailedGuess =
        askedAfter (kept.flatMap (answeredSteps proposals guessesById))) ∨
    ∃ bad rest, visited = kept ++ bad :: rest ∧
      replay.bad = some (bad.row.promptNumber, originalWords.filter
        (· ∉ solvedWordsOf (kept.flatMap (answeredSteps proposals guessesById)))) ∧
      replay.taintedGuessIds = (bad :: rest).flatMap fun prompt =>
        usedGuessIds proposals prompt.id := by
  induction visited using List.reverseRecOn with
  | nil => exact .inl ⟨rfl, rfl, rfl, by simp [Replay.visitAll, keepUntil, solvedWordsOf], rfl⟩
  | append_singleton visited prompt ih =>
    rw [visitAll_snoc, keepUntil_append]
    generalize Replay.visitAll proposals guessesById ⟨originalWords, none, none, []⟩ visited =
      replay at ih
    generalize hkept : keepUntil (unasked proposals guessesById) [] visited = kept at ih
    rcases ih with ⟨rfl, hbad, htainted, hwords, htype⟩ | ⟨bad, rest, hsplit, hbad, htainted⟩
    · rw [List.nil_append, if_pos rfl, keepUntil, keepUntil]
      by_cases hflag : 0 < visited.length ∧
          prompt.row.promptType ≠ promptTypeAfter replay.lastFailedGuess
      · -- The prompt is the first flagged one.
        have hunasked : unasked proposals guessesById visited prompt := by
          simpa [unasked, List.length_pos_iff, ← htype] using hflag
        rw [if_pos hunasked, visit_flagged _ _ hbad hflag.1 hflag.2]
        refine .inr ⟨prompt, [], rfl, by rw [hwords], ?_⟩
        simp [htainted]
      · have hasked : ¬ unasked proposals guessesById visited prompt := by
          simpa [unasked, List.length_pos_iff, ← htype] using hflag
        rw [if_neg hasked, visit_unflagged _ _ hbad hflag]
        obtain ⟨hsame, hkeeps, hfiltered, hlast⟩ :=
          foldl_submit_spec replay _ (answeredSteps proposals guessesById prompt) htype
        have hsteps : (visited ++ [prompt]).flatMap (answeredSteps proposals guessesById) =
            visited.flatMap (answeredSteps proposals guessesById) ++
              answeredSteps proposals guessesById prompt := by
          rw [List.flatMap_append, List.flatMap_singleton]
        refine .inl ⟨rfl, hsame.trans hbad, hkeeps.trans htainted, hfiltered.trans ?_, ?_⟩
        · rw [hwords, hsteps, solvedWordsOf_append, filter_notMem_append]
        · rw [hsteps, hlast]
    · have hne : kept ≠ [] ++ visited := by
        rw [hsplit]
        simp
      rw [if_neg hne, visit_tainted _ _ hbad]
      refine .inr ⟨bad, rest ++ [prompt], ?_, hbad, ?_⟩
      · rw [hsplit, List.append_assoc, List.cons_append]
      · rw [htainted, ← List.cons_append, List.flatMap_append, List.flatMap_singleton]

theorem solvedWordsOf_answeredSteps (prompts : List (WithId SolvePrompt)) :
    solvedWordsOf (prompts.flatMap (answeredSteps proposals guessesById)) =
      prompts.flatMap fun prompt => if prompt.row.status = .callError then []
        else solvedWordsOf (usedSteps proposals guessesById prompt.id) := by
  rw [solvedWordsOf, List.filter_flatMap, List.flatMap_assoc]
  congr 1
  funext prompt
  unfold answeredSteps
  split
  · rfl
  · rfl

theorem RunTables.Sound.mem_solvedWordsOf (hsound : t.Sound)
    {prompts : List (WithId SolvePrompt)} (hsub : prompts ⊆ t.prompts) (word : String) :
    word ∈ solvedWordsOf (prompts.flatMap (answeredSteps t.proposals (guessMap t.guesses))) ↔
      t.SolvedIn prompts word := by
  rw [solvedWordsOf_answeredSteps]
  refine hsound.mem_flatMap_iff (fun prompt => ?_) hsub
  simp only [solvedWordsOf, List.mem_flatMap, List.mem_filter, decide_eq_true_eq,
    mem_usedSteps hsound.guessIds]
  constructor
  · rintro ⟨_, ⟨⟨proposal, hproposal, hid, guess, hguess, hbecame, rfl⟩, hsuccess⟩, hword⟩
    exact ⟨proposal, hproposal, hid, guess, hguess, hbecame, hsuccess,
      hsound.words proposal hproposal guess hguess hbecame ▸ hword⟩
  · rintro ⟨proposal, hproposal, hid, guess, hguess, hbecame, hsuccess, hword⟩
    exact ⟨_, ⟨⟨proposal, hproposal, hid, guess, hguess, hbecame, rfl⟩, hsuccess⟩,
      (hsound.words proposal hproposal guess hguess hbecame).symm ▸ hword⟩

/-- The script for corrupted resumes cuts the run at the prompt it flags. -/
theorem cutBy_resumeCorrupted (hsound : t.Sound) {originalWords : List String}
    {plan : RollbackPlan} (hplan : RepairScript.resumeCorrupted.plan originalWords t = some plan) :
    ∃ cut, t.CutBy originalWords plan (RepairScript.resumeCorrupted.keptPrompts t) cut := by
  obtain ⟨corruption, hfound, rfl⟩ := Option.map_eq_some_iff.mp hplan
  unfold findResumeCorruption at hfound
  unfold RepairScript.keptPrompts
  set earlier := fun a b : WithId SolvePrompt => a.row.promptNumber < b.row.promptNumber ∨
    (a.row.promptNumber = b.row.promptNumber ∧ a.row.attemptNumber ≤ b.row.attemptNumber)
    with hearlier
  have hperm : (t.prompts.insertionSort earlier).Perm t.prompts := List.perm_insertionSort _ _
  have hsorted : (t.prompts.insertionSort earlier).Pairwise earlier := by
    have : Std.Total earlier := ⟨fun a b => by simp only [hearlier]; omega⟩
    have : IsTrans _ earlier := ⟨fun a b c => by simp only [hearlier]; omega⟩
    exact List.pairwise_insertionSort _ _
  generalize t.prompts.insertionSort earlier = ordered at hfound hperm hsorted ⊢
  obtain ⟨⟨badPromptNumber, words⟩, hbad, rfl⟩ := Option.map_eq_some_iff.mp hfound
  have hsplit := visitAll_split t.proposals (guessMap t.guesses) originalWords ordered
  generalize keepUntil (unasked t.proposals (guessMap t.guesses)) [] ordered = kept at hsplit ⊢
  rcases hsplit with ⟨-, hnone, -⟩ | ⟨bad, rest, rfl, hsome, htainted⟩
  · rw [hnone] at hbad
    cases hbad
  · rw [hsome] at hbad
    obtain ⟨rfl, rfl⟩ := Prod.mk.inj (Option.some.inj hbad)
    have hsub : kept ⊆ t.prompts := fun prompt hprompt =>
      hperm.mem_iff.mp (List.mem_append_left _ hprompt)
    have hbadmem : bad ∈ t.prompts :=
      hperm.mem_iff.mp (List.mem_append_right _ List.mem_cons_self)
    refine ⟨bad :: rest, hperm, ?_, ⟨_, rfl, hsound.mem_solvedWordsOf hsub⟩, htainted⟩
    intro prompt hprompt proposal hproposal hid id hbecame
    have hle : earlier prompt bad :=
      (List.pairwise_append.mp hsorted).2.2 prompt hprompt bad List.mem_cons_self
    rcases hle with hlt | ⟨hsame, hattempt⟩
    · exact hlt
    · -- A call that was tried again submitted nothing.
      have hne : prompt.id ≠ bad.id := by
        have hids := (hperm.map (·.id)).nodup_iff.mpr hsound.promptIds
        rw [List.map_append] at hids
        exact (List.nodup_append.mp hids).2.2 prompt.id (List.mem_map_of_mem hprompt) bad.id
          (List.mem_map_of_mem List.mem_cons_self)
      exact absurd hbecame (hsound.attempts prompt (hsub hprompt) bad hbadmem hne hsame hattempt
        proposal hproposal hid id)

/-! #### The script for lost histories -/

/-- The words that the repair takes off the board for a prompt. -/
def solvedGuessWords (prompt : WithId SolvePrompt) : List String :=
  if prompt.row.status = .callError then []
  else
    ((usedGuesses proposals guessesById prompt.id).filter (·.result = .success)).flatMap (·.words)

/-- The words left are those of no successful guess. -/
theorem foldl_removeSolved (availableWords : List String) (guesses : List Guess) :
    guesses.foldl removeSolved availableWords =
      availableWords.filter (· ∉ (guesses.filter (·.result = .success)).flatMap (·.words)) := by
  induction guesses generalizing availableWords with
  | nil => simp
  | cons guess guesses ih =>
    rw [List.foldl_cons, ih]
    by_cases hsuccess : guess.result = .success
    · rw [removeSolved, if_pos hsuccess, List.filter_cons_of_pos (by simpa using hsuccess),
        List.flatMap_cons, filter_notMem_append]
    · rw [removeSolved, if_neg hsuccess, List.filter_cons_of_neg (by simpa using hsuccess)]

theorem foldl_visitForRepair (triggerPromptNumber : ℕ) (replay : List String × List ℕ)
    (prompts : List (WithId SolvePrompt)) :
    prompts.foldl (visitForRepair proposals guessesById triggerPromptNumber) replay =
      (replay.1.filter (· ∉ (prompts.filter (·.row.promptNumber < triggerPromptNumber)).flatMap
          (solvedGuessWords proposals guessesById)),
        replay.2 ++ (prompts.filter (triggerPromptNumber ≤ ·.row.promptNumber)).flatMap
          fun prompt => usedGuessIds proposals prompt.id) := by
  induction prompts generalizing replay with
  | nil => simp
  | cons prompt prompts ih =>
    rw [List.foldl_cons, ih]
    by_cases hcut : triggerPromptNumber ≤ prompt.row.promptNumber
    · rw [visitForRepair, if_pos hcut, List.filter_cons_of_neg (by simpa using hcut),
        List.filter_cons_of_pos (by simpa using hcut), List.flatMap_cons, List.append_assoc]
    · rw [visitForRepair, if_neg hcut,
        List.filter_cons_of_pos (a := prompt) (by simpa using hcut),
        List.filter_cons_of_neg (a := prompt) (by simpa using hcut), List.flatMap_cons]
      by_cases hstatus : prompt.row.status = .callError
      · rw [if_pos hstatus, solvedGuessWords, if_pos hstatus, List.nil_append]
      · rw [if_neg hstatus, solvedGuessWords, if_neg hstatus, foldl_removeSolved,
          filter_notMem_append]

theorem RunTables.Sound.mem_solvedGuessWords (hsound : t.Sound)
    {prompts : List (WithId SolvePrompt)} (hsub : prompts ⊆ t.prompts) (word : String) :
    word ∈ prompts.flatMap (solvedGuessWords t.proposals (guessMap t.guesses)) ↔
      t.SolvedIn prompts word := by
  refine hsound.mem_flatMap_iff (fun prompt => ?_) hsub
  simp only [List.mem_flatMap, List.mem_filter, decide_eq_true_eq,
    mem_usedGuesses hsound.guessIds]
  constructor
  · rintro ⟨_, ⟨⟨proposal, hproposal, hid, guess, hguess, hbecame, rfl⟩, hsuccess⟩, hword⟩
    exact ⟨proposal, hproposal, hid, guess, hguess, hbecame, hsuccess, hword⟩
  · rintro ⟨proposal, hproposal, hid, guess, hguess, hbecame, hsuccess, hword⟩
    exact ⟨_, ⟨⟨proposal, hproposal, hid, guess, hguess, hbecame, rfl⟩, hsuccess⟩, hword⟩

/-- The script for lost histories cuts the run at the trigger row. -/
theorem cutBy_manualRetryHistoryLoss (hsound : t.Sound) {originalWords : List String}
    {plan : RollbackPlan}
    (hplan : RepairScript.manualRetryHistoryLoss.plan originalWords t = some plan) :
    ∃ cut, t.CutBy originalWords plan (RepairScript.manualRetryHistoryLoss.keptPrompts t) cut := by
  obtain ⟨repair, hfound, rfl⟩ := Option.map_eq_some_iff.mp hplan
  obtain ⟨loss, hloss, rfl⟩ := Option.map_eq_some_iff.mp hfound
  simp only [RepairScript.keptPrompts, hloss, Option.any_some, foldl_visitForRepair,
    List.nil_append]
  have hperm := List.perm_insertionSort
    (fun a b : WithId SolvePrompt => a.row.promptNumber ≤ b.row.promptNumber) t.prompts
  generalize t.prompts.insertionSort
    (fun a b : WithId SolvePrompt => a.row.promptNumber ≤ b.row.promptNumber) = ordered at hperm ⊢
  refine ⟨ordered.filter (loss.triggerPromptNumber ≤ ·.row.promptNumber), ?_, ?_,
    ⟨_, rfl, ?_⟩, rfl⟩
  · have hsplit := List.filter_append_perm
      (fun prompt : WithId SolvePrompt => prompt.row.promptNumber < loss.triggerPromptNumber)
      ordered
    refine List.Perm.trans ?_ (hsplit.trans hperm)
    refine List.Perm.append_left _ (.of_eq (List.filter_congr fun prompt _ => ?_))
    rw [Bool.eq_iff_iff]
    simp
  · intro prompt hprompt proposal _ _ id _
    exact of_decide_eq_true (List.mem_filter.mp hprompt).2
  · refine hsound.mem_solvedGuessWords fun prompt hprompt => ?_
    exact hperm.mem_iff.mp (List.mem_of_mem_filter hprompt)

/-- Each script cuts the run behind the prompts that it leaves alone. -/
theorem RepairScript.cutBy (script : RepairScript) (hsound : t.Sound)
    {originalWords : List String} {plan : RollbackPlan}
    (hplan : script.plan originalWords t = some plan) :
    ∃ cut, t.CutBy originalWords plan (script.keptPrompts t) cut := by
  cases script with
  | resumeCorrupted => exact cutBy_resumeCorrupted hsound hplan
  | manualRetryHistoryLoss => exact cutBy_manualRetryHistoryLoss hsound hplan

end Plans

end Connections
