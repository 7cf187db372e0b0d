import Connections.Library.Partition
import Connections.Strategy.Resume

/-!
# The board of a run

On a board of distinct words a successful guess is a rearrangement of one unsolved group, so the
words a run has left are its starting order without the groups it has solved.  Every branch of
the loop and every restart keeps this, and with it the completed status.
-/

namespace Connections

/-- The successful guesses of a run. -/
def solvedGuesses (guesses : List Guess) : List Guess := guesses.filter (·.result = .success)

/-- The words left are the board without the groups that the successful guesses rearrange. -/
def Cleared (board : List String) (groups : List (List String)) (availableWords : List String)
    (guesses : List Guess) : Prop :=
  ∃ cleared : List (List String), cleared.Nodup ∧ cleared ⊆ groups ∧
    List.Forall₂ (fun guess group => guess.words.Perm group) (solvedGuesses guesses) cleared ∧
    availableWords = Partition.remaining board cleared

/-- Before the first guess nothing is cleared. -/
theorem Cleared.start (board : List String) (groups : List (List String)) :
    Cleared board groups board [] :=
  ⟨[], List.nodup_nil, List.nil_subset _, .nil, (Partition.remaining_nil _).symm⟩

/-- A guess that did not succeed clears nothing. -/
theorem Cleared.append_missed {board : List String} {groups : List (List String)}
    {availableWords : List String} {guesses : List Guess} {guess : Guess}
    (h : Cleared board groups availableWords guesses) (hresult : guess.result ≠ .success) :
    Cleared board groups availableWords (guesses ++ [guess]) := by
  have hsame : solvedGuesses (guesses ++ [guess]) = solvedGuesses guesses := by
    simp [solvedGuesses, hresult]
  unfold Cleared
  rw [hsame]
  exact h

/-- A board of four-word groups whose words differ in the comparison of guesses. -/
structure Board (text : TextOps) (puzzle : Puzzle) (board : List String) : Prop where
  perm : board.Perm puzzle.boardWords
  four : ∀ group ∈ puzzle.groupWords, group.length = 4
  distinct : (puzzle.boardWords.map (normalizeForComparison text)).Nodup

namespace Board

variable {text : TextOps} {puzzle : Puzzle} {board : List String}

theorem flatten_nodup (hb : Board text puzzle board) : puzzle.groupWords.flatten.Nodup := by
  rw [puzzle.flatten_groupWords]
  exact hb.distinct.of_map _

theorem perm_flatten (hb : Board text puzzle board) : board.Perm puzzle.groupWords.flatten := by
  rw [puzzle.flatten_groupWords]
  exact hb.perm

/-- Four board words that cover a group of four in the comparison of guesses rearrange it. -/
theorem perm_of_covers (hb : Board text puzzle board) {words : List String} {group : AnswerGroup}
    (hgroup : group ∈ puzzle.answerGroups) (hfour : group.words.length = 4)
    (hcovered : ∀ w ∈ group.words,
      normalizeForComparison text w ∈ words.map (normalizeForComparison text))
    (hlength : words.length = 4) (hboard : ∀ w ∈ words, w ∈ puzzle.boardWords) :
    words.Perm group.words := by
  have hmem : group.words ∈ puzzle.groupWords := List.mem_map_of_mem hgroup
  -- Words that compare equal are equal on this board, so the guess holds the group's own words.
  have hcovers : group.words ⊆ words := by
    intro w hw
    obtain ⟨v, hv, hsame⟩ := List.mem_map.mp (hcovered w hw)
    have hw' : w ∈ puzzle.boardWords := by
      rw [← puzzle.flatten_groupWords]
      exact List.mem_flatten.mpr ⟨_, hmem, hw⟩
    rw [List.inj_on_of_nodup_map hb.distinct hw' (hboard v hv) hsame.symm]
    exact hv
  exact Partition.perm_of_covers hb.flatten_nodup hmem (hlength.trans hfour.symm) hcovers

/-- A successful guess of available words clears one more group. -/
theorem cleared_success (hb : Board text puzzle board) {availableWords words : List String}
    {guesses : List Guess} {guess : Guess}
    (h : Cleared board puzzle.groupWords availableWords guesses) (hlength : words.length = 4)
    (havailable : ∀ w ∈ words, w ∈ availableWords)
    (hsuccess : evaluateGuessOnPuzzle text puzzle words = .success)
    (hwords : guess.words = words) (hresult : guess.result = .success) :
    Cleared board puzzle.groupWords (availableWords.filter (· ∉ words)) (guesses ++ [guess]) := by
  obtain ⟨cleared, hnodup, hsub, hperm, rfl⟩ := h
  obtain ⟨group, hgroup, hfour, hcovered⟩ := evaluateGuessOnPuzzle_success text hsuccess
  have hmem : group.words ∈ puzzle.groupWords := List.mem_map_of_mem hgroup
  have hboard : ∀ w ∈ words, w ∈ puzzle.boardWords := fun w hw =>
    hb.perm.mem_iff.mp (Partition.mem_remaining.mp (havailable w hw)).1
  have hrearranged : words.Perm group.words :=
    hb.perm_of_covers hgroup hfour hcovered hlength hboard
  have hne : group.words ≠ [] := by
    intro hempty
    simp [hempty] at hfour
  have hnew := Partition.not_mem_cleared hne havailable hrearranged
  refine ⟨cleared ++ [group.words], ?_, ?_, ?_, Partition.remaining_concat board cleared
    hrearranged⟩
  · rw [List.nodup_append]
    refine ⟨hnodup, List.nodup_singleton _, ?_⟩
    intro a ha b hb' hab
    rw [List.mem_singleton] at hb'
    exact hnew (hb' ▸ hab ▸ ha)
  · intro g hg
    rcases List.mem_append.mp hg with hg | hg
    · exact hsub hg
    · rw [List.mem_singleton.mp hg]
      exact hmem
  · have hsolved : solvedGuesses (guesses ++ [guess]) = solvedGuesses guesses ++ [guess] := by
      simp [solvedGuesses, hresult]
    rw [hsolved]
    exact List.rel_append hperm (.cons (hwords ▸ hrearranged) .nil)

end Board

/-! ### The loop -/

section Loop

variable {text : TextOps} {limits : RunLimits} {puzzle : Puzzle} {board : List String}
  {now : ℕ}

/-- A proposal is only submitted with available words, and in its own number. -/
theorem resolveProposal_submit {availableWords guessWords words : List String}
    {caseMismatch : Bool}
    (h : resolveProposal text puzzle availableWords guessWords = .submit words caseMismatch) :
    (∀ w ∈ words, w ∈ availableWords) ∧ words.length = guessWords.length := by
  unfold resolveProposal at h
  split at h
  · split at h
    · rename_i group hmatch
      split at h
      · rename_i hall
        cases h
        exact ⟨by simpa using hall, (findCaseInsensitiveGroupMatch_mem text hmatch).2⟩
      · cases h
    · cases h
  · rename_i hmissing
    cases h
    exact ⟨by simpa using hmissing, rfl⟩

theorem judgeGuess_success {priorGuesses : List PriorGuess} {words : List String}
    (h : judgeGuess text puzzle priorGuesses words = .success) :
    evaluateGuessOnPuzzle text puzzle words = .success := by
  unfold judgeGuess at h
  split at h
  · cases h
  · exact h

theorem availableWords_applyGuess (run : StrategyRun) (state : LlmRunLoopState)
    (words : List String) (result : GuessResult) :
    (applyGuess limits now run state words result).availableWords =
      if result = .success then run.availableWords.filter (· ∉ words)
      else run.availableWords := by
  unfold applyGuess
  by_cases h : result = .success
  · simp only [h, ↓reduceIte]
    split <;> rfl
  · simp only [h, ↓reduceIte]
    split <;> split <;> rfl

/-- A judged guess completes the run exactly when it leaves no word. -/
theorem completed_applyGuess {run : StrategyRun} (state : LlmRunLoopState) (words : List String)
    (result : GuessResult) (hstatus : run.status ≠ .completed) (hwords : run.availableWords ≠ []) :
    (applyGuess limits now run state words result).status = .completed ↔
      (applyGuess limits now run state words result).availableWords = [] := by
  unfold applyGuess
  by_cases h : result = .success
  · simp only [h, ↓reduceIte]
    split
    · rename_i hempty
      simpa using List.length_eq_zero_iff.mp hempty
    · rename_i hleft
      simp only [hstatus, false_iff]
      intro hempty
      exact hleft (List.length_eq_zero_iff.mpr hempty)
  · simp only [h, ↓reduceIte]
    split <;> split <;> simp [hstatus, hwords]

/-- The part of a run that the board invariant is about. -/
structure OnBoard (puzzle : Puzzle) (board : List String) (run : StrategyRun)
    (guesses : List Guess) : Prop where
  cleared : Cleared board puzzle.groupWords run.availableWords guesses
  completed : run.status = .completed ↔ run.availableWords = []

theorem OnBoard.words_left {run : StrategyRun} {guesses : List Guess}
    (h : OnBoard puzzle board run guesses) (hstatus : run.status ≠ .completed) :
    run.availableWords ≠ [] :=
  fun hempty => hstatus (h.completed.mpr hempty)

/-- Ending or parking a run that is not completed keeps it on the board. -/
theorem OnBoard.finish {run : StrategyRun} {guesses : List Guess} {status : StrategyRunStatus}
    (h : OnBoard puzzle board run guesses) (hrun : run.status ≠ .completed)
    (hstatus : status ≠ .completed) : OnBoard puzzle board (run.finish status now) guesses where
  cleared := h.cleared
  completed := by simp [StrategyRun.finish, hstatus, h.words_left hrun]

/-- Submitting one guess of available words keeps the run on the board. -/
theorem submitGuess_onBoard (limits : RunLimits) (now : ℕ) (hb : Board text puzzle board)
    {stored : List Guess} {ev : Evaluation} {words : List String}
    (h : OnBoard puzzle board ev.run (stored ++ ev.pendingGuesses))
    (hstatus : ev.run.status ≠ .completed) (hlength : words.length = 4)
    (havailable : ∀ w ∈ words, w ∈ ev.run.availableWords) :
    let next := submitGuess limits puzzle now ev words
      (judgeGuess text puzzle ev.state.priorGuesses words)
    OnBoard puzzle board next.run (stored ++ next.pendingGuesses) := by
  intro next
  obtain ⟨guess, hwords, hresult, hpending, -⟩ := submitGuess_extends limits puzzle now ev words
    (judgeGuess text puzzle ev.state.priorGuesses words)
  have hrun : next.run = applyGuess limits now ev.run
      (ev.state.record words (judgeGuess text puzzle ev.state.priorGuesses words)) words
      (judgeGuess text puzzle ev.state.priorGuesses words) := rfl
  have hguesses : stored ++ next.pendingGuesses = stored ++ ev.pendingGuesses ++ [guess] := by
    change stored ++ (submitGuess limits puzzle now ev words _).pendingGuesses = _
    rw [hpending, List.append_assoc]
  rw [hrun, hguesses]
  refine ⟨?_, completed_applyGuess _ words _ hstatus (h.words_left hstatus)⟩
  rw [availableWords_applyGuess]
  split
  · rename_i hsuccess
    exact hb.cleared_success h.cleared hlength havailable (judgeGuess_success hsuccess) hwords
      (hresult.trans hsuccess)
  · rename_i hmiss
    exact h.cleared.append_missed (hresult ▸ hmiss)

/-- A guess that succeeds without emptying the board leaves the status as it was. -/
theorem status_submitGuess {ev : Evaluation} {words : List String} {result : GuessResult}
    (hresult : result = .success)
    (hleft : (submitGuess limits puzzle now ev words result).run.availableWords.length ≠ 0) :
    (submitGuess limits puzzle now ev words result).run.status = ev.run.status := by
  subst hresult
  have hfilter : (ev.run.availableWords.filter (· ∉ words)).length ≠ 0 := by
    rwa [submitGuess, availableWords_applyGuess, if_pos rfl] at hleft
  simp only [submitGuess, applyGuess, ↓reduceIte]
  rw [if_neg hfilter]

/-- A tag leaves the run on the board. -/
theorem OnBoard.retagged {ev tagged : Evaluation} {stored : List Guess}
    (h : OnBoard puzzle board ev.run (stored ++ ev.pendingGuesses)) (htagged : ev.Retagged tagged) :
    OnBoard puzzle board tagged.run (stored ++ tagged.pendingGuesses) := by
  rw [htagged.run, htagged.pendingGuesses]
  exact h

/-- The evaluation of a reply keeps the run on the board. -/
theorem evaluateProposals_onBoard (limits : RunLimits) (now : ℕ) (hb : Board text puzzle board)
    {stored : List Guess} {ev : Evaluation} {proposals : List LlmProposal}
    (h : OnBoard puzzle board ev.run (stored ++ ev.pendingGuesses))
    (hstatus : ev.run.status ≠ .completed)
    (hfour : ∀ proposal ∈ proposals, proposal.words.length = 4) :
    OnBoard puzzle board (evaluateProposals text limits puzzle now ev proposals).1.run
      (stored ++ (evaluateProposals text limits puzzle now ev proposals).1.pendingGuesses) := by
  revert h hstatus hfour
  induction ev, proposals using evaluateProposals_induct text limits puzzle now with
  | nil ev => exact fun h _ _ => h
  | skipped ev tagged proposal rest result htagged ih =>
    intro h hstatus hfour
    exact ih (h.retagged htagged) (by rwa [htagged.run]) (List.forall_mem_cons.mp hfour).2
  | submitted ev tagged proposal rest words caseMismatch next htagged hsubmit hnext =>
    obtain ⟨havailable, hlength⟩ := resolveProposal_submit hsubmit
    have hsubmitted : OnBoard puzzle board ev.run (stored ++ ev.pendingGuesses) →
        ev.run.status ≠ .completed → proposal.words.length = 4 →
        OnBoard puzzle board next.run (stored ++ next.pendingGuesses) := by
      intro h hstatus hfour
      rw [hnext, ← htagged.state]
      rw [← htagged.run] at hstatus havailable
      exact submitGuess_onBoard limits now hb (h.retagged htagged) hstatus (hlength.trans hfour)
        havailable
    refine ⟨fun h hstatus hfour => ?_, fun result hsuccess hleft ih h hstatus hfour => ?_⟩
    · exact hsubmitted h hstatus (hfour proposal List.mem_cons_self)
    · obtain ⟨hproposal, hrest⟩ := List.forall_mem_cons.mp hfour
      refine ih (hsubmitted h hstatus hproposal) ?_ hrest
      rw [hnext] at hleft ⊢
      rw [status_submitGuess hsuccess hleft, htagged.run]
      exact hstatus

theorem buildProposalEntries_four (proposalWords : List (Option (List String)))
    (categoryMap : List (ℕ × String)) (run : StrategyRun) (promptNumber : ℕ) :
    ∀ proposal ∈ buildProposalEntries proposalWords categoryMap run promptNumber,
      proposal.words.length = 4 := by
  intro proposal h
  unfold buildProposalEntries at h
  obtain ⟨entry, hentry, hsome⟩ := List.mem_filterMap.mp h
  obtain ⟨i, hi, rfl⟩ := List.mem_mapIdx.mp hentry
  simp only [id_eq] at hsome
  split at hsome
  · split at hsome
    · cases hsome
      assumption
    · cases hsome
  · cases hsome

/-- A call that submits nothing keeps the run on the board. -/
theorem OnBoard.leftOrFinished {run next : StrategyRun} {guesses : List Guess}
    (h : OnBoard puzzle board run guesses) (hstatus : run.status ≠ .completed)
    (hnext : LeftOrFinished now run next) : OnBoard puzzle board next guesses := by
  cases hnext with
  | left => exact h
  | finished status _ hcompleted => exact h.finish hstatus hcompleted

/-- A handled reply keeps the run on the board. -/
theorem handleReply_onBoard {loop : RunLoop} {stored : List Guess}
    (hb : Board text loop.puzzle board) (h : OnBoard loop.puzzle board loop.run stored)
    (hstatus : loop.run.status ≠ .completed) (promptType : SolvePromptType)
    (request : List ChatMessage) (data : SolveStepSuccess) :
    let result := handleReply text limits loop now promptType request data
    OnBoard loop.puzzle board result.1.run (stored ++ result.2.guesses) ∧
      result.2.run = result.1.run ∧ result.1.puzzle = loop.puzzle := by
  intro result
  refine ⟨?_, rfl, rfl⟩
  let answered : StrategyRun := { loop.run with
    modelName := loop.run.modelName.orElse fun _ => some data.model
    contextWindow := data.contextWindow.orElse fun _ => loop.run.contextWindow }
  have hanswered : OnBoard loop.puzzle board answered stored := ⟨h.cleared, h.completed⟩
  unfold result handleReply
  simp only
  split
  · rw [List.append_nil]
    exact hanswered.leftOrFinished hstatus (countMalformed_run limits now _ _)
  · simp only
    let start : Evaluation := ⟨answered, { loop.state with
      consecutiveModelErrors := 0, rateLimitStreak := 0, rateLimitStreakStartedAt := none },
      [], data.textIssues⟩
    have hstart : OnBoard loop.puzzle board start.run (stored ++ start.pendingGuesses) := by
      rw [List.append_nil]
      exact hanswered
    have hevaluated := evaluateProposals_onBoard limits now hb hstart hstatus
      (buildProposalEntries_four data.proposalWords data.categoryByGroup answered
        (loop.globalPromptNumber + 1))
    split
    · rename_i hidle
      exact hevaluated.leftOrFinished (by rw [hidle.1]; decide)
        (countMalformed_run limits now _ _)
    · exact hevaluated

/-- A run parked for lack of budget stays on the board. -/
theorem runIteration_parked_onBoard {loop : RunLoop} {stored : List Guess}
    {reservation : Option ℕ} {outcome : SolveStepOutcome} {run : StrategyRun}
    (h : OnBoard puzzle board loop.run stored) (hstatus : loop.run.status ≠ .completed)
    (hparked : runIteration text limits loop now reservation outcome = .parked run) :
    OnBoard puzzle board run stored := by
  unfold runIteration at hparked
  split at hparked
  · cases hparked
    exact h.finish hstatus (by decide)
  · cases hparked

/-- A flushed iteration keeps the run on the board, with the guesses of its batch stored. -/
theorem runIteration_flush_onBoard {loop next : RunLoop} {stored : List Guess}
    {reservation : Option ℕ} {outcome : SolveStepOutcome} {batch : FlushBatch}
    {holds : List HoldRequest} (hb : Board text loop.puzzle board)
    (h : OnBoard loop.puzzle board loop.run stored) (hstatus : loop.run.status ≠ .completed)
    (hflush : runIteration text limits loop now reservation outcome = .flush next batch holds) :
    OnBoard loop.puzzle board next.run (stored ++ batch.guesses) ∧ batch.run = next.run ∧
      next.puzzle = loop.puzzle := by
  unfold runIteration at hflush
  split at hflush
  · cases hflush
  · cases outcome with
    | ok data =>
      cases hflush
      exact handleReply_onBoard hb h hstatus _ _ data
    | error failure =>
      cases hflush
      refine ⟨?_, rfl, rfl⟩
      simp only
      rw [List.append_nil]
      exact h.leftOrFinished hstatus (classifyFailedCall_run limits now _ _ _ _ _)

end Loop

/-! ### The run over its restarts -/

/-- A puzzle with at least one group, four words in each, and words that differ after the fixups
in the comparison of guesses. -/
structure Playable (text : TextOps) (puzzle : Puzzle) : Prop where
  nonempty : puzzle.answerGroups ≠ []
  four : ∀ group ∈ puzzle.answerGroups, group.members.length = 4
  distinct : (puzzle.fixups.boardWords.map (normalizeForComparison text)).Nodup

/-- The starting order of a run as its loop reads it. -/
def startingOrder (text : TextOps) (puzzle : Puzzle) (strategyName : String) : List String :=
  (computeInitialWordOrder text puzzle strategyName).map normalizePuzzleWord

theorem Playable.board {text : TextOps} {puzzle : Puzzle} (h : Playable text puzzle)
    (strategyName : String) :
    Board text puzzle.fixups (startingOrder text puzzle strategyName) where
  perm := by
    rw [puzzle.boardWords_fixups]
    exact (computeInitialWordOrder_perm text puzzle strategyName).map _
  four := by
    intro words hwords
    simp only [Puzzle.groupWords, Puzzle.fixups, List.map_map, List.mem_map] at hwords
    obtain ⟨group, hgroup, rfl⟩ := hwords
    simpa [AnswerGroup.words] using h.four group hgroup
  distinct := h.distinct

/-- Reading a run through the fixups. -/
def StrategyRun.fixups (run : StrategyRun) : StrategyRun :=
  { run with availableWords := run.availableWords.map normalizePuzzleWord }

theorem StrategyRun.fixups_status (run : StrategyRun) : run.fixups.status = run.status := rfl

/-- On the board, reading the words through the fixups again changes nothing. -/
theorem Cleared.map_fixups {text : TextOps} {puzzle : Puzzle} {strategyName : String}
    {groups : List (List String)} {availableWords : List String} {guesses : List Guess}
    (h : Cleared (startingOrder text puzzle strategyName) groups availableWords guesses) :
    availableWords.map normalizePuzzleWord = availableWords := by
  obtain ⟨cleared, _, _, _, rfl⟩ := h
  conv_rhs => rw [← List.map_id (Partition.remaining _ _)]
  apply List.map_congr_left
  intro w hw
  obtain ⟨v, _, rfl⟩ := List.mem_map.mp (Partition.mem_remaining.mp hw).1
  exact normalizePuzzleWord_idem v

namespace RunWorld

variable {text : TextOps} {limits : RunLimits} {puzzle : Puzzle} {strategyName : String}
  {runId trialNumber : ℕ}

/-- The stored run is on the board, and so is whatever a worker holds of it. -/
structure KeepsBoard (text : TextOps) (puzzle : Puzzle) (strategyName : String) (w : RunWorld) :
    Prop where
  stored : ∀ rows, w.rows = some rows →
    OnBoard puzzle.fixups (startingOrder text puzzle strategyName) rows.run.fixups rows.guesses
  loaded : ∀ rows run model manualRetry maxOutputTokens, w.rows = some rows →
    w.worker = some (.loaded run model manualRetry maxOutputTokens) → rows.run = run
  looping : ∀ rows loop, w.rows = some rows → w.worker = some (.looping loop) →
    loop.puzzle = puzzle.fixups ∧ loop.run.status = .running ∧
      OnBoard puzzle.fixups (startingOrder text puzzle strategyName) loop.run rows.guesses

theorem keepsBoard_fresh : KeepsBoard text puzzle strategyName fresh where
  stored rows h := by cases h
  loaded rows _ _ _ _ h := by cases h
  looping rows _ h := by cases h

/-- A saved entity on the board is on the board as it will be read again. -/
theorem onBoard_saved {run : StrategyRun} {guesses : List Guess}
    (h : OnBoard puzzle.fixups (startingOrder text puzzle strategyName) run guesses) (now : ℕ) :
    OnBoard puzzle.fixups (startingOrder text puzzle strategyName)
      { run with updatedAt := now }.fixups guesses := by
  have hsame : run.availableWords.map normalizePuzzleWord = run.availableWords :=
    h.cleared.map_fixups
  constructor
  · change Cleared _ _ (run.availableWords.map normalizePuzzleWord) _
    rw [hsame]
    exact h.cleared
  · change run.status = _ ↔ run.availableWords.map normalizePuzzleWord = []
    rw [hsame]
    exact h.completed

/-- A step that leaves no worker behind only has to keep the stored run on the board. -/
theorem KeepsBoard.closed {w' : RunWorld} {rows : RunRows} (hrows : w'.rows = some rows)
    (hworker : w'.worker = none)
    (h : OnBoard puzzle.fixups (startingOrder text puzzle strategyName) rows.run.fixups
      rows.guesses) : KeepsBoard text puzzle strategyName w' where
  stored rows' h' := by
    rw [hrows] at h'
    cases h'
    exact h
  loaded _ _ _ _ _ _ h' := by rw [hworker] at h'; cases h'
  looping _ _ _ h' := by rw [hworker] at h'; cases h'

/-- A run that has not started has its whole board left. -/
theorem onBoard_created (hplay : Playable text puzzle) (now : ℕ) (model : Option String)
    (contextWindow : Option ℕ) (budgetTier : Option String) :
    OnBoard puzzle.fixups (startingOrder text puzzle strategyName)
      (createdRun text puzzle strategyName runId trialNumber now model contextWindow
        budgetTier).fixups [] where
  cleared := Cleared.start _ _
  completed := by
    have hlength : (startingOrder text puzzle strategyName).length ≠ 0 := by
      obtain ⟨group, rest, hgroups⟩ := List.exists_cons_of_ne_nil hplay.nonempty
      have hfour := hplay.four group (by rw [hgroups]; exact List.mem_cons_self)
      have hperm := ((hplay.board strategyName).perm).length_eq
      rw [puzzle.boardWords_fixups, List.length_map] at hperm
      rw [hperm, Puzzle.boardWords, hgroups, List.flatMap_cons, List.length_append,
        AnswerGroup.words, List.length_map]
      omega
    constructor
    · intro h
      cases h
    · intro h
      change startingOrder text puzzle strategyName = [] at h
      exact absurd (by rw [h]; rfl) hlength

theorem not_completed_of_not_terminal {run : StrategyRun} (h : run.status ∉ terminalStatuses) :
    run.status ≠ .completed := by
  intro hstatus
  exact h (by rw [hstatus]; decide)

/-- A worker that enters its loop has the run running, on the board that was stored. -/
theorem rebuiltLoop_onBoard {rows : RunRows} {run : StrategyRun} {guesses : List Guess}
    (model : Option String) (manualRetry : Bool) (maxOutputTokens : Option ℕ)
    (hstatus : run.status ∉ terminalStatuses)
    (h : OnBoard puzzle.fixups (startingOrder text puzzle strategyName) run.fixups guesses) :
    let loop := rebuiltLoop puzzle.fixups rows (applyOneOffWordFixups run puzzle).1 model
      manualRetry maxOutputTokens
    loop.run.status = .running ∧
      OnBoard puzzle.fixups (startingOrder text puzzle strategyName) loop.run guesses := by
  intro loop
  have hloop : loop = rebuiltLoop puzzle.fixups rows (applyOneOffWordFixups run puzzle).1 model
    manualRetry maxOutputTokens := rfl
  have hleft := h.words_left (not_completed_of_not_terminal hstatus)
  constructor
  · -- Only a running or a parked run gets here, and a parked one is set running.
    have hcases : run.status = .rateLimitedDaily ∨ run.status = .running := by
      cases hs : run.status <;> simp [hs, terminalStatuses] at hstatus ⊢
    rcases hcases with hs | hs <;> simp [hloop, rebuiltLoop, applyOneOffWordFixups, hs]
  · by_cases hparked : (applyOneOffWordFixups run puzzle).1.status = .rateLimitedDaily
    · rw [hloop, rebuiltLoop, if_pos hparked]
      exact ⟨h.cleared, iff_of_false (by simp) hleft⟩
    · rw [hloop, rebuiltLoop, if_neg hparked]
      exact h

/-- A run that is set running or failed without a worker keeps its words, and had some left. -/
theorem flipped_onBoard {before run : StrategyRun} {guesses : List Guess}
    (h : OnBoard puzzle.fixups (startingOrder text puzzle strategyName) before.fixups guesses)
    (hwords : run.availableWords = before.availableWords)
    (hfrom : before.status ∈ [StrategyRunStatus.rateLimitedDaily, .error, .running])
    (hto : run.status ∈ [StrategyRunStatus.running, .failed]) :
    OnBoard puzzle.fixups (startingOrder text puzzle strategyName) run.fixups guesses := by
  have hsame : run.fixups.availableWords = before.fixups.availableWords := by
    simp only [StrategyRun.fixups, hwords]
  have hbefore : before.fixups.status ≠ .completed := by
    rw [StrategyRun.fixups_status]
    intro hs
    simp [hs] at hfrom
  have hafter : run.fixups.status ≠ .completed := by
    rw [StrategyRun.fixups_status]
    intro hs
    simp [hs] at hto
  exact ⟨hsame ▸ h.cleared, iff_of_false hafter (hsame ▸ h.words_left hbefore)⟩

/-- Every step keeps the board. -/
theorem keepsBoard_step (hplay : Playable text puzzle) {w w' : RunWorld} {e : RunEvent}
    (hw : KeepsBoard text puzzle strategyName w)
    (h : step text limits puzzle strategyName runId trialNumber w e = some w') :
    KeepsBoard text puzzle strategyName w' := by
  cases step_cases h with
  | created now model contextWindow budgetTier _ _ hworker hrows =>
    exact
      { stored := fun rows h => by
          cases h
          exact onBoard_created hplay now model contextWindow budgetTier
        loaded := fun rows run _ _ _ h h' => by
          cases h
          cases h'
          rfl
        looping := fun _ _ _ h => by cases h }
  | loaded rows _ _ _ _ _ _ hworker hrows hmodel =>
    exact
      { stored := fun rows h => hw.stored rows h
        loaded := fun rows' run _ _ _ h h' => by
          rw [hrows] at h
          cases h
          cases h'
          rfl
        looping := fun _ _ _ h => by cases h }
  | enteredTerminal rows run _ _ _ _ _ hworker hrows _ =>
    exact KeepsBoard.closed hrows rfl (hw.stored rows hrows)
  | enteredHeld rows run model manualRetry maxOutputTokens now _ hworker hrows hstatus =>
    have hrun := hw.loaded rows run _ _ _ hrows hworker
    have hstored := hw.stored rows hrows
    rw [hrun] at hstored
    exact KeepsBoard.closed rfl rfl
      (onBoard_saved (hstored.finish (not_completed_of_not_terminal hstatus) (by decide)) now)
  | enteredLoop rows run model manualRetry maxOutputTokens now _ hworker hrows hstatus =>
    have hrun := hw.loaded rows run _ _ _ hrows hworker
    have hstored := hw.stored rows hrows
    rw [hrun] at hstored
    refine ⟨fun rows' h' => hw.stored rows' h', fun _ _ _ _ _ _ h' => ?_,
      fun rows' loop hrows' hloop => ?_⟩
    · cases h'
    rw [hrows] at hrows'
    cases hrows'
    cases hloop
    exact ⟨rfl, rebuiltLoop_onBoard model manualRetry maxOutputTokens hstatus hstored⟩
  | parked rows loop now _ _ run hworker hrows hpark =>
    obtain ⟨_, hrunning, honboard⟩ := hw.looping rows loop hrows hworker
    have hparked := runIteration_parked_onBoard honboard (by rw [hrunning]; decide) hpark
    exact KeepsBoard.closed rfl rfl (onBoard_saved hparked now)
  | flushed rows loop next batch _ now _ _ hworker hrows hflush =>
    obtain ⟨hpuzzle, hrunning, honboard⟩ := hw.looping rows loop hrows hworker
    have hboard : Board text loop.puzzle (startingOrder text puzzle strategyName) := by
      rw [hpuzzle]
      exact hplay.board strategyName
    rw [← hpuzzle] at honboard
    obtain ⟨hnext, hrun, hsame⟩ := runIteration_flush_onBoard hboard honboard
      (by rw [hrunning]; decide) hflush
    rw [hpuzzle] at hnext hsame
    refine ⟨fun rows' h' => ?_, fun _ _ _ _ _ _ h' => ?_, fun rows' loop' h' hloop => ?_⟩
    · cases h'
      change OnBoard _ _ { batch.run with updatedAt := now }.fixups _
      rw [hrun]
      exact onBoard_saved hnext now
    · cases (worker_flushed h').2
    · cases h'
      obtain ⟨hstatus, heq⟩ := worker_flushed hloop
      cases heq
      exact ⟨hsame, hstatus, hnext⟩
  | crashed =>
    exact
      { stored := fun rows h => hw.stored rows h
        loaded := fun _ _ _ _ _ _ h => by cases h
        looping := fun _ _ _ h => by cases h }
  | flipped rows run _ hworker hrows hwords hfrom hto _ =>
    exact KeepsBoard.closed rfl hworker
      (flipped_onBoard (hw.stored rows hrows) hwords hfrom hto)

/-- A board with the one word that the fixups rewrite. -/
def commaBoard : Puzzle :=
  ⟨2, "2023-09-11", [⟨[⟨"20,000", 0⟩, ⟨"BEE", 1⟩, ⟨"FLY", 2⟩, ⟨"GNAT", 3⟩]⟩]⟩

/-- A board without groups. -/
def blankBoard : Puzzle := ⟨3, "2023-09-12", []⟩

end RunWorld

end Connections
