import Connections.Repair.Rollback
import Mathlib.Data.List.Pairwise

/-!
# The board after a rollback

The scripts recompute the words of a run from the puzzle as it is stored, while the guesses that
remain name the fixed-up words.  A run is put back where it was unless a solved group named the one
rewritten word.
-/

namespace Connections

/-! ### The fixups and the removal of solved words -/

/-- Removing solved words and rewriting the rest commute exactly when the rewritten word is not
there, or the solved words name both of its spellings or neither. -/
theorem map_filter_fixups_iff (words solved : List String) :
    (words.filter (· ∉ solved)).map normalizePuzzleWord =
        (words.map normalizePuzzleWord).filter (· ∉ solved) ↔
      "20,000" ∉ words ∨ ("20,000" ∈ solved ↔ "20000" ∈ solved) := by
  have hother : ∀ w : String, w ≠ "20,000" → normalizePuzzleWord w = w := fun w hw =>
    if_neg hw
  have hcomma : normalizePuzzleWord "20,000" = "20000" := rfl
  rw [List.filter_map]
  constructor
  · intro heq
    by_contra hnot
    push Not at hnot
    obtain ⟨hmem, hone⟩ := hnot
    have hlength := congrArg List.length heq
    rw [List.length_map, List.length_map] at hlength
    -- One side keeps the word and the other does not, while they agree on every other word.
    have hlt : ∀ p q : String → Bool, (∀ w ∈ words, p w = true → q w = true) →
        q "20,000" = true → p "20,000" = false →
        (words.filter p).length < (words.filter q).length := by
      intro p q himp hq hp
      have hfilter : words.filter p = (words.filter q).filter p := by
        rw [List.filter_filter]
        refine List.filter_congr fun w hw => ?_
        by_cases hpw : p w = true
        · simp [hpw, himp w hw hpw]
        · simp [hpw]
      rw [hfilter]
      refine lt_of_le_of_ne (List.length_filter_le _ _) fun hsame => ?_
      have hall := List.length_filter_eq_length_iff.mp hsame "20,000"
        (List.mem_filter.mpr ⟨hmem, hq⟩)
      rw [hp] at hall
      cases hall
    rcases hone with ⟨hin, hout⟩ | ⟨hout, hin⟩
    · refine absurd hlength (Nat.ne_of_lt (hlt _ _ ?_ ?_ ?_))
      · intro w _ hw
        by_cases hwc : w = "20,000"
        · subst hwc
          simp [hin] at hw
        · simpa [hother w hwc] using hw
      · simpa [hcomma] using hout
      · simpa using hin
    · refine absurd hlength.symm (Nat.ne_of_lt (hlt _ _ ?_ ?_ ?_))
      · intro w _ hw
        by_cases hwc : w = "20,000"
        · subst hwc
          simp [hcomma, hin] at hw
        · simpa [hother w hwc] using hw
      · simpa using hout
      · simpa [hcomma] using hin
  · intro h
    refine congrArg (List.map normalizePuzzleWord) (List.filter_congr fun w hw => ?_)
    by_cases hwc : w = "20,000"
    · subst hwc
      rcases h with h | h
      · exact absurd hw h
      · simp [hcomma, h]
    · simp [hother w hwc]

section Restored

variable {t : RunTables} {script : RepairScript} {text : TextOps} {puzzle : Puzzle}
  {strategyName : String} {plan : RollbackPlan}

theorem mem_computeInitialWordOrder (word : String) :
    word ∈ computeInitialWordOrder text puzzle strategyName ↔ word ∈ puzzle.boardWords :=
  (computeInitialWordOrder_perm text puzzle strategyName).mem_iff

/-- The words that a rollback stores, as the runner reads them. -/
theorem fixups_applyPlan (hsound : t.Sound)
    (hplan : script.plan (computeInitialWordOrder text puzzle strategyName) t = some plan)
    (now : ℕ) :
    (applyOneOffWordFixups (t.applyPlan plan now).run puzzle).1.availableWords =
      ((computeInitialWordOrder text puzzle strategyName).filter
        (· ∉ (t.applyPlan plan now).solvedWords)).map normalizePuzzleWord := by
  obtain ⟨cut, hcut⟩ := script.cutBy hsound hplan
  obtain ⟨solved, hwords, hsolved⟩ := hcut.words
  have hstored : (t.applyPlan plan now).run.availableWords = plan.availableWords := rfl
  rw [applyOneOffWordFixups, hstored, hwords]
  refine congrArg (List.map normalizePuzzleWord) (List.filter_congr fun w _ => ?_)
  rw [decide_eq_decide, hsolved, hcut.solvedIn_iff hsound now]

/-- A rollback puts a run back where it was, its guesses with their prompts and its words what its
remaining guesses leave of the fixed-up board, exactly when the board is without the rewritten word
or the groups solved before the cut name both of its spellings or neither. -/
theorem applyPlan_restores_iff (hsound : t.Sound)
    (hplan : script.plan (computeInitialWordOrder text puzzle strategyName) t = some plan)
    (now : ℕ) :
    ((applyOneOffWordFixups (t.applyPlan plan now).run puzzle).1.availableWords =
          (startingOrder text puzzle strategyName).filter
            (· ∉ (t.applyPlan plan now).solvedWords) ∧
        (t.applyPlan plan now).GuessesBelong) ↔
      "20,000" ∉ puzzle.boardWords ∨
        (t.SolvedIn (script.keptPrompts t) "20,000" ↔
          t.SolvedIn (script.keptPrompts t) "20000") := by
  obtain ⟨cut, hcut⟩ := script.cutBy hsound hplan
  rw [fixups_applyPlan hsound hplan now, startingOrder, map_filter_fixups_iff,
    mem_computeInitialWordOrder, hcut.solvedIn_iff hsound now, hcut.solvedIn_iff hsound now]
  exact and_iff_left (hcut.guessesBelong hsound now)

end Restored

/-- The rows of a run with their numbers for ids. -/
def RunRows.tables (rows : RunRows) : RunTables where
  run := rows.run
  prompts := rows.prompts.map fun prompt => ⟨prompt.promptNumber, prompt⟩
  proposals := rows.proposals.mapIdx fun i proposal =>
    ⟨i, proposal.promptNumber, proposal.guess, proposal⟩
  guesses := rows.guesses.map fun guess => ⟨guess.sequenceNumber, guess⟩

/-- No guess of one call has the number of a guess of another. -/
def CallRows.Apart (a b : CallRows) : Prop :=
  ∀ x ∈ a.guesses, ∀ y ∈ b.guesses, x.sequenceNumber ≠ y.sequenceNumber

namespace RunWorld

variable {text : TextOps} {limits : RunLimits} {puzzle : Puzzle} {strategyName : String}
  {runId trialNumber : ℕ}

/-- The calls of a run share no guess. -/
theorem call_unique {calls : List CallRows}
    (hnumbered : (calls.flatMap (·.guesses)).Pairwise
      fun a b => a.sequenceNumber < b.sequenceNumber)
    {a b : CallRows} (ha : a ∈ calls) (hb : b ∈ calls) {g g' : Guess} (hg : g ∈ a.guesses)
    (hg' : g' ∈ b.guesses) (hsame : g.sequenceNumber = g'.sequenceNumber) : a = b := by
  by_contra hne
  have hapart : calls.Pairwise CallRows.Apart :=
    (List.pairwise_flatMap.mp hnumbered).2.imp fun h x hx y hy => Nat.ne_of_lt (h x hx y hy)
  have : Std.Symm CallRows.Apart := ⟨fun _ _ h x hx y hy => (h y hy x hx).symm⟩
  exact hapart.forall ha hb hne g hg g' hg' hsame

section Snapshots

variable {rows : RunRows} {prompts : List (WithId SolvePrompt)} {proposals : List ProposalRow}
  {guesses : List (WithId Guess)} (hsnapshot : Snapshot rows prompts proposals guesses)
  {calls : List CallRows} (hcalls : Recorded calls)
  (hproposals : rows.proposals = calls.flatMap (·.proposals))
  (hguesses : rows.guesses = calls.flatMap (·.guesses))
  (hincreasing : rows.guesses.Pairwise fun a b => a.sequenceNumber < b.sequenceNumber)

include hsnapshot

include hproposals in
/-- A proposal belongs to a call. -/
theorem exists_call_of_proposal {proposal : ProposalRow} (hmem : proposal ∈ proposals) :
    ∃ call ∈ calls, proposal.row ∈ call.proposals := by
  have hrow := hsnapshot.proposalRows.mem_iff.mp (List.mem_map_of_mem hmem)
  rw [hproposals] at hrow
  exact List.mem_flatMap.mp hrow

include hcalls hguesses hincreasing

/-- The guess that a submitted proposal became is one of its call and has its words. -/
theorem exists_guess_of_became {proposal : ProposalRow} (hproposal : proposal ∈ proposals) {id : ℕ}
    (hbecame : proposal.Became id) {call : CallRows} (hmem : call ∈ calls)
    (hin : proposal.row ∈ call.proposals) :
    ∃ guess ∈ guesses, guess.id = id ∧ guess.row ∈ call.guesses ∧
      guess.row.words = proposal.row.words := by
  obtain ⟨hused, hid⟩ := hbecame
  obtain ⟨_, hfollows⟩ := hcalls.follows hmem
  have hentry : (proposal.row.words, proposal.row.guess) ∈ submittedGuesses call.proposals :=
    List.mem_map_of_mem (List.mem_filter.mpr ⟨hin, by simpa using hused⟩)
  rw [hfollows.submitted] at hentry
  obtain ⟨stored, hstored, heq⟩ := List.mem_map.mp hentry
  obtain ⟨hwords, hnumber⟩ := Prod.mk.inj heq
  obtain ⟨guess, hguess, hguessId, hsame⟩ :=
    hsnapshot.guess proposal hproposal hused _ hnumber.symm
  have hguessRow := hsnapshot.guessRows.mem_iff.mp (List.mem_map_of_mem hguess)
  have hstoredRow : stored ∈ rows.guesses := by
    rw [hguesses]
    exact List.mem_flatMap.mpr ⟨call, hmem, hstored⟩
  have hrow : guess.row = stored :=
    List.inj_on_of_nodup_map (nodup_of_increasing hincreasing) hguessRow hstoredRow hsame
  refine ⟨guess, hguess, ?_, hrow ▸ hstored, hrow ▸ hwords⟩
  exact Option.some.inj (hguessId.symm.trans hid)

include hproposals in
/-- Every guess was a submitted proposal. -/
theorem exists_proposal_of_guess {guess : WithId Guess} (hguess : guess ∈ guesses) :
    ∃ proposal ∈ proposals, proposal.Became guess.id := by
  have hrow := hsnapshot.guessRows.mem_iff.mp (List.mem_map_of_mem hguess)
  rw [hguesses] at hrow
  obtain ⟨call, hmem, hin⟩ := List.mem_flatMap.mp hrow
  obtain ⟨_, hfollows⟩ := hcalls.follows hmem
  have hentry := List.mem_map_of_mem
    (f := fun guess : Guess => (guess.words, some guess.sequenceNumber)) hin
  rw [← hfollows.submitted] at hentry
  obtain ⟨stored, hstored, heq⟩ := List.mem_map.mp hentry
  obtain ⟨hstored, hused⟩ := List.mem_filter.mp hstored
  have hstoredRow : stored ∈ rows.proposals := by
    rw [hproposals]
    exact List.mem_flatMap.mpr ⟨call, hmem, hstored⟩
  obtain ⟨proposal, hproposal, rfl⟩ :=
    List.mem_map.mp (hsnapshot.proposalRows.mem_iff.mpr hstoredRow)
  rw [decide_eq_true_eq] at hused
  obtain ⟨found, hfound, hid, hsame⟩ :=
    hsnapshot.guess proposal hproposal hused _ (Prod.mk.inj heq).2
  have hfoundGuess := hsnapshot.guess_of_number hincreasing hfound hguess hsame
  exact ⟨proposal, hproposal, hused, hfoundGuess ▸ hid⟩

include hproposals in
/-- The proposals that became one guess belong to one prompt. -/
theorem prompt_of_became (hnumbers : (rows.prompts.map (·.promptNumber)).Nodup)
    {p q : ProposalRow} (hp : p ∈ proposals) (hq : q ∈ proposals) {id : ℕ} (hpid : p.Became id)
    (hqid : q.Became id) : p.solvePromptId = q.solvePromptId := by
  obtain ⟨call, hmem, hin⟩ := exists_call_of_proposal hsnapshot hproposals hp
  obtain ⟨call', hmem', hin'⟩ := exists_call_of_proposal hsnapshot hproposals hq
  obtain ⟨guess, hguess, hid, hrow, -⟩ :=
    exists_guess_of_became hsnapshot hcalls hguesses hincreasing hp hpid hmem hin
  obtain ⟨guess', hguess', hid', hrow', -⟩ :=
    exists_guess_of_became hsnapshot hcalls hguesses hincreasing hq hqid hmem' hin'
  obtain rfl := List.inj_on_of_nodup_map hsnapshot.guessIds hguess hguess' (hid.trans hid'.symm)
  obtain rfl := call_unique (hguesses ▸ hincreasing) hmem hmem' hrow hrow' rfl
  obtain ⟨_, hfollows⟩ := hcalls.follows hmem
  obtain ⟨prompt, hprompt, hpromptId, hnumber⟩ := hsnapshot.solvePrompt p hp
  rw [← hpromptId, eq_comm, hsnapshot.solvePromptId_iff hnumbers hq hprompt,
    hfollows.proposals _ hin', hnumber, hfollows.proposals _ hin]

include hproposals in
/-- A call that failed submitted nothing. -/
theorem not_became_of_callError (hprompts : rows.prompts = calls.map (·.prompt))
    (hnumbers : (rows.prompts.map (·.promptNumber)).Nodup) {prompt : WithId SolvePrompt}
    (hprompt : prompt ∈ prompts) (hstatus : prompt.row.status = .callError)
    {proposal : ProposalRow} (hproposal : proposal ∈ proposals)
    (hid : proposal.solvePromptId = prompt.id) (id : ℕ) : ¬ proposal.Became id := by
  intro hbecame
  have hrow := hsnapshot.promptRows.mem_iff.mp (List.mem_map_of_mem hprompt)
  rw [hprompts] at hrow
  obtain ⟨call, hin, hsame⟩ := List.mem_map.mp hrow
  obtain ⟨call', hin', hproposalRow⟩ := exists_call_of_proposal hsnapshot hproposals hproposal
  obtain ⟨_, hfollows⟩ := hcalls.follows hin
  obtain ⟨_, hfollows'⟩ := hcalls.follows hin'
  have hnumber := (hsnapshot.solvePromptId_iff hnumbers hproposal hprompt).mp hid
  rw [hfollows'.proposals _ hproposalRow, ← hsame] at hnumber
  rw [hprompts, List.map_map] at hnumbers
  obtain rfl := List.inj_on_of_nodup_map hnumbers hin' hin hnumber
  obtain ⟨_, -, -, hguess, -⟩ := exists_guess_of_became hsnapshot hcalls hguesses hincreasing
    hproposal hbecame hin' hproposalRow
  rw [hfollows.callError (hsame ▸ hstatus)] at hguess
  cases hguess

end Snapshots

/-- The rows that the runner writes are sound, in whatever order and with whatever ids the
script reads them. -/
theorem sound_of_reaches {ok : RunWorld → RunEvent → Prop} {w : RunWorld} {rows : RunRows}
    (hrun : Run.Reaches (step text limits puzzle strategyName runId trialNumber) ok fresh w)
    (hrows : w.rows = some rows) {prompts : List (WithId SolvePrompt)}
    {proposals : List ProposalRow} {guesses : List (WithId Guess)}
    (hsnapshot : Snapshot rows prompts proposals guesses) :
    RunTables.Sound ⟨rows.run, prompts, proposals, guesses⟩ := by
  obtain ⟨calls, hcalls, hprompts, hproposals, hguesses⟩ :=
    (reaches_callsRecorded hrun).stored rows hrows
  have hincreasing := (numbered_reaches hrun).increasing hrows
  have hnumbers : (rows.prompts.map (·.promptNumber)).Nodup := by
    rw [hprompts, List.map_map]
    exact nodup_of_increasing hcalls.promptNumber_lt
  refine ⟨hsnapshot.promptIds, hsnapshot.guessIds, ?_, ?_, ?_, ?_, ?_, ?_⟩
  · intro proposal hproposal
    obtain ⟨prompt, hmem, hid, -⟩ := hsnapshot.solvePrompt proposal hproposal
    exact ⟨prompt, hmem, hid⟩
  · intro guess hguess
    exact exists_proposal_of_guess hsnapshot hcalls hproposals hguesses hincreasing hguess
  · intro proposal hproposal guess hguess hbecame
    obtain ⟨call, hmem, hin⟩ := exists_call_of_proposal hsnapshot hproposals hproposal
    obtain ⟨found, hfound, hid, -, hwords⟩ := exists_guess_of_became hsnapshot hcalls hguesses
      hincreasing hproposal hbecame hmem hin
    rw [← hwords, List.inj_on_of_nodup_map hsnapshot.guessIds hfound hguess hid]
  · intro p hp q hq id hpid hqid
    exact prompt_of_became hsnapshot hcalls hproposals hguesses hincreasing hnumbers hp hq hpid hqid
  · intro prompt hprompt hstatus proposal hproposal hid id
    exact not_became_of_callError hsnapshot hcalls hproposals hguesses hincreasing hprompts hnumbers
      hprompt hstatus hproposal hid id
  · -- No two prompts of a run have one number.
    intro p hp q hq hne hsame
    refine absurd ?_ hne
    rw [hsnapshot.prompt_of_number hnumbers hp hq hsame]

/-- A call whose worker was lost, so that no request came back with it. -/
def lostCall : SolveStepOutcome :=
  .error { error := "timeout", code := .modelError, requestBody := none, statusCode := none
           errorName := none, isRetryable := none, retryAfterSeconds := none
           dailyResetSeconds := none, usage := none }

/-- A run that solves a group, loses its next call, and is retried by hand. -/
def retriedByHand (words : List String) : List RunEvent :=
  [.load 0 (some "gpt-5-mini") none none false none, .enter 0 false,
    .iterate 1 none (plainReply [words]), .iterate 2 none lostCall, .retry,
    .load 3 (some "gpt-5-mini") none none true none, .enter 3 false,
    .iterate 4 none (plainReply [["ASH", "ELM", "FIR", "OAK"]])]

/-- A rolled back run that keeps its solved group. -/
theorem applyPlan_restores_after_lost_call :
    ∃ (rows : RunRows) (plan : RollbackPlan), plan.availableWords = ["ASH", "ELM", "FIR", "OAK"] ∧
      RepairScript.manualRetryHistoryLoss.plan
        (computeInitialWordOrder asciiText insectsAndTrees "llm-openai") rows.tables = some plan ∧
      (applyOneOffWordFixups (rows.tables.applyPlan plan 5).run insectsAndTrees).1.availableWords =
        (startingOrder asciiText insectsAndTrees "llm-openai").filter
          (· ∉ (rows.tables.applyPlan plan 5).solvedWords) ∧
      (rows.tables.applyPlan plan 5).GuessesBelong := by
  let plan : RollbackPlan := ⟨2, ["ASH", "ELM", "FIR", "OAK"], [2]⟩
  obtain ⟨w, hrun, hflagged⟩ := Run.exists_reaches
    (step asciiText defaultLimits insectsAndTrees "llm-openai" 1 1) Run.always fresh
    (retriedByHand ["ANT", "BEE", "FLY", "GNAT"])
    (fun w => w.rows.any fun rows => RepairScript.manualRetryHistoryLoss.plan
      (computeInitialWordOrder asciiText insectsAndTrees "llm-openai") rows.tables = some plan)
    (by decide)
  obtain ⟨rows, hrows, hplan⟩ := (Option.any_eq_true _ _).mp hflagged
  rw [decide_eq_true_eq] at hplan
  have hsound : rows.tables.Sound := sound_of_reaches hrun hrows (snapshot_of_reaches hrun hrows)
  exact ⟨rows, plan, rfl, hplan,
    (applyPlan_restores_iff hsound hplan 5).mpr (.inl (by decide))⟩

/-- A board of two groups, one with the word that the fixups rewrite. -/
def numbersAndTrees : Puzzle :=
  ⟨4, "2023-09-11", [⟨[⟨"20,000", 0⟩, ⟨"BEE", 1⟩, ⟨"FLY", 2⟩, ⟨"GNAT", 3⟩]⟩,
    ⟨[⟨"ASH", 4⟩, ⟨"ELM", 5⟩, ⟨"FIR", 6⟩, ⟨"OAK", 7⟩]⟩]⟩

/-- On the board with the comma the rewritten word of a solved group is available again after the
rollback. -/
theorem comma_word_comes_back :
    ∃ (w : RunWorld) (rows : RunRows) (plan : RollbackPlan),
      Run.Reaches (step asciiText defaultLimits numbersAndTrees "llm-openai" 1 1) Run.always
        fresh w ∧ w.rows = some rows ∧
      RepairScript.manualRetryHistoryLoss.plan
        (computeInitialWordOrder asciiText numbersAndTrees "llm-openai") rows.tables = some plan ∧
      "20000" ∈ (rows.tables.applyPlan plan 5).solvedWords ∧
      (applyOneOffWordFixups (rows.tables.applyPlan plan 5).run numbersAndTrees).1.availableWords ≠
        (startingOrder asciiText numbersAndTrees "llm-openai").filter
          (· ∉ (rows.tables.applyPlan plan 5).solvedWords) := by
  obtain ⟨w, hrun, hflagged⟩ := Run.exists_reaches
    (step asciiText defaultLimits numbersAndTrees "llm-openai" 1 1) Run.always fresh
    (retriedByHand ["20000", "BEE", "FLY", "GNAT"])
    (fun w => w.rows.any fun rows => (RepairScript.manualRetryHistoryLoss.plan
      (computeInitialWordOrder asciiText numbersAndTrees "llm-openai") rows.tables).any fun plan =>
        "20000" ∈ (rows.tables.applyPlan plan 5).solvedWords ∧
          (applyOneOffWordFixups (rows.tables.applyPlan plan 5).run
              numbersAndTrees).1.availableWords ≠
            (startingOrder asciiText numbersAndTrees "llm-openai").filter
              (· ∉ (rows.tables.applyPlan plan 5).solvedWords)) (by decide)
  simp only [Option.any_eq_true, decide_eq_true_eq] at hflagged
  obtain ⟨rows, hrows, plan, hplan, hsolved, hback⟩ := hflagged
  exact ⟨w, rows, plan, hrun, hrows, hplan, hsolved, hback⟩

end RunWorld

end Connections
