import Connections.Strategy.CallRecords

/-!
# The repair of corrupted resumes

The script replays the stored calls of a run and flags the first prompt whose type is not the one
that the guesses before it ask for.  On the rows of any run of the present runner the replay and the
stored types agree.
-/

namespace Connections

/-- A stored row with its generated id. -/
structure WithId (α : Type) where
  id : ℕ
  row : α

/-- A stored proposal with its generated id and its foreign keys. -/
structure ProposalRow where
  id : ℕ
  solvePromptId : ℕ
  guessId : Option ℕ
  row : LlmProposal

/-- What the script would take back. -/
structure ResumeCorruption where
  badPromptNumber : ℕ
  availableWordsBeforeCorruption : List String
  taintedGuessIds : List ℕ
  deriving DecidableEq, Repr

/-- What the replay carries from prompt to prompt; `bad` is the first disagreement, with the words
that were available before it. -/
structure Replay where
  availableWords : List String
  lastFailedGuess : Option FailedGuess
  bad : Option (ℕ × List String)
  taintedGuessIds : List ℕ
  deriving DecidableEq, Repr

/-- Account for a submitted guess. -/
def Replay.submit (replay : Replay) (step : List String × Guess) : Replay :=
  if step.2.result = .success then
    { replay with
      availableWords := replay.availableWords.filter (· ∉ step.1), lastFailedGuess := none }
  else { replay with lastFailedGuess := some (failedGuess step.1 step.2.result) }

section Script

variable (proposals : List ProposalRow) (guessesById : ℕ → Option Guess)

/-- The proposals of a prompt. -/
def proposalsByPrompt (promptId : ℕ) : List ProposalRow :=
  proposals.filter (·.solvePromptId = promptId)

/-- The words and the guess of a proposal that was submitted. -/
def usedStep (proposal : ProposalRow) : Option (List String × Guess) :=
  if proposal.row.status = .used then
    (proposal.guessId.bind guessesById).map (proposal.row.words, ·)
  else none

/-- The submitted proposals of a prompt, in the order of their guesses. -/
def usedSteps (promptId : ℕ) : List (List String × Guess) :=
  (((proposalsByPrompt proposals promptId).insertionSort fun a b => a.id ≤ b.id).filterMap
    (usedStep guessesById)).insertionSort fun a b => a.2.sequenceNumber ≤ b.2.sequenceNumber

/-- Visit a prompt; the first one is not compared. -/
def Replay.visit (replay : Replay) (prompt : WithId SolvePrompt) (i : ℕ) : Replay :=
  let expectedType : SolvePromptType :=
    if replay.lastFailedGuess.isNone then .initialSolve else .retry
  let bad :=
    if replay.bad.isNone ∧ 0 < i ∧ prompt.row.promptType ≠ expectedType then
      some (prompt.row.promptNumber, replay.availableWords)
    else replay.bad
  if bad.isSome then
    { replay with
      bad := bad
      taintedGuessIds := replay.taintedGuessIds ++
        (proposalsByPrompt proposals prompt.id).filterMap fun proposal =>
          if proposal.row.status = .used then proposal.guessId else none }
  else if prompt.row.status = .callError then replay
  else (usedSteps proposals guessesById prompt.id).foldl Replay.submit replay

/-- Visit the prompts in their order. -/
def Replay.visitAll (replay : Replay) (prompts : List (WithId SolvePrompt)) : Replay :=
  prompts.zipIdx.foldl
    (fun replay prompt => replay.visit proposals guessesById prompt.1 prompt.2) replay

/-- The first prompt of a run whose type disagrees with the replay of the rows before it. -/
def findResumeCorruption (originalWords : List String) (solvePrompts : List (WithId SolvePrompt)) :
    Option ResumeCorruption :=
  let orderedPrompts := solvePrompts.insertionSort fun a b =>
    a.row.promptNumber < b.row.promptNumber ∨
      (a.row.promptNumber = b.row.promptNumber ∧ a.row.attemptNumber ≤ b.row.attemptNumber)
  let replay := Replay.visitAll proposals guessesById ⟨originalWords, none, none, []⟩ orderedPrompts
  replay.bad.map fun (badPromptNumber, words) => ⟨badPromptNumber, words, replay.taintedGuessIds⟩

end Script

/-- The guesses by their ids. -/
def guessMap (guesses : List (WithId Guess)) (id : ℕ) : Option Guess :=
  (guesses.reverse.find? (·.id = id)).map (·.row)

/-- The tables as the script reads them: the rows of a run in any order, with unique ids, the
proposals linked to their prompts and the submitted ones to their guesses. -/
structure Snapshot (rows : RunRows) (prompts : List (WithId SolvePrompt))
    (proposals : List ProposalRow) (guesses : List (WithId Guess)) : Prop where
  promptRows : (prompts.map (·.row)).Perm rows.prompts
  promptIds : (prompts.map (·.id)).Nodup
  proposalRows : (proposals.map (·.row)).Perm rows.proposals
  guessRows : (guesses.map (·.row)).Perm rows.guesses
  guessIds : (guesses.map (·.id)).Nodup
  solvePrompt : ∀ proposal ∈ proposals, ∃ prompt ∈ prompts,
    prompt.id = proposal.solvePromptId ∧ prompt.row.promptNumber = proposal.row.promptNumber
  guess : ∀ proposal ∈ proposals, proposal.row.status = .used →
    ∀ n, proposal.row.guess = some n → ∃ guess ∈ guesses,
      proposal.guessId = some guess.id ∧ guess.row.sequenceNumber = n

/-! ### Sorting by a key -/

/-- Keys that increase do not repeat. -/
theorem nodup_of_increasing {β : Type} {key : β → ℕ} {bs : List β}
    (h : bs.Pairwise fun a b => key a < key b) : (bs.map key).Nodup :=
  (List.pairwise_map.mpr h).imp fun hlt => Nat.ne_of_lt hlt

/-- Sorting restores the order of a list whose keys increase. -/
theorem map_insertionSort_eq {α β : Type} (r : α → α → Prop) [DecidableRel r] (f : α → β)
    (key : β → ℕ) (htotal : ∀ a b, r a b ∨ r b a) (htrans : ∀ a b c, r a b → r b c → r a c)
    (hkey : ∀ a b, r a b → key (f a) ≤ key (f b)) {as : List α} {bs : List β}
    (hperm : (as.map f).Perm bs) (hkeys : bs.Pairwise fun a b => key a < key b) :
    (as.insertionSort r).map f = bs := by
  have : Std.Total r := ⟨htotal⟩
  have : IsTrans α r := ⟨htrans⟩
  have hperm' : ((as.insertionSort r).map f).Perm bs :=
    ((List.perm_insertionSort r as).map f).trans hperm
  have hsorted : ((as.insertionSort r).map f).Pairwise fun a b => key a ≤ key b :=
    List.pairwise_map.mpr ((List.pairwise_insertionSort r as).imp fun {a b} h => hkey a b h)
  refine List.Perm.eq_of_pairwise ?_ hsorted (hkeys.imp Nat.le_of_lt) hperm'
  intro a b ha hb hle hge
  exact List.inj_on_of_nodup_map (nodup_of_increasing hkeys) (hperm'.mem_iff.mp ha) hb
    (Nat.le_antisymm hle hge)

/-! ### The replay of recorded rows -/

theorem guessMap_of_mem {guesses : List (WithId Guess)} (hids : (guesses.map (·.id)).Nodup)
    {guess : WithId Guess} (hmem : guess ∈ guesses) :
    guessMap guesses guess.id = some guess.row := by
  have hfound : (guesses.reverse.find? (·.id = guess.id)).isSome := by
    rw [List.find?_isSome]
    exact ⟨guess, List.mem_reverse.mpr hmem, by simp⟩
  obtain ⟨found, hfound⟩ := Option.isSome_iff_exists.mp hfound
  have hsame : found = guess := by
    have hid := List.find?_some hfound
    rw [decide_eq_true_eq] at hid
    exact List.inj_on_of_nodup_map hids
      (List.mem_reverse.mp (List.mem_of_find?_eq_some hfound)) hmem hid
  rw [guessMap, hfound, hsame]
  rfl

theorem Recorded.follows {calls : List CallRows} (h : Recorded calls) {call : CallRows}
    (hmem : call ∈ calls) : ∃ before, call.Follows before := by
  induction h with
  | nil => cases hmem
  | @snoc before last _ hlast ih =>
    rcases List.mem_append.mp hmem with hmem | hmem
    · exact ih hmem
    · rw [List.mem_singleton.mp hmem]
      exact ⟨before, hlast⟩

theorem Recorded.promptNumber_lt {calls : List CallRows} (h : Recorded calls) :
    calls.Pairwise fun a b => a.prompt.promptNumber < b.prompt.promptNumber := by
  have hsorted : (calls.map (·.prompt.promptNumber)).Pairwise (· < ·) := by
    rw [h.promptNumbers]
    exact List.pairwise_lt_range'
  exact List.pairwise_map.mp hsorted

/-- The proposals with the number of a call are the ones of this call. -/
theorem filter_proposals {calls : List CallRows}
    (hnumbers : calls.Pairwise fun a b => a.prompt.promptNumber < b.prompt.promptNumber)
    (hlinked : ∀ call ∈ calls, ∀ proposal ∈ call.proposals,
      proposal.promptNumber = call.prompt.promptNumber)
    {call : CallRows} (hmem : call ∈ calls) :
    (calls.flatMap (·.proposals)).filter (·.promptNumber = call.prompt.promptNumber) =
      call.proposals := by
  induction calls with
  | nil => cases hmem
  | cons first rest ih =>
    obtain ⟨hfirst, hrest⟩ := List.pairwise_cons.mp hnumbers
    obtain ⟨hlinkedFirst, hlinkedRest⟩ := List.forall_mem_cons.mp hlinked
    rw [List.flatMap_cons, List.filter_append]
    rcases List.mem_cons.mp hmem with rfl | hmem
    · have hall : call.proposals.filter (·.promptNumber = call.prompt.promptNumber) =
          call.proposals :=
        List.filter_eq_self.mpr fun proposal hproposal =>
          decide_eq_true (hlinkedFirst proposal hproposal)
      have hnone : (rest.flatMap (·.proposals)).filter
          (·.promptNumber = call.prompt.promptNumber) = [] := by
        refine List.filter_eq_nil_iff.mpr fun proposal hproposal => ?_
        obtain ⟨other, hother, hin⟩ := List.mem_flatMap.mp hproposal
        have hlt := hfirst other hother
        have hlink := hlinkedRest other hother proposal hin
        simp only [decide_eq_true_eq]
        omega
      rw [hall, hnone, List.append_nil]
    · have hnone : first.proposals.filter (·.promptNumber = call.prompt.promptNumber) = [] := by
        refine List.filter_eq_nil_iff.mpr fun proposal hproposal => ?_
        have hlt := hfirst call hmem
        have hlink := hlinkedFirst proposal hproposal
        simp only [decide_eq_true_eq]
        omega
      rw [hnone, List.nil_append]
      exact ih hrest hlinkedRest hmem

section Replay

variable {rows : RunRows} {prompts : List (WithId SolvePrompt)} {proposals : List ProposalRow}
  {guesses : List (WithId Guess)} {calls : List CallRows}

/-- The step of a submitted proposal, said through the stored rows alone. -/
def storedStep (stored : List Guess) (proposal : LlmProposal) : Option (List String × Guess) :=
  if proposal.status = .used then
    (proposal.guess.bind fun n => stored.find? (·.sequenceNumber = n)).map (proposal.words, ·)
  else none

theorem find?_sequenceNumber {stored : List Guess}
    (hnumbered : stored.Pairwise fun a b => a.sequenceNumber < b.sequenceNumber) {guess : Guess}
    (hmem : guess ∈ stored) :
    stored.find? (·.sequenceNumber = guess.sequenceNumber) = some guess := by
  have hsome : (stored.find? (·.sequenceNumber = guess.sequenceNumber)).isSome := by
    rw [List.find?_isSome]
    exact ⟨guess, hmem, by simp⟩
  obtain ⟨found, hfound⟩ := Option.isSome_iff_exists.mp hsome
  have hnumber := List.find?_some hfound
  rw [decide_eq_true_eq] at hnumber
  rw [hfound, List.inj_on_of_nodup_map (nodup_of_increasing hnumbered)
    (List.mem_of_find?_eq_some hfound) hmem hnumber]

/-- The script finds the guess that a submitted proposal became. -/
theorem Snapshot.usedStep_eq (h : Snapshot rows prompts proposals guesses)
    (hnumbered : rows.guesses.Pairwise fun a b => a.sequenceNumber < b.sequenceNumber)
    (hguess : ∀ proposal ∈ rows.proposals, proposal.status = .used → proposal.guess.isSome)
    {proposal : ProposalRow} (hmem : proposal ∈ proposals) :
    usedStep (guessMap guesses) proposal = storedStep rows.guesses proposal.row := by
  unfold usedStep storedStep
  split
  · rename_i hused
    have hrow := h.proposalRows.mem_iff.mp (List.mem_map_of_mem (f := (·.row)) hmem)
    obtain ⟨n, hn⟩ := Option.isSome_iff_exists.mp (hguess _ hrow hused)
    obtain ⟨guess, hin, hid, rfl⟩ := h.guess proposal hmem hused n hn
    have hstored := h.guessRows.mem_iff.mp (List.mem_map_of_mem (f := (·.row)) hin)
    rw [hn, hid, Option.bind_some, Option.bind_some, guessMap_of_mem h.guessIds hin,
      find?_sequenceNumber hnumbered hstored]
  · rfl

/-- A prompt is told by its number. -/
theorem Snapshot.prompt_of_number (h : Snapshot rows prompts proposals guesses)
    (hnumbers : (rows.prompts.map (·.promptNumber)).Nodup) {p q : WithId SolvePrompt}
    (hp : p ∈ prompts) (hq : q ∈ prompts) (hsame : p.row.promptNumber = q.row.promptNumber) :
    p = q := by
  have hperm := h.promptRows.map (·.promptNumber)
  rw [List.map_map] at hperm
  exact List.inj_on_of_nodup_map (hperm.nodup_iff.mpr hnumbers) hp hq hsame

/-- A guess is told by its number. -/
theorem Snapshot.guess_of_number (h : Snapshot rows prompts proposals guesses)
    (hnumbered : rows.guesses.Pairwise fun a b => a.sequenceNumber < b.sequenceNumber)
    {g g' : WithId Guess} (hg : g ∈ guesses) (hg' : g' ∈ guesses)
    (hsame : g.row.sequenceNumber = g'.row.sequenceNumber) : g = g' := by
  have hperm := h.guessRows.map (·.sequenceNumber)
  rw [List.map_map] at hperm
  have hnodup := hperm.nodup_iff.mpr (nodup_of_increasing hnumbered)
  exact List.inj_on_of_nodup_map hnodup hg hg' hsame

/-- A proposal belongs to a prompt by its id exactly when it does by its number. -/
theorem Snapshot.solvePromptId_iff (h : Snapshot rows prompts proposals guesses)
    (hnumbers : (rows.prompts.map (·.promptNumber)).Nodup) {proposal : ProposalRow}
    (hmem : proposal ∈ proposals) {prompt : WithId SolvePrompt} (hprompt : prompt ∈ prompts) :
    proposal.solvePromptId = prompt.id ↔
      proposal.row.promptNumber = prompt.row.promptNumber := by
  obtain ⟨linked, hlinked, hid, hnumber⟩ := h.solvePrompt proposal hmem
  constructor
  · intro hsame
    rw [List.inj_on_of_nodup_map h.promptIds hprompt hlinked (hsame.symm.trans hid.symm), hnumber]
  · intro hsame
    rw [h.prompt_of_number hnumbers hprompt hlinked (hsame.symm.trans hnumber.symm), hid]

/-- In the order of the calls the script reads the rows of the calls. -/
theorem Snapshot.ordered_rows (h : Snapshot rows prompts proposals guesses)
    (hcalls : Recorded calls) (hprompts : rows.prompts = calls.map (·.prompt)) :
    (prompts.insertionSort fun a b => a.row.promptNumber < b.row.promptNumber ∨
      (a.row.promptNumber = b.row.promptNumber ∧ a.row.attemptNumber ≤ b.row.attemptNumber)).map
        (·.row) = calls.map (·.prompt) := by
  refine map_insertionSort_eq _ WithId.row SolvePrompt.promptNumber ?_ ?_ ?_
    (hprompts ▸ h.promptRows) (List.pairwise_map.mpr hcalls.promptNumber_lt)
  · intro a b
    omega
  · intro a b c
    omega
  · intro a b
    omega

/-- The stored steps of the proposals of a reply are its guesses. -/
theorem filterMap_storedStep {stored : List Guess}
    (hnumbered : stored.Pairwise fun a b => a.sequenceNumber < b.sequenceNumber)
    {proposals : List LlmProposal} {guesses : List Guess} (hsub : ∀ guess ∈ guesses, guess ∈ stored)
    (hsubmitted : submittedGuesses proposals =
      guesses.map fun guess => (guess.words, some guess.sequenceNumber)) :
    proposals.filterMap (storedStep stored) = guesses.map fun guess => (guess.words, guess) := by
  let found (entry : List String × Option ℕ) : Option (List String × Guess) :=
    (entry.2.bind fun n => stored.find? (·.sequenceNumber = n)).map (entry.1, ·)
  calc proposals.filterMap (storedStep stored)
      = (submittedGuesses proposals).filterMap found := by
        rw [submittedGuesses, List.filterMap_map, List.filterMap_filter]
        refine List.filterMap_congr fun proposal _ => ?_
        simp only [storedStep, decide_eq_true_eq]
        rfl
    _ = guesses.filterMap fun guess => found (guess.words, some guess.sequenceNumber) := by
        rw [hsubmitted, List.filterMap_map]
        rfl
    _ = guesses.filterMap fun guess => some (guess.words, guess) := by
        refine List.filterMap_congr fun guess hguess => ?_
        simp only [found, Option.bind_some, find?_sequenceNumber hnumbered (hsub guess hguess),
          Option.map_some]
    _ = guesses.map fun guess => (guess.words, guess) := by
        rw [List.filterMap_eq_map']

/-- The script replays the guesses of a call in their order. -/
theorem usedSteps_eq (h : Snapshot rows prompts proposals guesses) (hcalls : Recorded calls)
    (hprompts : rows.prompts = calls.map (·.prompt))
    (hproposals : rows.proposals = calls.flatMap (·.proposals))
    (hguesses : rows.guesses = calls.flatMap (·.guesses))
    (hnumbered : rows.guesses.Pairwise fun a b => a.sequenceNumber < b.sequenceNumber)
    {call : CallRows} (hcall : call ∈ calls) {prompt : WithId SolvePrompt}
    (hprompt : prompt ∈ prompts) (hrow : prompt.row = call.prompt) :
    usedSteps proposals (guessMap guesses) prompt.id =
      call.guesses.map fun guess => (guess.words, guess) := by
  obtain ⟨_, hfollows⟩ := hcalls.follows hcall
  have hnumbers : (rows.prompts.map (·.promptNumber)).Nodup := by
    rw [hprompts, List.map_map]
    exact nodup_of_increasing hcalls.promptNumber_lt
  have hsome : ∀ proposal ∈ rows.proposals, proposal.status = .used → proposal.guess.isSome := by
    intro proposal hproposal hused
    rw [hproposals] at hproposal
    obtain ⟨other, hother, hin⟩ := List.mem_flatMap.mp hproposal
    obtain ⟨_, hfollows⟩ := hcalls.follows hother
    have hentry : (proposal.words, proposal.guess) ∈ submittedGuesses other.proposals :=
      List.mem_map_of_mem (List.mem_filter.mpr ⟨hin, by simpa using hused⟩)
    rw [hfollows.submitted] at hentry
    obtain ⟨guess, -, heq⟩ := List.mem_map.mp hentry
    rw [← (Prod.mk.inj heq).2]
    rfl
  have hlinked : ∀ call ∈ calls, ∀ proposal ∈ call.proposals,
      proposal.promptNumber = call.prompt.promptNumber := fun call hcall =>
    (hcalls.follows hcall).elim fun _ hfollows => hfollows.proposals
  have hcallGuesses : ∀ guess ∈ call.guesses, guess ∈ rows.guesses := by
    intro guess hguess
    rw [hguesses]
    exact List.mem_flatMap.mpr ⟨call, hcall, hguess⟩
  -- What the script collects for the prompt, before it is put in order.
  let collected := ((proposalsByPrompt proposals prompt.id).insertionSort
    fun a b => a.id ≤ b.id).filterMap (usedStep (guessMap guesses))
  have hcollected : collected.Perm (call.guesses.map fun guess => (guess.words, guess)) := by
    have hselect : proposalsByPrompt proposals prompt.id =
        proposals.filter fun proposal => proposal.row.promptNumber = call.prompt.promptNumber := by
      refine List.filter_congr fun proposal hproposal => ?_
      rw [decide_eq_decide, h.solvePromptId_iff hnumbers hproposal hprompt, hrow]
    have hsteps : (proposalsByPrompt proposals prompt.id).filterMap (usedStep (guessMap guesses)) =
        ((proposals.map (·.row)).filter (·.promptNumber = call.prompt.promptNumber)).filterMap
          (storedStep rows.guesses) := by
      rw [hselect, List.filter_map, List.filterMap_map]
      refine List.filterMap_congr fun proposal hproposal => ?_
      exact h.usedStep_eq hnumbered hsome (List.mem_of_mem_filter hproposal)
    have hstored : (rows.proposals.filter (·.promptNumber = call.prompt.promptNumber)).filterMap
        (storedStep rows.guesses) = call.guesses.map fun guess => (guess.words, guess) := by
      rw [hproposals, filter_proposals hcalls.promptNumber_lt hlinked hcall]
      exact filterMap_storedStep hnumbered hcallGuesses hfollows.submitted
    refine ((List.perm_insertionSort _ _).filterMap _).trans ?_
    rw [hsteps, ← hstored]
    exact (h.proposalRows.filter _).filterMap _
  have hincreasing : call.guesses.Pairwise fun a b => a.sequenceNumber < b.sequenceNumber := by
    rw [hguesses] at hnumbered
    exact (List.pairwise_flatMap.mp hnumbered).1 call hcall
  have hsorted := map_insertionSort_eq
    (fun a b : List String × Guess => a.2.sequenceNumber ≤ b.2.sequenceNumber) id
    (fun step => step.2.sequenceNumber) (fun _ _ => Nat.le_total _ _)
    (fun _ _ _ => Nat.le_trans) (fun _ _ => id) ((List.map_id collected).symm ▸ hcollected)
    (List.pairwise_map.mpr hincreasing)
  rwa [List.map_id] at hsorted

/-- Submitting the guesses of a call moves on to the last of them. -/
theorem foldl_submit (replay : Replay) (guesses : List Guess) :
    let after := (guesses.map fun guess => (guess.words, guess)).foldl Replay.submit replay
    after.bad = replay.bad ∧ after.taintedGuessIds = replay.taintedGuessIds ∧
      after.lastFailedGuess = lastFailedGuess replay.lastFailedGuess guesses := by
  induction guesses generalizing replay with
  | nil => exact ⟨rfl, rfl, rfl⟩
  | cons guess guesses ih =>
    obtain ⟨hbad, htainted, hlast⟩ := ih (replay.submit (guess.words, guess))
    have hsubmit :
        (replay.submit (guess.words, guess)).lastFailedGuess = nextFailedGuess guess := by
      unfold Replay.submit nextFailedGuess
      split <;> rfl
    have hsame : (replay.submit (guess.words, guess)).bad = replay.bad ∧
        (replay.submit (guess.words, guess)).taintedGuessIds = replay.taintedGuessIds := by
      unfold Replay.submit
      split <;> exact ⟨rfl, rfl⟩
    refine ⟨hbad.trans hsame.1, htainted.trans hsame.2, hlast.trans ?_⟩
    rw [hsubmit]
    rfl

/-- The type that the script expects is the one that answers to the last failed guess. -/
theorem expectedType_eq (failed : Option FailedGuess) :
    (if failed.isNone then SolvePromptType.initialSolve else .retry) = promptTypeAfter failed := by
  cases failed <;> rfl

theorem visitAll_snoc (proposals : List ProposalRow) (guessesById : ℕ → Option Guess)
    (replay : Replay) (visited : List (WithId SolvePrompt)) (prompt : WithId SolvePrompt) :
    replay.visitAll proposals guessesById (visited ++ [prompt]) =
      (replay.visitAll proposals guessesById visited).visit proposals guessesById prompt
        visited.length := by
  simp [Replay.visitAll, List.zipIdx_append]

/-- A prompt whose type is the expected one is replayed. -/
theorem visit_expected {replay : Replay} (hbad : replay.bad = none) {prompt : WithId SolvePrompt}
    (htype : prompt.row.promptType = promptTypeAfter replay.lastFailedGuess) (i : ℕ)
    {call : CallRows} (hrow : prompt.row = call.prompt)
    (herror : call.prompt.status = .callError → call.guesses = [])
    (hsteps : usedSteps proposals (guessMap guesses) prompt.id =
      call.guesses.map fun guess => (guess.words, guess)) :
    let after := replay.visit proposals (guessMap guesses) prompt i
    after.bad = none ∧
      after.lastFailedGuess = lastFailedGuess replay.lastFailedGuess call.guesses := by
  have hexpected : (if replay.lastFailedGuess.isNone then SolvePromptType.initialSolve
      else .retry) = prompt.row.promptType := by
    rw [htype, expectedType_eq]
  have hvisit : replay.visit proposals (guessMap guesses) prompt i =
      if prompt.row.status = .callError then replay
      else (usedSteps proposals (guessMap guesses) prompt.id).foldl Replay.submit replay := by
    unfold Replay.visit
    simp only [hexpected, ne_eq, not_true_eq_false, and_false, ↓reduceIte, hbad,
      Option.isSome_none, Bool.false_eq_true]
  simp only [hvisit]
  split
  · rename_i hstatus
    rw [herror (hrow ▸ hstatus)]
    exact ⟨hbad, rfl⟩
  · rw [hsteps]
    obtain ⟨hsame, -, hlast⟩ := foldl_submit replay call.guesses
    exact ⟨hsame.trans hbad, hlast⟩

/-- Over the prompts of recorded calls the replay flags none, and answers to the last guess. -/
theorem visitAll_recorded {visited : List CallRows} (hvisited : Recorded visited)
    (hsteps : ∀ call ∈ visited, ∀ prompt ∈ prompts, prompt.row = call.prompt →
      usedSteps proposals (guessMap guesses) prompt.id =
        call.guesses.map fun guess => (guess.words, guess))
    (originalWords : List String) {ordered : List (WithId SolvePrompt)}
    (hordered : ordered.map (·.row) = visited.map (·.prompt)) (hsub : ordered ⊆ prompts) :
    let replay := Replay.visitAll proposals (guessMap guesses)
      ⟨originalWords, none, none, []⟩ ordered
    replay.bad = none ∧
      replay.lastFailedGuess = lastFailedGuess none (visited.flatMap (·.guesses)) := by
  induction hvisited generalizing ordered with
  | nil =>
    obtain rfl : ordered = [] := List.map_eq_nil_iff.mp hordered
    exact ⟨rfl, rfl⟩
  | @snoc before call _ hfollows ih =>
    rw [List.map_append] at hordered
    obtain ⟨first, last, rfl, hfirst, hlast⟩ := List.map_eq_append_iff.mp hordered
    obtain ⟨prompt, rfl, hrow⟩ := List.map_eq_singleton_iff.mp hlast
    obtain ⟨hbad, hreplayed⟩ := ih (fun c hc => hsteps c (List.mem_append_left _ hc)) hfirst
      fun p hp => hsub (List.mem_append_left _ hp)
    have htype : prompt.row.promptType = promptTypeAfter (Replay.visitAll proposals
        (guessMap guesses) ⟨originalWords, none, none, []⟩ first).lastFailedGuess := by
      rw [hrow, hreplayed]
      exact hfollows.promptType
    have hexpected := visit_expected hbad htype first.length hrow hfollows.callError
      (hsteps call (List.mem_append_right _ List.mem_cons_self) prompt
        (hsub (List.mem_append_right _ List.mem_cons_self)) hrow)
    rw [visitAll_snoc]
    refine ⟨hexpected.1, hexpected.2.trans ?_⟩
    rw [hreplayed, List.flatMap_append, lastFailedGuess_append]
    simp

end Replay

namespace RunWorld

variable {text : TextOps} {limits : RunLimits} {puzzle : Puzzle} {strategyName : String}
  {runId trialNumber : ℕ}

theorem Numbered.increasing {w : RunWorld} (h : Numbered w) {rows : RunRows}
    (hrows : w.rows = some rows) :
    rows.guesses.Pairwise fun a b => a.sequenceNumber < b.sequenceNumber := by
  have hstored : rows.guesses.map (·.sequenceNumber) = List.range' 1 rows.guesses.length := by
    simpa [guesses, hrows] using h.stored
  refine List.pairwise_map.mp ?_
  rw [hstored]
  exact List.pairwise_lt_range'

/-- Every run can be read by the script, with the numbers of its rows for ids. -/
theorem snapshot_of_reaches {ok : RunWorld → RunEvent → Prop} {w : RunWorld} {rows : RunRows}
    (hrun : Run.Reaches (step text limits puzzle strategyName runId trialNumber) ok fresh w)
    (hrows : w.rows = some rows) :
    Snapshot rows (rows.prompts.map fun prompt => ⟨prompt.promptNumber, prompt⟩)
      (rows.proposals.mapIdx fun i proposal =>
        ⟨i, proposal.promptNumber, proposal.guess, proposal⟩)
      (rows.guesses.map fun guess => ⟨guess.sequenceNumber, guess⟩) := by
  obtain ⟨calls, hcalls, hprompts, hproposals, hguesses⟩ :=
    (reaches_callsRecorded hrun).stored rows hrows
  have hincreasing := (numbered_reaches hrun).increasing hrows
  have hfollows : ∀ proposal ∈ rows.proposals, ∃ call ∈ calls, proposal ∈ call.proposals ∧
      ∃ before, call.Follows before := by
    intro proposal hproposal
    rw [hproposals] at hproposal
    obtain ⟨call, hcall, hin⟩ := List.mem_flatMap.mp hproposal
    exact ⟨call, hcall, hin, hcalls.follows hcall⟩
  refine ⟨by simp [Function.comp_def], ?_, .of_eq (List.ext_getElem (by simp) (by simp)),
    by simp [Function.comp_def], ?_, ?_, ?_⟩
  · rw [List.map_map, hprompts, List.map_map]
    exact nodup_of_increasing hcalls.promptNumber_lt
  · rw [List.map_map]
    exact nodup_of_increasing hincreasing
  · intro row hrow
    obtain ⟨i, hi, rfl⟩ := List.mem_mapIdx.mp hrow
    obtain ⟨call, hcall, hin, _, hcall'⟩ := hfollows _ (List.getElem_mem hi)
    refine ⟨⟨call.prompt.promptNumber, call.prompt⟩, ?_, (hcall'.proposals _ hin).symm,
      (hcall'.proposals _ hin).symm⟩
    rw [hprompts]
    exact List.mem_map_of_mem (List.mem_map_of_mem hcall)
  · intro row hrow hused n hn
    obtain ⟨i, hi, rfl⟩ := List.mem_mapIdx.mp hrow
    obtain ⟨call, hcall, hin, _, hcall'⟩ := hfollows _ (List.getElem_mem hi)
    have hentry : (rows.proposals[i].words, some n) ∈ submittedGuesses call.proposals := by
      rw [← show rows.proposals[i].guess = some n from hn]
      exact List.mem_map_of_mem (List.mem_filter.mpr ⟨hin, by simpa using hused⟩)
    rw [hcall'.submitted] at hentry
    obtain ⟨guess, hguess, heq⟩ := List.mem_map.mp hentry
    have hnumber : guess.sequenceNumber = n := Option.some.inj (Prod.mk.inj heq).2
    refine ⟨⟨guess.sequenceNumber, guess⟩, ?_, hn.trans (hnumber ▸ rfl), hnumber⟩
    rw [hguesses]
    exact List.mem_map_of_mem (List.mem_flatMap.mpr ⟨call, hcall, hguess⟩)

/-- The repair has no false positives: on the rows of a run, whatever its calls came back with and
however it was resumed, the script finds nothing. -/
theorem findResumeCorruption_eq_none {ok : RunWorld → RunEvent → Prop} {w : RunWorld}
    {rows : RunRows}
    (hrun : Run.Reaches (step text limits puzzle strategyName runId trialNumber) ok fresh w)
    (hrows : w.rows = some rows) {prompts : List (WithId SolvePrompt)}
    {proposals : List ProposalRow} {guesses : List (WithId Guess)}
    (hsnapshot : Snapshot rows prompts proposals guesses) (originalWords : List String) :
    findResumeCorruption proposals (guessMap guesses) originalWords prompts = none := by
  obtain ⟨calls, hcalls, hprompts, hproposals, hguesses⟩ :=
    (reaches_callsRecorded hrun).stored rows hrows
  have hnumbered := (numbered_reaches hrun).increasing hrows
  have hordered := hsnapshot.ordered_rows hcalls hprompts
  have hreplay := visitAll_recorded hcalls (fun call hcall prompt hprompt hrow =>
    usedSteps_eq hsnapshot hcalls hprompts hproposals hguesses hnumbered hcall hprompt hrow)
    originalWords hordered (List.perm_insertionSort _ prompts).subset
  rw [findResumeCorruption]
  exact congrArg (Option.map _) hreplay.1

/-- A run that missed a group, lost its worker and went on. -/
theorem resumed_run_is_not_flagged :
    ∃ rows : RunRows, rows.prompts.map (·.promptType) = [.initialSolve, .retry] ∧
      findResumeCorruption
        (rows.proposals.mapIdx fun i proposal =>
          ⟨i, proposal.promptNumber, proposal.guess, proposal⟩)
        (guessMap (rows.guesses.map fun guess => ⟨guess.sequenceNumber, guess⟩))
        (computeInitialWordOrder asciiText insectsAndTrees "llm-openai")
        (rows.prompts.map fun prompt => ⟨prompt.promptNumber, prompt⟩) = none := by
  let events : List RunEvent :=
    [.load 0 (some "gpt-5-mini") none none false none, .enter 0 false,
      .iterate 1 none (plainReply [["ANT", "BEE", "FLY", "OAK"]]), .crash,
      .load 2 (some "gpt-5-mini") none none false none, .enter 2 false,
      .iterate 3 none (plainReply [["ANT", "BEE", "FLY", "GNAT"]])]
  obtain ⟨w, hrun, htypes⟩ := Run.exists_reaches
    (step asciiText defaultLimits insectsAndTrees "llm-openai" 1 1) Run.always fresh events
    (fun w => w.rows.any fun rows => rows.prompts.map (·.promptType) = [.initialSolve, .retry])
    (by decide)
  obtain ⟨rows, hrows, hsame⟩ := (Option.any_eq_true _ _).mp htypes
  refine ⟨rows, of_decide_eq_true hsame, ?_⟩
  exact findResumeCorruption_eq_none hrun hrows (snapshot_of_reaches hrun hrows) _

end RunWorld

end Connections
