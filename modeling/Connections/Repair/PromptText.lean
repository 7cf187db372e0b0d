import Connections.Library.TextScan
import Connections.Repair.ResumeCorruption
import Connections.Strategy.Transcript
import Mathlib.Algebra.Order.BigOperators.Group.List

/-!
# The backfill of prompt texts

The script tells the conversation of a run again from its stored rows.  It starts from the words as
the puzzle has them and remembers each reply by its stored text; the runner starts from the fixed-up
words and remembers a reply with several attempts by its compact restatement.
-/

namespace Connections

/-- The turns of a conversation in the format of the stored texts. -/
def formatConversation (turns : List ChatMessage) : String :=
  "\n\n".intercalate (turns.map fun turn =>
    "[" ++ (match turn.role with | .user => "User" | .assistant => "Assistant") ++ "]\n" ++
      turn.content)

/-- The script formats a conversation as the runner does. -/
theorem formatConversation_eq (turns : List ChatMessage) :
    formatConversation turns = transcriptText turns := rfl

/-- What the script carries from row to row. -/
structure Reconstruction extends Talk where
  textByPromptId : ℕ → Option String

/-- The prompt that the script takes a row to have sent. -/
def Reconstruction.currentPrompt (r : Reconstruction) (promptType : SolvePromptType) : String :=
  let quarters := r.availableWords.length
  match promptType, r.lastFailedGuess with
  | .retry, some failed => buildRetryPrompt r.availableWords r.lockedInGroups failed quarters
  | _, _ => buildInitialPrompt r.availableWords quarters

/-- Account for a submitted guess. -/
def Reconstruction.submit (r : Reconstruction) (step : List String × Guess) : Reconstruction :=
  if step.2.result = .success then
    { r with
      availableWords := r.availableWords.filter (· ∉ step.1)
      lockedInGroups := r.lockedInGroups ++ [step.1], lastFailedGuess := none }
  else { r with lastFailedGuess := some (failedGuess step.1 step.2.result) }

section Script

variable (proposals : List ProposalRow) (guessesById : ℕ → Option Guess)

/-- Write the text of a row and go on after it. -/
def Reconstruction.visit (r : Reconstruction) (prompt : WithId SolvePrompt) : Reconstruction :=
  let currentPrompt := r.currentPrompt prompt.row.promptType
  let written : Reconstruction := { r with
    textByPromptId := Function.update r.textByPromptId prompt.id
      (some (formatConversation (r.history ++ [⟨.user, currentPrompt⟩])))
    history :=
      if prompt.row.status = .callError then r.history
      else r.history ++ [⟨.user, currentPrompt⟩] ++
        [⟨.assistant, prompt.row.rawResponseText.getD ""⟩] }
  (usedSteps proposals guessesById prompt.id).foldl Reconstruction.submit written

/-- The texts of a run's rows, by their ids. -/
def reconstructPromptTexts (originalWords : List String)
    (solvePrompts : List (WithId SolvePrompt)) : ℕ → Option String :=
  let orderedPrompts := solvePrompts.insertionSort fun a b =>
    a.row.promptNumber < b.row.promptNumber ∨
      (a.row.promptNumber = b.row.promptNumber ∧ a.row.attemptNumber ≤ b.row.attemptNumber)
  (orderedPrompts.foldl (Reconstruction.visit proposals guessesById)
    ⟨Talk.start originalWords, fun _ => none⟩).textByPromptId

end Script

/-! ### The script's conversation -/

section Replay

variable {proposals : List ProposalRow} {guessesById : ℕ → Option Guess}

/-- The prompt of a row whose type fits is the next one of the talk. -/
theorem currentPrompt_eq (r : Reconstruction) :
    r.currentPrompt (promptTypeAfter r.lastFailedGuess) = r.toTalk.prompt := by
  unfold Reconstruction.currentPrompt Talk.prompt promptTypeAfter
  cases r.lastFailedGuess <;> rfl

theorem foldl_submit_talk (r : Reconstruction) (guesses : List Guess) :
    let after := (guesses.map fun guess => (guess.words, guess)).foldl Reconstruction.submit r
    after.toTalk = guesses.foldl Talk.guess r.toTalk ∧
      after.textByPromptId = r.textByPromptId := by
  induction guesses generalizing r with
  | nil => exact ⟨rfl, rfl⟩
  | cons guess guesses ih =>
    have hsubmit : (r.submit (guess.words, guess)).toTalk = r.toTalk.guess guess ∧
        (r.submit (guess.words, guess)).textByPromptId = r.textByPromptId := by
      unfold Reconstruction.submit Talk.guess
      split <;> exact ⟨rfl, rfl⟩
    obtain ⟨htalk, htexts⟩ := ih (r.submit (guess.words, guess))
    rw [hsubmit.1] at htalk
    exact ⟨htalk, htexts.trans hsubmit.2⟩

/-- The script writes the request of its talk for a row, and goes on with the stored reply. -/
theorem visit_talk (r : Reconstruction) {prompt : WithId SolvePrompt} {call : ToldCall}
    (hrow : prompt.row = call.rows.prompt)
    (htype : call.rows.prompt.promptType = promptTypeAfter r.lastFailedGuess)
    (hreply : call.rows.prompt.reply = call.outcome.response)
    (hsteps : usedSteps proposals guessesById prompt.id =
      call.rows.guesses.map fun guess => (guess.words, guess)) :
    let after := r.visit proposals guessesById prompt
    after.toTalk = r.toTalk.after call.outcome.response call.rows.guesses ∧
      after.textByPromptId = Function.update r.textByPromptId prompt.id
        (some (transcriptText r.toTalk.request)) := by
  unfold Reconstruction.visit
  rw [hrow, htype, currentPrompt_eq, hsteps]
  simp only [formatConversation_eq]
  generalize hwritten : (⟨_, _⟩ : Reconstruction) = written
  obtain ⟨htalk, htexts⟩ := foldl_submit_talk written call.rows.guesses
  have hanswered : written.toTalk = r.toTalk.answer call.outcome.response := by
    rw [← hwritten, ← hreply]
    unfold SolvePrompt.reply Talk.answer
    split <;> rfl
  rw [hanswered] at htalk
  refine ⟨htalk, htexts.trans ?_⟩
  rw [← hwritten]
  rfl

/-- Over the rows of told calls the script writes, for each, the request of its own talk. -/
theorem foldl_visit_told {board : List String} {calls : List ToldCall}
    (hcalls : Transcribed board calls) (words : List String)
    {ordered : List (WithId SolvePrompt)}
    (hordered : ordered.map (·.row) = calls.map (·.rows.prompt))
    (hids : (ordered.map (·.id)).Nodup)
    (hsteps : ∀ call ∈ calls, ∀ prompt ∈ ordered, prompt.row = call.rows.prompt →
      usedSteps proposals guessesById prompt.id =
        call.rows.guesses.map fun guess => (guess.words, guess)) :
    let after := ordered.foldl (Reconstruction.visit proposals guessesById)
      ⟨Talk.start words, fun _ => none⟩
    after.toTalk = told SolveStepOutcome.response words calls ∧
      ∀ earlier prompt later, ordered = earlier ++ prompt :: later →
        after.textByPromptId prompt.id = some (transcriptText
          (told SolveStepOutcome.response words (calls.take earlier.length)).request) := by
  induction hcalls generalizing ordered with
  | nil =>
    obtain rfl : ordered = [] := List.map_eq_nil_iff.mp hordered
    exact ⟨rfl, by simp⟩
  | @snoc before call _ htells ih =>
    rw [List.map_append] at hordered
    obtain ⟨first, last, rfl, hfirst, hlast⟩ := List.map_eq_append_iff.mp hordered
    obtain ⟨prompt, rfl, hrow⟩ := List.map_eq_singleton_iff.mp hlast
    rw [List.map_append] at hids
    obtain ⟨hidsFirst, -, hnew⟩ := List.nodup_append.mp hids
    obtain ⟨htalk, htexts⟩ := ih hfirst hidsFirst fun c hc p hp =>
      hsteps c (List.mem_append_left _ hc) p (List.mem_append_left _ hp)
    have hlength : first.length = before.length := by
      simpa using congrArg List.length hfirst
    rw [List.foldl_append, List.foldl_cons, List.foldl_nil]
    generalize first.foldl (Reconstruction.visit proposals guessesById)
      ⟨Talk.start words, fun _ => none⟩ = replayed at htalk htexts ⊢
    have htype : call.rows.prompt.promptType = promptTypeAfter replayed.lastFailedGuess := by
      rw [htells.follows.promptType, show replayed.lastFailedGuess =
        replayed.toTalk.lastFailedGuess from rfl, htalk, told_lastFailedGuess, List.flatMap_map]
    obtain ⟨hnext, hwritten⟩ := visit_talk replayed hrow htype htells.reply
      (hsteps call (List.mem_append_right _ List.mem_cons_self) prompt
        (List.mem_append_right _ List.mem_cons_self) hrow)
    refine ⟨by rw [hnext, htalk, told_snoc], ?_⟩
    intro earlier asked later hsplit
    rw [hwritten]
    rcases List.eq_nil_or_concat later with rfl | ⟨rest, end', rfl⟩
    · -- The row just visited: its text was written last.
      obtain ⟨rfl, hsame⟩ := List.append_inj' hsplit rfl
      obtain rfl : prompt = asked := by simpa using hsame
      rw [Function.update_self, htalk, hlength, List.take_left']
      rfl
    · rw [List.concat_eq_append, ← List.cons_append, ← List.append_assoc] at hsplit
      obtain ⟨rfl, hsame⟩ := List.append_inj' hsplit rfl
      have hne : asked.id ≠ prompt.id := by
        refine hnew asked.id ?_ prompt.id (by simp)
        simp
      have hshort : earlier.length ≤ before.length := by
        rw [← hlength]
        simp
      rw [Function.update_of_ne hne, htexts earlier asked rest rfl,
        List.take_append_of_le_length hshort]

end Replay

/-! ### The two conversations -/

/-- Transcripts that differ in one turn's content are different. -/
theorem transcriptText_cancel (before after : List ChatMessage) {role : ChatRole} {a b : String}
    (h : transcriptText (before ++ ⟨role, a⟩ :: after) =
      transcriptText (before ++ ⟨role, b⟩ :: after)) : a = b := by
  have hlist := congrArg String.toList h
  unfold transcriptText at hlist
  rw [String.toList_intercalate, String.toList_intercalate] at hlist
  simp only [List.map_append, List.map_cons] at hlist
  have hturn := TextScan.intercalate_cancel hlist
  simp only [String.toList_append, List.append_cancel_left_eq] at hturn
  exact String.toList_inj.mp hturn

/-- Opening prompts about different lists of items are different. -/
theorem buildInitialPrompt_cancel {items items' : List String} {quarters : ℕ}
    (h : buildInitialPrompt items quarters = buildInitialPrompt items' quarters) :
    ", ".intercalate items = ", ".intercalate items' := by
  let head : List String :=
    ["You are an expert solver for the NYT Connections puzzle.", "", "Task:",
      s!"Analyze the {quarters} provided items and group them into exactly " ++
        groupCountText quarters ++ " distinct sets of 4 items each, where every set shares a " ++
          "clear, logical category or connection.",
      "", "Items:"]
  let rest : List String :=
    ["", "Rules:", "1. Use EVERY item from the list above EXACTLY ONCE.",
      "2. Do NOT add new words, alter spellings, or substitute items.",
      "3. Every group MUST contain EXACTLY 4 items.", ""] ++ answerFormatLines (quarters / 4)
  have hsplit : ∀ words, buildInitialPrompt words quarters =
      "\n".intercalate (head ++ ", ".intercalate words :: rest) := fun _ => rfl
  have hlist := congrArg String.toList h
  rw [hsplit, hsplit, String.toList_intercalate, String.toList_intercalate] at hlist
  simp only [List.map_append, List.map_cons] at hlist
  exact String.toList_inj.mp (TextScan.intercalate_cancel hlist)

/-- The fixups shorten a list with the word they rewrite. -/
theorem intercalate_fixups_ne {words : List String} (h : "20,000" ∈ words) :
    ", ".intercalate (words.map normalizePuzzleWord) ≠ ", ".intercalate words := by
  have hle : ∀ w ∈ words, (normalizePuzzleWord w).toList.length ≤ w.toList.length := by
    intro w _
    unfold normalizePuzzleWord
    split
    · rename_i hw
      rw [hw]
      decide
    · exact Nat.le_refl _
  have hlt := List.sum_lt_sum (l := words) (fun w => (normalizePuzzleWord w).toList.length)
    (fun w => w.toList.length) hle ⟨"20,000", h, by decide⟩
  intro hsame
  have hlength := congrArg (fun s => s.toList.length) hsame
  simp only [String.toList_intercalate, TextScan.length_intercalate, List.length_map,
    List.map_map, Function.comp_def] at hlength
  omega

/-- What is kept of the replies never shows in a prompt. -/
theorem told_alike (kept kept' : SolveStepOutcome → Option String) (board : List String)
    (calls : List ToldCall) : (told kept board calls).Alike (told kept' board calls) := by
  induction calls using List.reverseRecOn with
  | nil => exact .refl _
  | append_singleton calls call ih =>
    rw [told_snoc, told_snoc]
    exact ih.after _ _ _

/-- When the conversations agreed up to a call and agree on the request after it, what the runner
kept of the call is its stored reply. -/
theorem echo_eq_response {board : List String} {before : List ToldCall} {call : ToldCall}
    (hbefore : told SolveStepOutcome.response board before =
      told SolveStepOutcome.echo board before)
    (h : transcriptText (told SolveStepOutcome.response board (before ++ [call])).request =
      transcriptText (told SolveStepOutcome.echo board (before ++ [call])).request) :
    call.outcome.echo = call.outcome.response := by
  have hprompt := (told_alike SolveStepOutcome.response SolveStepOutcome.echo board
    (before ++ [call])).prompt
  unfold Talk.request at h
  rw [hprompt, told_snoc, told_snoc, Talk.after_history, Talk.after_history, hbefore] at h
  generalize told SolveStepOutcome.echo board before = talk at h
  cases hcall : call.outcome with
  | error failure => rfl
  | ok data =>
    rw [hcall] at h
    simp only [SolveStepOutcome.response, SolveStepOutcome.echo, Talk.answer, List.append_assoc,
      List.singleton_append] at h
    exact congrArg some (transcriptText_cancel _ _ h).symm

/-- The conversations agree on every request exactly when there is none, or the fixups leave the
words alone and every reply but the last is kept as it is stored. -/
theorem requests_agree_iff (words : List String) (calls : List ToldCall) :
    (∀ before call after, calls = before ++ call :: after →
      transcriptText (told SolveStepOutcome.response words before).request =
        transcriptText
          (told SolveStepOutcome.echo (words.map normalizePuzzleWord) before).request) ↔
      calls = [] ∨ "20,000" ∉ words ∧
        ∀ outcome ∈ (calls.map (·.outcome)).dropLast, outcome.echo = outcome.response := by
  constructor
  · intro h
    cases hcalls : calls with
    | nil => exact .inl rfl
    | cons first rest =>
      right
      have hwords : "20,000" ∉ words := by
        intro hmem
        have hfirst := h [] first rest hcalls
        have hprompt := transcriptText_cancel [] [] hfirst
        simp only [told_nil, Talk.prompt, Talk.start, List.length_map] at hprompt
        exact intercalate_fixups_ne hmem (buildInitialPrompt_cancel hprompt).symm
      rw [map_normalizePuzzleWord_eq hwords] at h
      -- Along the calls: the conversations agree up to each call that has another one after it.
      have hagree : ∀ before call after, calls = before ++ call :: after →
          told SolveStepOutcome.response words before =
            told SolveStepOutcome.echo words before := by
        intro before
        induction before using List.reverseRecOn with
        | nil => exact fun _ _ _ => rfl
        | append_singleton before last ih =>
          intro call after hsplit
          have hlast : calls = before ++ last :: call :: after := by simpa using hsplit
          have hbefore := ih last (call :: after) hlast
          have hecho := echo_eq_response hbefore (h _ call after hsplit)
          rw [told_snoc, told_snoc, hbefore, hecho]
      refine ⟨hwords, fun outcome houtcome => ?_⟩
      rw [← hcalls, ← List.map_dropLast] at houtcome
      obtain ⟨call, hcall, rfl⟩ := List.mem_map.mp houtcome
      obtain ⟨before, after, hsplit⟩ := List.append_of_mem hcall
      have hne : calls ≠ [] := by rw [hcalls]; simp
      have hwhole := (List.dropLast_append_getLast hne).symm
      rw [hsplit] at hwhole
      have hnext : calls = (before ++ [call]) ++ (after ++ [calls.getLast hne]) := by
        simpa using hwhole
      cases hafter : after ++ [calls.getLast hne] with
      | nil => simp at hafter
      | cons next later =>
        rw [hafter] at hnext
        exact echo_eq_response (hagree before call _ (by simpa using hnext))
          (h (before ++ [call]) next later hnext)
  · rintro (rfl | ⟨hwords, hecho⟩) before call after hsplit
    · simp at hsplit
    · rw [map_normalizePuzzleWord_eq hwords]
      refine congrArg (fun talk => transcriptText talk.request) (told_congr _ _ fun c hc => ?_)
      refine (hecho c.outcome ?_).symm
      rw [hsplit, List.map_append, List.map_cons, List.dropLast_append_of_ne_nil (by simp)]
      exact List.mem_append_left _ (List.mem_map_of_mem hc)

theorem Transcribed.tells {board : List String} {calls : List ToldCall}
    (h : Transcribed board calls) {before : List ToldCall} {call : ToldCall}
    {after : List ToldCall} (hsplit : calls = before ++ call :: after) :
    call.Tells board before := by
  induction h generalizing after with
  | nil => simp at hsplit
  | @snoc first last _ htells ih =>
    rcases List.eq_nil_or_concat after with rfl | ⟨rest, end', rfl⟩
    · obtain ⟨rfl, hsame⟩ := List.append_inj' hsplit rfl
      obtain rfl : last = call := by simpa using hsame
      exact htells
    · rw [List.concat_eq_append, ← List.cons_append, ← List.append_assoc] at hsplit
      exact ih (List.append_inj' hsplit rfl).1

namespace RunWorld

variable {text : TextOps} {limits : RunLimits} {puzzle : Puzzle} {strategyName : String}
  {runId trialNumber : ℕ}

/-- On the rows of told calls the script writes the stored texts exactly when there is no row, or
the fixups leave the words alone and every reply but the last is kept as it is stored. -/
theorem StoredCalls.backfill_exact_iff {words : List String} {rows : RunRows}
    {log : List SolveStepOutcome} {calls : List ToldCall}
    (hcalls : StoredCalls (words.map normalizePuzzleWord) rows log calls)
    (hnumbered : rows.guesses.Pairwise fun a b => a.sequenceNumber < b.sequenceNumber)
    {prompts : List (WithId SolvePrompt)} {proposals : List ProposalRow}
    {guesses : List (WithId Guess)} (hsnapshot : Snapshot rows prompts proposals guesses) :
    (∀ prompt ∈ prompts,
      reconstructPromptTexts proposals (guessMap guesses) words prompts prompt.id =
        some prompt.row.promptText) ↔
      rows.prompts = [] ∨ "20,000" ∉ words ∧
        ∀ outcome ∈ log.dropLast, outcome.echo = outcome.response := by
  have hrecorded := hcalls.transcribed.recorded
  have hprompts : rows.prompts = (calls.map (·.rows)).map (·.prompt) := by
    rw [hcalls.prompts, List.map_map]
    rfl
  have hproposals : rows.proposals = (calls.map (·.rows)).flatMap (·.proposals) := by
    rw [hcalls.proposals, List.flatMap_map]
  have hguesses : rows.guesses = (calls.map (·.rows)).flatMap (·.guesses) := by
    rw [hcalls.guesses, List.flatMap_map]
  have hordered := hsnapshot.ordered_rows hrecorded hprompts
  have hperm := List.perm_insertionSort (fun a b : WithId SolvePrompt =>
    a.row.promptNumber < b.row.promptNumber ∨
      (a.row.promptNumber = b.row.promptNumber ∧ a.row.attemptNumber ≤ b.row.attemptNumber)) prompts
  unfold reconstructPromptTexts
  generalize (prompts.insertionSort fun a b : WithId SolvePrompt =>
    a.row.promptNumber < b.row.promptNumber ∨
      (a.row.promptNumber = b.row.promptNumber ∧ a.row.attemptNumber ≤ b.row.attemptNumber)) =
    ordered at hordered hperm ⊢
  rw [List.map_map] at hordered
  obtain ⟨-, htexts⟩ := foldl_visit_told hcalls.transcribed words hordered
    ((hperm.map _).nodup_iff.mpr hsnapshot.promptIds) fun call hcall prompt hprompt hrow =>
      usedSteps_eq hsnapshot hrecorded hprompts hproposals hguesses hnumbered
        (List.mem_map_of_mem hcall) (hperm.mem_iff.mp hprompt) hrow
  generalize (ordered.foldl (Reconstruction.visit proposals (guessMap guesses))
    ⟨Talk.start words, fun _ => none⟩) = written at htexts ⊢
  rw [hcalls.prompts, List.map_eq_nil_iff, ← hcalls.outcomes, ← requests_agree_iff]
  constructor
  · intro h before call after hsplit
    rw [hsplit, List.map_append, List.map_cons] at hordered
    obtain ⟨earlier, rest, rfl, hearlier, hrest⟩ := List.map_eq_append_iff.mp hordered
    obtain ⟨prompt, later, rfl, hrow, -⟩ := List.map_eq_cons_iff.mp hrest
    have hlength : earlier.length = before.length := by
      simpa using congrArg List.length hearlier
    have htext := h prompt (hperm.mem_iff.mp (by simp))
    rw [htexts earlier prompt later rfl, hlength, hsplit, List.take_left' rfl] at htext
    have htells := hcalls.transcribed.tells hsplit
    rw [Option.some.inj htext, hrow]
    exact htells.promptText
  · intro h prompt hprompt
    obtain ⟨earlier, later, rfl⟩ := List.append_of_mem (hperm.mem_iff.mpr hprompt)
    rw [List.map_append, List.map_cons] at hordered
    obtain ⟨before, rest, hcallsEq, hearlier, hrest⟩ := List.map_eq_append_iff.mp hordered.symm
    obtain ⟨call, after, rfl, hrow, -⟩ := List.map_eq_cons_iff.mp hrest
    have hlength : earlier.length = before.length := by
      simpa using (congrArg List.length hearlier).symm
    have htells := hcalls.transcribed.tells hcallsEq
    rw [htexts earlier prompt later rfl, hlength, hcallsEq, List.take_left' rfl,
      h before call after hcallsEq, ← hrow]
    exact congrArg some htells.promptText.symm

/-- The backfill writes for every row of a run that was not resumed the text that the runner wrote,
exactly when there is no row, or the puzzle has no word that the fixups rewrite and the runner kept
every reply before the last call as it is stored. -/
theorem reconstructPromptTexts_exact_iff {w : RunWorld} {log : List SolveStepOutcome}
    {rows : RunRows}
    (hrun : Run.Reaches
      (Run.logged (step text limits puzzle strategyName runId trialNumber) completedCall)
      (fun s e => unresumed s.1 e = true) (fresh, []) (w, log))
    (hrows : w.rows = some rows) {prompts : List (WithId SolvePrompt)}
    {proposals : List ProposalRow} {guesses : List (WithId Guess)}
    (hsnapshot : Snapshot rows prompts proposals guesses) :
    (∀ prompt ∈ prompts,
      reconstructPromptTexts proposals (guessMap guesses)
        (computeInitialWordOrder text puzzle strategyName) prompts prompt.id =
          some prompt.row.promptText) ↔
      rows.prompts = [] ∨ "20,000" ∉ puzzle.boardWords ∧
        ∀ outcome ∈ log.dropLast, outcome.echo = outcome.response := by
  obtain ⟨calls, hcalls, -⟩ := (telling_reaches hrun).stored rows hrows
  have hplain : Run.Reaches (step text limits puzzle strategyName runId trialNumber)
      (fun v e => unresumed v e = true) fresh w := Run.Reaches.unlogged hrun
  have hnumbered := (numbered_reaches hplain).increasing hrows
  rw [← (computeInitialWordOrder_perm text puzzle strategyName).mem_iff]
  exact hcalls.backfill_exact_iff hnumbered hsnapshot

/-- A run that missed a group and went on. -/
theorem reconstructPromptTexts_exact_after_miss :
    ∃ rows : RunRows, rows.prompts.length = 2 ∧
      ∀ prompt ∈ rows.prompts.map fun prompt =>
          (⟨prompt.promptNumber, prompt⟩ : WithId SolvePrompt),
        reconstructPromptTexts
          (rows.proposals.mapIdx fun i proposal =>
            ⟨i, proposal.promptNumber, proposal.guess, proposal⟩)
          (guessMap (rows.guesses.map fun guess => ⟨guess.sequenceNumber, guess⟩))
          (computeInitialWordOrder asciiText insectsAndTrees "llm-openai")
          (rows.prompts.map fun prompt => ⟨prompt.promptNumber, prompt⟩) prompt.id =
            some prompt.row.promptText := by
  let events : List RunEvent :=
    [.load 0 (some "gpt-5-mini") none none false none, .enter 0 false,
      .iterate 1 none (plainReply [["ANT", "BEE", "FLY", "OAK"]]),
      .iterate 2 none (plainReply [["ANT", "BEE", "FLY", "GNAT"]])]
  obtain ⟨⟨w, log⟩, hrun, hstate⟩ := Run.exists_reaches
    (Run.logged (step asciiText defaultLimits insectsAndTrees "llm-openai" 1 1) completedCall)
    (fun s e => unresumed s.1 e = true) (fresh, []) events
    (fun s => s.1.rows.any (fun rows => rows.prompts.length = 2) &&
      s.2.all fun outcome => outcome.echo = outcome.response) (by decide)
  rw [Bool.and_eq_true] at hstate
  obtain ⟨rows, hrows, htwo⟩ := (Option.any_eq_true _ _).mp hstate.1
  have hplain : Run.Reaches (step asciiText defaultLimits insectsAndTrees "llm-openai" 1 1)
      (fun v e => unresumed v e = true) fresh w := Run.Reaches.unlogged hrun
  refine ⟨rows, of_decide_eq_true htwo, ?_⟩
  refine (reconstructPromptTexts_exact_iff hrun hrows (snapshot_of_reaches hplain hrows)).mpr ?_
  refine .inr ⟨by decide, fun outcome houtcome => ?_⟩
  exact of_decide_eq_true (List.all_eq_true.mp hstate.2 outcome ((List.dropLast_subset _) houtcome))

/-- A reply with two answer attempts. -/
def secondThoughts : SolveStepOutcome :=
  .ok { response := "### ANSWER\nANT, BEE, FLY, OAK\n### ANSWER\nANT, BEE, FLY, ELM"
        groups := [["ANT", "BEE", "FLY", "OAK"]]
        proposalWords := [some ["ANT", "BEE", "FLY", "OAK"]], categoryByGroup := []
        textIssues := [SolvePromptIssueTag.multipleProposals], model := "gpt-5-mini"
        contextWindow := none, latencyMs := 0, usage := none, requestBody := none }

/-- The script remembers both attempts of a reply where the runner sent on only the first, so the
text of the next call comes out different. -/
theorem second_thoughts_are_backfilled :
    ¬ ∀ (puzzle : Puzzle) (w : RunWorld) (log : List SolveStepOutcome) (rows : RunRows)
      (prompts : List (WithId SolvePrompt)) (proposals : List ProposalRow)
      (guesses : List (WithId Guess)),
      Run.Reaches (Run.logged (step asciiText defaultLimits puzzle "llm-openai" 1 1) completedCall)
        (fun s e => unresumed s.1 e = true) (fresh, []) (w, log) →
      w.rows = some rows → Snapshot rows prompts proposals guesses →
      ∀ prompt ∈ prompts,
        reconstructPromptTexts proposals (guessMap guesses)
          (computeInitialWordOrder asciiText puzzle "llm-openai") prompts prompt.id =
            some prompt.row.promptText := by
  intro h
  let events : List RunEvent :=
    [.load 0 (some "gpt-5-mini") none none false none, .enter 0 false,
      .iterate 1 none secondThoughts,
      .iterate 2 none (plainReply [["ANT", "BEE", "FLY", "GNAT"]])]
  obtain ⟨⟨w, log⟩, hrun, hstate⟩ := Run.exists_reaches
    (Run.logged (step asciiText defaultLimits insectsAndTrees "llm-openai" 1 1) completedCall)
    (fun s e => unresumed s.1 e = true) (fresh, []) events
    (fun s => s.1.rows.any (fun rows => rows.prompts.length = 2) &&
      s.2.dropLast.any fun outcome => outcome.echo ≠ outcome.response) (by decide)
  rw [Bool.and_eq_true] at hstate
  obtain ⟨rows, hrows, htwo⟩ := (Option.any_eq_true _ _).mp hstate.1
  obtain ⟨outcome, houtcome, hdiffers⟩ := List.any_eq_true.mp hstate.2
  have hplain : Run.Reaches (step asciiText defaultLimits insectsAndTrees "llm-openai" 1 1)
      (fun v e => unresumed v e = true) fresh w := Run.Reaches.unlogged hrun
  have hsnapshot := snapshot_of_reaches hplain hrows
  obtain ⟨calls, hcalls, -⟩ := (telling_reaches hrun).stored rows hrows
  have hexact := (hcalls.backfill_exact_iff ((numbered_reaches hplain).increasing hrows)
    hsnapshot).mp (h _ w log rows _ _ _ hrun hrows hsnapshot)
  rcases hexact with hnil | ⟨-, hsame⟩
  · rw [hnil] at htwo
    simp at htwo
  · exact of_decide_eq_true hdiffers (hsame outcome houtcome)

end RunWorld

end Connections
