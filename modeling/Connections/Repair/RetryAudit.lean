import Connections.Repair.HistoryCure

/-!
# The audit of manual retries

Every manual retry that a worker takes up reads the request of the latest call.  The audit sees the
stored calls alone: it judges the first retry that stored a call, and in any layout of the request,
so it never reports a run without reason, but it misses what only a later retry lost.
-/

namespace Connections

namespace RunWorld

/-- The calls that a manual retry starts from, when a worker takes the run up with it. -/
def takenUp (w : RunWorld) (e : RunEvent) (w' : RunWorld) : Option (List SolvePrompt) :=
  match e, w'.worker with
  | .enter _ _, some (.looping loop) => if loop.manualRetry then w.rows.map (·.prompts) else none
  | _, _ => none

/-- A call before the latest one had been answered. -/
def EarlierAnswered (before : List SolvePrompt) : Prop :=
  ∃ answered ∈ before, answered.status = .parsed ∧
    ∃ later ∈ before, answered.promptNumber < later.promptNumber

/-- A manual retry that starts from some calls finds no turns in the latest one, although an earlier
one had been answered. -/
def LosesHistory (before : List SolvePrompt) : Prop :=
  EarlierAnswered before ∧ ¬ FindsTurns (latestRequestBody before)

instance : DecidablePred LosesHistory := fun before => inferInstanceAs <| Decidable
  ((∃ answered ∈ before, answered.status = .parsed ∧
    ∃ later ∈ before, answered.promptNumber < later.promptNumber) ∧ _)

/-- The manual retries that were taken up, and the calls of a run. -/
structure Retried (w : RunWorld) (log : List (List SolvePrompt)) : Prop where
  prefixes : ∀ before ∈ log, ∃ rows, w.rows = some rows ∧ before <+: rows.prompts
  first : ∀ rows, w.rows = some rows → ∀ before retry after,
    rows.prompts = before ++ retry :: after → retry.manualRetry →
    (∀ prompt ∈ before, ¬ prompt.manualRetry) → before ∈ log
  live : ∀ rows loop, w.rows = some rows → w.worker = some (.looping loop) → loop.manualRetry →
    ∃ before ∈ log, ∃ sent, rows.prompts = before ++ sent ∧ ∀ prompt ∈ sent, prompt.manualRetry

theorem retried_fresh : Retried fresh [] where
  prefixes := by simp
  first := by simp [fresh]
  live := by simp [fresh]

/-- A step that stores no call and leaves no loop takes no retry up. -/
theorem Retried.closed {w w' : RunWorld} {log : List (List SolvePrompt)} (h : Retried w log)
    {rows rows' : RunRows} (hrows : w.rows = some rows) (hrows' : w'.rows = some rows')
    (hprompts : rows'.prompts = rows.prompts) (hworker : ∀ loop, w'.worker ≠ some (.looping loop)) :
    Retried w' log where
  prefixes before hbefore := by
    obtain ⟨_, hsame, hinitial⟩ := h.prefixes before hbefore
    obtain rfl := Option.some.inj (hrows.symm.trans hsame)
    exact ⟨rows', hrows', hprompts ▸ hinitial⟩
  first _ hsame before retry after hsplit := by
    obtain rfl := Option.some.inj (hrows'.symm.trans hsame)
    exact h.first rows hrows before retry after (hprompts ▸ hsplit)
  live _ loop _ hloop := absurd hloop (hworker loop)

section Steps

variable {text : TextOps} {limits : RunLimits} {puzzle : Puzzle} {strategyName : String}
  {runId trialNumber : ℕ}

/-- A manual retry starts with the history rebuilt from the latest call, an empty one when it loses
the history. -/
theorem messages_of_takenUp {w w' : RunWorld} {e : RunEvent} {before : List SolvePrompt}
    (hstep : step text limits puzzle strategyName runId trialNumber w e = some w')
    (htaken : takenUp w e w' = some before) :
    ∃ loop, w'.worker = some (.looping loop) ∧
      loop.messages = reconstructMessages (latestRequestBody before) ∧
      (LosesHistory before → loop.messages = []) := by
  cases step_cases hstep with
  | created | loaded | enteredTerminal | enteredHeld | parked | flushed | crashed => cases htaken
  | flipped rows run e hworker => simp [takenUp, hworker] at htaken
  | enteredLoop rows run model manualRetry maxOutputTokens now held hworker hrows =>
    have hbefore : before = rows.prompts := by
      cases manualRetry <;> simp_all [takenUp, rebuiltLoop]
    rw [hbefore]
    exact ⟨_, rfl, rfl, fun hloses => reconstructMessages_of_not_findsTurns hloses.2⟩

/-- An answered call is marked as its loop is. -/
theorem handleReply_manualRetry (loop : RunLoop) (now : ℕ) (promptType : SolvePromptType)
    (request : List ChatMessage) (data : SolveStepSuccess) :
    ∃ prompt, (handleReply text limits loop now promptType request data).2.prompts = [prompt] ∧
      prompt.manualRetry = loop.manualRetry := by
  unfold handleReply
  simp only
  split
  · exact ⟨_, rfl, rfl⟩
  · exact ⟨_, rfl, rfl⟩

/-- A flushed call is marked as its loop is, and so is the loop behind it. -/
theorem runIteration_manualRetry {loop next : RunLoop} {now : ℕ} {reservation : Option ℕ}
    {outcome : SolveStepOutcome} {batch : FlushBatch} {holds : List HoldRequest}
    (h : runIteration text limits loop now reservation outcome = .flush next batch holds) :
    next.manualRetry = loop.manualRetry ∧
      ∃ prompt, batch.prompts = [prompt] ∧ prompt.manualRetry = loop.manualRetry := by
  unfold runIteration at h
  split at h
  · cases h
  · cases outcome with
    | ok data =>
      cases h
      exact ⟨rfl, handleReply_manualRetry loop now _ _ data⟩
    | error failure =>
      cases h
      exact ⟨rfl, _, rfl, rfl⟩

/-- A flushed call of a retry follows the calls that the retry started from. -/
theorem Retried.flushed {w : RunWorld} {log : List (List SolvePrompt)} (h : Retried w log)
    {rows : RunRows} {loop next : RunLoop} {batch : FlushBatch} {holds : List HoldRequest} {now : ℕ}
    {reservation : Option ℕ} {outcome : SolveStepOutcome} (hrows : w.rows = some rows)
    (hworker : w.worker = some (.looping loop))
    (hflush : runIteration text limits loop now reservation outcome = .flush next batch holds) :
    Retried ⟨some (flushBatch rows batch now), if next.run.status = .running then
      some (.looping { next with state := { next.state with rateLimitWaitMs := none } }) else none,
      some next.state⟩ log := by
  obtain ⟨hnext, call, hbatch, hcall⟩ := runIteration_manualRetry hflush
  have hprompts : (flushBatch rows batch now).prompts = rows.prompts ++ [call] := by
    simp [flushBatch, hbatch]
  constructor
  · intro before hbefore
    obtain ⟨_, hsame, hinitial⟩ := h.prefixes before hbefore
    obtain rfl := Option.some.inj (hrows.symm.trans hsame)
    exact ⟨_, rfl, hprompts ▸ hinitial.trans (List.prefix_append _ _)⟩
  · rintro _ ⟨⟩ before retry after hsplit hmanual hnone
    rw [hprompts] at hsplit
    rcases List.eq_nil_or_concat after with rfl | ⟨after, last, rfl⟩
    · -- The flushed call is the first one of a manual retry.
      obtain ⟨rfl, hsame⟩ := List.append_inj' hsplit rfl
      cases hsame
      obtain ⟨start, hstart, sent, hstored, hsent⟩ :=
        h.live rows loop hrows hworker (hcall ▸ hmanual)
      have hnil : sent = [] := by
        refine List.eq_nil_iff_forall_not_mem.mpr fun prompt hprompt => ?_
        exact hnone prompt (hstored ▸ List.mem_append_right _ hprompt) (hsent prompt hprompt)
      rw [hstored, hnil, List.append_nil]
      exact hstart
    · have hsplit' : rows.prompts ++ [call] = (before ++ retry :: after) ++ [last] := by
        rw [hsplit, List.concat_eq_append, List.append_assoc, List.cons_append]
      exact h.first rows hrows before retry after (List.append_inj_left' hsplit' rfl) hmanual hnone
  · rintro _ after ⟨⟩ hafter hmanual
    cases (worker_flushed hafter).2
    have hloop : loop.manualRetry := hnext ▸ hmanual
    obtain ⟨before, hbefore, sent, hstored, hsent⟩ := h.live rows loop hrows hworker hloop
    refine ⟨before, hbefore, sent ++ [call], ?_, ?_⟩
    · rw [hprompts, hstored, List.append_assoc]
    · intro prompt hprompt
      rcases List.mem_append.mp hprompt with hprompt | hprompt
      · exact hsent prompt hprompt
      · rw [List.mem_singleton.mp hprompt, hcall]
        exact hloop

/-- Every step keeps the record of the retries. -/
theorem retried_step {w w' : RunWorld} {log : List (List SolvePrompt)} {e : RunEvent}
    (h : Retried w log)
    (hstep : step text limits puzzle strategyName runId trialNumber w e = some w') :
    Retried w' (log ++ (takenUp w e w').toList) := by
  cases step_cases hstep with
  | created now model contextWindow budgetTier manualRetry maxOutputTokens hworker hrows =>
    simp only [takenUp, Option.toList_none, List.append_nil]
    refine ⟨?_, ?_, by simp⟩
    · intro before hbefore
      obtain ⟨rows, hsome, -⟩ := h.prefixes before hbefore
      rw [hrows] at hsome
      cases hsome
    · rintro _ ⟨⟩ before retry after hsplit
      simp at hsplit
  | loaded rows now model contextWindow budgetTier manualRetry maxOutputTokens hworker hrows =>
    simp only [takenUp, Option.toList_none, List.append_nil]
    exact h.closed hrows hrows rfl (by simp)
  | enteredTerminal rows run model manualRetry maxOutputTokens now held hworker hrows =>
    simp only [takenUp, Option.toList_none, List.append_nil]
    exact h.closed hrows hrows rfl (by simp)
  | enteredHeld rows run model manualRetry maxOutputTokens now held hworker hrows =>
    simp only [takenUp, Option.toList_none, List.append_nil]
    exact h.closed hrows rfl rfl (by simp)
  | enteredLoop rows run model manualRetry maxOutputTokens now held hworker hrows =>
    have hnote : ∀ before, before ∈ (takenUp w (.enter now held) { w with
        worker := some (.looping (rebuiltLoop puzzle.fixups rows
          (applyOneOffWordFixups run puzzle).1 model manualRetry maxOutputTokens)) }).toList ↔
        manualRetry ∧ before = rows.prompts := by
      intro before
      cases manualRetry <;> simp [takenUp, rebuiltLoop, hrows, eq_comm]
    refine ⟨?_, ?_, ?_⟩
    · intro before hbefore
      rcases List.mem_append.mp hbefore with hbefore | hbefore
      · exact h.prefixes before hbefore
      · rw [((hnote before).mp hbefore).2]
        exact ⟨rows, hrows, List.prefix_rfl⟩
    · intro rows' hrows' before retry after hsplit hmanual hnone
      exact List.mem_append_left _ (h.first rows' hrows' before retry after hsplit hmanual hnone)
    · rintro rows' loop hrows' ⟨⟩ hmanual
      obtain rfl := Option.some.inj (hrows.symm.trans hrows')
      refine ⟨rows.prompts, List.mem_append_right _ ((hnote _).mpr ⟨hmanual, rfl⟩), [], ?_, ?_⟩
      · rw [List.append_nil]
      · simp
  | parked rows loop now reservation outcome run hworker hrows =>
    simp only [takenUp, Option.toList_none, List.append_nil]
    exact h.closed hrows rfl rfl (by simp)
  | flushed rows loop next batch holds now reservation outcome hworker hrows hflush =>
    simp only [takenUp, Option.toList_none, List.append_nil]
    exact h.flushed hrows hworker hflush
  | crashed =>
    simp only [takenUp, Option.toList_none, List.append_nil]
    exact ⟨h.prefixes, h.first, by simp⟩
  | flipped rows run e hworker hrows =>
    have hnote : takenUp w e { w with rows := some { rows with run := run } } = none := by
      simp [takenUp, hworker]
    rw [hnote, Option.toList_none, List.append_nil]
    exact h.closed hrows rfl rfl (by simp [hworker])

/-- Over every run the manual retries are recorded. -/
theorem retried_reaches {ok : RunWorld → RunEvent → Prop}
    {s : RunWorld × List (List SolvePrompt)}
    (h : Run.Reaches (Run.logged (step text limits puzzle strategyName runId trialNumber) takenUp)
      (fun s e => ok s.1 e) (fresh, []) s) : Retried s.1 s.2 := by
  induction h with
  | start => exact retried_fresh
  | snoc _ _ hstep ih =>
    obtain ⟨w', hw', rfl⟩ := Option.map_eq_some_iff.mp hstep
    exact retried_step ih hw'

end Steps

/-! ### The first retry -/

/-- Of calls with different numbers the audit reports the one before the first manual retry, when it
has no turns in any layout and an earlier one had been answered. -/
theorem findManualRetryHistoryLoss_isSome_iff {prompts : List SolvePrompt}
    (hnumbers : (prompts.map (·.promptNumber)).Nodup) :
    (findManualRetryHistoryLoss prompts).isSome ↔ ∃ trigger ∈ prompts,
      FirstRetry prompts (trigger.promptNumber + 1) ∧
      (∃ answered ∈ prompts, answered.promptNumber < trigger.promptNumber ∧
        answered.status = .parsed) ∧ ¬ HasTurns trigger.requestBody := by
  constructor
  · intro hsome
    obtain ⟨loss, hloss⟩ := Option.isSome_iff_exists.mp hsome
    obtain ⟨hfirst, hretry, hanswered, trigger, htrigger, hnumber, hturns⟩ :=
      findManualRetryHistoryLoss_spec hloss
    rw [← hnumber] at hretry hanswered
    exact ⟨trigger, htrigger, hretry ▸ hfirst, hanswered, hturns⟩
  · rintro ⟨trigger, htrigger, hfirst, ⟨answered, hanswered, hlt, hparsed⟩, hturns⟩
    have : Std.Total fun a b : SolvePrompt => a.promptNumber ≤ b.promptNumber :=
      ⟨fun a b => Nat.le_total _ _⟩
    have : IsTrans SolvePrompt fun a b => a.promptNumber ≤ b.promptNumber :=
      ⟨fun a b c => Nat.le_trans⟩
    unfold findManualRetryHistoryLoss
    set ordered := prompts.insertionSort fun a b => a.promptNumber ≤ b.promptNumber with hordered
    have hmem : ∀ prompt, prompt ∈ ordered ↔ prompt ∈ prompts := fun prompt =>
      List.mem_insertionSort _
    -- What is found is the first manual retry and the trigger before it.
    obtain ⟨retry, hretry⟩ : ∃ retry, ordered.find? (·.manualRetry) = some retry := by
      obtain ⟨retry, hin, hmanual, -⟩ := hfirst
      exact Option.isSome_iff_exists.mp
        (List.find?_isSome.mpr ⟨retry, (hmem retry).mpr hin, hmanual⟩)
    have hretryNumber : retry.promptNumber = trigger.promptNumber + 1 := by
      obtain ⟨hin, hmanual, hleast⟩ := find?_insertionSort _ hretry
      exact FirstRetry.unique ⟨retry, hin, hmanual, rfl, hleast⟩ hfirst
    obtain ⟨found, hfound⟩ : ∃ found,
        ordered.find? (·.promptNumber + 1 = retry.promptNumber) = some found := by
      refine Option.isSome_iff_exists.mp
        (List.find?_isSome.mpr ⟨trigger, (hmem trigger).mpr htrigger, ?_⟩)
      rw [hretryNumber, decide_eq_true_eq]
    have hsame : found = trigger := by
      obtain ⟨hin, hnumber, -⟩ := find?_insertionSort _ hfound
      rw [decide_eq_true_eq, hretryNumber] at hnumber
      exact List.inj_on_of_nodup_map hnumbers hin htrigger (Nat.succ.inj hnumber)
    have hreal : (ordered.any fun p => p.promptNumber < trigger.promptNumber &&
        p.status = .parsed) = true :=
      List.any_eq_true.mpr ⟨answered, (hmem answered).mpr hanswered, by simp [hlt, hparsed]⟩
    rw [← hasReconstructableHistory_iff] at hturns
    simp only [Option.bind_eq_bind, hretry, hfound, Option.bind_some, hsame]
    rw [if_pos ⟨hreal, hturns⟩]
    rfl

/-- The number of a call of a run counts the calls before it. -/
theorem number_of_split {prompts before after : List SolvePrompt} {call : SolvePrompt}
    (hnumbers : prompts.map (·.promptNumber) = List.range' 1 prompts.length)
    (hsplit : prompts = before ++ call :: after) : call.promptNumber = before.length + 1 := by
  have hcall := congrArg (·[before.length]?) hnumbers
  simp only [hsplit, List.getElem?_map, List.getElem?_append_right (Nat.le_refl _), Nat.sub_self,
    List.getElem?_cons_zero, Option.map_some] at hcall
  rw [List.getElem?_range' (by simp)] at hcall
  have hnumber := Option.some.inj hcall
  omega

/-- Of the calls of a run those at its start are the ones with the first numbers. -/
theorem mem_prefix_iff {prompts before : List SolvePrompt}
    (hnumbers : prompts.map (·.promptNumber) = List.range' 1 prompts.length)
    (hinitial : before <+: prompts) (prompt : SolvePrompt) :
    prompt ∈ before ↔ prompt ∈ prompts ∧ prompt.promptNumber ≤ before.length := by
  obtain ⟨rest, rfl⟩ := hinitial
  rw [List.map_append, List.length_append, ← List.range'_append_1] at hnumbers
  obtain ⟨hbefore, hrest⟩ := List.append_inj hnumbers (by simp)
  constructor
  · intro hmem
    have hin := List.mem_map_of_mem (f := (·.promptNumber)) hmem
    rw [hbefore, List.mem_range'_1] at hin
    exact ⟨List.mem_append_left _ hmem, by omega⟩
  · rintro ⟨hmem, hle⟩
    rcases List.mem_append.mp hmem with hmem | hmem
    · exact hmem
    · have hin := List.mem_map_of_mem (f := (·.promptNumber)) hmem
      rw [hrest, List.mem_range'_1] at hin
      omega

/-- Of some first calls of a run the latest one is the one with the last number, and an earlier one
had been answered just when a call with a lower number had. -/
theorem latest_of_prefix {prompts before : List SolvePrompt}
    (hnumbers : prompts.map (·.promptNumber) = List.range' 1 prompts.length)
    (hinitial : before <+: prompts) {trigger : SolvePrompt} (htrigger : trigger ∈ prompts)
    (hlast : trigger.promptNumber = before.length) :
    latestRequestBody before = trigger.requestBody ∧ (EarlierAnswered before ↔
      ∃ answered ∈ prompts, answered.promptNumber < trigger.promptNumber ∧
        answered.status = .parsed) := by
  have hmem := mem_prefix_iff hnumbers hinitial
  have hnodup : (prompts.map (·.promptNumber)).Nodup := by
    rw [hnumbers]
    exact List.nodup_range'
  have hnodup' : (before.map (·.promptNumber)).Nodup :=
    hnodup.sublist (hinitial.sublist.map _)
  have hin : trigger ∈ before := (hmem trigger).mpr ⟨htrigger, hlast.le⟩
  constructor
  · have hkeys : (before.map fun p => (p.promptNumber, p.attemptNumber)).Nodup := by
      refine List.Nodup.of_map Prod.fst ?_
      rwa [List.map_map]
    have hlatest : loadLatestPrompt before = some trigger := by
      refine (loadLatestPrompt_eq_some_iff hkeys).mpr ⟨hin, fun other hother => ?_⟩
      rcases Nat.lt_or_eq_of_le (hlast.symm ▸ ((hmem other).mp hother).2) with hlt | hsame
      · exact .inl hlt
      · rw [List.inj_on_of_nodup_map hnodup' hother hin hsame]
        exact .inr ⟨rfl, Nat.le_refl _⟩
    rw [latestRequestBody_eq hnodup', hlatest]
    rfl
  · constructor
    · rintro ⟨answered, hanswered, hparsed, later, hlater, hlt⟩
      have hle := ((hmem later).mp hlater).2
      exact ⟨answered, ((hmem answered).mp hanswered).1, by omega, hparsed⟩
    · rintro ⟨answered, hanswered, hlt, hparsed⟩
      exact ⟨answered, (hmem answered).mpr ⟨hanswered, by omega⟩, hparsed, trigger, hin, hlt⟩

section Audit

variable {text : TextOps} {limits : RunLimits} {puzzle : Puzzle} {strategyName : String}
  {runId trialNumber : ℕ} {ok : RunWorld → RunEvent → Prop}
  {w : RunWorld} {log : List (List SolvePrompt)} {rows : RunRows}

/-- The audit reports a run just when its first manual retry that stored a call lost the history,
with no turns in any layout. -/
theorem audit_reports_iff
    (hrun : Run.Reaches
      (Run.logged (step text limits puzzle strategyName runId trialNumber) takenUp)
      (fun s e => ok s.1 e) (fresh, []) (w, log))
    (hrows : w.rows = some rows) {solvePrompts : List SolvePrompt}
    (hperm : solvePrompts.Perm rows.prompts) :
    (findManualRetryHistoryLoss solvePrompts).isSome ↔ ∃ before ∈ log,
      FirstRetry rows.prompts (before.length + 1) ∧ LosesHistory before ∧
        ¬ HasTurns (latestRequestBody before) := by
  have hretried := retried_reaches hrun
  have hnumbers := promptNumbers_of_reaches (Run.Reaches.unlogged hrun) hrows
  have hnodup : (rows.prompts.map (·.promptNumber)).Nodup := by
    rw [hnumbers]
    exact List.nodup_range'
  rw [findManualRetryHistoryLoss_isSome_iff ((hperm.map _).nodup_iff.mpr hnodup)]
  simp only [FirstRetry, hperm.mem_iff]
  constructor
  · rintro ⟨trigger, htrigger, hfirst, hanswered, hturns⟩
    obtain ⟨retry, hretry, hmanual, hnumber, hleast⟩ := id hfirst
    obtain ⟨before, after, hsplit⟩ := List.append_of_mem hretry
    have hlength := number_of_split hnumbers hsplit
    have hinitial : before <+: rows.prompts := ⟨_, hsplit.symm⟩
    have hbefore : before ∈ log := by
      refine hretried.first rows hrows before retry after hsplit hmanual ?_
      intro prompt hprompt hmarked
      obtain ⟨hin, hle⟩ := (mem_prefix_iff hnumbers hinitial prompt).mp hprompt
      have hge := hleast prompt hin hmarked
      omega
    obtain ⟨hbody, hearlier⟩ := latest_of_prefix hnumbers hinitial htrigger (by omega)
    rw [← hbody] at hturns
    refine ⟨before, hbefore, ?_, ⟨hearlier.mpr hanswered, mt .of_findsTurns hturns⟩, hturns⟩
    rw [← hlength, hnumber]
    exact hfirst
  · rintro ⟨before, hbefore, hfirst, ⟨hearlier, -⟩, hturns⟩
    obtain ⟨_, hsame, hinitial⟩ := hretried.prefixes before hbefore
    obtain rfl := Option.some.inj (hrows.symm.trans hsame)
    obtain ⟨answered, hanswered, -⟩ := id hearlier
    -- The calls that the retry started from end with the trigger.
    obtain ⟨trigger, htrigger, hlast⟩ : ∃ trigger ∈ rows.prompts,
        trigger.promptNumber = before.length := by
      have hpos := List.length_pos_of_mem hanswered
      have hle := hinitial.length_le
      have hin : before.length ∈ List.range' 1 rows.prompts.length := by
        rw [List.mem_range'_1]
        omega
      rw [← hnumbers, List.mem_map] at hin
      exact hin
    obtain ⟨hbody, hiff⟩ := latest_of_prefix hnumbers hinitial htrigger hlast
    exact ⟨trigger, htrigger, hlast ▸ hfirst, hiff.mp hearlier, hbody ▸ hturns⟩

/-- The audit agrees with the runner on a run just when no manual retry lost the history, or the
first one that stored a call did, with no turns in any layout. -/
theorem audit_agrees_iff
    (hrun : Run.Reaches
      (Run.logged (step text limits puzzle strategyName runId trialNumber) takenUp)
      (fun s e => ok s.1 e) (fresh, []) (w, log))
    (hrows : w.rows = some rows) {solvePrompts : List SolvePrompt}
    (hperm : solvePrompts.Perm rows.prompts) :
    ((findManualRetryHistoryLoss solvePrompts).isSome ↔ ∃ before ∈ log, LosesHistory before) ↔
      ((∃ before ∈ log, LosesHistory before) → ∃ before ∈ log,
        FirstRetry rows.prompts (before.length + 1) ∧ LosesHistory before ∧
          ¬ HasTurns (latestRequestBody before)) := by
  rw [audit_reports_iff hrun hrows hperm]
  refine ⟨fun h => h.mpr, fun h => ⟨?_, h⟩⟩
  rintro ⟨before, hbefore, -, hlost, -⟩
  exact ⟨before, hbefore, hlost⟩

end Audit

/-- A manual retry behind one lost call is reported. -/
theorem audit_agrees_on_one_retry :
    ∃ (log : List (List SolvePrompt)) (rows : RunRows), log.length = 1 ∧ rows.prompts.length = 3 ∧
      (((findManualRetryHistoryLoss rows.prompts).isSome ↔ ∃ before ∈ log, LosesHistory before) ↔
        ((∃ before ∈ log, LosesHistory before) → ∃ before ∈ log,
          FirstRetry rows.prompts (before.length + 1) ∧ LosesHistory before ∧
            ¬ HasTurns (latestRequestBody before))) := by
  obtain ⟨⟨w, log⟩, hrun, hstate⟩ := Run.exists_reaches
    (Run.logged (step asciiText (errorAfter 1) insectsAndTrees "llm-google" 1 1) takenUp)
    (fun s e => Run.always s.1 e) (fresh, []) (losesCalls 1)
    (fun s => s.1.rows.any (fun rows => rows.prompts.length = 3) && decide (s.2.length = 1))
    (by decide)
  rw [Bool.and_eq_true] at hstate
  obtain ⟨rows, hrows, hthree⟩ := (Option.any_eq_true _ _).mp hstate.1
  exact ⟨log, rows, of_decide_eq_true hstate.2, of_decide_eq_true hthree,
    audit_agrees_iff hrun hrows (List.Perm.refl _)⟩

/-- A failed call that came back with the request it was sent. -/
def keptCall : SolveStepOutcome :=
  .error { error := "overloaded", code := .modelError
           requestBody := some (encodeTurns .messages [⟨.user, "Group the items."⟩])
           statusCode := some 503, errorName := none, isRetryable := none
           retryAfterSeconds := none, dailyResetSeconds := none, usage := none }

/-- A run that is retried by hand twice, and loses the request of its last call in between. -/
def retriedTwice : List RunEvent :=
  [.load 0 (some "gemini-3-flash") none none false none, .enter 0 false,
    .iterate 1 none (answeredCall ["ANT", "BEE", "FLY", "GNAT"]), .iterate 2 none keptCall, .retry,
    .load 3 (some "gemini-3-flash") none none true none, .enter 3 false, .iterate 4 none lostCall,
    .retry, .load 5 (some "gemini-3-flash") none none true none, .enter 5 false,
    .iterate 6 none (answeredCall ["ASH", "ELM", "FIR", "OAK"])]

/-- The second of two manual retries loses the history, and the audit reports nothing. -/
theorem second_retry_is_missed :
    ∃ (w : RunWorld) (log : List (List SolvePrompt)) (rows : RunRows),
      Run.Reaches
        (Run.logged (step asciiText (errorAfter 1) insectsAndTrees "llm-google" 1 1) takenUp)
        (fun s e => Run.always s.1 e) (fresh, []) (w, log) ∧ w.rows = some rows ∧
      (∃ before ∈ log, LosesHistory before) ∧
        (findManualRetryHistoryLoss rows.prompts).isSome = false := by
  obtain ⟨⟨w, log⟩, hrun, hstate⟩ := Run.exists_reaches
    (Run.logged (step asciiText (errorAfter 1) insectsAndTrees "llm-google" 1 1) takenUp)
    (fun s e => Run.always s.1 e) (fresh, []) retriedTwice
    (fun s => s.1.rows.any (fun rows => (findManualRetryHistoryLoss rows.prompts).isSome = false) &&
      s.2.any fun before => LosesHistory before) (by decide)
  rw [Bool.and_eq_true] at hstate
  obtain ⟨rows, hrows, hsilent⟩ := (Option.any_eq_true _ _).mp hstate.1
  obtain ⟨before, hbefore, hlost⟩ := List.any_eq_true.mp hstate.2
  exact ⟨w, log, rows, hrun, hrows, ⟨before, hbefore, of_decide_eq_true hlost⟩,
    of_decide_eq_true hsilent⟩

end RunWorld

end Connections
