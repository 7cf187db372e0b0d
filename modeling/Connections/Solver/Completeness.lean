import Connections.Solver.Search
import Connections.Strategy.BoardInvariant
import Mathlib.Algebra.BigOperators.Intervals

/-!
# The enumeration finds every group

On a board of distinct words every unsolved group is still one of the combinations of the words
left, so the cursor meets one before it runs out.  A success clears the group and starts the cursor
again on a board that is four words smaller; the guesses add up to at most the combinations of the
boards on the way.
-/

namespace Connections

open Checkpoint Combinations

variable {text : TextOps} {puzzle : Puzzle} {board : List String}

namespace Board

/-- The words left are distinct. -/
theorem available_nodup (hb : Board text puzzle board) {availableWords : List String}
    {guesses : List Guess} (h : Cleared board puzzle.groupWords availableWords guesses) :
    availableWords.Nodup := by
  obtain ⟨cleared, -, -, -, rfl⟩ := h
  exact (hb.perm_flatten.nodup_iff.mpr hb.flatten_nodup).filter _

/-- While words are left, one of their combinations succeeds. -/
theorem exists_success (hb : Board text puzzle board) {availableWords : List String}
    {guesses : List Guess} (h : Cleared board puzzle.groupWords availableWords guesses)
    (hleft : availableWords ≠ []) :
    ∃ words ∈ combinations groupSize availableWords,
      evaluateGuessOnPuzzle text puzzle words = .success := by
  have hnodup := hb.available_nodup h
  obtain ⟨cleared, hcleared, hsub, -, rfl⟩ := h
  obtain ⟨rest, hrest, hremaining⟩ :=
    Partition.remaining_perm hb.perm_flatten hb.flatten_nodup hcleared hsub
  obtain ⟨group, hgroup⟩ : ∃ group, group ∈ rest := by
    apply List.exists_mem_of_ne_nil
    rintro rfl
    exact hleft (List.perm_nil.mp hremaining)
  have hmem : group ∈ puzzle.groupWords := hrest.mem_iff.mpr (List.mem_append_right _ hgroup)
  have hfour := hb.four group hmem
  have havailable : ∀ w ∈ group, w ∈ Partition.remaining board cleared := fun w hw =>
    hremaining.mem_iff.mpr (List.mem_flatten.mpr ⟨group, hgroup, hw⟩)
  have hgroupnodup : group.Nodup := (List.nodup_flatten.mp hb.flatten_nodup).1 group hmem
  -- The group's words in the order of the board.
  let words := (Partition.remaining board cleared).filter (· ∈ group)
  have hperm : words.Perm group := by
    refine (List.perm_ext_iff_of_nodup (hnodup.filter _) hgroupnodup).mpr fun w => ?_
    rw [List.mem_filter, decide_eq_true_eq]
    exact ⟨And.right, fun hw => ⟨havailable w hw, hw⟩⟩
  refine ⟨words, mem_combinations.mpr ⟨List.filter_sublist, hperm.length_eq.trans hfour⟩, ?_⟩
  obtain ⟨answer, hanswer, rfl⟩ := List.mem_map.mp hmem
  exact evaluateGuessOnPuzzle_of_covers text hanswer hfour fun w hw => hperm.mem_iff.mpr hw

end Board

/-! ### From one success to the next -/

theorem mapM_id_map_some (words : List String) : (words.map some).mapM id = some words := by
  induction words with
  | nil => rfl
  | cons w rest ih => simp [ih]

variable (text puzzle) in
/-- A search at a position of its enumeration guesses the words there. -/
theorem next_at {s : Search} {p : ℕ} {words : List String} (hrunning : s.status = .running)
    (hcursor : (combinations groupSize (List.range s.availableWords.length))[p]? =
      some s.currentCombination)
    (hwords : (combinations groupSize s.availableWords)[p]? = some words) :
    s.next text puzzle = some (s.guess text puzzle words,
      s.after words (evaluateGuessOnPuzzle text puzzle words)) := by
  obtain ⟨found, hfound, hsome⟩ := combinationToWords_getElem? hcursor
  obtain rfl : found = words := Option.some.inj (hfound.symm.trans hwords)
  rw [Search.next, if_pos hrunning, hsome, mapM_id_map_some]
  rfl

/-- The same search at another position of its enumeration, some guesses later. -/
structure Search.At (s s' : Search) (p : ℕ) : Prop where
  runId : s'.runId = s.runId
  availableWords : s'.availableWords = s.availableWords
  status : s'.status = .running
  cursor : (combinations groupSize (List.range s.availableWords.length))[p]? =
    some s'.currentCombination

variable (text puzzle) in
/-- Up to the first success the cursor only moves on. -/
theorem walk {s : Search} (hrunning : s.status = .running)
    (hfirst : s.currentCombination = firstCombination groupSize) {p : ℕ}
    (hp : p < (combinations groupSize s.availableWords).length)
    (hmiss : ∀ q < p, ∀ words, (combinations groupSize s.availableWords)[q]? = some words →
      evaluateGuessOnPuzzle text puzzle words ≠ .success) :
    ∃ missed s', Emits (Search.next text puzzle) s missed s' ∧ missed.length = p ∧
      (∀ guess ∈ missed, guess.result ≠ .success) ∧ s.At s' p := by
  rw [length_combinations] at hp
  induction p with
  | zero =>
    refine ⟨[], s, .nil s, rfl, nofun, rfl, rfl, hrunning, ?_⟩
    have hroom : groupSize ≤ (List.range s.availableWords.length).length := by
      rw [List.length_range]
      by_contra hsmall
      rw [Nat.choose_eq_zero_of_lt (Nat.lt_of_not_le hsmall)] at hp
      exact Nat.not_lt_zero _ hp
    rw [getElem?_zero_combinations hroom, hfirst, firstCombination, List.take_range,
      Nat.min_eq_left (by simpa using hroom)]
  | succ p ih =>
    obtain ⟨missed, s', hemits, hlength, hmissed, hat⟩ :=
      ih (Nat.lt_of_succ_lt hp) fun q hq => hmiss q (Nat.lt_succ_of_lt hq)
    obtain ⟨words, hwords⟩ : ∃ words,
        (combinations groupSize s.availableWords)[p]? = some words := by
      refine ⟨_, List.getElem?_eq_getElem ?_⟩
      rw [length_combinations]
      exact Nat.lt_of_succ_lt hp
    have hresult := hmiss p (Nat.lt_succ_self p) words hwords
    have hwords' : (combinations groupSize s'.availableWords)[p]? = some words := by
      rw [hat.availableWords, hwords]
    have hcursor := hat.cursor
    rw [← hat.availableWords] at hcursor
    have hnext := next_at text puzzle hat.status hcursor hwords'
    refine ⟨missed ++ [s'.guess text puzzle words], _, hemits.snoc hnext, by simp [hlength], ?_, ?_⟩
    · intro guess hguess
      rcases List.mem_append.mp hguess with hguess | hguess
      · exact hmissed guess hguess
      · rw [List.mem_singleton.mp hguess]
        exact hresult
    · -- There is a next position, so the search does not end here.
      obtain ⟨cursor, hnextCursor⟩ : ∃ cursor,
          (combinations groupSize (List.range s.availableWords.length))[p + 1]? =
            some cursor := by
        refine ⟨_, List.getElem?_eq_getElem ?_⟩
        rw [length_combinations, List.length_range]
        exact hp
      have hmove :
          nextCombination s'.currentCombination s'.availableWords.length = some cursor := by
        rw [nextCombination_getElem? hcursor, hat.availableWords, hnextCursor]
      simp only [Search.after, hresult, ↓reduceIte, hmove]
      exact ⟨hat.runId, hat.availableWords, hat.status, hnextCursor⟩

/-- Guesses that did not succeed clear nothing. -/
theorem Cleared.append_all_missed {groups : List (List String)} {availableWords : List String}
    {guesses missed : List Guess} (h : Cleared board groups availableWords guesses)
    (hmissed : ∀ guess ∈ missed, guess.result ≠ .success) :
    Cleared board groups availableWords (guesses ++ missed) := by
  have hsame : solvedGuesses (guesses ++ missed) = solvedGuesses guesses := by
    have hnone : missed.filter (·.result = .success) = [] := by
      rw [List.filter_eq_nil_iff]
      intro guess hguess
      simpa using hmissed guess hguess
    rw [solvedGuesses, List.filter_append, hnone, List.append_nil, solvedGuesses]
  unfold Cleared
  rw [hsame]
  exact h

theorem length_filter_not_mem {words availableWords : List String} (hnodup : availableWords.Nodup)
    (hsub : words.Sublist availableWords) :
    (availableWords.filter (· ∉ words)).length + words.length = availableWords.length := by
  have hperm : (availableWords.filter (· ∈ words)).Perm words := by
    refine (List.perm_ext_iff_of_nodup (hnodup.filter _) (hnodup.sublist hsub)).mpr fun w => ?_
    rw [List.mem_filter, decide_eq_true_eq]
    exact ⟨And.right, fun hw => ⟨hsub.subset hw, hw⟩⟩
  have hsplit := List.length_eq_length_filter_add (l := availableWords) fun w => decide (w ∈ words)
  rw [hperm.length_eq] at hsplit
  simp only [← decide_not] at hsplit
  omega

/-- From a fresh cursor the search finds the next group within the combinations of the board, and
starts again on what is left. -/
theorem next_success (hb : Board text puzzle board) {s : Search} {guesses : List Guess}
    (hrunning : s.status = .running) (hfirst : s.currentCombination = firstCombination groupSize)
    (hcleared : Cleared board puzzle.groupWords s.availableWords guesses)
    (hleft : s.availableWords ≠ []) :
    ∃ emitted s', Emits (Search.next text puzzle) s emitted s' ∧
      emitted.length ≤ s.availableWords.length.choose 4 ∧
      Cleared board puzzle.groupWords s'.availableWords (guesses ++ emitted) ∧
      s'.availableWords.length + 4 = s.availableWords.length ∧
      s'.currentCombination = firstCombination groupSize ∧
      s'.status = if s'.availableWords = [] then .completed else .running := by
  -- The first position of the enumeration whose words succeed.
  obtain ⟨p, ⟨words, hwords, hsuccess⟩, hmin⟩ : ∃ p,
      (∃ words, (combinations groupSize s.availableWords)[p]? = some words ∧
        evaluateGuessOnPuzzle text puzzle words = .success) ∧
      ∀ q < p, ∀ words, (combinations groupSize s.availableWords)[q]? = some words →
        evaluateGuessOnPuzzle text puzzle words ≠ .success := by
    obtain ⟨words, hwords, hsuccess⟩ := hb.exists_success hcleared hleft
    obtain ⟨p, hp⟩ := List.mem_iff_getElem?.mp hwords
    have hexists : ∃ p, ∃ words, (combinations groupSize s.availableWords)[p]? = some words ∧
        evaluateGuessOnPuzzle text puzzle words = .success := ⟨p, words, hp, hsuccess⟩
    classical
    exact ⟨Nat.find hexists, Nat.find_spec hexists, fun q hq words hq' hwin =>
      Nat.find_min hexists hq ⟨words, hq', hwin⟩⟩
  have hlt := (List.getElem?_eq_some_iff.mp hwords).1
  obtain ⟨missed, s', hemits, hlength, hmissed, hat⟩ :=
    walk text puzzle hrunning hfirst hlt hmin
  have hcursor := hat.cursor
  rw [← hat.availableWords] at hcursor hwords
  have hnext := next_at text puzzle hat.status hcursor hwords
  obtain ⟨hsub, hfour⟩ := mem_combinations.mp (List.mem_of_getElem? hwords)
  rw [← hat.availableWords] at hcleared hlt
  have hcleared' : Cleared board puzzle.groupWords (s'.availableWords.filter (· ∉ words))
      (guesses ++ missed ++ [s'.guess text puzzle words]) :=
    hb.cleared_success (hcleared.append_all_missed hmissed) hfour (fun w hw => hsub.subset hw)
      hsuccess rfl hsuccess
  have hcount := length_filter_not_mem (hb.available_nodup hcleared) hsub
  rw [length_combinations] at hlt
  refine ⟨missed ++ [s'.guess text puzzle words], _, hemits.snoc hnext, ?_, ?_, ?_, ?_, ?_⟩
  · rw [List.length_append, List.length_singleton, hlength, ← hat.availableWords]
    exact hlt
  · rw [← List.append_assoc]
    simpa only [Search.after, hsuccess, ↓reduceIte] using hcleared'
  · simp only [Search.after, hsuccess, ↓reduceIte]
    rw [← hat.availableWords, ← hcount, hfour]
    rfl
  · simp only [Search.after, hsuccess, ↓reduceIte]
  · simp only [Search.after, hsuccess, ↓reduceIte, hat.status, List.length_eq_zero_iff]

/-- The search solves the whole board. -/
theorem solves (hb : Board text puzzle board) {n : ℕ} {s : Search} {guesses : List Guess}
    (hstatus : s.status = if s.availableWords = [] then .completed else .running)
    (hfirst : s.currentCombination = firstCombination groupSize)
    (hcleared : Cleared board puzzle.groupWords s.availableWords guesses)
    (hlength : s.availableWords.length = 4 * n) :
    ∃ emitted final, Emits (Search.next text puzzle) s emitted final ∧
      emitted.length ≤ ∑ i ∈ Finset.Icc 1 n, (4 * i).choose 4 ∧
      final.status = .completed ∧ Cleared board puzzle.groupWords [] (guesses ++ emitted) := by
  induction n generalizing s guesses with
  | zero =>
    have hnone : s.availableWords = [] := List.length_eq_zero_iff.mp hlength
    rw [hnone] at hstatus hcleared
    exact ⟨[], s, .nil s, Nat.zero_le _, hstatus, by rwa [List.append_nil]⟩
  | succ n ih =>
    have hleft : s.availableWords ≠ [] := by
      intro hnone
      simp [hnone] at hlength
    rw [if_neg hleft] at hstatus
    obtain ⟨emitted, s', hemits, hbound, hcleared', hlength', hfirst', hstatus'⟩ :=
      next_success hb hstatus hfirst hcleared hleft
    obtain ⟨more, final, hmore, hbound', hcompleted, hall⟩ :=
      ih hstatus' hfirst' hcleared' (by omega)
    refine ⟨emitted ++ more, final, hemits.append hmore, ?_, hcompleted, ?_⟩
    · rw [List.length_append, Finset.sum_Icc_succ_top (by omega)]
      rw [hlength] at hbound
      omega
    · rw [← List.append_assoc]
      exact hall

/-- Once no word is left, the successful guesses are the groups, each once. -/
theorem solved_groups (hb : Board text puzzle board) {guesses : List Guess}
    (h : Cleared board puzzle.groupWords [] guesses) :
    ∃ order : List (List String), order.Perm puzzle.groupWords ∧
      List.Forall₂ (fun guess group => guess.words.Perm group) (solvedGuesses guesses) order := by
  obtain ⟨cleared, hnodup, hsub, hperm, hnone⟩ := h
  obtain ⟨rest, hrest, hremaining⟩ :=
    Partition.remaining_perm hb.perm_flatten hb.flatten_nodup hnodup hsub
  have hempty : rest = [] := by
    rw [← hnone] at hremaining
    rw [List.eq_nil_iff_forall_not_mem]
    intro group hgroup
    have hfour := hb.four group (hrest.mem_iff.mpr (List.mem_append_right _ hgroup))
    obtain ⟨w, hw⟩ := List.exists_mem_of_length_pos (l := group) (by omega)
    have hin := hremaining.mem_iff.mpr (List.mem_flatten.mpr ⟨group, hgroup, hw⟩)
    cases hin
  rw [hempty, List.append_nil] at hrest
  exact ⟨cleared, hrest.symm, hperm⟩

namespace SolverWorld

/-- A run that has not guessed yet, with its words in any order. -/
structure Unstarted (run : StrategyRun) : Prop where
  status : run.status = .running
  currentCombination : run.currentCombination = firstCombination groupSize
  modelName : run.modelName = none

/-- What a job has in hand when it starts a run. -/
def begun (run : StrategyRun) : SolverWorld := ⟨some ⟨run, []⟩, some (.loaded run)⟩

open RunWorld (insectsAndTrees blankBoard)

variable {strategyName : String} {runId trialNumber : ℕ}

theorem unstarted_createdRun (now : ℕ) :
    Unstarted (RunWorld.createdRun text puzzle strategyName runId trialNumber now none none none) :=
  ⟨rfl, rfl, rfl⟩

theorem attached_begun {run : StrategyRun} (hrun : Unstarted run) : Attached (begun run) where
  model := by
    rintro _ ⟨⟩
    exact hrun.modelName
  stored := by
    rintro _ ⟨⟩
    exact .inl hrun.status
  loaded := by
    rintro _ ⟨⟩
    exact ⟨_, rfl, rfl⟩
  looping := by simp [begun]

/-- The enumeration is complete: on a board of at least one group, with the words in any order, the
run ends completed after a number of guesses that the combinations of the boards on the way bound,
each group succeeds exactly once, and whatever cuts the worker short, the run never fails. -/
theorem enumeration_solves_puzzle (henum : strategyName ∈ enumeratingStrategies)
    (hgroups : puzzle.answerGroups ≠ []) {run : StrategyRun}
    (hb : Board text puzzle run.availableWords) (hrun : Unstarted run) :
    (∃ n ≤ ∑ i ∈ Finset.Icc 1 puzzle.answerGroups.length, (4 * i).choose 4,
      ∀ times : List ℕ, times.length = n → ∃ rows,
        Run.exec (step text puzzle strategyName runId trialNumber) Run.always (begun run)
            (.enter :: times.map (.guess · none)) = some ⟨some rows, none⟩ ∧
          rows.run.status = .completed ∧ rows.guesses.length = n ∧
          ∃ order : List (List String), order.Perm puzzle.groupWords ∧
            List.Forall₂ (fun guess group => guess.words.Perm group)
              (solvedGuesses rows.guesses) order) ∧
      ∀ w, Run.Reaches (step text puzzle strategyName runId trialNumber) Run.always (begun run) w →
        w.status ≠ some .failed := by
  have hlength : run.availableWords.length = 4 * puzzle.answerGroups.length := by
    rw [hb.perm_flatten.length_eq, Partition.length_flatten_of_uniform hb.four, Puzzle.groupWords,
      List.length_map]
  have hleft : run.availableWords ≠ [] := by
    intro hnone
    have hpos := List.length_pos_of_ne_nil hgroups
    rw [hnone, List.length_nil] at hlength
    omega
  have hrunning : run.status ∉ terminalStatuses := by
    rw [hrun.status]
    decide
  obtain ⟨emitted, final, hemits, hbound, hcompleted, hcleared⟩ :=
    solves hb (s := run.search 0) (hrun.status.trans (if_neg hleft).symm)
      hrun.currentCombination (Cleared.start run.availableWords puzzle.groupWords) hlength
  have hend : final.status ≠ .running := by simp [hcompleted]
  refine ⟨⟨emitted.length, hbound, fun times htimes => ?_⟩, fun w hreach hfailed => ?_⟩
  · obtain ⟨rows, hexec, hguesses, hstatus⟩ :=
      follow henum hend (w := ⟨some ⟨run, []⟩, some (.looping ⟨run, 0, [], []⟩)⟩) rfl rfl
        hrun.status hemits htimes
    have henter : step text puzzle strategyName runId trialNumber (begun run) .enter =
        some ⟨some ⟨run, []⟩, some (.looping ⟨run, 0, [], []⟩)⟩ := by
      simp [step, begun, hrunning, enteredLoop]
    simp only [List.nil_append] at hguesses hcleared
    refine ⟨rows, ?_, hstatus.trans hcompleted, by rw [hguesses], ?_⟩
    · simp only [Run.exec, Run.always, ↓reduceIte, henter, Option.bind_some]
      exact hexec
    · rw [hguesses]
      exact solved_groups hb hcleared
  · -- A run that failed would have ended elsewhere than the search does.
    obtain ⟨rows, hrows, hstatus⟩ := Option.map_eq_some_iff.mp hfailed
    have hother := emits_of_reaches henum (attached_begun hrun) rfl hreach hrows
    have hstop : (rows.run.search rows.guesses.length).next text puzzle = none :=
      if_neg (by simp [StrategyRun.search, hstatus])
    have hsame := (hemits.unique_of_ended (if_neg hend) hother hstop).2
    have hfinal : rows.run.status = final.status := congrArg Search.status hsame
    rw [hstatus, hcompleted] at hfinal
    cases hfinal

/-- A run over two groups. -/
theorem insects_and_trees_solved :
    ∃ n ≤ 71, ∀ times : List ℕ, times.length = n → ∃ rows,
      Run.exec (step asciiText insectsAndTrees "reverse-order" 1 0) Run.always
          (begun (RunWorld.createdRun asciiText insectsAndTrees "reverse-order" 1 0 0
            none none none)) (.enter :: times.map (.guess · none)) = some ⟨some rows, none⟩ ∧
        rows.run.status = .completed := by
  let run := RunWorld.createdRun asciiText insectsAndTrees "reverse-order" 1 0 0 none none none
  have hb : Board asciiText insectsAndTrees run.availableWords :=
    ⟨computeInitialWordOrder_perm asciiText insectsAndTrees "reverse-order", by decide, by decide⟩
  have henum : "reverse-order" ∈ enumeratingStrategies := by decide
  have hgroups : insectsAndTrees.answerGroups ≠ [] := by decide
  obtain ⟨⟨n, hn, hends⟩, -⟩ :=
    enumeration_solves_puzzle henum hgroups hb (unstarted_createdRun 0)
  refine ⟨n, hn.trans (by decide), fun times htimes => ?_⟩
  obtain ⟨rows, hexec, hcompleted, -⟩ := hends times htimes
  exact ⟨rows, hexec, hcompleted⟩

/-- Without groups there is no word to guess, and no run ever completes. -/
theorem blank_board_never_completes :
    (∀ group ∈ blankBoard.groupWords, group.length = 4) ∧
      (blankBoard.boardWords.map (normalizeForComparison asciiText)).Nodup ∧
      ∀ w, Run.Reaches (step asciiText blankBoard "order" 1 0) Run.always fresh w →
        w.status ≠ some .completed := by
  refine ⟨by decide, by decide, fun w hreach hcompleted => ?_⟩
  obtain ⟨rows, hrows, hstatus⟩ := Option.map_eq_some_iff.mp hcompleted
  have hemits := emits_of_reaches (by decide) attached_fresh rfl hreach hrows
  have hstuck : (firstSearch asciiText blankBoard "order" 1).next asciiText blankBoard = none := by
    decide
  have hsame := (Emits.nil _).unique_of_ended hstuck hemits
    (if_neg (by simp [StrategyRun.search, hstatus]))
  have hrunning : rows.run.status = .running := congrArg Search.status hsame.2
  rw [hstatus] at hrunning
  cases hrunning

end SolverWorld

end Connections
