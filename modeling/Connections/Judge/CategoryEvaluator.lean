import Connections.Library.TextScan
import Connections.Strategy.Duplicates
import Mathlib.Algebra.Order.BigOperators.Group.List

/-!
# The category judge

The judge looks up the answer group of a successful guess in the puzzle as it is stored, while the
runner judged the guess against the puzzle with its one-off word fixups.
-/

namespace Connections

/-- The host's upper-casing, which leaves digits and commas alone. -/
structure UpperCase where
  toUpperCase : String → String
  digits : ∀ s : String, (∀ c ∈ s.toList, c.isDigit = true ∨ c = ',') → toUpperCase s = s

/-- Upper-casing of the ASCII letters, which is what the host does on texts made of them. -/
def asciiUpperCase : UpperCase where
  toUpperCase s := String.ofList (s.toList.map Char.toUpper)
  digits s h := by
    have hsame : s.toList.map Char.toUpper = s.toList := by
      conv_rhs => rw [← List.map_id s.toList]
      refine List.map_congr_left fun c hc => ?_
      rcases h c hc with hdigit | rfl
      · simp only [Char.isDigit, Bool.and_eq_true, decide_eq_true_eq] at hdigit
        unfold Char.toUpper
        rw [dif_neg]
        · rfl
        · rintro ⟨hlow, -⟩
          exact absurd (UInt32.le_trans hlow hdigit.2) (by decide)
      · decide
    rw [hsame, String.ofList_toList]

section Judge

variable (upper : UpperCase)

/-- The words of a group or a guess, in one text; any order of texts would do for the sort. -/
def wordSetKey (words : List String) : String :=
  "|".intercalate ((words.map fun w => upper.toUpperCase (trim w)).insertionSort (· ≤ ·))

/-- The first answer group whose words are the guessed ones. -/
def matchAnswerGroup (guessWords : List String) (puzzle : Puzzle) : Option AnswerGroup :=
  puzzle.answerGroups.find? fun group =>
    wordSetKey upper group.words = wordSetKey upper guessWords

/-- What the judge does with a proposal before it calls the model. -/
inductive JudgeDecision
  | skipped (reason : String)
  | judge (proposedCategory : String) (group : AnswerGroup)

/-- Judge the category of a proposal, loaded with its guess and the puzzle of that. -/
def evaluateProposal (existing force : Bool) (proposal : Option (LlmProposal × Option Guess))
    (puzzle : Option Puzzle) : JudgeDecision :=
  if existing && !force then .skipped "already evaluated"
  else
    match proposal with
    | some (proposal, some guess) =>
      if proposal.status ≠ .used ∨ guess.result ≠ .success then
        .skipped "not a successful used guess"
      else
        match puzzle.bind (matchAnswerGroup upper guess.words) with
        | some group => .judge proposal.category group
        | none => .skipped "no matching answer group"
    | _ => .skipped "not a successful used guess"

/-- A used proposal whose guess succeeded is judged exactly against the group that the judge looks
up, and is skipped for want of one otherwise. -/
theorem evaluateProposal_used (force : Bool) {proposal : LlmProposal} {guess : Guess}
    (hused : proposal.status = .used) (hsuccess : guess.result = .success) (puzzle : Puzzle) :
    evaluateProposal upper false force (some (proposal, some guess)) (some puzzle) =
      match matchAnswerGroup upper guess.words puzzle with
      | some group => .judge proposal.category group
      | none => .skipped "no matching answer group" := by
  simp [evaluateProposal, hused, hsuccess]

end Judge

/-! ### The group that the runner accepts -/

/-- The words of a group as a run sees them. -/
def AnswerGroup.fixups (group : AnswerGroup) : AnswerGroup :=
  { members := group.members.map fun m => { m with word := normalizePuzzleWord m.word } }

@[simp] theorem AnswerGroup.words_fixups (group : AnswerGroup) :
    group.fixups.words = group.words.map normalizePuzzleWord := by
  simp [fixups, words]

section Accept

variable (text : TextOps)

/-- A full hit of a guess: the group has four words, and all of them are guessed. -/
def AnswerGroup.hit (words : List String) (group : AnswerGroup) : Bool :=
  let groupWords := group.words.map (normalizeForComparison text)
  (groupWords.filter (· ∈ words.map (normalizeForComparison text))).length = 4 ∧
    groupWords.length = 4

/-- The stored answer group that a guess is accepted for, by its words after the fixups. -/
def acceptedGroup (puzzle : Puzzle) (words : List String) : Option AnswerGroup :=
  puzzle.answerGroups.find? fun group => group.fixups.hit text words

/-- A guess succeeds exactly when some group accepts it. -/
theorem evaluateGuessOnPuzzle_success_iff (puzzle : Puzzle) (words : List String) :
    evaluateGuessOnPuzzle text puzzle.fixups words = .success ↔
      (acceptedGroup text puzzle words).isSome = true := by
  have search : ∀ (groups : List AnswerGroup) (seen : Bool),
      evaluateGroups text (words.map (normalizeForComparison text)) seen
          (groups.map AnswerGroup.fixups) = .success ↔
        (groups.find? fun group => group.fixups.hit text words).isSome = true := by
    intro groups
    induction groups with
    | nil => intro seen; cases seen <;> simp [evaluateGroups]
    | cons group groups ih =>
      intro seen
      rw [List.map_cons, evaluateGroups, List.find?_cons]
      by_cases hhit : group.fixups.hit text words = true
      · have hfull := hhit
        simp only [AnswerGroup.hit, decide_eq_true_eq] at hfull
        simp only [hfull, and_self, ↓reduceIte, hhit, Option.isSome_some]
      · have hmissed := hhit
        simp only [AnswerGroup.hit, decide_eq_true_eq] at hmissed
        simp only [hmissed, ↓reduceIte, hhit]
        exact ih _
  exact search puzzle.answerGroups false

theorem AnswerGroup.hit_covers {words : List String} {group : AnswerGroup}
    (h : group.hit text words = true) : group.words.length = 4 ∧
      ∀ w ∈ group.words,
        normalizeForComparison text w ∈ words.map (normalizeForComparison text) := by
  simp only [AnswerGroup.hit, decide_eq_true_eq] at h
  obtain ⟨hhits, hlength⟩ := h
  refine ⟨by rwa [List.length_map] at hlength, fun w hw => ?_⟩
  have hall := List.length_filter_eq_length_iff.mp (hhits.trans hlength.symm)
  simpa using hall _ (List.mem_map_of_mem hw)

end Accept

/-! ### Keys -/

section Key

variable (upper : UpperCase)

/-- The key does not depend on the order of the words. -/
theorem wordSetKey_perm {words other : List String} (h : words.Perm other) :
    wordSetKey upper words = wordSetKey upper other := by
  have hperm := h.map fun w => upper.toUpperCase (trim w)
  rw [wordSetKey, wordSetKey, insertionSort_eq_of_perm hperm]

/-- The length of a key is that of its words and of the bars between them. -/
theorem length_wordSetKey (words : List String) :
    (wordSetKey upper words).toList.length =
      (words.map fun w => (upper.toUpperCase (trim w)).toList.length).sum +
        (words.length - 1) := by
  have hperm := List.perm_insertionSort (· ≤ ·) (words.map fun w => upper.toUpperCase (trim w))
  have hsum := (hperm.map fun s => s.toList.length).sum_eq
  rw [List.map_map] at hsum
  rw [wordSetKey, String.toList_intercalate, TextScan.length_intercalate, List.map_map]
  simp only [List.length_map, hperm.length_eq, Function.comp_def] at hsum ⊢
  rw [hsum]
  simp

/-- The fixups change the key of a group that holds the word they rewrite. -/
theorem wordSetKey_fixups_ne {words : List String} (h : "20,000" ∈ words) :
    wordSetKey upper (words.map normalizePuzzleWord) ≠ wordSetKey upper words := by
  let size (w : String) : ℕ := (upper.toUpperCase (trim w)).toList.length
  have hcomma : size "20,000" = 6 := by
    simp only [size]
    rw [show trim "20,000" = "20,000" by decide, upper.digits _ (by simp [Char.isDigit])]
    decide
  have hplain : size "20000" = 5 := by
    simp only [size]
    rw [show trim "20000" = "20000" by decide, upper.digits _ (by simp [Char.isDigit])]
    decide
  have hle : ∀ w ∈ words, size (normalizePuzzleWord w) ≤ size w := by
    intro w _
    unfold normalizePuzzleWord
    split
    · rename_i hw
      rw [hw, hcomma, hplain]
      decide
    · exact Nat.le_refl _
  have hlt : size (normalizePuzzleWord "20,000") < size "20,000" := by
    rw [show normalizePuzzleWord "20,000" = "20000" from rfl, hcomma, hplain]
    decide
  have hsum := List.sum_lt_sum (l := words) (fun w => size (normalizePuzzleWord w)) size hle
    ⟨_, h, hlt⟩
  intro hsame
  have hlength := congrArg (fun key => key.toList.length) hsame
  simp only [length_wordSetKey, List.length_map, List.map_map, Function.comp_def] at hlength
  simp only [size] at hsum
  omega

end Key

namespace RunWorld

section Runs

variable {text : TextOps} {limits : RunLimits} {puzzle : Puzzle} {strategyName : String}
  {runId trialNumber : ℕ}

theorem exists_of_forall₂ {α β : Type} {R : α → β → Prop} {as : List α} {bs : List β}
    (h : List.Forall₂ R as bs) {a : α} (ha : a ∈ as) : ∃ b ∈ bs, R a b := by
  induction h with
  | nil => cases ha
  | cons hfirst _ ih =>
    rcases List.mem_cons.mp ha with rfl | ha
    · exact ⟨_, List.mem_cons_self, hfirst⟩
    · obtain ⟨b, hb, hrest⟩ := ih ha
      exact ⟨b, List.mem_cons_of_mem _ hb, hrest⟩

/-- On a board whose words differ in the comparison of guesses, a stored successful guess is a
rearrangement of the fixed-up words of the group it was accepted for. -/
theorem success_perm_accepted {w : RunWorld} {rows : RunRows} {guess : Guess}
    {group : AnswerGroup} (hfour : ∀ group ∈ puzzle.answerGroups, group.members.length = 4)
    (hdistinct : (puzzle.fixups.boardWords.map (normalizeForComparison text)).Nodup)
    (hrun : Run.Reaches (step text limits puzzle strategyName runId trialNumber) Run.always fresh w)
    (hrows : w.rows = some rows) (hguess : guess ∈ rows.guesses)
    (hsuccess : guess.result = .success)
    (hgroup : acceptedGroup text puzzle guess.words = some group) :
    guess.words.Perm group.fixups.words := by
  have hmem : group ∈ puzzle.answerGroups := List.mem_of_find?_eq_some hgroup
  have hplay : Playable text puzzle := ⟨List.ne_nil_of_mem hmem, hfour, hdistinct⟩
  have hboard := hplay.board strategyName
  have hkeeps := hrun.invariant keepsBoard_fresh fun _ _ _ hinv _ hstep =>
    keepsBoard_step hplay hinv hstep
  obtain ⟨cleared, -, hsub, hperm, -⟩ := (hkeeps.stored rows hrows).cleared
  have hsolved : guess ∈ solvedGuesses rows.guesses :=
    List.mem_filter.mpr ⟨hguess, by simp [hsuccess]⟩
  obtain ⟨own, hown, hwords⟩ := exists_of_forall₂ hperm hsolved
  have hlength : guess.words.length = 4 := hwords.length_eq.trans (hboard.four own (hsub hown))
  have hon : ∀ w ∈ guess.words, w ∈ puzzle.fixups.boardWords := by
    intro w hw
    rw [← puzzle.fixups.flatten_groupWords]
    exact List.mem_flatten.mpr ⟨own, hsub hown, hwords.mem_iff.mp hw⟩
  have hhit : group.fixups.hit text guess.words = true := by
    simpa using List.find?_some hgroup
  obtain ⟨hfull, hcovers⟩ := AnswerGroup.hit_covers text hhit
  exact hboard.perm_of_covers (List.mem_map_of_mem hmem) hfull hcovers hlength hon

/-- Every successful guess of every run was accepted for one answer group.  The judge finds it
exactly when the guess has the key of the stored group and no group before it has; and when the
words of the board differ in the comparison of guesses, the guess has that key exactly when the
fixups rewrite no word of the group. -/
theorem success_guess_judged_iff (upper : UpperCase) {w : RunWorld} {rows : RunRows}
    {guess : Guess}
    (hfour : ∀ group ∈ puzzle.answerGroups, group.members.length = 4)
    (hdistinct : puzzle.boardWords.Nodup)
    (hrun : Run.Reaches (step text limits puzzle strategyName runId trialNumber) Run.always fresh w)
    (hrows : w.rows = some rows) (hguess : guess ∈ rows.guesses)
    (hsuccess : guess.result = .success) :
    ∃ before group after, puzzle.answerGroups = before ++ group :: after ∧
      acceptedGroup text puzzle guess.words = some group ∧
      (matchAnswerGroup upper guess.words puzzle = some group ↔
        wordSetKey upper guess.words = wordSetKey upper group.words ∧
          ∀ g ∈ before, wordSetKey upper g.words ≠ wordSetKey upper group.words) ∧
      ((puzzle.fixups.boardWords.map (normalizeForComparison text)).Nodup →
        (wordSetKey upper guess.words = wordSetKey upper group.words ↔
          "20,000" ∉ group.words)) := by
  have hjudged : Judged text puzzle.fixups rows.guesses := by
    simpa [guesses, hrows] using (judgedRun_reaches hrun).stored
  obtain ⟨earlier, later, hsplit⟩ := List.append_of_mem hguess
  have hresult := hjudged.split hsplit
  rw [hsuccess] at hresult
  have haccepted := (evaluateGuessOnPuzzle_success_iff text puzzle guess.words).mp
    (judgeGuess_success hresult.symm)
  obtain ⟨group, hgroup⟩ := Option.isSome_iff_exists.mp haccepted
  obtain ⟨-, before, after, hgroups, -⟩ := List.find?_eq_some_iff_append.mp hgroup
  -- A group occurs once, as its words do.
  have hnew : group ∉ before := by
    intro hbefore
    have hnodup := hdistinct
    rw [Puzzle.boardWords, hgroups, List.flatMap_append, List.flatMap_cons] at hnodup
    have hmember := hfour group (by rw [hgroups]; simp)
    have hlength : group.words.length = 4 := by rw [AnswerGroup.words, List.length_map, hmember]
    obtain ⟨w, hw⟩ := List.exists_mem_of_length_pos (by omega : 0 < group.words.length)
    exact List.disjoint_of_nodup_append hnodup (List.mem_flatMap.mpr ⟨group, hbefore, hw⟩)
      (List.mem_append_left _ hw)
  refine ⟨before, group, after, hgroups, hgroup, ?_, ?_⟩
  · rw [matchAnswerGroup, hgroups]
    constructor
    · intro hfound
      have hkey : wordSetKey upper group.words = wordSetKey upper guess.words := by
        simpa using List.find?_some hfound
      refine ⟨hkey.symm, fun g hg hsame => ?_⟩
      -- A group before it with the same key would have been found instead.
      have hsome : (before.find? fun group =>
          wordSetKey upper group.words = wordSetKey upper guess.words).isSome := by
        rw [List.find?_isSome]
        exact ⟨g, hg, by simpa using hsame.trans hkey⟩
      obtain ⟨first, hfirst⟩ := Option.isSome_iff_exists.mp hsome
      rw [List.find?_append, hfirst, Option.some_or] at hfound
      cases hfound
      exact hnew (List.mem_of_find?_eq_some hfirst)
    · rintro ⟨hkey, hbefore⟩
      have hnone : before.find? (fun group =>
          wordSetKey upper group.words = wordSetKey upper guess.words) = none := by
        rw [List.find?_eq_none]
        intro g hg
        simpa [hkey] using hbefore g hg
      rw [List.find?_append, hnone, Option.none_or, List.find?_cons_of_pos (by simp [hkey])]
  · intro hcompared
    have hperm := success_perm_accepted hfour hcompared hrun hrows hguess hsuccess hgroup
    rw [wordSetKey_perm upper hperm, AnswerGroup.words_fixups]
    constructor
    · intro hkey hcomma
      exact wordSetKey_fixups_ne upper hcomma hkey
    · intro hplain
      rw [map_normalizePuzzleWord_eq hplain]

/-- A solved group without the rewritten word has the key that the judge looks for. -/
theorem success_guess_judged_of_plain_group :
    ∃ (guess : Guess) (group : AnswerGroup), guess.words = ["GNAT", "FLY", "BEE", "ANT"] ∧
      acceptedGroup asciiText insectsAndTrees guess.words = some group ∧
      wordSetKey asciiUpperCase guess.words = wordSetKey asciiUpperCase group.words := by
  obtain ⟨w, hrun, hguesses⟩ := Run.exists_reaches
    (step asciiText defaultLimits insectsAndTrees "llm-openai" 1 1) Run.always fresh
    [.load 0 (some "gpt-5-mini") none none false none, .enter 0 false,
      .iterate 1 none (plainReply [["GNAT", "FLY", "BEE", "ANT"]])]
    (fun w => w.rows.any fun rows => rows.guesses.any fun guess =>
      guess.words = ["GNAT", "FLY", "BEE", "ANT"] ∧ guess.result = .success) (by decide)
  simp only [Option.any_eq_true, List.any_eq_true, decide_eq_true_eq] at hguesses
  obtain ⟨rows, hrows, guess, hguess, hwords, hsuccess⟩ := hguesses
  obtain ⟨before, group, after, hgroups, haccepted, -, hkey⟩ :=
    success_guess_judged_iff asciiUpperCase (by decide) (by decide) hrun hrows hguess hsuccess
  have hplain : ∀ group ∈ insectsAndTrees.answerGroups, "20,000" ∉ group.words := by decide
  refine ⟨guess, group, hwords, haccepted, (hkey (by decide)).mpr (hplain group ?_)⟩
  rw [hgroups]
  simp

/-- The solved group with the word that the fixups rewrite is never judged. -/
theorem rewritten_group_is_not_judged :
    (∀ group ∈ commaBoard.answerGroups, group.members.length = 4) ∧ commaBoard.boardWords.Nodup ∧
      ∃ (w : RunWorld) (rows : RunRows) (guess : Guess),
        Run.Reaches (step asciiText defaultLimits commaBoard "llm-openai" 1 1) Run.always fresh
          w ∧
        w.rows = some rows ∧ guess ∈ rows.guesses ∧ guess.result = .success ∧
        matchAnswerGroup asciiUpperCase guess.words commaBoard = none ∧
        ∀ proposal : LlmProposal, proposal.status = .used →
          evaluateProposal asciiUpperCase false false (some (proposal, some guess))
            (some commaBoard) = .skipped "no matching answer group" := by
  refine ⟨by decide, by decide, ?_⟩
  obtain ⟨w, hrun, hguesses⟩ := Run.exists_reaches
    (step asciiText defaultLimits commaBoard "llm-openai" 1 1) Run.always fresh
    [.load 0 (some "gpt-5-mini") none none false none, .enter 0 false,
      .iterate 1 none (plainReply [["20000", "BEE", "FLY", "GNAT"]])]
    (fun w => w.rows.any fun rows => rows.guesses.any fun guess =>
      guess.result = .success && (matchAnswerGroup asciiUpperCase guess.words commaBoard).isNone)
    (by decide)
  simp only [Option.any_eq_true, List.any_eq_true, Bool.and_eq_true, decide_eq_true_eq,
    Option.isNone_iff_eq_none] at hguesses
  obtain ⟨rows, hrows, guess, hguess, hsuccess, hnone⟩ := hguesses
  refine ⟨w, rows, guess, hrun, hrows, hguess, hsuccess, hnone, fun proposal hused => ?_⟩
  rw [evaluateProposal_used asciiUpperCase false hused hsuccess, hnone]

end Runs

end RunWorld

end Connections
