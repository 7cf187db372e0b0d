import Connections.Frontend.GameReducer
import Connections.Library.Run
import Mathlib.Data.List.Nodup
import Mathlib.Data.List.Pairwise
import Mathlib.Data.List.Perm.Subperm

/-!
# Consistency of a game

What a game shows fits together: the solved categories, the words left, the mistakes and the
status.  Every action keeps this but one.  The confirmation of a solve trusts the category that was
matched when the guess was submitted, although a reply of the AI may have solved it or ended the
game since.
-/

namespace Connections

/-- A puzzle as the game expects it. -/
structure WellFormedPuzzle (categories : List Category) : Prop where
  nonempty : categories ≠ []
  four : ∀ category ∈ categories, category.words.length = 4
  distinct_ids : (categories.map (·.id)).Nodup
  distinct_words : (categories.flatMap (·.words)).Nodup

namespace WellFormedPuzzle

variable {categories : List Category} {c d : Category}

/-- A word lies in one category. -/
theorem eq_of_mem (h : WellFormedPuzzle categories) {word : String} (hc : c ∈ categories)
    (hd : d ∈ categories) (hwc : word ∈ c.words) (hwd : word ∈ d.words) : c = d := by
  by_contra hne
  have hsymm : Std.Symm (Function.onFun List.Disjoint Category.words) :=
    ⟨fun _ _ hab _ hb ha => hab ha hb⟩
  have hapart := List.Pairwise.forall (List.nodup_flatMap.mp h.distinct_words).2 hc hd hne
  exact hapart hwc hwd

/-- An id belongs to one category. -/
theorem eq_of_id_eq (h : WellFormedPuzzle categories) (hc : c ∈ categories) (hd : d ∈ categories)
    (hid : c.id = d.id) : c = d :=
  List.inj_on_of_nodup_map h.distinct_ids hc hd hid

theorem exists_word (h : WellFormedPuzzle categories) (hc : c ∈ categories) :
    ∃ word, word ∈ c.words := by
  apply List.exists_mem_of_ne_nil
  intro hempty
  have hfour := h.four c hc
  simp [hempty] at hfour

end WellFormedPuzzle

/-- What a game shows fits together. -/
structure Consistent (categories solved : List Category) (remainingWords : List String)
    (mistakes : ℕ) (status : GameStatus) : Prop where
  solved_sub : ∀ category ∈ solved, category ∈ categories
  solved_once : (solved.map (·.id)).Nodup
  remaining_once : remainingWords.Nodup
  remaining : ∀ word, word ∈ remainingWords ↔
    ∃ category ∈ categories, category ∉ solved ∧ word ∈ category.words
  won : status = .won ↔ ∀ category ∈ categories, category ∈ solved
  lost : status = .lost ↔ mistakes = 4
  mistakes_le : mistakes ≤ 4

namespace Consistent

variable {categories solved : List Category} {remainingWords : List String} {mistakes : ℕ}
  {status : GameStatus} {category : Category}

theorem mistakes_lt (h : Consistent categories solved remainingWords mistakes .playing) :
    mistakes < 4 := by
  have hne : mistakes ≠ 4 := fun heq => nomatch h.lost.mpr heq
  have hle := h.mistakes_le
  omega

/-- No word is left once every category is solved. -/
theorem remaining_eq_nil (hp : WellFormedPuzzle categories)
    (h : ∀ word, word ∈ remainingWords ↔
      ∃ category ∈ categories, category ∉ solved ∧ word ∈ category.words) :
    remainingWords = [] ↔ ∀ category ∈ categories, category ∈ solved := by
  rw [List.eq_nil_iff_forall_not_mem]
  constructor
  · intro hnone category hmem
    by_contra hopen
    obtain ⟨word, hword⟩ := hp.exists_word hmem
    exact hnone word ((h word).mpr ⟨category, hmem, hopen, hword⟩)
  · intro hall word hword
    obtain ⟨category, hmem, hopen, -⟩ := (h word).mp hword
    exact hopen (hall category hmem)

/-- Every category is solved once as many are as there are. -/
theorem solved_all_iff (hp : WellFormedPuzzle categories)
    (hsub : ∀ category ∈ solved, category ∈ categories) (honce : (solved.map (·.id)).Nodup) :
    solved.length = categories.length ↔ ∀ category ∈ categories, category ∈ solved := by
  have hsolved : solved.Nodup := honce.of_map _
  have hcategories : categories.Nodup := hp.distinct_ids.of_map _
  constructor
  · intro hlength category hmem
    have hsubperm := List.subperm_of_subset hsolved hsub
    have hperm := hsubperm.perm_of_length_le (Nat.le_of_eq hlength.symm)
    exact hperm.mem_iff.mpr hmem
  · intro hall
    have hperm := (List.perm_ext_iff_of_nodup hsolved hcategories).mpr fun category =>
      ⟨hsub category, hall category⟩
    exact hperm.length_eq

/-- A solved category and its words leave the board. -/
theorem solve (hp : WellFormedPuzzle categories)
    (h : Consistent categories solved remainingWords mistakes .playing)
    (hmem : category ∈ categories) (hopen : category ∉ solved) :
    Consistent categories (solved ++ [category])
      (remainingWords.filter (· ∉ category.words)) mistakes
      (if (solved ++ [category]).length = categories.length then .won else .playing) := by
  have hsub : ∀ c ∈ solved ++ [category], c ∈ categories := by
    intro c hc
    rcases List.mem_append.mp hc with hc | hc
    · exact h.solved_sub c hc
    · rw [List.mem_singleton.mp hc]
      exact hmem
  have honce : ((solved ++ [category]).map (·.id)).Nodup := by
    rw [List.map_append, List.map_singleton, List.nodup_append]
    refine ⟨h.solved_once, List.nodup_singleton _, ?_⟩
    rintro _ hid _ hid' rfl
    obtain ⟨c, hc, hsame⟩ := List.mem_map.mp hid
    have heq := hp.eq_of_id_eq (h.solved_sub c hc) hmem
      (hsame.trans (List.mem_singleton.mp hid'))
    exact hopen (heq ▸ hc)
  refine ⟨hsub, honce, h.remaining_once.filter _, ?_, ?_, ?_, h.mistakes_le⟩
  · intro word
    rw [List.mem_filter, h.remaining word]
    simp only [decide_eq_true_eq, List.mem_append, List.mem_singleton, not_or]
    constructor
    · rintro ⟨⟨c, hc, hleft, hword⟩, hout⟩
      exact ⟨c, hc, ⟨hleft, fun heq => hout (heq ▸ hword)⟩, hword⟩
    · rintro ⟨c, hc, ⟨hleft, hne⟩, hword⟩
      exact ⟨⟨c, hc, hleft, hword⟩, fun hin => hne (hp.eq_of_mem hc hmem hword hin)⟩
  · rw [← solved_all_iff hp hsub honce]
    by_cases hall : (solved ++ [category]).length = categories.length
    · simp only [hall, ↓reduceIte]
    · simp only [hall, ↓reduceIte, reduceCtorEq]
  · have hlt := h.mistakes_lt
    split <;> simp <;> omega

/-- A mistake, which is the last one at the limit. -/
theorem miss (h : Consistent categories solved remainingWords mistakes .playing) :
    Consistent categories solved remainingWords (mistakes + 1)
      (statusAfterMistake (mistakes + 1)) := by
  have hlt := h.mistakes_lt
  have hopen : ¬ ∀ category ∈ categories, category ∈ solved := fun hall =>
    nomatch h.won.mpr hall
  unfold statusAfterMistake maxMistakes
  refine ⟨h.solved_sub, h.solved_once, h.remaining_once, h.remaining, ?_, ?_, by omega⟩
  · split <;> simp [hopen]
  · split <;> simp <;> omega

end Consistent

/-! ### The reducer -/

section Reducer

variable {categories : List Category}

theorem findMatchingCategory_mem {selected : List String} {category : Category}
    (h : findMatchingCategory categories selected = some category) : category ∈ categories :=
  List.mem_of_find?_eq_some h

theorem evaluateGuess_correct {words : List String} {category : Category}
    (h : evaluateGuess categories words = .correct category) : category ∈ categories := by
  unfold evaluateGuess at h
  split at h
  · cases h
    exact findMatchingCategory_mem ‹_›
  · cases h

/-- A turn of the AI fits together. -/
def AiTurn.Consistent (categories : List Category) (turn : AiTurn) : Prop :=
  Connections.Consistent categories turn.solved turn.remainingWords turn.mistakes turn.status

/-- A correct group of the AI: a category that is still open is solved, a solved one stays. -/
theorem AiTurn.consistent_lockIn (hp : WellFormedPuzzle categories) {turn : AiTurn}
    (h : turn.Consistent categories) (hplaying : turn.status = .playing) (items : List String)
    {category : Category} (hmem : category ∈ categories) :
    (turn.lockIn categories items category).Consistent categories := by
  unfold AiTurn.Consistent at h ⊢
  rw [hplaying] at h
  have hknown : turn.solved.any (·.id = category.id) ↔ category ∈ turn.solved := by
    simp only [List.any_eq_true, decide_eq_true_eq]
    constructor
    · rintro ⟨c, hc, hid⟩
      exact hp.eq_of_id_eq (h.solved_sub c hc) hmem hid ▸ hc
    · intro hc
      exact ⟨category, hc, rfl⟩
  by_cases hopen : category ∈ turn.solved
  · have hleft : turn.remainingWords.length ≠ 0 := by
      intro hnone
      have hall := (Consistent.remaining_eq_nil hp h.remaining).mp
        (List.length_eq_zero_iff.mp hnone)
      exact nomatch h.won.mpr hall
    simpa only [AiTurn.lockIn, hknown.mpr hopen, ↓reduceIte, hleft, hplaying] using h
  · have hsolved := h.solve hp hmem hopen
    have hall := Consistent.solved_all_iff hp hsolved.solved_sub hsolved.solved_once
    have hnone := Consistent.remaining_eq_nil hp hsolved.remaining
    have hstatus : ((turn.remainingWords.filter (· ∉ category.words)).length = 0) ↔
        (turn.solved ++ [category]).length = categories.length := by
      rw [List.length_eq_zero_iff, hnone, hall]
    simpa only [AiTurn.lockIn, Bool.eq_false_iff.mpr (mt hknown.mp hopen), Bool.false_eq_true,
      ↓reduceIte, hplaying, hstatus] using hsolved

/-- The submission of an AI reply, group by group. -/
theorem AiTurn.consistent_submitGroups (hp : WellFormedPuzzle categories) {turn : AiTurn}
    (h : turn.Consistent categories) (groups : List (List String)) :
    (submitGroups categories turn groups).Consistent categories := by
  induction groups generalizing turn with
  | nil => exact h
  | cons items rest ih =>
    unfold submitGroups
    split
    · exact h
    · rename_i hplaying
      push Not at hplaying
      split
      · rename_i category hcorrect
        exact ih (consistent_lockIn hp h hplaying items (evaluateGuess_correct hcorrect))
      · rename_i result _
        unfold AiTurn.Consistent at h ⊢
        rw [hplaying] at h
        exact h.miss

/-- A reply that comes after the end of the game changes nothing that counts. -/
theorem submitGroups_over {turn : AiTurn} (h : turn.status ≠ .playing)
    (groups : List (List String)) : submitGroups categories turn groups = turn := by
  cases groups with
  | nil => rfl
  | cons items rest => simp [submitGroups, h]

end Reducer

/-- What a game shows, over its categories. -/
def GameState.Shown (categories : List Category) (state : GameState) : Prop :=
  Connections.Consistent categories state.solved state.remainingWords state.mistakes state.status

/-- A game over its categories fits together, and its pending solve is one of them. -/
structure GameState.Consistent (categories : List Category) (state : GameState) : Prop where
  puzzle : state.categories = categories
  shown : state.Shown categories
  pending : ∀ category, state.pendingSolve = some category → category ∈ categories

/-- A shuffle only reorders the words left. -/
def shufflesWordsLeft (state : GameState) : GameAction → Bool
  | .shuffle words => words.Perm state.remainingWords
  | _ => true

/-- A confirmation that comes too late: its category has been solved, or the game has ended. -/
def confirmsLate (state : GameState) (action : GameAction) : Bool :=
  action = .confirmSolve && state.pendingSolve.any fun category =>
    state.status ≠ .playing || category ∈ state.solved

theorem confirmsLate_iff {state : GameState} {action : GameAction} :
    confirmsLate state action ↔ action = .confirmSolve ∧
      ∃ category, state.pendingSolve = some category ∧
        (state.status ≠ .playing ∨ category ∈ state.solved) := by
  simp only [confirmsLate, Bool.and_eq_true, Bool.or_eq_true, decide_eq_true_eq,
    Option.any_eq_true]

namespace GameState.Consistent

variable {categories : List Category} {state : GameState} {action : GameAction}

/-- Every action but a late confirmation keeps a game consistent. -/
theorem step (hp : WellFormedPuzzle categories) (h : state.Consistent categories)
    (hshuffle : shufflesWordsLeft state action) (hconfirm : ¬ confirmsLate state action) :
    (gameReducer state action).Consistent categories := by
  obtain ⟨rfl, hshown, hpending⟩ := h
  cases action with
  | toggleWord word =>
    simp only [gameReducer]
    split
    · exact ⟨rfl, hshown, hpending⟩
    · split
      · exact ⟨rfl, hshown, hpending⟩
      · split <;> exact ⟨rfl, hshown, hpending⟩
  | submitGuess =>
    simp only [gameReducer]
    split
    · exact ⟨rfl, hshown, hpending⟩
    · rename_i hready
      push Not at hready
      split
      · rename_i category hcorrect
        refine ⟨rfl, hshown, ?_⟩
        rintro _ ⟨⟩
        exact evaluateGuess_correct hcorrect
      · rw [GameState.Shown, hready.1] at hshown
        exact ⟨rfl, hshown.miss, hpending⟩
  | deselectAll => exact ⟨rfl, hshown, hpending⟩
  | clearFeedback => exact ⟨rfl, hshown, hpending⟩
  | aiSolveStart => exact ⟨rfl, hshown, hpending⟩
  | aiSolveSuccess payload history =>
    have hturn : state.aiTurn.Consistent state.categories := hshown
    exact ⟨rfl, AiTurn.consistent_submitGroups hp hturn payload.groups, hpending⟩
  | aiSolveFailure payload => exact ⟨rfl, hshown, hpending⟩
  | shuffle words =>
    have hperm : words.Perm state.remainingWords := of_decide_eq_true hshuffle
    refine ⟨rfl, ⟨hshown.solved_sub, hshown.solved_once, ?_, ?_, hshown.won, hshown.lost,
      hshown.mistakes_le⟩, hpending⟩
    · exact hperm.nodup_iff.mpr hshown.remaining_once
    · intro word
      exact hperm.mem_iff.trans (hshown.remaining word)
  | confirmSolve =>
    simp only [gameReducer]
    split
    · exact ⟨rfl, hshown, hpending⟩
    · rename_i category hsome
      have hintime : state.status = .playing ∧ category ∉ state.solved := by
        by_contra hlate
        refine hconfirm (confirmsLate_iff.mpr ⟨rfl, category, hsome, ?_⟩)
        by_cases hplaying : state.status = .playing
        · exact .inr (not_not.mp fun hopen => hlate ⟨hplaying, hopen⟩)
        · exact .inl hplaying
      rw [GameState.Shown, hintime.1] at hshown
      exact ⟨rfl, hshown.solve hp (hpending category hsome) hintime.2, by simp⟩

/-- The end of a game is final for every action but a late confirmation. -/
theorem status_final (hover : state.status ≠ .playing) (hconfirm : ¬ confirmsLate state action) :
    (gameReducer state action).status = state.status := by
  cases action with
  | toggleWord word => simp [gameReducer, hover]
  | submitGuess => simp [gameReducer, hover]
  | aiSolveSuccess payload history =>
    have hover' : state.aiTurn.status ≠ .playing := hover
    simp only [gameReducer, submitGroups_over hover']
    rfl
  | confirmSolve =>
    cases hpending : state.pendingSolve with
    | none => simp [gameReducer, hpending]
    | some category =>
      exact absurd (confirmsLate_iff.mpr ⟨rfl, category, hpending, .inl hover⟩) hconfirm
  | _ => rfl

/-- A late confirmation lists a category twice or takes back the end of the game. -/
theorem late (h : state.Consistent categories) (hconfirm : confirmsLate state action) :
    ¬ (gameReducer state action).Shown categories ∨
      state.status ≠ .playing ∧ (gameReducer state action).status ≠ state.status := by
  obtain ⟨rfl, category, hsome, hlate⟩ := confirmsLate_iff.mp hconfirm
  by_cases hsolved : category ∈ state.solved
  · left
    intro hnext
    have honce := hnext.solved_once
    simp only [gameReducer, hsome, List.map_append, List.map_singleton] at honce
    have hapart := List.disjoint_of_nodup_append honce
    exact hapart (List.mem_map_of_mem hsolved) (List.mem_singleton_self _)
  · right
    have hover := hlate.resolve_right hsolved
    refine ⟨hover, ?_⟩
    have hnotwon : state.status ≠ .won := fun hwon =>
      hsolved (h.shown.won.mp hwon category (h.pending category hsome))
    simp only [gameReducer, hsome]
    split
    · exact hnotwon.symm
    · exact hover.symm

end GameState.Consistent

/-- A new game fits together. -/
theorem initGameState_consistent {categories : List Category} (hp : WellFormedPuzzle categories)
    {words : List String} (hwords : words.Perm (categories.flatMap (·.words))) :
    (initGameState categories words).Consistent categories where
  puzzle := rfl
  shown := by
    obtain ⟨category, hmem⟩ := List.exists_mem_of_ne_nil _ hp.nonempty
    refine ⟨by simp [initGameState], List.nodup_nil, hwords.nodup_iff.mpr hp.distinct_words, ?_,
      ?_, by simp [initGameState], by simp [initGameState]⟩
    · intro word
      simp [initGameState, hwords.mem_iff]
    · simp only [initGameState, reduceCtorEq, List.not_mem_nil, false_iff]
      exact fun hall => hall category hmem
  pending := by simp [initGameState]

/-- One action as a step of a game. -/
def gameStep (state : GameState) (action : GameAction) : Option GameState :=
  some (gameReducer state action)

/-- A game whose confirmations come in time fits together in every state, and its end is final;
the first confirmation that comes late breaks one or the other. -/
theorem game_consistent_until_late_confirm {categories : List Category}
    (hp : WellFormedPuzzle categories) {words : List String}
    (hwords : words.Perm (categories.flatMap (·.words))) {state : GameState}
    (hrun : Run.Reaches gameStep (fun s a => shufflesWordsLeft s a ∧ ¬ confirmsLate s a)
      (initGameState categories words) state) :
    state.Shown categories ∧
      (∀ later, Run.Reaches gameStep (fun s a => shufflesWordsLeft s a ∧ ¬ confirmsLate s a) state
        later → state.status ≠ .playing → later.status = state.status) ∧
      ∀ action, confirmsLate state action → ¬ (gameReducer state action).Shown categories ∨
        state.status ≠ .playing ∧ (gameReducer state action).status ≠ state.status := by
  have hstate : state.Consistent categories := by
    refine hrun.invariant (initGameState_consistent hp hwords) fun s a t hs hok hstep => ?_
    cases hstep
    exact hs.step hp hok.1 hok.2
  refine ⟨hstate.shown, fun later hlater hover => ?_, fun action hlate => hstate.late hlate⟩
  induction hlater with
  | start => rfl
  | snoc _ hok hstep hs =>
    cases hstep
    exact (GameState.Consistent.status_final (hs.symm ▸ hover) hok.2).trans hs

/-- Two categories. -/
def twoCategories : List Category :=
  [⟨"bees", "BEES", .yellow, ["BEE", "HIVE", "WAX", "QUEEN"]⟩,
    ⟨"trees", "TREES", .green, ["ASH", "ELM", "FIR", "OAK"]⟩]

/-- The words of two categories in the order of the board. -/
def twoCategoriesBoard : List String :=
  ["ASH", "BEE", "ELM", "FIR", "HIVE", "OAK", "QUEEN", "WAX"]

theorem twoCategories_wellFormed : WellFormedPuzzle twoCategories where
  nonempty := by decide
  four := by decide
  distinct_ids := by decide
  distinct_words := by decide

/-- The player selects the four bee words and submits them. -/
def guessBees : List GameAction :=
  [.toggleWord "BEE", .toggleWord "HIVE", .toggleWord "WAX", .toggleWord "QUEEN", .submitGuess]

/-- A reply of the AI with the given groups. -/
def aiReply (groups : List (List String)) : GameAction :=
  .aiSolveSuccess ⟨"", groups, "", none⟩ []

/-- A guess that is confirmed before the AI solves the rest. -/
theorem game_consistent_after_solve :
    ∃ state : GameState, state.status = .won ∧ state.Shown twoCategories := by
  obtain ⟨state, hrun, hwon⟩ := Run.exists_reaches gameStep
    (fun s a => shufflesWordsLeft s a ∧ ¬ confirmsLate s a)
    (initGameState twoCategories twoCategoriesBoard)
    (guessBees ++ [.confirmSolve, aiReply [["ELM", "ASH", "OAK", "FIR"]]])
    (fun s => s.status = .won) (by decide)
  have hconsistent := game_consistent_until_late_confirm twoCategories_wellFormed (by decide) hrun
  exact ⟨state, by simpa using hwon, hconsistent.1⟩

/-- The AI solves the submitted category before it is confirmed, which then lists it twice; or it
makes the last mistakes, and the confirmation takes the loss back. -/
theorem late_confirm_breaks_game :
    (∃ state : GameState, Run.Reaches gameStep (fun s a => shufflesWordsLeft s a)
      (initGameState twoCategories twoCategoriesBoard) state ∧
        ¬ (state.solved.map (·.id)).Nodup) ∧
    ∃ state : GameState, Run.Reaches gameStep (fun s a => shufflesWordsLeft s a)
      (initGameState twoCategories twoCategoriesBoard) state ∧ state.status = .lost ∧
        (gameReducer state .confirmSolve).status = .playing := by
  constructor
  · obtain ⟨state, hrun, htwice⟩ := Run.exists_reaches gameStep
      (fun s a => shufflesWordsLeft s a = true) (initGameState twoCategories twoCategoriesBoard)
      (guessBees ++ [aiReply [["BEE", "HIVE", "WAX", "QUEEN"]], .confirmSolve])
      (fun s => ¬ (s.solved.map (·.id)).Nodup) (by decide)
    exact ⟨state, hrun, by simpa using htwice⟩
  · let wrong := aiReply [["BEE", "HIVE", "WAX", "OAK"]]
    obtain ⟨state, hrun, hlost⟩ := Run.exists_reaches gameStep
      (fun s a => shufflesWordsLeft s a = true) (initGameState twoCategories twoCategoriesBoard)
      (guessBees ++ [wrong, wrong, wrong, wrong])
      (fun s => s.status = .lost ∧ (gameReducer s .confirmSolve).status = .playing) (by decide)
    exact ⟨state, hrun, by simpa using hlost⟩

end Connections
