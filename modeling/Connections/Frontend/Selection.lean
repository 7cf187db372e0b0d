import Connections.Frontend.GameConsistency

/-!
# The selection of a game

The words a player has selected are on the board, and every action keeps them there but one.  A
reply of the AI takes the words of the categories it solves off the board and leaves the selection
as it is.
-/

namespace Connections

/-- At most four words are selected, each once, and all of them are on the board. -/
structure GameState.SelectsOnBoard (state : GameState) : Prop where
  few : state.selected.length ≤ maxSelected
  once : state.selected.Nodup
  on_board : ∀ word ∈ state.selected, word ∈ state.remainingWords

/-- A player toggles a word of the board. -/
def togglesWordLeft (state : GameState) : GameAction → Bool
  | .toggleWord word => word ∈ state.remainingWords
  | _ => true

/-- Some group, in front of the first wrong one, is a category that is not known yet and has a
selected word. -/
def namesSelected (categories : List Category) (selected : List String) :
    List String → List (List String) → Bool
  | _, [] => false
  | known, items :: rest =>
    match evaluateGuess categories items with
    | .wrong _ => false
    | .correct category =>
      category.id ∉ known && category.words.any (· ∈ selected) ||
        namesSelected categories selected (category.id :: known) rest

/-- A reply that solves a category with a selected word while the game goes on. -/
def solvesSelected (state : GameState) : GameAction → Bool
  | .aiSolveSuccess payload _ => state.status = .playing &&
    namesSelected state.categories state.selected (state.solved.map (·.id)) payload.groups
  | _ => false

section Reply

variable {categories : List Category} {selected : List String} {groups : List (List String)}

/-- The known categories matter as a set. -/
theorem namesSelected_congr {known known' : List String} (h : ∀ id, id ∈ known ↔ id ∈ known') :
    namesSelected categories selected known groups =
      namesSelected categories selected known' groups := by
  induction groups generalizing known known' with
  | nil => rfl
  | cons items rest ih =>
    unfold namesSelected
    split
    · rfl
    · rename_i category _
      have hnext : ∀ id, id ∈ category.id :: known ↔ id ∈ category.id :: known' := by
        intro id
        simp only [List.mem_cons, h]
      simp only [h, ih hnext]

theorem namesSelected_nil (known : List String) :
    namesSelected categories [] known groups = false := by
  induction groups generalizing known with
  | nil => rfl
  | cons items rest ih =>
    unfold namesSelected
    split
    · rfl
    · simp [ih]

/-- A reply puts no word back on the board. -/
theorem remainingWords_submitGroups (turn : AiTurn) :
    ∀ word ∈ (submitGroups categories turn groups).remainingWords, word ∈ turn.remainingWords := by
  induction groups generalizing turn with
  | nil => exact fun word hword => hword
  | cons items rest ih =>
    intro word hword
    unfold submitGroups at hword
    split at hword
    · exact hword
    · split at hword
      · have hlocked := ih _ word hword
        simp only [AiTurn.lockIn] at hlocked
        split at hlocked
        · exact hlocked
        · exact (List.mem_filter.mp hlocked).1
      · exact hword

/-- A turn that goes on behind a correct group, as long as words are left. -/
theorem status_lockIn {turn : AiTurn} (hplaying : turn.status = .playing) {items : List String}
    {category : Category} (hleft : (turn.lockIn categories items category).remainingWords ≠ []) :
    (turn.lockIn categories items category).status = .playing := by
  have hlength := mt List.length_eq_zero_iff.mp hleft
  simp only [AiTurn.lockIn] at hlength ⊢
  rw [if_neg hlength, hplaying]

/-- The ids that are known behind a correct group. -/
theorem mem_ids_lockIn (turn : AiTurn) (items : List String) (category : Category) (id : String) :
    id ∈ category.id :: turn.solved.map (·.id) ↔
      id ∈ (turn.lockIn categories items category).solved.map (·.id) := by
  simp only [AiTurn.lockIn]
  by_cases hknown : turn.solved.any (·.id = category.id)
  · rw [if_pos hknown, List.mem_cons]
    refine or_iff_right_of_imp ?_
    rintro rfl
    simpa using hknown
  · rw [if_neg hknown, List.map_append, List.mem_append, List.map_singleton, List.mem_singleton,
      List.mem_cons, or_comm]

/-- A correct group leaves the selected words on the board unless its category is not known yet and
has one. -/
theorem lockIn_keeps_iff (categories : List Category) {turn : AiTurn}
    (hon : ∀ word ∈ selected, word ∈ turn.remainingWords) (items : List String)
    (category : Category) :
    (∀ word ∈ selected, word ∈ (turn.lockIn categories items category).remainingWords) ↔
      (decide (category.id ∉ turn.solved.map (·.id)) &&
        category.words.any (· ∈ selected)) = false := by
  simp only [AiTurn.lockIn]
  by_cases hknown : turn.solved.any (·.id = category.id)
  · have hid : category.id ∈ turn.solved.map (·.id) := by simpa using hknown
    rw [if_pos hknown, decide_eq_false (not_not.mpr hid), Bool.false_and]
    exact iff_of_true hon rfl
  · have hid : category.id ∉ turn.solved.map (·.id) := by simpa using hknown
    rw [if_neg hknown, decide_eq_true hid, Bool.true_and, List.any_eq_false]
    simp only [List.mem_filter, decide_eq_true_eq]
    constructor
    · intro hstay word hword hselected
      exact (hstay word hselected).2 hword
    · intro hnone word hselected
      exact ⟨hon word hselected, fun hword => hnone word hword hselected⟩

/-- The selected words stay on the board just when the reply solves no category with one. -/
theorem submitGroups_keeps_iff {turn : AiTurn} (hplaying : turn.status = .playing)
    (hon : ∀ word ∈ selected, word ∈ turn.remainingWords) :
    (∀ word ∈ selected, word ∈ (submitGroups categories turn groups).remainingWords) ↔
      namesSelected categories selected (turn.solved.map (·.id)) groups = false := by
  by_cases hsome : selected = []
  · subst hsome
    simp [namesSelected_nil]
  obtain ⟨first, hfirst⟩ := List.exists_mem_of_ne_nil _ hsome
  induction groups generalizing turn with
  | nil => exact iff_of_true hon rfl
  | cons items rest ih =>
    unfold submitGroups namesSelected
    rw [if_neg (not_not.mpr hplaying)]
    cases houtcome : evaluateGuess categories items with
    | wrong result => exact iff_of_true hon rfl
    | correct category =>
      dsimp only
      have hkeeps := lockIn_keeps_iff categories hon items category
      rw [Bool.or_eq_false_iff, namesSelected_congr (mem_ids_lockIn turn items category), ← hkeeps]
      by_cases hstay : ∀ word ∈ selected,
          word ∈ (turn.lockIn categories items category).remainingWords
      · -- As long as the selected words are left, the reply goes on.
        have hgoes := status_lockIn hplaying (List.ne_nil_of_mem (hstay first hfirst))
        rw [ih hgoes hstay, and_iff_right hstay]
      · refine iff_of_false (fun hlater => hstay fun word hword => ?_) fun hboth => hstay hboth.1
        exact remainingWords_submitGroups _ word (hlater word hword)

end Reply

namespace GameState.SelectsOnBoard

variable {state : GameState} {action : GameAction}

/-- A toggled word of the board joins the selection, if there is room, or leaves it. -/
theorem toggleWord (h : state.SelectsOnBoard) {word : String}
    (hleft : word ∈ state.remainingWords) :
    (gameReducer state (.toggleWord word)).SelectsOnBoard := by
  simp only [gameReducer]
  split
  · exact h
  · split
    · refine ⟨?_, h.once.filter _, fun other hother => ?_⟩
      · exact Nat.le_trans (List.length_filter_le _ _) h.few
      · exact h.on_board other (List.mem_filter.mp hother).1
    · rename_i hnew
      split
      · exact h
      · rename_i hroom
        refine ⟨?_, ?_, ?_⟩
        · rw [List.length_append, List.length_singleton]
          exact Nat.not_le.mp hroom
        · refine List.nodup_append.mpr ⟨h.once, List.nodup_singleton word, ?_⟩
          rintro other hother _ hword rfl
          exact hnew (List.mem_singleton.mp hword ▸ hother)
        · intro other hother
          rcases List.mem_append.mp hother with hother | hother
          · exact h.on_board other hother
          · rw [List.mem_singleton.mp hother]
            exact hleft

/-- A reply leaves the selection on the board just when it solves no category with a selected
word. -/
theorem aiSolveSuccess_iff (h : state.SelectsOnBoard) (payload : AiAssistData)
    (history : List AiChatMessage) :
    (gameReducer state (.aiSolveSuccess payload history)).SelectsOnBoard ↔
      ¬ solvesSelected state (.aiSolveSuccess payload history) := by
  have hkeeps : (gameReducer state (.aiSolveSuccess payload history)).SelectsOnBoard ↔
      ∀ word ∈ state.selected,
        word ∈ (submitGroups state.categories state.aiTurn payload.groups).remainingWords :=
    ⟨fun hnext => hnext.on_board, fun hon => ⟨h.few, h.once, hon⟩⟩
  have hsolves : solvesSelected state (.aiSolveSuccess payload history) =
      (decide (state.status = .playing) &&
        namesSelected state.categories state.selected (state.aiTurn.solved.map (·.id))
          payload.groups) := rfl
  rw [hkeeps, hsolves]
  by_cases hplaying : state.status = .playing
  · have hturn : state.aiTurn.status = .playing := hplaying
    have hon : ∀ word ∈ state.selected, word ∈ state.aiTurn.remainingWords := h.on_board
    rw [submitGroups_keeps_iff hturn hon, decide_eq_true hplaying, Bool.true_and,
      Bool.not_eq_true]
  · have hover : state.aiTurn.status ≠ .playing := hplaying
    rw [submitGroups_over hover]
    exact iff_of_true h.on_board (by simp [hplaying])

/-- An action keeps the selection on the board just when it is no reply that solves a category with
a selected word. -/
theorem step_iff (h : state.SelectsOnBoard) (htoggle : togglesWordLeft state action)
    (hshuffle : shufflesWordsLeft state action) :
    (gameReducer state action).SelectsOnBoard ↔ ¬ solvesSelected state action := by
  have hempty : ∀ words, SelectsOnBoard { state with selected := [], remainingWords := words } :=
    fun words => ⟨Nat.zero_le _, List.nodup_nil, by simp⟩
  cases action with
  | aiSolveSuccess payload history => exact h.aiSolveSuccess_iff payload history
  | toggleWord word =>
    exact iff_of_true (h.toggleWord (of_decide_eq_true htoggle)) Bool.false_ne_true
  | shuffle words =>
    have hperm : words.Perm state.remainingWords := of_decide_eq_true hshuffle
    refine iff_of_true ⟨h.few, h.once, fun word hword => ?_⟩ Bool.false_ne_true
    exact hperm.mem_iff.mpr (h.on_board word hword)
  | submitGuess =>
    refine iff_of_true ?_ Bool.false_ne_true
    simp only [gameReducer]
    split
    · exact h
    · split
      · exact ⟨h.few, h.once, h.on_board⟩
      · exact ⟨Nat.zero_le _, List.nodup_nil, by simp⟩
  | confirmSolve =>
    refine iff_of_true ?_ Bool.false_ne_true
    simp only [gameReducer]
    split
    · exact h
    · exact ⟨Nat.zero_le _, List.nodup_nil, by simp⟩
  | deselectAll =>
    exact iff_of_true ⟨Nat.zero_le _, List.nodup_nil, by simp [gameReducer]⟩ Bool.false_ne_true
  | clearFeedback | aiSolveStart | aiSolveFailure =>
    exact iff_of_true ⟨h.few, h.once, h.on_board⟩ Bool.false_ne_true

end GameState.SelectsOnBoard

/-- In a game in which no reply solves a category with a selected word, the selection is on the
board in every state; the first reply that does leaves it off. -/
theorem selection_on_board_until_reply {categories : List Category} {words : List String}
    {state : GameState}
    (hrun : Run.Reaches gameStep
      (fun s a => togglesWordLeft s a ∧ shufflesWordsLeft s a ∧ ¬ solvesSelected s a)
      (initGameState categories words) state) :
    state.SelectsOnBoard ∧ ∀ action, togglesWordLeft state action → shufflesWordsLeft state action →
      ((gameReducer state action).SelectsOnBoard ↔ ¬ solvesSelected state action) := by
  have hstate : state.SelectsOnBoard := by
    refine hrun.invariant ⟨Nat.zero_le _, List.nodup_nil, by simp [initGameState]⟩ ?_
    rintro s a _ hs ⟨htoggle, hshuffle, hreply⟩ ⟨⟩
    exact (hs.step_iff htoggle hshuffle).mpr hreply
  exact ⟨hstate, fun action htoggle hshuffle => hstate.step_iff htoggle hshuffle⟩

/-- A reply that solves another category than the selected words'. -/
theorem selection_on_board_after_reply :
    ∃ state : GameState, state.selected = ["ASH"] ∧ state.SelectsOnBoard := by
  obtain ⟨state, hrun, hselected⟩ := Run.exists_reaches gameStep
    (fun s a => togglesWordLeft s a ∧ shufflesWordsLeft s a ∧ ¬ solvesSelected s a)
    (initGameState twoCategories twoCategoriesBoard)
    [.toggleWord "ASH", aiReply [["BEE", "HIVE", "WAX", "QUEEN"]]]
    (fun s => s.selected = ["ASH"]) (by decide)
  exact ⟨state, by simpa using hselected, (selection_on_board_until_reply hrun).1⟩

/-- A reply that solves the category of a selected word leaves the word selected. -/
theorem selected_word_off_board :
    WellFormedPuzzle twoCategories ∧ ∃ state : GameState, Run.Reaches gameStep
      (fun s a => togglesWordLeft s a ∧ shufflesWordsLeft s a)
      (initGameState twoCategories twoCategoriesBoard) state ∧
        "BEE" ∈ state.selected ∧ "BEE" ∉ state.remainingWords := by
  refine ⟨twoCategories_wellFormed, ?_⟩
  obtain ⟨state, hrun, hoff⟩ := Run.exists_reaches gameStep
    (fun s a => togglesWordLeft s a = true ∧ shufflesWordsLeft s a = true)
    (initGameState twoCategories twoCategoriesBoard)
    [.toggleWord "BEE", aiReply [["BEE", "HIVE", "WAX", "QUEEN"]]]
    (fun s => "BEE" ∈ s.selected ∧ "BEE" ∉ s.remainingWords) (by decide)
  exact ⟨state, hrun, by simpa using hoff⟩

end Connections
