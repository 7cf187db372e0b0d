import Connections.Grammar.BoardWords
import Connections.Grammar.GroupNumbers

/-!
# The shape of a parsed answer

Whatever a reply says, each of its groups and each proposal that is there has the words of a group,
trimmed and not empty, and there are groups just when there is a proposal.  Splitting trims an item
before a placeholder in it is replaced, so what the placeholder stands for has to be trimmed itself:
a match of a trimmed board word is, when the folding of the host keeps white space apart.
-/

namespace Connections

open TextScan

/-- A folding never makes white space of anything else, nor anything else of it. -/
def KeepsSpace (canonicalize : Char → Char) : Prop :=
  ∀ c d : Char, canonicalize c = canonicalize d → isWhitespace c = isWhitespace d

/-- A word as the parser hands it on: trimmed and not empty. -/
def IsCleanWord (word : String) : Prop := word ≠ "" ∧ trim word = word

/-- As many clean words as a group has. -/
def IsCleanGroup (words : List String) : Prop :=
  words.length = GROUP_SIZE ∧ ∀ word ∈ words, IsCleanWord word

/-- The shape that the readers of an answer rely on. -/
structure WellShaped (answer : ParsedAnswer) : Prop where
  groups : ∀ group ∈ answer.groups, IsCleanGroup group
  proposalWords : ∀ words, some words ∈ answer.proposalWords → IsCleanGroup words
  groups_eq_nil : answer.groups = [] ↔ ∀ entry ∈ answer.proposalWords, entry = none

section Words

/-- A text without white space at its ends. -/
abbrev IsSolid (s : List Char) : Prop := Framed (fun c => isWhitespace c = false) s

theorem isCleanWord_ofList {s : List Char} (h : IsSolid s) : IsCleanWord (String.ofList s) := by
  refine ⟨fun hempty => h.nonempty ?_, ?_⟩
  · have htoList := congrArg String.toList hempty
    simpa using htoList
  · rw [trim_ofList, trimChars_eq_self h.head h.last]

theorem isSolid_of_trimmed {s : List Char} (hne : s ≠ []) (h : trimChars s = s) : IsSolid s := by
  refine ⟨hne, ?_, ?_⟩
  · intro c hc
    obtain ⟨rest, rfl⟩ := List.head?_eq_some_iff.mp hc
    exact head_of_trimmed h
  · intro c hc
    obtain ⟨front, rfl⟩ := List.getLast?_eq_some_iff.mp hc
    exact last_of_trimmed h

/-- What is left after trimming is trimmed. -/
theorem trimChars_trimChars (s : List Char) : trimChars (trimChars s) = trimChars s := by
  have hfront : ∀ l : List Char, ∀ c ∈ (l.dropWhile isWhitespace).head?,
      isWhitespace c = false := by
    intro l c hc
    simpa [Option.mem_def.mp hc] using List.head?_dropWhile_not isWhitespace l
  set t := s.dropWhile isWhitespace with ht
  have htrim : trimChars s = (t.reverse.dropWhile isWhitespace).reverse := rfl
  apply trimChars_eq_self
  · intro c hc
    apply hfront s c
    -- The trimmed text is a prefix of what is left behind the white space in front.
    have hfirst : trimChars s <+: t := by
      rw [htrim]
      simpa using (List.dropWhile_suffix isWhitespace (l := t.reverse)).reverse
    obtain ⟨rest, hc'⟩ := List.head?_eq_some_iff.mp hc
    obtain ⟨tail, htail⟩ := hfirst
    rw [← ht, ← htail, hc']
    rfl
  · intro c hc
    apply hfront t.reverse c
    rwa [htrim, List.getLast?_reverse] at hc

theorem isSolid_undefined : IsSolid "undefined".toList :=
  isSolid_of_trimmed (by decide) (by decide)

/-- A placeholder stands for one of the texts kept for it, or for the host's undefined. -/
theorem placeholderAt_eq_some {originals : List (List Char)} {v b rest : List Char}
    (h : placeholderAt originals v = some (b, rest)) :
    b ∈ originals ∨ b = "undefined".toList := by
  cases v with
  | nil => simp [placeholderAt] at h
  | cons c s =>
    rw [placeholderAt] at h
    split at h
    · cases h
    · split at h
      · obtain ⟨rfl, -⟩ := Prod.mk.inj (Option.some.inj h)
        rw [List.getD_eq_getElem?_getD]
        cases hget : originals[Nat.ofDigitChars 10 (s.takeWhile Char.isDigit) 0]? with
        | none => exact .inr rfl
        | some original => exact .inl (List.mem_of_getElem? hget)
      · cases h

variable {canonicalize : Char → Char}

/-- A text that folds to a solid one is solid. -/
theorem isSolid_of_forall₂ (hspace : KeepsSpace canonicalize) {word u : List Char}
    (hword : IsSolid word) (h : List.Forall₂ (fun p c => canonicalize p = canonicalize c) word u) :
    IsSolid u := by
  have hends : ∀ {a b : List Char}, List.Forall₂ (fun p c => canonicalize p = canonicalize c) a b →
      (∀ p ∈ a.head?, isWhitespace p = false) → ∀ c ∈ b.head?, isWhitespace c = false := by
    intro a b hab ha c hc
    cases hab with
    | nil => cases hc
    | @cons p d a b hfold _ =>
      obtain rfl : d = c := Option.some.inj hc
      rw [← hspace p d hfold]
      exact ha p rfl
  refine ⟨fun hnil => ?_, hends h hword.head, ?_⟩
  · subst hnil
    exact hword.nonempty (List.forall₂_nil_right_iff.mp h)
  · intro c hc
    rw [← List.head?_reverse] at hc
    refine hends (List.forall₂_reverse_iff.mpr h) ?_ c hc
    rw [List.head?_reverse]
    exact hword.last

/-- The texts kept for the placeholders are matches of the words. -/
theorem isSolid_maskFrom (hspace : KeepsSpace canonicalize) {words : List (List Char)}
    (hwords : ∀ word ∈ words, IsSolid word) (prev : Option Char) (skip count : ℕ)
    (s : List Char) : ∀ original ∈ (maskFrom canonicalize words prev skip count s).2,
      IsSolid original := by
  induction s generalizing prev skip count with
  | nil => simp [maskFrom]
  | cons c s ih =>
    cases skip with
    | succ skip => exact ih (some c) skip count
    | zero =>
      rw [maskFrom]
      split
      · rename_i word hfound
        intro original horiginal
        rcases List.mem_cons.mp horiginal with rfl | horiginal
        · obtain ⟨hbound, hfind⟩ := Option.ite_none_right_eq_some.mp hfound
          have hoccurs : occursAt canonicalize (c :: s) word := List.find?_some hfind
          cases hmatch : matchFolded canonicalize word (c :: s) with
          | none => simp [occursAt, hmatch] at hoccurs
          | some rest =>
            obtain ⟨u, hu, hfold⟩ := matchFolded_eq_some hmatch
            have hlength : u.length = word.length := hfold.length_eq.symm
            rw [hu, ← hlength, List.take_left]
            exact isSolid_of_forall₂ hspace (hwords word (List.mem_of_find?_eq_some hfind)) hfold
        · exact ih (some c) _ _ original horiginal
      · exact ih (some c) 0 count

variable (canonicalize) in
/-- What a piece of a line is restored to is solid, if anything is left of the piece. -/
theorem isSolid_restore (hspace : KeepsSpace canonicalize) {boardWords : List String}
    (hboard : ∀ word ∈ boardWords, trim word = word) (line : List Char) {piece : List Char}
    (hpiece : trimChars piece = piece)
    (hne : (protectBoardWords canonicalize line boardWords).2 piece ≠ []) :
    IsSolid ((protectBoardWords canonicalize line boardWords).2 piece) := by
  unfold protectBoardWords at hne ⊢
  dsimp only at hne ⊢
  split
  · rename_i hempty
    rw [if_pos hempty] at hne
    exact isSolid_of_trimmed hne hpiece
  · rename_i hsome
    rw [if_neg hsome] at hne
    have hpiece' : piece ≠ [] := by
      rintro rfl
      exact hne rfl
    refine (isSolid_of_trimmed hpiece' hpiece).replaceAll fun v b rest hlook => ?_
    rcases placeholderAt_eq_some hlook with hmem | rfl
    · refine isSolid_maskFrom hspace ?_ none 0 0 line b hmem
      intro word hword
      have hfilter := (List.perm_insertionSort _ _).mem_iff.mp hword
      obtain ⟨hmap, hstrippable⟩ := List.mem_filter.mp hfilter
      obtain ⟨boardWord, hin, rfl⟩ := List.mem_map.mp hmap
      refine isSolid_of_trimmed (fun hnil => ?_) ?_
      · rw [hnil] at hstrippable
        cases hstrippable
      · have htrim := congrArg String.toList (hboard boardWord hin)
        simpa [trim, trimChars] using htrim
    · exact isSolid_undefined

/-- The items of a line are clean words. -/
theorem isCleanWord_of_mem_splitItems (hspace : KeepsSpace canonicalize) {boardWords : List String}
    (hboard : ∀ word ∈ boardWords, trim word = word) (line : List Char) {stripped text : List Char}
    {word : String}
    (h : word ∈ splitItems stripped (protectBoardWords canonicalize line boardWords).2 text) :
    IsCleanWord word := by
  obtain ⟨item, hitem, rfl⟩ := List.mem_map.mp h
  obtain ⟨hmem, hne⟩ := List.mem_filter.mp hitem
  obtain ⟨w, -, rfl⟩ := List.mem_map.mp hmem
  apply isCleanWord_ofList
  exact isSolid_restore canonicalize hspace hboard line (trimChars_trimChars _)
    (of_decide_eq_true hne)

end Words

section Groups

variable {canonicalize : Char → Char} {boardWords : List String}

/-- The groups of the answer block are clean. -/
theorem isCleanGroup_parseAnswerBlock (hspace : KeepsSpace canonicalize)
    (hboard : ∀ word ∈ boardWords, trim word = word) (responseText : List Char) :
    ∀ group ∈ parseAnswerBlock canonicalize responseText boardWords, IsCleanGroup group := by
  intro group hgroup
  unfold parseAnswerBlock at hgroup
  split at hgroup
  · obtain ⟨hmem, hlength⟩ := List.mem_filter.mp hgroup
    obtain ⟨line, -, rfl⟩ := List.mem_map.mp hmem
    exact ⟨of_decide_eq_true hlength, fun word hword =>
      isCleanWord_of_mem_splitItems hspace hboard line hword⟩
  · cases hgroup

/-- The words of a line of the section are a clean group. -/
theorem isCleanGroup_wordsOfLine (hspace : KeepsSpace canonicalize)
    (hboard : ∀ word ∈ boardWords, trim word = word) {line : List Char} {words : List String}
    (h : wordsOfLine canonicalize boardWords line = some words) : IsCleanGroup words := by
  unfold wordsOfLine at h
  dsimp only at h
  obtain ⟨hlength, heq⟩ := Option.ite_none_right_eq_some.mp h
  obtain rfl := Option.some.inj heq
  exact ⟨hlength, fun word hword => isCleanWord_of_mem_splitItems hspace hboard line hword⟩

/-- The words at a position of the section are a clean group. -/
theorem isCleanGroup_parseGroups (hspace : KeepsSpace canonicalize)
    (hboard : ∀ word ∈ boardWords, trim word = word) (responseText : String) {words : List String}
    (h : some words ∈ (parseGroups canonicalize boardWords responseText.toList).parsedGroupWords) :
    IsCleanGroup words := by
  obtain ⟨i, hi⟩ := List.mem_iff_getElem?.mp h
  have hlast : (parseGroups canonicalize boardWords responseText.toList).parsedGroupWords[i]?.join =
      _ := words_parseGroups responseText i
  rw [hi, Option.join_some] at hlast
  obtain ⟨entry, hentry, hwords⟩ := List.mem_filterMap.mp (List.mem_of_getLast? hlast.symm)
  obtain ⟨chunk, -, hchunk⟩ := List.mem_filterMap.mp hentry
  obtain ⟨⟨n, said⟩, hsaid, hif⟩ := Option.bind_eq_some_iff.mp hchunk
  obtain ⟨-, hsame⟩ := Option.ite_none_right_eq_some.mp hif
  obtain rfl : said = entry := Option.some.inj hsame
  obtain ⟨digits, -, heq⟩ := Option.map_eq_some_iff.mp hsaid
  obtain ⟨rfl, rfl⟩ := Prod.mk.inj heq
  obtain ⟨-, hline⟩ := Option.ite_none_right_eq_some.mp hwords
  obtain ⟨line, -, hline⟩ := Option.bind_eq_some_iff.mp hline
  exact isCleanGroup_wordsOfLine hspace hboard hline

/-- Words are written at a position or not at all, so a list of words has some. -/
theorem exists_words_foldl (chunks : List (List Char)) (parse : GroupsParse)
    (h : parse.parsedGroupWords ≠ [] → ∃ i : ℕ, (parse.parsedGroupWords[i]?.join).isSome) :
    (chunks.foldl (GroupsParse.readChunk canonicalize boardWords) parse).parsedGroupWords ≠ [] →
      ∃ i : ℕ, ((chunks.foldl (GroupsParse.readChunk canonicalize boardWords)
        parse).parsedGroupWords[i]?.join).isSome := by
  induction chunks generalizing parse with
  | nil => exact h
  | cons chunk chunks ih =>
    refine ih _ fun hne => ?_
    cases hheading : firstMatch groupHeading chunk with
    | none =>
      have hsame : parse.readChunk canonicalize boardWords chunk = parse := by
        rw [GroupsParse.readChunk, GroupsParse.readChunkBy, hheading]
      rw [hsame] at hne ⊢
      exact h hne
    | some digits =>
      obtain ⟨n, category, words, -, -, hwords⟩ :=
        readChunk_of_heading canonicalize boardWords parse hheading
      rw [hwords] at hne ⊢
      cases words with
      | none => exact h hne
      | some words =>
        by_cases hposition : 1 ≤ n ∧ n < 2 ^ 32
        · refine ⟨n - 1, ?_⟩
          dsimp only
          rw [getElem?_setWords, if_pos (by omega)]
          rfl
        · simp only [GroupsParse.setWords, if_neg hposition, parsedGroupWords_labelled] at hne ⊢
          exact h hne

/-- If the section gave any list of words, it gave some words. -/
theorem exists_mem_parseGroups (responseText : List Char)
    (h : (parseGroups canonicalize boardWords responseText).parsedGroupWords ≠ []) :
    ∃ words, some words ∈ (parseGroups canonicalize boardWords responseText).parsedGroupWords := by
  obtain ⟨i, hi⟩ := exists_words_foldl _ _ (fun hne => absurd rfl hne) h
  obtain ⟨words, hwords⟩ := Option.isSome_iff_exists.mp hi
  exact ⟨words, List.mem_of_getElem? (Option.join_eq_some_iff.mp hwords)⟩

/-- Trimming changes nothing in a clean group. -/
theorem IsCleanGroup.map_trim {words : List String} (h : IsCleanGroup words) :
    words.map trim = words := by
  rw [List.map_congr_left fun word hword => (h.2 word hword).2, List.map_id']

/-- The shape of every answer, also of the one that the host computes. -/
theorem parseAnswer_wellShaped (canonicalize : Char → Char) (hspace : KeepsSpace canonicalize)
    (responseText : String) (boardWords : List String)
    (hboard : ∀ word ∈ boardWords, trim word = word) :
    WellShaped (parseAnswer canonicalize responseText boardWords) ∧
      ∀ fuel answer, parseAnswerWithin canonicalize responseText boardWords fuel = some answer →
        WellShaped answer := by
  have hblock := isCleanGroup_parseAnswerBlock hspace hboard responseText.toList
  have hsection : ∀ words, some words ∈ (parseGroups canonicalize boardWords
      responseText.toList).parsedGroupWords → IsCleanGroup words := fun words hwords =>
    isCleanGroup_parseGroups hspace hboard responseText hwords
  have hshape : WellShaped (parseAnswer canonicalize responseText boardWords) := by
    unfold parseAnswer
    dsimp only
    set blocks := parseAnswerBlock canonicalize responseText.toList boardWords with hblocks
    set parsed := (parseGroups canonicalize boardWords responseText.toList).parsedGroupWords
      with hparsed
    refine ⟨?_, ?_, ?_⟩
    · intro group hgroup
      split at hgroup
      · exact hblock group hgroup
      · obtain ⟨entry, hentry, heq⟩ := List.mem_filterMap.mp hgroup
        obtain rfl : entry = some group := heq
        exact hsection group hentry
    · intro words hwords
      obtain ⟨entry, hentry, heq⟩ := List.mem_map.mp hwords
      obtain ⟨source, rfl, rfl⟩ := Option.map_eq_some_iff.mp heq
      have hclean : IsCleanGroup source := by
        split at hentry
        · exact hsection source hentry
        · obtain ⟨group, hgroup, heq⟩ := List.mem_map.mp hentry
          obtain rfl := Option.some.inj heq
          exact hblock group hgroup
      rw [hclean.map_trim]
      exact hclean
    · by_cases hblocks' : 0 < blocks.length
      · -- There are groups, and a proposal from either source.
        rw [if_pos hblocks']
        obtain ⟨group, hgroup⟩ := List.exists_mem_of_length_pos hblocks'
        refine iff_of_false (List.ne_nil_of_length_pos hblocks') fun hall => ?_
        have hentry : ∃ words, some words ∈
            (if 0 < parsed.length then parsed else blocks.map some) := by
          by_cases hlength : 0 < parsed.length
          · rw [if_pos hlength]
            exact exists_mem_parseGroups _ (List.ne_nil_of_length_pos hlength)
          · rw [if_neg hlength]
            exact ⟨group, List.mem_map_of_mem hgroup⟩
        obtain ⟨words, hwords⟩ := hentry
        have hnone := hall _ (List.mem_map_of_mem hwords)
        cases hnone
      · have hnil : blocks = [] := List.eq_nil_of_length_eq_zero (Nat.eq_zero_of_not_pos hblocks')
        rw [if_neg hblocks', hnil, List.filterMap_eq_nil_iff]
        simp only [id_eq, List.map_nil, List.forall_mem_map, Option.map_eq_none_iff]
        by_cases hlength : 0 < parsed.length
        · rw [if_pos hlength]
        · rw [if_neg hlength, List.eq_nil_of_length_eq_zero (Nat.eq_zero_of_not_pos hlength)]
  refine ⟨hshape, fun fuel answer hanswer => ?_⟩
  rw [(parseAnswerWithin_eq_some hanswer).2]
  exact hshape

theorem keepsSpace_toUpper : KeepsSpace Char.toUpper := by
  intro c d h
  rw [← isWhitespace_toUpper c, h, isWhitespace_toUpper]

/-- A reply about cards that the cleanup would damage. -/
theorem parseAnswer_wellShaped_of_markedBoard :
    WellShaped (parseAnswer Char.toUpper (oneGroupReply 1 markedWords) markedBoard) ∧
      ∀ fuel answer, parseAnswerWithin Char.toUpper (oneGroupReply 1 markedWords) markedBoard fuel =
        some answer → WellShaped answer :=
  parseAnswer_wellShaped Char.toUpper keepsSpace_toUpper _ markedBoard (by decide)

end Groups

end Connections
