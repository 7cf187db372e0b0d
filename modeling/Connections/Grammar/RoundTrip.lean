import Connections.Grammar.PlainItems
import Connections.Strategy.Conversation
import Mathlib.Data.List.Induction

/-!
# The compact restatement reads back

The compact answer of a proposal list is parsed to the same list, holes included.  The marker cuts
the text in two, the section of groups falls into one chunk per present group, each chunk gives
its category and its words back, and each line of the answer is one group.
-/

namespace Connections

open TextScan

/-- The present groups of a proposal list with their numbers. -/
def presentGroups (proposalWords : List (Option (List String))) : List (ℕ × List String) :=
  (proposalWords.mapIdx fun index words => words.map (index + 1, ·)).filterMap id

section Text

variable (categoryMap : List (ℕ × String))

/-- The line of a group's category, when it has one. -/
def categoryLine (groupNum : ℕ) : List Char :=
  match categoryOf categoryMap groupNum with
  | some category => if category = "" then [] else "Category: ".toList ++ category.toList ++ ['\n']
  | none => []

/-- The text under a heading, from its number on. -/
def headingBody (group : ℕ × List String) : List Char :=
  Nat.toDigits 10 group.1 ++ '\n' ::
    (categoryLine categoryMap group.1 ++
      ("Words: ".toList ++ (joinItems (group.2.map String.toList) ++ ['\n', '\n'])))

/-- A group as the section of groups has it, with the empty line behind it. -/
def groupChunk (group : ℕ × List String) : List Char :=
  'G' :: ("roup ".toList ++ headingBody categoryMap group)

/-- The line of a group in the answer block. -/
def answerLine (group : ℕ × List String) : List Char := joinItems (group.2.map String.toList)

/-- The section of groups between its two headings. -/
def compactSection (groups : List (ℕ × List String)) : List Char :=
  if groups = [] then ['\n', '\n', '\n']
  else '\n' :: (groups.map (groupChunk categoryMap)).flatten

/-- A heading with its category and words, as the restatement writes it. -/
def headingText (group : ℕ × List String) : String :=
  s!"Group {group.1}\n" ++
    (match categoryOf categoryMap group.1 with
      | some category => if category = "" then "" else "Category: " ++ category ++ "\n"
      | none => "") ++
    "Words: " ++ ", ".intercalate group.2

theorem toList_headingText (group : ℕ × List String) :
    (headingText categoryMap group).toList ++ ['\n', '\n'] = groupChunk categoryMap group := by
  have hcategory : (match categoryOf categoryMap group.1 with
      | some category => if category = "" then "" else "Category: " ++ category ++ "\n"
      | none => "").toList = categoryLine categoryMap group.1 := by
    unfold categoryLine
    cases categoryOf categoryMap group.1 with
    | none => rfl
    | some category =>
      by_cases h : category = ""
      · simp [h]
      · simp [h]
  have hheading : (s!"Group {group.1}\n").toList =
      "Group ".toList ++ (Nat.toDigits 10 group.1 ++ ['\n']) := by
    have hrepr : s!"Group {group.1}\n" = "Group " ++ group.1.repr ++ "\n" := rfl
    rw [hrepr, String.toList_append, String.toList_append, Nat.toList_repr, List.append_assoc]
    rfl
  simp only [headingText, String.toList_append, hheading, hcategory, String.toList_intercalate]
  simp [groupChunk, headingBody, joinItems]

theorem formatCompactAnswer_eq (proposalWords : List (Option (List String))) :
    formatCompactAnswer proposalWords categoryMap =
      "### GROUPS\n" ++ "\n\n".intercalate ((presentGroups proposalWords).map
        (headingText categoryMap)) ++ "\n\n### ANSWER\n" ++
        "\n".intercalate ((presentGroups proposalWords).map fun group =>
          ", ".intercalate group.2) :=
  rfl

theorem compactSection_eq (groups : List (ℕ × List String)) :
    '\n' :: (['\n', '\n'].intercalate (groups.map fun group =>
      (headingText categoryMap group).toList) ++ ['\n', '\n']) =
      compactSection categoryMap groups := by
  unfold compactSection
  split
  · rename_i h
    rw [h]
    rfl
  · rename_i h
    rw [intercalate_append_self (by simpa using h), List.map_map]
    simp only [Function.comp_def, toList_headingText]

/-- The restatement as a text of three parts around its two headings. -/
theorem toList_formatCompactAnswer (proposalWords : List (Option (List String))) :
    (formatCompactAnswer proposalWords categoryMap).toList =
      "### GROUPS".toList ++ (compactSection categoryMap (presentGroups proposalWords) ++
        ("### ANSWER".toList ++ '\n' ::
          ['\n'].intercalate ((presentGroups proposalWords).map answerLine))) := by
  have hlines : (presentGroups proposalWords).map answerLine =
      (presentGroups proposalWords).map fun group =>
        [',', ' '].intercalate (group.2.map String.toList) := rfl
  rw [formatCompactAnswer_eq, ← compactSection_eq, hlines]
  simp only [String.toList_append, String.toList_intercalate, List.map_map, Function.comp_def]
  simp

end Text

/-- A group that a position of an array can hold, with four plain words. -/
structure IsCompactGroup (group : ℕ × List String) : Prop where
  pos : 1 ≤ group.1
  lt : group.1 < 2 ^ 32
  size : group.2.length = GROUP_SIZE
  plain : ∀ word ∈ group.2, IsPlainItem word.toList

theorem IsCompactGroup.items {group : ℕ × List String} (h : IsCompactGroup group) :
    ∀ item ∈ group.2.map String.toList, IsPlainItem item := by
  intro item hitem
  obtain ⟨word, hword, rfl⟩ := List.mem_map.mp hitem
  exact h.plain word hword

theorem IsCompactGroup.isItems {group : ℕ × List String} (h : IsCompactGroup group) :
    ∀ item ∈ group.2.map String.toList, IsItem item :=
  fun item hitem => (h.items item hitem).isItem

/-- A map with plain categories only. -/
def PlainCategories (categoryMap : List (ℕ × String)) : Prop :=
  ∀ groupNum category, categoryOf categoryMap groupNum = some category →
    IsPlainItem category.toList

/-- A category is written as one line. -/
theorem categoryLine_of_some {categoryMap : List (ℕ × String)} {groupNum : ℕ} {category : String}
    (hplain : PlainCategories categoryMap) (h : categoryOf categoryMap groupNum = some category) :
    categoryLine categoryMap groupNum = "Category: ".toList ++ (category.toList ++ ['\n']) := by
  have hne : category ≠ "" := by
    rintro rfl
    exact (hplain _ _ h).nonempty rfl
  simp [categoryLine, h, hne]

section Headings

variable {categoryMap : List (ℕ × String)} {group : ℕ × List String}

theorem quiet_categoryLine (hplain : PlainCategories categoryMap) (groupNum : ℕ) (t : List Char) :
    Quiet groupHeading (categoryLine categoryMap groupNum) ("Words: ".toList ++ t) := by
  cases h : categoryOf categoryMap groupNum with
  | none => simp [categoryLine, h]
  | some category =>
    rw [categoryLine_of_some hplain h, quiet_append, quiet_append]
    refine ⟨?_, (hplain _ _ h).isItem.quiet (stopsHeading_break (by rfl)), ?_⟩
    · exact ⟨rfl, rfl, rfl, rfl, rfl, rfl, rfl, rfl, rfl, rfl, trivial⟩
    · exact ⟨rfl, trivial⟩

/-- No heading starts in the rest of one. -/
theorem quiet_headingRest (groupNum : ℕ) (t : List Char) :
    Quiet groupHeading ("roup ".toList ++ Nat.toDigits 10 groupNum) t := by
  have hdigits : ∀ c ∈ Nat.toDigits 10 groupNum, ∀ r, groupHeading (c :: r) = none := by
    intro c hc r
    have hdigit := Nat.isDigit_of_mem_toDigits (by decide) (by decide) hc
    refine groupHeading_cons (fun hG => ?_) r
    rw [toUpper_of_isDigit hdigit] at hG
    simp [hG] at hdigit
  rw [quiet_append]
  exact ⟨⟨rfl, rfl, rfl, rfl, rfl, trivial⟩, quiet_of_forall _ hdigits⟩

/-- No heading starts in a chunk behind its own, unless digits follow the chunk. -/
theorem quiet_headingBody (hplain : PlainCategories categoryMap) (hgroup : IsCompactGroup group)
    {t : List Char} (ht : (t.dropWhile isWhitespace).takeWhile Char.isDigit = []) :
    Quiet groupHeading ("roup ".toList ++ headingBody categoryMap group) t := by
  have hbreak : StopsHeading ('\n' :: '\n' :: t) := stopsHeading_break ht
  rw [headingBody, ← List.append_assoc, quiet_append]
  refine ⟨quiet_headingRest _ _, ?_⟩
  rw [quiet_cons, quiet_append, quiet_append, quiet_append]
  refine ⟨rfl, ?_, ?_, ?_, ?_⟩
  · rw [List.append_assoc]
    exact quiet_categoryLine hplain _ _
  · exact ⟨rfl, rfl, rfl, rfl, rfl, rfl, rfl, trivial⟩
  · exact quiet_joinItems hgroup.isItems hbreak
  · exact ⟨rfl, rfl, trivial⟩

/-- A heading gives its number. -/
theorem groupHeading_heading (groupNum : ℕ) (r : List Char) :
    groupHeading ("Group ".toList ++ (Nat.toDigits 10 groupNum ++ '\n' :: r)) =
      some (Nat.toDigits 10 groupNum) := by
  have hdigit : ∀ c ∈ Nat.toDigits 10 groupNum, c.isDigit := fun c hc =>
    Nat.isDigit_of_mem_toDigits (by decide) (by decide) hc
  obtain ⟨d, ds, hds⟩ := List.exists_cons_of_ne_nil (Nat.toDigits_ne_nil (n := groupNum) (b := 10))
  have hd : isWhitespace d = false := isWhitespace_of_isDigit (hdigit d (by simp [hds]))
  have hmatch : matchText "Group" ("Group ".toList ++ (Nat.toDigits 10 groupNum ++ '\n' :: r)) =
      some (' ' :: (Nat.toDigits 10 groupNum ++ '\n' :: r)) := rfl
  have hdrop : (' ' :: (Nat.toDigits 10 groupNum ++ '\n' :: r)).dropWhile isWhitespace =
      Nat.toDigits 10 groupNum ++ '\n' :: r := by
    rw [List.dropWhile_cons_of_pos (by rfl), hds, List.cons_append,
      List.dropWhile_cons_of_neg (by simp [hd])]
  have htake : (Nat.toDigits 10 groupNum ++ '\n' :: r).takeWhile Char.isDigit =
      Nat.toDigits 10 groupNum := by
    rw [List.takeWhile_append_of_pos hdigit, List.takeWhile_cons_of_neg (by decide),
      List.append_nil]
  simp only [groupHeading, hmatch, Option.bind_eq_bind, Option.bind_some, hdrop, htake]
  exact if_pos ⟨rfl, Nat.toDigits_ne_nil⟩

/-- A chunk opens with its heading. -/
theorem groupHeading_groupChunk (t : List Char) :
    groupHeading (groupChunk categoryMap group ++ t) = some (Nat.toDigits 10 group.1) := by
  obtain ⟨r, hr⟩ : ∃ r, groupChunk categoryMap group ++ t =
      "Group ".toList ++ (Nat.toDigits 10 group.1 ++ '\n' :: r) :=
    ⟨_, by rw [groupChunk, headingBody, List.cons_append, List.append_assoc, List.append_assoc,
      List.cons_append]; rfl⟩
  rw [hr, groupHeading_heading]

/-- The section of groups falls into its chunks. -/
theorem splitBefore_chunks (hplain : PlainCategories categoryMap)
    {groups : List (ℕ × List String)} (hgroups : ∀ group ∈ groups, IsCompactGroup group)
    (hne : groups ≠ []) :
    splitBefore groupHeading (groups.map (groupChunk categoryMap)).flatten =
      groups.map (groupChunk categoryMap) := by
  induction groups with
  | nil => exact absurd rfl hne
  | cons group groups ih =>
    have hgroup := hgroups group List.mem_cons_self
    have hbody : groupChunk categoryMap group =
      'G' :: ("roup ".toList ++ headingBody categoryMap group) := rfl
    rw [List.map_cons, List.flatten_cons]
    cases groups with
    | nil =>
      rw [List.map_nil, List.flatten_nil, List.append_nil, hbody]
      exact splitBefore_quiet_cons (quiet_headingBody hplain hgroup rfl)
    | cons group' groups =>
      have hrest := ih (fun g hg => hgroups g (List.mem_cons_of_mem group hg)) (by simp)
      have hnext : ((group' :: groups).map (groupChunk categoryMap)).flatten =
          groupChunk categoryMap group' ++ (groups.map (groupChunk categoryMap)).flatten := rfl
      have hstop : ((((group' :: groups).map (groupChunk categoryMap)).flatten).dropWhile
          isWhitespace).takeWhile Char.isDigit = [] := rfl
      rw [hbody, List.cons_append, splitBefore_append (quiet_headingBody hplain hgroup hstop),
        hrest]
      · rw [hnext, groupHeading_groupChunk]
        rfl
      · simp [groupChunk]

end Headings

section Fields

variable {categoryMap : List (ℕ × String)} {group : ℕ × List String}

/-- The text of a chunk up to the end of its heading has no field in it. -/
theorem quiet_heading (name : String) (hcolon : ':' ∈ name.toList)
    (hbreak : '\n'.toUpper ∉ name.toList.map Char.toUpper) (groupNum : ℕ) (t : List Char) :
    Quiet (fieldLine name) ("Group ".toList ++ Nat.toDigits 10 groupNum) (['\n'] ++ t) := by
  apply quiet_fieldLine hcolon hbreak
  intro hmem
  rcases List.mem_append.mp hmem with hmem | hmem
  · exact absurd hmem (by decide)
  · have hdigit := Nat.isDigit_of_mem_toDigits (by decide) (by decide) hmem
    simp at hdigit

theorem groupChunk_eq : groupChunk categoryMap group =
    ("Group ".toList ++ Nat.toDigits 10 group.1) ++ (['\n'] ++
      (categoryLine categoryMap group.1 ++
        ("Words:".toList ++
          ' ' :: (joinItems (group.2.map String.toList) ++ '\n' :: ['\n'])))) := by
  simp [groupChunk, headingBody]

theorem words_ne_nil (hgroup : IsCompactGroup group) : group.2.map String.toList ≠ [] := by
  intro h
  have hsize := hgroup.size
  rw [List.map_eq_nil_iff.mp h] at hsize
  simp [GROUP_SIZE] at hsize

/-- The line of a group has no reserved character but the commas. -/
theorem IsCompactGroup.not_mem_joinItems (hgroup : IsCompactGroup group) {c : Char}
    (hne : c ≠ ',') (hc : c ∈ reservedChars) : c ∉ joinItems (group.2.map String.toList) := by
  intro hmem
  rcases mem_joinItems hgroup.items hmem with h | h
  · exact hne h
  · exact h hc

theorem quiet_category {s : List Char} (hs : 'C' ∉ s.map Char.toUpper) (t : List Char) :
    Quiet (fieldLine "Category:") s t :=
  quiet_fieldLine_of_foreign (show "Category:".toList = 'C' :: "ategory:".toList from rfl) hs t

theorem quiet_words {s : List Char} (hs : 'W' ∉ s.map Char.toUpper) (t : List Char) :
    Quiet (fieldLine "Words:") s t :=
  quiet_fieldLine_of_foreign (show "Words:".toList = 'W' :: "ords:".toList from rfl) hs t

/-- A chunk gives back the category of its group. -/
theorem firstMatch_category (hplain : PlainCategories categoryMap)
    (hgroup : IsCompactGroup group) :
    firstMatch (fieldLine "Category:") (groupChunk categoryMap group) =
      (categoryOf categoryMap group.1).map String.toList := by
  have hheading := quiet_heading "Category:" (by decide) (by decide) group.1
  have hbreak : ∀ t, Quiet (fieldLine "Category:") ['\n'] t := quiet_category (by decide)
  rw [groupChunk_eq]
  cases h : categoryOf categoryMap group.1 with
  | none =>
    have hline : categoryLine categoryMap group.1 = [] := by simp [categoryLine, h]
    apply firstMatch_eq_none _ rfl
    rw [hline, quiet_append, List.append_nil]
    refine ⟨hheading _, quiet_append.mpr ⟨hbreak _, ?_⟩⟩
    rw [List.nil_append, quiet_append, ← List.singleton_append, quiet_append, quiet_append]
    exact ⟨quiet_category (by decide) _, quiet_category (by decide) _,
      quiet_fieldLine (by decide) (by decide) (hgroup.not_mem_joinItems (by decide) (by decide)) _,
      quiet_category (by decide) _⟩
  | some category =>
    have hitem := hplain _ _ h
    have hcut : '\n' ∉ category.toList := fun hc => hitem.unreserved _ hc (by decide)
    have hhead : ∀ c ∈ category.toList.head?, isWhitespace c = false := by
      intro c hc
      obtain ⟨s, hs⟩ := List.head?_eq_some_iff.mp hc
      exact head_of_trimmed (hs ▸ hitem.trimmed)
    have hline : categoryLine categoryMap group.1 =
        "Category:".toList ++ ' ' :: (category.toList ++ ['\n']) := by
      rw [categoryLine_of_some hplain h]
      simp
    rw [firstMatch_append (hheading _), firstMatch_append (hbreak _), hline, List.append_assoc,
      List.cons_append, List.append_assoc]
    exact firstMatch_fieldLine "Category:" hitem.nonempty hhead hcut _

/-- A chunk gives back the line of its words. -/
theorem firstMatch_words (hplain : PlainCategories categoryMap)
    (hgroup : IsCompactGroup group) :
    firstMatch (fieldLine "Words:") (groupChunk categoryMap group) =
      some (joinItems (group.2.map String.toList)) := by
  have hheading := quiet_heading "Words:" (by decide) (by decide) group.1
  have hbreak : ∀ t, Quiet (fieldLine "Words:") ['\n'] t := quiet_words (by decide)
  have hcategory : ∀ t, Quiet (fieldLine "Words:") (categoryLine categoryMap group.1) t := by
    intro t
    cases h : categoryOf categoryMap group.1 with
    | none => simp [categoryLine, h]
    | some category =>
      have hcolon : ':' ∉ category.toList := fun hc =>
        (hplain _ _ h).unreserved _ hc (by decide)
      rw [categoryLine_of_some hplain h, quiet_append, quiet_append]
      exact ⟨quiet_words (by decide) _, quiet_fieldLine (by decide) (by decide) hcolon _,
        hbreak _⟩
  have hne := joinItems_ne_nil (words_ne_nil hgroup) hgroup.isItems
  have hcut : '\n' ∉ joinItems (group.2.map String.toList) :=
    hgroup.not_mem_joinItems (by decide) (by decide)
  rw [groupChunk_eq, firstMatch_append (hheading _), firstMatch_append (hbreak _),
    firstMatch_append (hcategory _)]
  exact firstMatch_fieldLine "Words:" hne (head?_joinItems hgroup.isItems) hcut _

end Fields

section Markers

variable {categoryMap : List (ℕ × String)} {groups : List (ℕ × List String)}

theorem sign_not_mem_groupChunk (hplain : PlainCategories categoryMap)
    {group : ℕ × List String} (hgroup : IsCompactGroup group) :
    '#' ∉ groupChunk categoryMap group := by
  have hcategory : '#' ∉ categoryLine categoryMap group.1 := by
    cases h : categoryOf categoryMap group.1 with
    | none => simp [categoryLine, h]
    | some category =>
      have hsign : '#' ∉ category.toList := fun hc => (hplain _ _ h).unreserved _ hc (by decide)
      rw [categoryLine_of_some hplain h]
      simpa using hsign
  have hdigits : '#' ∉ Nat.toDigits 10 group.1 := fun hc => by
    have hdigit := Nat.isDigit_of_mem_toDigits (by decide) (by decide) hc
    simp at hdigit
  rw [groupChunk_eq]
  have hwords : '#' ∉ joinItems (group.2.map String.toList) :=
    hgroup.not_mem_joinItems (by decide) (by decide)
  simpa using ⟨hdigits, hcategory, hwords⟩

/-- No marker starts inside the section of groups. -/
theorem sign_not_mem_compactSection (hplain : PlainCategories categoryMap)
    (hgroups : ∀ group ∈ groups, IsCompactGroup group) :
    '#' ∉ compactSection categoryMap groups := by
  unfold compactSection
  split
  · decide
  · intro hmem
    rcases List.mem_cons.mp hmem with hmem | hmem
    · simp at hmem
    · obtain ⟨chunk, hchunk, hsign⟩ := List.mem_flatten.mp hmem
      obtain ⟨group, hgroup, rfl⟩ := List.mem_map.mp hchunk
      exact sign_not_mem_groupChunk hplain (hgroups group hgroup) hsign

theorem sign_not_mem_answerLines (hgroups : ∀ group ∈ groups, IsCompactGroup group) :
    '#' ∉ '\n' :: ['\n'].intercalate (groups.map answerLine) := by
  intro hmem
  rcases List.mem_cons.mp hmem with hmem | hmem
  · simp at hmem
  · rcases mem_intercalate hmem with hmem | ⟨line, hline, hsign⟩
    · simp at hmem
    · obtain ⟨group, hgroup, rfl⟩ := List.mem_map.mp hline
      exact (hgroups group hgroup).not_mem_joinItems (by decide) (by decide) hsign

theorem sign_toUpper_ne {c : Char} (hc : c ≠ '#') : '#'.toUpper ≠ c.toUpper :=
  fun h => hc (eq_of_toUpper_eq h.symm (by decide))

/-- A text without number signs is quiet for the markers. -/
theorem quiet_answerMarker {s : List Char} (hs : '#' ∉ s) (t : List Char) :
    Quiet answerMarker s t := by
  refine quiet_of_forall t fun c hc r => ?_
  have hne : c ≠ '#' := fun h => hs (h ▸ hc)
  have hsigns : matchText "##" (c :: r) = none :=
    matchText_cons (show "##".toList = '#' :: "#".toList from rfl) (sign_toUpper_ne hne) r
  rw [answerMarker_eq, hsigns]
  rfl

/-- The marker of the restatement cuts it in two. -/
theorem splitAll_compact (hplain : PlainCategories categoryMap)
    (hgroups : ∀ group ∈ groups, IsCompactGroup group) :
    splitAll answerMarker ("### GROUPS".toList ++ (compactSection categoryMap groups ++
        ("### ANSWER".toList ++ '\n' :: ['\n'].intercalate (groups.map answerLine)))) =
      ["### GROUPS".toList ++ compactSection categoryMap groups,
        '\n' :: ['\n'].intercalate (groups.map answerLine)] := by
  have hmark : answerMarker ('#' :: ("## ANSWER".toList ++
      '\n' :: ['\n'].intercalate (groups.map answerLine))) =
        some ((), '\n' :: ['\n'].intercalate (groups.map answerLine)) := rfl
  rw [← List.append_assoc]
  refine splitAll_of_one_match ?_ hmark
    (quiet_answerMarker (sign_not_mem_answerLines hgroups) [])
  rw [quiet_append]
  refine ⟨?_, quiet_answerMarker (sign_not_mem_compactSection hplain hgroups) _⟩
  exact ⟨rfl, rfl, rfl, rfl, rfl, rfl, rfl, rfl, rfl, rfl, trivial⟩

/-- The section of groups ends at the answer heading when none starts in it. -/
theorem groupsSection_of_quiet {s t : List Char}
    (h : Quiet (matchText "### ANSWER") s ("### ANSWER".toList ++ t)) :
    groupsSection ("### GROUPS".toList ++ (s ++ ("### ANSWER".toList ++ t))) = some s := by
  have hopen : firstMatch (matchText "### GROUPS")
      ("### GROUPS".toList ++ (s ++ ("### ANSWER".toList ++ t))) =
        some (s ++ ("### ANSWER".toList ++ t)) :=
    firstMatch_of_some (matchFolded_self _ _ _)
  have hclose : (matchText "### ANSWER" ("### ANSWER".toList ++ t)).isSome := by
    rw [matchText, matchFolded_self]
    rfl
  rw [groupsSection, hopen, Option.bind_some, before_append h hclose]

theorem groupsSection_compact (hplain : PlainCategories categoryMap)
    (hgroups : ∀ group ∈ groups, IsCompactGroup group) (t : List Char) :
    groupsSection ("### GROUPS".toList ++ (compactSection categoryMap groups ++
        ("### ANSWER".toList ++ t))) = some (compactSection categoryMap groups) := by
  refine groupsSection_of_quiet (quiet_of_forall _ fun c hc r => ?_)
  have hne : c ≠ '#' := fun h => sign_not_mem_compactSection hplain hgroups (h ▸ hc)
  exact matchText_cons (show "### ANSWER".toList = '#' :: "## ANSWER".toList from rfl)
    (sign_toUpper_ne hne) r

end Markers

section Reading

variable (canonicalize : Char → Char) {categoryMap : List (ℕ × String)}
  {group : ℕ × List String}

theorem protectBoardWords_nil (line : List Char) :
    protectBoardWords canonicalize line [] = (line, id) := by
  simp [protectBoardWords]

/-- A line of plain words gives its words to its group. -/
theorem readWords_joinItems (hgroup : IsCompactGroup group) (parse : GroupsParse) :
    parse.readWords canonicalize [] group.1 (joinItems (group.2.map String.toList)) =
      parse.setWords group.1 group.2 := by
  have haside : replaceAll parenthetical (joinItems (group.2.map String.toList)) =
      joinItems (group.2.map String.toList) := by
    apply replaceAll_quiet
    apply quiet_of_forall
    intro c hc r
    have hparen : c ≠ '(' := by
      rintro rfl
      exact hgroup.not_mem_joinItems (by decide) (by decide) hc
    simp [parenthetical, hparen]
  have hne : group.2 ≠ [] := by simpa using words_ne_nil hgroup
  have hwords : splitItems ['\x60', '*'] id (joinItems (group.2.map String.toList)) = group.2 :=
    splitItems_joinItems (by decide) hne hgroup.plain
  simp only [GroupsParse.readWords, protectBoardWords_nil, haside, ne_eq, not_true_eq_false,
    if_false, hwords, if_pos hgroup.size]

/-- What a chunk adds to a parse. -/
def addGroup (categoryMap : List (ℕ × String)) (parse : GroupsParse)
    (group : ℕ × List String) : GroupsParse :=
  let headed := { parse with maxGroupNum := max parse.maxGroupNum group.1 }
  let labelled := match categoryOf categoryMap group.1 with
    | some category => headed.setCategory group.1 category
    | none => headed
  labelled.setWords group.1 group.2

/-- A chunk of the restatement adds its group. -/
theorem readChunk_groupChunk (hplain : PlainCategories categoryMap)
    (hgroup : IsCompactGroup group) (parse : GroupsParse) :
    parse.readChunk canonicalize [] (groupChunk categoryMap group) =
      addGroup categoryMap parse group := by
  have hheading : firstMatch groupHeading (groupChunk categoryMap group) =
      some (Nat.toDigits 10 group.1) := by
    have hchunk : groupHeading (groupChunk categoryMap group ++ []) =
        some (Nat.toDigits 10 group.1) := groupHeading_groupChunk []
    rw [List.append_nil] at hchunk
    exact firstMatch_of_some hchunk
  simp only [GroupsParse.readChunk, GroupsParse.readChunkBy, exactInt, hheading,
    Nat.ofDigitChars_ten_toDigits, firstMatch_category hplain hgroup,
    firstMatch_words hplain hgroup, addGroup]
  rw [readWords_joinItems canonicalize hgroup]
  cases h : categoryOf categoryMap group.1 with
  | none => rfl
  | some category =>
    simp only [Option.map_some, (hplain _ _ h).trimmed, String.ofList_toList]

/-- The chunks of the section add the groups one after the other. -/
theorem foldl_readChunk_compactSection (hplain : PlainCategories categoryMap)
    {groups : List (ℕ × List String)} (hgroups : ∀ group ∈ groups, IsCompactGroup group)
    (parse : GroupsParse) :
    (splitBefore groupHeading (compactSection categoryMap groups)).foldl
      (GroupsParse.readChunk canonicalize []) parse =
        groups.foldl (addGroup categoryMap) parse := by
  have hchunks : ∀ (parse : GroupsParse), (groups.map (groupChunk categoryMap)).foldl
      (GroupsParse.readChunk canonicalize []) parse =
        groups.foldl (addGroup categoryMap) parse := by
    clear parse
    induction groups with
    | nil => intro parse; rfl
    | cons group groups ih =>
      intro parse
      rw [List.map_cons, List.foldl_cons, List.foldl_cons,
        readChunk_groupChunk canonicalize hplain (hgroups group List.mem_cons_self),
        ih fun g hg => hgroups g (List.mem_cons_of_mem group hg)]
  cases groups with
  | nil => rfl
  | cons group groups =>
    -- The line break in front of the first heading is a chunk without one.
    have hfirst : parse.readChunk canonicalize [] ['\n'] = parse := rfl
    have hnext : ((group :: groups).map (groupChunk categoryMap)).flatten =
        groupChunk categoryMap group ++ (groups.map (groupChunk categoryMap)).flatten := rfl
    have hsplit : splitBefore groupHeading
        ('\n' :: ((group :: groups).map (groupChunk categoryMap)).flatten) =
          ['\n'] :: (group :: groups).map (groupChunk categoryMap) := by
      have hheading : (groupHeading
          ((group :: groups).map (groupChunk categoryMap)).flatten).isSome := by
        rw [hnext, groupHeading_groupChunk]
        rfl
      have hcut : splitBefore groupHeading
          ('\n' :: ([] ++ ((group :: groups).map (groupChunk categoryMap)).flatten)) =
            ['\n'] :: splitBefore groupHeading
              ((group :: groups).map (groupChunk categoryMap)).flatten :=
        splitBefore_append (quiet_nil _) hheading (by simp [groupChunk])
      rwa [splitBefore_chunks hplain hgroups (by simp)] at hcut
    rw [compactSection, if_neg (by simp), hsplit, List.foldl_cons, hfirst, hchunks]

/-- The headings of the restatement are read group by group. -/
theorem parseGroups_formatCompactAnswer (hplain : PlainCategories categoryMap)
    {proposalWords : List (Option (List String))}
    (hgroups : ∀ group ∈ presentGroups proposalWords, IsCompactGroup group) :
    ∃ issues, parseGroups canonicalize [] (formatCompactAnswer proposalWords categoryMap).toList =
      (presentGroups proposalWords).foldl (addGroup categoryMap) (.start issues) := by
  rw [toList_formatCompactAnswer, parseGroups, parseGroupsBy, groupChunks,
    groupsSection_compact hplain hgroups, Option.getD_some]
  exact ⟨_, foldl_readChunk_compactSection canonicalize hplain hgroups _⟩

/-- The lines of the answer are those written for the groups. -/
theorem answerBlockLines_compact {groups : List (ℕ × List String)}
    (hgroups : ∀ group ∈ groups, IsCompactGroup group) :
    answerBlockLines ('\n' :: ['\n'].intercalate (groups.map answerLine)) =
      groups.map answerLine := by
  have hfirst : plainLines ('\n' :: ['\n'].intercalate (groups.map answerLine)) =
      plainLines (['\n'].intercalate (groups.map answerLine)) :=
    plainLines_of_all_append (w := ['\n']) (by simp [isWhitespace]) _
  rw [answerBlockLines_eq, hfirst]
  by_cases hne : groups = []
  · rw [hne]
    rfl
  · have hcut : ∀ line ∈ groups.map answerLine, '\n' ∉ line := by
      intro line hline
      obtain ⟨group, hgroup, rfl⟩ := List.mem_map.mp hline
      exact (hgroups group hgroup).not_mem_joinItems (by decide) (by decide)
    have htrim : (groups.map answerLine).map trimChars = groups.map answerLine := by
      rw [List.map_map]
      exact List.map_congr_left fun group hgroup =>
        trimChars_joinItems (hgroups group hgroup).isItems
    have hfull : (groups.map answerLine).filter (· ≠ []) = groups.map answerLine := by
      rw [List.filter_eq_self]
      intro line hline
      obtain ⟨group, hgroup, rfl⟩ := List.mem_map.mp hline
      have hgroup := hgroups group hgroup
      have hline : answerLine group ≠ [] :=
        joinItems_ne_nil (words_ne_nil hgroup) hgroup.isItems
      simpa using hline
    rw [plainLines, List.splitOn_intercalate _ hcut (by simpa using hne), htrim, hfull]

/-- The answer block of the restatement gives the words of every group. -/
theorem parseAnswerBlock_formatCompactAnswer (hplain : PlainCategories categoryMap)
    {proposalWords : List (Option (List String))}
    (hgroups : ∀ group ∈ presentGroups proposalWords, IsCompactGroup group) :
    parseAnswerBlock canonicalize (formatCompactAnswer proposalWords categoryMap).toList [] =
      (presentGroups proposalWords).map (·.2) := by
  rw [toList_formatCompactAnswer]
  generalize presentGroups proposalWords = groups at hgroups
  have hwords : ∀ group ∈ groups, answerLineWords canonicalize [] (answerLine group) =
      group.2 := by
    intro group hgroup
    have hgroup := hgroups group hgroup
    rw [answerLineWords, protectBoardWords_nil]
    exact splitItems_joinItems (by decide) (by simpa using words_ne_nil hgroup) hgroup.plain
  have hmap : (groups.map answerLine).map (answerLineWords canonicalize []) =
      groups.map (·.2) := by
    rw [List.map_map]
    exact List.map_congr_left hwords
  have hsize : (groups.map (·.2)).filter (·.length = GROUP_SIZE) = groups.map (·.2) := by
    rw [List.filter_eq_self]
    intro words hwords
    obtain ⟨group, hgroup, rfl⟩ := List.mem_map.mp hwords
    simpa using (hgroups group hgroup).size
  rw [parseAnswerBlock, splitAll_compact hplain hgroups]
  simp only [answerBlockLines_compact hgroups, hmap, hsize]

end Reading

section Holes

/-- One more entry of a list is one more group, or a hole. -/
theorem presentGroups_concat (proposalWords : List (Option (List String)))
    (words : Option (List String)) :
    presentGroups (proposalWords ++ [words]) =
      presentGroups proposalWords ++ (words.map (proposalWords.length + 1, ·)).toList := by
  rw [presentGroups, List.mapIdx_concat, List.filterMap_append, presentGroups]
  cases words <;> rfl

theorem mem_presentGroups {proposalWords : List (Option (List String))}
    {group : ℕ × List String} :
    group ∈ presentGroups proposalWords ↔
      ∃ i, proposalWords[i]? = some (some group.2) ∧ group.1 = i + 1 := by
  rw [presentGroups, List.mem_filterMap]
  constructor
  · rintro ⟨entry, hentry, hsome⟩
    obtain ⟨i, hi, rfl⟩ := List.mem_mapIdx.mp hentry
    obtain ⟨words, hwords, rfl⟩ := Option.map_eq_some_iff.mp hsome
    exact ⟨i, by rw [List.getElem?_eq_getElem hi, hwords], rfl⟩
  · rintro ⟨i, hi, hnum⟩
    obtain ⟨hlt, hget⟩ := List.getElem?_eq_some_iff.mp hi
    refine ⟨some group, List.mem_mapIdx.mpr ⟨i, hlt, ?_⟩, rfl⟩
    rw [hget, Option.map_some, ← hnum]

theorem map_snd_presentGroups (proposalWords : List (Option (List String))) :
    (presentGroups proposalWords).map (·.2) = proposalWords.filterMap id := by
  induction proposalWords using List.reverseRecOn with
  | nil => rfl
  | append_singleton xs x ih =>
    rw [presentGroups_concat, List.map_append, ih, List.filterMap_append]
    cases x <;> rfl

/-- Setting an entry behind the end of a list fills the gap with holes. -/
theorem setAt_append_holes {α : Type} (xs : List (Option α)) (k : ℕ) (x : α) :
    setAt xs (xs.length + k) x = xs ++ List.replicate k none ++ [some x] := by
  have hgap : xs.length + k + 1 - xs.length = k + 1 := by omega
  have hlen : (xs ++ List.replicate k none).length = xs.length + k := by simp
  rw [setAt, hgap, List.replicate_succ', ← List.append_assoc, ← hlen]
  simp

/-- The words put back at their numbers are the list up to its last present entry. -/
theorem foldl_setAt_presentGroups (proposalWords : List (Option (List String))) :
    ∃ k, proposalWords = (presentGroups proposalWords).foldl
        (fun xs group => setAt xs (group.1 - 1) group.2) [] ++ List.replicate k none ∧
      (∀ words, proposalWords.getLast? = some (some words) → k = 0) := by
  induction proposalWords using List.reverseRecOn with
  | nil => exact ⟨0, rfl, by simp⟩
  | append_singleton xs x ih =>
    obtain ⟨k, hk, -⟩ := ih
    rw [presentGroups_concat, List.foldl_append]
    cases x with
    | none =>
      refine ⟨k + 1, ?_, by simp⟩
      simp only [Option.map_none, Option.toList_none, List.foldl_nil]
      rw [List.replicate_succ', ← List.append_assoc, ← hk]
    | some words =>
      refine ⟨0, ?_, by simp⟩
      simp only [Option.map_some, Option.toList_some, List.foldl_cons, List.foldl_nil,
        Nat.add_sub_cancel, List.replicate_zero, List.append_nil]
      generalize (presentGroups xs).foldl
        (fun xs group => setAt xs (group.1 - 1) group.2) [] = ys at hk
      have hlen : xs.length = ys.length + k := by rw [hk]; simp
      rw [hlen, setAt_append_holes, ← hk]

end Holes

section Categories

/-- A category that was set is the one read afterwards. -/
theorem categoryOf_setCategory (categoryMap : List (ℕ × String)) (groupNum m : ℕ)
    (category : String) :
    categoryOf (setCategory categoryMap groupNum category) m =
      if m = groupNum then some category else categoryOf categoryMap m := by
  unfold setCategory
  split
  · rename_i hany
    set put : ℕ × String → ℕ × String := fun entry =>
      if entry.1 = groupNum then (groupNum, category) else entry with hput
    have hkey : ∀ entry, (put entry).1 = entry.1 := by
      intro entry
      by_cases h : entry.1 = groupNum <;> simp [hput, h]
    have hfind : (categoryMap.map put).reverse.find? (·.1 = m) =
        (categoryMap.reverse.find? (·.1 = m)).map put := by
      rw [← List.map_reverse, List.find?_map]
      simp only [Function.comp_def, hkey]
    rw [categoryOf, hfind, categoryOf]
    by_cases hm : m = groupNum
    · subst hm
      obtain ⟨entry, hentry, hnum⟩ := (List.any_eq_true).mp hany
      cases hfound : categoryMap.reverse.find? (·.1 = m) with
      | none =>
        have hnone := List.find?_eq_none.mp hfound entry (List.mem_reverse.mpr hentry)
        exact absurd hnum hnone
      | some found =>
        have hnum' : found.1 = m := by simpa using List.find?_some hfound
        simp [hput, hnum']
    · rw [if_neg hm, Option.map_map]
      apply Option.map_congr
      intro found hfound
      have hnum' : found.1 = m := by simpa using List.find?_some hfound
      have hother : found.1 ≠ groupNum := hnum' ▸ hm
      simp [hput, hother]
  · rw [categoryOf, List.reverse_append, List.reverse_singleton, List.singleton_append,
      List.find?_cons]
    by_cases hm : m = groupNum
    · simp [hm]
    · rw [if_neg hm, decide_eq_false (Ne.symm hm)]
      rfl

variable (categoryMap : List (ℕ × String))

theorem addGroup_categoryByGroup (parse : GroupsParse) (group : ℕ × List String) (m : ℕ) :
    categoryOf (addGroup categoryMap parse group).categoryByGroup m =
      if m = group.1 then (categoryOf categoryMap m).or (categoryOf parse.categoryByGroup m)
      else categoryOf parse.categoryByGroup m := by
  have hset : ∀ (p : GroupsParse) (n : ℕ) (words : List String),
      (p.setWords n words).categoryByGroup = p.categoryByGroup := by
    intro p n words
    unfold GroupsParse.setWords
    split <;> rfl
  rw [addGroup, hset]
  cases h : categoryOf categoryMap group.1 with
  | none =>
    by_cases hm : m = group.1
    · rw [if_pos hm, hm, h, Option.none_or]
    · rw [if_neg hm]
  | some category =>
    by_cases hm : m = group.1
    · simp only [GroupsParse.setCategory, categoryOf_setCategory, hm, h, Option.some_or]
    · simp only [GroupsParse.setCategory, categoryOf_setCategory, if_neg hm]

/-- The categories read are those of the groups that were added. -/
theorem foldl_addGroup_categoryByGroup (groups : List (ℕ × List String)) (parse : GroupsParse)
    (m : ℕ) : categoryOf (groups.foldl (addGroup categoryMap) parse).categoryByGroup m =
      if m ∈ groups.map (·.1) then
        (categoryOf categoryMap m).or (categoryOf parse.categoryByGroup m)
      else categoryOf parse.categoryByGroup m := by
  induction groups generalizing parse with
  | nil => rfl
  | cons group groups ih =>
    rw [List.foldl_cons, ih, addGroup_categoryByGroup]
    by_cases hm : m = group.1
    · by_cases hrest : m ∈ groups.map (·.1)
      · rw [if_pos hrest, if_pos hm, if_pos (by simp [hm])]
        cases categoryOf categoryMap m <;> rfl
      · rw [if_neg hrest, if_pos hm, if_pos (by simp [hm])]
    · by_cases hrest : m ∈ groups.map (·.1)
      · rw [if_pos hrest, if_neg hm, if_pos (by
          rw [List.map_cons]
          exact List.mem_cons_of_mem _ hrest)]
      · rw [if_neg hrest, if_neg hm, if_neg (by simpa [hm] using hrest)]

theorem foldl_addGroup_parsedGroupWords {groups : List (ℕ × List String)}
    (hgroups : ∀ group ∈ groups, IsCompactGroup group) (parse : GroupsParse) :
    (groups.foldl (addGroup categoryMap) parse).parsedGroupWords =
      groups.foldl (fun xs group => setAt xs (group.1 - 1) group.2) parse.parsedGroupWords := by
  induction groups generalizing parse with
  | nil => rfl
  | cons group groups ih =>
    have hgroup := hgroups group List.mem_cons_self
    have hadd : (addGroup categoryMap parse group).parsedGroupWords =
        setAt parse.parsedGroupWords (group.1 - 1) group.2 := by
      rw [addGroup, GroupsParse.setWords, if_pos ⟨hgroup.pos, hgroup.lt⟩]
      cases categoryOf categoryMap group.1 <;> rfl
    rw [List.foldl_cons, List.foldl_cons, ih fun g hg => hgroups g (List.mem_cons_of_mem group hg),
      hadd]

end Categories

/-- A proposal list as a reply gives it: an array with holes whose last entry is present, with
groups of four plain words. -/
structure IsProposalList (proposalWords : List (Option (List String))) : Prop where
  length_lt : proposalWords.length < 2 ^ 32
  last_present : ∀ entry, proposalWords.getLast? = some entry → entry.isSome
  size : ∀ words, some words ∈ proposalWords → words.length = GROUP_SIZE
  plain : ∀ words, some words ∈ proposalWords → ∀ word ∈ words, IsPlainItem word.toList

theorem IsProposalList.groups {proposalWords : List (Option (List String))}
    (h : IsProposalList proposalWords) :
    ∀ group ∈ presentGroups proposalWords, IsCompactGroup group := by
  intro group hgroup
  obtain ⟨i, hi, hnum⟩ := mem_presentGroups.mp hgroup
  have hmem := List.mem_of_getElem? hi
  have hlt := (List.getElem?_eq_some_iff.mp hi).1
  have hlen := h.length_lt
  exact ⟨by omega, by omega, h.size _ hmem, h.plain _ hmem⟩

theorem IsPlainItem.trim_eq {word : String} (h : IsPlainItem word.toList) : trim word = word := by
  have hword := trim_ofList word.toList
  rwa [h.trimmed, String.ofList_toList] at hword

theorem IsProposalList.map_trim {proposalWords : List (Option (List String))}
    (h : IsProposalList proposalWords) :
    proposalWords.map (·.map (·.map trim)) = proposalWords := by
  have hentry : ∀ entry ∈ proposalWords, entry.map (·.map trim) = id entry := by
    intro entry hmem
    cases entry with
    | none => rfl
    | some words =>
      have hwords : words.map trim = words.map id :=
        List.map_congr_left fun word hword => (h.plain words hmem word hword).trim_eq
      rw [Option.map_some, hwords, List.map_id, id_eq]
  rw [List.map_congr_left hentry, List.map_id]

/-- A group number is among the present groups when its entry is no hole. -/
theorem mem_numbers_presentGroups {proposalWords : List (Option (List String))} {m : ℕ} :
    m ∈ (presentGroups proposalWords).map (·.1) ↔
      1 ≤ m ∧ (proposalWords[m - 1]?.join).isSome := by
  constructor
  · intro hm
    obtain ⟨group, hgroup, rfl⟩ := List.mem_map.mp hm
    obtain ⟨i, hi, hnum⟩ := mem_presentGroups.mp hgroup
    refine ⟨by omega, ?_⟩
    rw [hnum, Nat.add_sub_cancel, hi]
    rfl
  · rintro ⟨hpos, hsome⟩
    obtain ⟨words, hwords⟩ := Option.isSome_iff_exists.mp hsome
    rw [Option.join_eq_some_iff] at hwords
    exact List.mem_map.mpr ⟨(m, words), mem_presentGroups.mpr ⟨m - 1, hwords, by omega⟩, rfl⟩

/-- The words read back are the proposal list: nothing follows its last present entry. -/
theorem IsProposalList.foldl_setAt {proposalWords : List (Option (List String))}
    (h : IsProposalList proposalWords) :
    (presentGroups proposalWords).foldl (fun xs group => setAt xs (group.1 - 1) group.2) [] =
      proposalWords := by
  obtain ⟨k, hk, hlast⟩ := foldl_setAt_presentGroups proposalWords
  have hzero : k = 0 := by
    cases hentry : proposalWords.getLast? with
    | none =>
      rw [List.getLast?_eq_none_iff.mp hentry] at hk
      have hlen := congrArg List.length hk
      rw [List.length_append, List.length_replicate, List.length_nil] at hlen
      omega
    | some entry =>
      obtain ⟨words, rfl⟩ := Option.isSome_iff_exists.mp (h.last_present entry hentry)
      exact hlast words hentry
  rw [hzero, List.replicate_zero, List.append_nil] at hk
  exact hk.symm

/-- The compact restatement of a proposal list reads back as that list, with the categories of its
present groups. -/
theorem parseAnswer_formatCompactAnswer (canonicalize : Char → Char)
    (proposalWords : List (Option (List String))) (categoryMap : List (ℕ × String))
    (hproposals : IsProposalList proposalWords) (hplain : PlainCategories categoryMap) :
    (parseAnswer canonicalize (formatCompactAnswer proposalWords categoryMap) []).proposalWords =
        proposalWords ∧
      (∀ groupNum, categoryOf (parseAnswer canonicalize
          (formatCompactAnswer proposalWords categoryMap) []).categoryByGroup groupNum =
        if 1 ≤ groupNum ∧ (proposalWords[groupNum - 1]?.join).isSome then
          categoryOf categoryMap groupNum
        else none) ∧
      (parseAnswer canonicalize (formatCompactAnswer proposalWords categoryMap) []).groups =
        proposalWords.filterMap id := by
  have hgroups := hproposals.groups
  obtain ⟨issues, hparse⟩ := parseGroups_formatCompactAnswer canonicalize hplain hgroups
  have hblock := parseAnswerBlock_formatCompactAnswer canonicalize hplain hgroups
  rw [map_snd_presentGroups] at hblock
  have hwords := foldl_addGroup_parsedGroupWords categoryMap hgroups (.start issues)
  rw [← hparse, GroupsParse.start, hproposals.foldl_setAt] at hwords
  refine ⟨?_, ?_, ?_⟩
  · simp only [parseAnswer, hblock, hwords]
    split
    · exact hproposals.map_trim
    · rename_i hempty
      obtain rfl : proposalWords = [] := by simpa using hempty
      rfl
  · intro groupNum
    have hcategory := foldl_addGroup_categoryByGroup categoryMap
      (presentGroups proposalWords) (.start issues) groupNum
    have hnone : categoryOf (GroupsParse.start issues).categoryByGroup groupNum = none := rfl
    rw [← hparse, hnone, Option.or_none] at hcategory
    simp only [parseAnswer, hcategory, mem_numbers_presentGroups]
  · simp only [parseAnswer, hblock, hwords]
    split <;> rfl

/-- A second group behind a hole, with its category, reads back behind the hole. -/
theorem second_group_reads_back :
    let parsed := parseAnswer Char.toUpper
      (formatCompactAnswer [none, some ["RED", "BLUE", "GREEN", "YELLOW"]] [(2, "Colors")]) []
    parsed.proposalWords = [none, some ["RED", "BLUE", "GREEN", "YELLOW"]] ∧
      categoryOf parsed.categoryByGroup 2 = some "Colors" ∧
      parsed.groups = [["RED", "BLUE", "GREEN", "YELLOW"]] := by
  have hproposals : IsProposalList [none, some ["RED", "BLUE", "GREEN", "YELLOW"]] := by
    refine ⟨by decide, by simp, by simp [GROUP_SIZE], fun words hwords => ?_⟩
    obtain rfl : words = ["RED", "BLUE", "GREEN", "YELLOW"] := by simpa using hwords
    decide +kernel
  have hplain : PlainCategories [(2, "Colors")] := by
    intro groupNum category h
    obtain ⟨entry, hentry, rfl⟩ := Option.map_eq_some_iff.mp h
    obtain rfl : entry = (2, "Colors") := by simpa using List.mem_of_find?_eq_some hentry
    decide +kernel
  obtain ⟨hwords, hcategories, hgroups⟩ :=
    parseAnswer_formatCompactAnswer Char.toUpper _ _ hproposals hplain
  exact ⟨hwords, hcategories 2, hgroups⟩

end Connections
