import Connections.Grammar.RoundTrip
import Connections.Library.AsOf

/-!
# The category beside the words

Each chunk of the section of groups writes its words and its category under its number, each over
what an earlier chunk of that number wrote.  When the last chunk of a number that says anything has
both, the words and the category of that number are the ones it has.  When no chunk has words, the
words are lines of the answer block.
-/

namespace Connections

open TextScan

/-- What a chunk says about its group. -/
structure GroupEntry where
  words : Option (List String)
  category : Option String
  deriving DecidableEq, Repr

section Entries

variable (canonicalize : Char → Char) (boardWords : List String)

/-- The words of a line, if it has as many as a group. -/
def wordsOfLine (line : List Char) : Option (List String) :=
  let (rawWordsLine, restore) := protectBoardWords canonicalize line boardWords
  let wordsLine := splitItems ['\x60', '*'] restore (replaceAll parenthetical rawWordsLine)
  if wordsLine.length = GROUP_SIZE then some wordsLine else none

/-- What a chunk says, with the number of its heading.  Words count when the number is that of a
position of an array. -/
def chunkEntry (chunk : List Char) : Option (ℕ × GroupEntry) :=
  (firstMatch groupHeading chunk).map fun digits =>
    let groupNum := Nat.ofDigitChars 10 digits 0
    (groupNum,
      { words := if 1 ≤ groupNum ∧ groupNum < 2 ^ 32 then
          (firstMatch (fieldLine "Words:") chunk).bind (wordsOfLine canonicalize boardWords)
        else none
        category := (firstMatch (fieldLine "Category:") chunk).map fun line =>
          String.ofList (trimChars line) })

/-- What a chunk says about the group of a number. -/
def entryOf (groupNum : ℕ) (chunk : List Char) : Option GroupEntry :=
  (chunkEntry canonicalize boardWords chunk).bind fun entry =>
    if entry.1 = groupNum then some entry.2 else none

/-- What the chunks of a reply say about the group of a number, from the last one that says
anything. -/
def lastEntry (responseText : String) (groupNum : ℕ) : Option GroupEntry :=
  (((groupChunks responseText.toList).filterMap (entryOf canonicalize boardWords groupNum)).filter
    fun entry => entry.words.isSome || entry.category.isSome).getLast?

/-- Some chunk of a reply gives the group of a number its words. -/
def GivesWords (responseText : String) (groupNum : ℕ) : Prop :=
  ∃ chunk ∈ groupChunks responseText.toList,
    ∃ entry ∈ entryOf canonicalize boardWords groupNum chunk, entry.words.isSome

/-- The words and the category of a number were read from one chunk of the reply. -/
def ReadTogether (responseText : String) (groupNum : ℕ) (words : List String)
    (category : String) : Prop :=
  ∃ chunk ∈ groupChunks responseText.toList, ∃ entry ∈ chunkEntry canonicalize boardWords chunk,
    entry.1 = groupNum ∧ entry.2.words.map (·.map trim) = some words ∧
      entry.2.category = some category

instance (responseText : String) (groupNum : ℕ) (words : List String) (category : String) :
    Decidable (ReadTogether canonicalize boardWords responseText groupNum words category) :=
  inferInstanceAs (Decidable (∃ chunk ∈ groupChunks responseText.toList,
    ∃ entry ∈ chunkEntry canonicalize boardWords chunk,
      entry.1 = groupNum ∧ entry.2.words.map (·.map trim) = some words ∧
        entry.2.category = some category))

end Entries

section Writing

variable {canonicalize : Char → Char} {boardWords : List String}

/-- The entry at a position, with holes and what lies behind the end as nothing. -/
theorem getElem?_setAt {α : Type} (xs : List (Option α)) (i j : ℕ) (x : α) :
    (setAt xs i x)[j]?.join = if j = i then some x else xs[j]?.join := by
  have hlength : i < (xs ++ List.replicate (i + 1 - xs.length) none).length := by
    rw [List.length_append, List.length_replicate]
    omega
  rw [setAt, List.getElem?_set]
  by_cases hj : i = j
  · subst hj
    rw [if_pos rfl, if_pos hlength, if_pos rfl]
    rfl
  · rw [if_neg hj, if_neg (Ne.symm hj)]
    by_cases hin : j < xs.length
    · rw [List.getElem?_append_left hin]
    · rw [List.getElem?_append_right (by omega), List.getElem?_replicate,
        List.getElem?_eq_none (by omega)]
      split
      · rfl
      · rfl

theorem getElem?_setWords (parse : GroupsParse) (groupNum i : ℕ) (words : List String) :
    (parse.setWords groupNum words).parsedGroupWords[i]?.join =
      if groupNum = i + 1 ∧ groupNum < 2 ^ 32 then some words
      else parse.parsedGroupWords[i]?.join := by
  unfold GroupsParse.setWords
  split
  · rename_i hposition
    rw [getElem?_setAt]
    by_cases hi : i = groupNum - 1
    · rw [if_pos hi, if_pos (by omega)]
    · rw [if_neg hi, if_neg (by omega)]
  · rw [if_neg (by omega)]

theorem categoryByGroup_setWords (parse : GroupsParse) (groupNum : ℕ) (words : List String) :
    (parse.setWords groupNum words).categoryByGroup = parse.categoryByGroup := by
  unfold GroupsParse.setWords
  split
  · rfl
  · rfl

/-- A line of four words writes them and any other line writes nothing. -/
theorem parsedGroupWords_readWords (parse : GroupsParse) (groupNum : ℕ) (line : List Char) :
    (parse.readWords canonicalize boardWords groupNum line).parsedGroupWords =
      match wordsOfLine canonicalize boardWords line with
      | some words => (parse.setWords groupNum words).parsedGroupWords
      | none => parse.parsedGroupWords := by
  have hnoted : ∀ (p : GroupsParse) (stripped : Prop) [Decidable stripped],
      (if stripped then p.addIssue .parentheticalStripped else p).parsedGroupWords =
        p.parsedGroupWords := by
    intro p stripped _
    split
    · rfl
    · rfl
  have hset : ∀ (p q : GroupsParse) (words : List String),
      p.parsedGroupWords = q.parsedGroupWords →
        (p.setWords groupNum words).parsedGroupWords =
          (q.setWords groupNum words).parsedGroupWords := by
    intro p q words h
    unfold GroupsParse.setWords
    split
    · simp only [h]
    · exact h
  unfold GroupsParse.readWords wordsOfLine
  simp only []
  split
  · exact hset _ _ _ (hnoted _ _)
  · exact hnoted _ _

theorem categoryByGroup_readWords (parse : GroupsParse) (groupNum : ℕ) (line : List Char) :
    (parse.readWords canonicalize boardWords groupNum line).categoryByGroup =
      parse.categoryByGroup := by
  have hnoted : ∀ (p : GroupsParse) (stripped : Prop) [Decidable stripped],
      (if stripped then p.addIssue .parentheticalStripped else p).categoryByGroup =
        p.categoryByGroup := by
    intro p stripped _
    split
    · rfl
    · rfl
  unfold GroupsParse.readWords
  simp only []
  split
  · rw [categoryByGroup_setWords, hnoted]
  · exact hnoted _ _

/-- A parse behind the heading of a chunk and its category. -/
def labelled (parse : GroupsParse) (groupNum : ℕ) (category : Option String) : GroupsParse :=
  let headed := { parse with maxGroupNum := max parse.maxGroupNum groupNum }
  match category with
  | some category => headed.setCategory groupNum category
  | none => headed

theorem parsedGroupWords_labelled (parse : GroupsParse) (groupNum : ℕ) (category : Option String) :
    (labelled parse groupNum category).parsedGroupWords = parse.parsedGroupWords := by
  cases category with
  | none => rfl
  | some category => rfl

theorem categoryOf_labelled (parse : GroupsParse) (n groupNum : ℕ) (category : Option String) :
    categoryOf (labelled parse n category).categoryByGroup groupNum =
      (if n = groupNum then category else none).or (categoryOf parse.categoryByGroup groupNum) := by
  cases category with
  | none => simp [labelled]
  | some category =>
    simp only [labelled, GroupsParse.setCategory, categoryOf_setCategory]
    by_cases hn : n = groupNum
    · simp [hn]
    · simp [hn, Ne.symm hn]

variable (canonicalize boardWords) in
/-- A chunk with a heading is read to its category and then to its words. -/
theorem readChunk_of_heading (parse : GroupsParse) {chunk digits : List Char}
    (h : firstMatch groupHeading chunk = some digits) :
    ∃ n category words, chunkEntry canonicalize boardWords chunk = some (n, ⟨if 1 ≤ n ∧ n < 2 ^ 32
        then words else none, category⟩) ∧
      (parse.readChunk canonicalize boardWords chunk).categoryByGroup =
        (labelled parse n category).categoryByGroup ∧
      (parse.readChunk canonicalize boardWords chunk).parsedGroupWords =
        match words with
        | some words => ((labelled parse n category).setWords n words).parsedGroupWords
        | none => parse.parsedGroupWords := by
  refine ⟨Nat.ofDigitChars 10 digits 0, (firstMatch (fieldLine "Category:") chunk).map fun line =>
    String.ofList (trimChars line), (firstMatch (fieldLine "Words:") chunk).bind
      (wordsOfLine canonicalize boardWords), ?_, ?_, ?_⟩
  · rw [chunkEntry, h]
    rfl
  · unfold GroupsParse.readChunk GroupsParse.readChunkBy
    rw [h]
    cases firstMatch (fieldLine "Words:") chunk with
    | none => cases firstMatch (fieldLine "Category:") chunk <;> rfl
    | some line =>
      simp only [categoryByGroup_readWords]
      cases firstMatch (fieldLine "Category:") chunk <;> rfl
  · unfold GroupsParse.readChunk GroupsParse.readChunkBy
    rw [h]
    cases firstMatch (fieldLine "Words:") chunk with
    | none => cases firstMatch (fieldLine "Category:") chunk <;> rfl
    | some line =>
      simp only [parsedGroupWords_readWords, Option.bind_some]
      cases wordsOfLine canonicalize boardWords line with
      | none => cases firstMatch (fieldLine "Category:") chunk <;> rfl
      | some words => cases firstMatch (fieldLine "Category:") chunk <;> rfl

theorem entryOf_bind {β : Type} {chunk : List Char} {n : ℕ} {entry : GroupEntry}
    (h : chunkEntry canonicalize boardWords chunk = some (n, entry)) (groupNum : ℕ)
    (field : GroupEntry → Option β) :
    (entryOf canonicalize boardWords groupNum chunk).bind field =
      if n = groupNum then field entry else none := by
  rw [entryOf, h, Option.bind_some]
  split
  · rfl
  · rfl

/-- A chunk writes the category that it has under its number. -/
theorem categoryOf_readChunk (parse : GroupsParse) (chunk : List Char) (groupNum : ℕ) :
    categoryOf (parse.readChunk canonicalize boardWords chunk).categoryByGroup groupNum =
      ((entryOf canonicalize boardWords groupNum chunk).bind (·.category)).or
        (categoryOf parse.categoryByGroup groupNum) := by
  cases h : firstMatch groupHeading chunk with
  | none => simp [GroupsParse.readChunk, GroupsParse.readChunkBy, entryOf, chunkEntry, h]
  | some digits =>
    obtain ⟨n, category, words, hentry, hcategory, -⟩ :=
      readChunk_of_heading canonicalize boardWords parse h
    rw [hcategory, categoryOf_labelled, entryOf_bind hentry]

/-- A chunk writes the words that it has at the position of its number. -/
theorem words_readChunk (parse : GroupsParse) (chunk : List Char) (i : ℕ) :
    (parse.readChunk canonicalize boardWords chunk).parsedGroupWords[i]?.join =
      ((entryOf canonicalize boardWords (i + 1) chunk).bind (·.words)).or
        parse.parsedGroupWords[i]?.join := by
  cases h : firstMatch groupHeading chunk with
  | none => simp [GroupsParse.readChunk, GroupsParse.readChunkBy, entryOf, chunkEntry, h]
  | some digits =>
    obtain ⟨n, category, words, hentry, -, hwords⟩ :=
      readChunk_of_heading canonicalize boardWords parse h
    rw [hwords, entryOf_bind hentry]
    cases words with
    | none => simp
    | some words =>
      rw [getElem?_setWords, parsedGroupWords_labelled]
      by_cases hn : n = i + 1
      · by_cases hlt : n < 2 ^ 32
        · rw [if_pos ⟨hn, hlt⟩, if_pos hn, if_pos ⟨by omega, hlt⟩, Option.some_or]
        · rw [if_neg fun h => hlt h.2, if_pos hn, if_neg fun h => hlt h.2, Option.none_or]
      · rw [if_neg fun h => hn h.1, if_neg hn, Option.none_or]

/-- The category of a number is the last one written under it. -/
theorem categoryOf_parseGroups (responseText : String) (groupNum : ℕ) :
    categoryOf (parseGroups canonicalize boardWords responseText.toList).categoryByGroup groupNum =
      (((groupChunks responseText.toList).filterMap
        (entryOf canonicalize boardWords groupNum)).filterMap (·.category)).getLast? := by
  have hfold := AsOf.view_foldl
    (fun parse : GroupsParse => categoryOf parse.categoryByGroup groupNum)
    (fun chunk => (entryOf canonicalize boardWords groupNum chunk).bind (·.category))
    (fun parse chunk => categoryOf_readChunk parse chunk groupNum)
  rw [List.filterMap_filterMap]
  exact (hfold _ _).trans Option.or_none

/-- The words at a position are the last ones written there. -/
theorem words_parseGroups (responseText : String) (i : ℕ) :
    (parseGroups canonicalize boardWords responseText.toList).parsedGroupWords[i]?.join =
      (((groupChunks responseText.toList).filterMap
        (entryOf canonicalize boardWords (i + 1))).filterMap (·.words)).getLast? := by
  have hfold := AsOf.view_foldl
    (fun parse : GroupsParse => parse.parsedGroupWords[i]?.join)
    (fun chunk => (entryOf canonicalize boardWords (i + 1) chunk).bind (·.words))
    (fun parse chunk => words_readChunk parse chunk i)
  rw [List.filterMap_filterMap]
  exact (hfold _ _).trans Option.or_none

/-- A number has words at its position exactly when a chunk gives them. -/
theorem givesWords_iff (responseText : String) (i : ℕ) :
    GivesWords canonicalize boardWords responseText (i + 1) ↔
      ((parseGroups canonicalize boardWords responseText.toList).parsedGroupWords[i]?.join).isSome
    := by
  rw [words_parseGroups, List.getLast?_isSome, List.filterMap_filterMap]
  constructor
  · rintro ⟨chunk, hchunk, entry, hentry, hsome⟩ hnil
    have hnone := List.filterMap_eq_nil_iff.mp hnil chunk hchunk
    rw [Option.mem_def.mp hentry, Option.bind_some] at hnone
    rw [hnone] at hsome
    cases hsome
  · intro hne
    obtain ⟨words, hwords⟩ := List.exists_mem_of_ne_nil _ hne
    obtain ⟨chunk, hchunk, hbind⟩ := List.mem_filterMap.mp hwords
    obtain ⟨entry, hentry, hfield⟩ := Option.bind_eq_some_iff.mp hbind
    exact ⟨chunk, hchunk, entry, hentry, by rw [hfield]; rfl⟩

/-- The words and the category of a number are those of the last chunk that says anything about it,
if that chunk says both. -/
theorem readTogether_of_last {responseText : String} {i : ℕ} {words : List String}
    {category : String}
    (hwords : (parseGroups canonicalize boardWords responseText.toList).parsedGroupWords[i]?.join =
      some words)
    (hcategory : categoryOf
      (parseGroups canonicalize boardWords responseText.toList).categoryByGroup (i + 1) =
        some category)
    (hlast : ∀ entry ∈ lastEntry canonicalize boardWords responseText (i + 1),
      entry.words.isSome ∧ entry.category.isSome) :
    ReadTogether canonicalize boardWords responseText (i + 1) (words.map trim) category := by
  rw [words_parseGroups] at hwords
  rw [categoryOf_parseGroups] at hcategory
  set entries := (groupChunks responseText.toList).filterMap
    (entryOf canonicalize boardWords (i + 1)) with hentries
  set speaks : GroupEntry → Bool := fun entry => entry.words.isSome || entry.category.isSome
    with hspeaks
  -- Some chunk has words, so one is the last to say anything.
  obtain ⟨speaker, hspeaker, hspoken⟩ := List.mem_filterMap.mp (List.mem_of_getLast? hwords)
  have hne : entries.filter speaks ≠ [] :=
    List.ne_nil_of_mem (List.mem_filter.mpr ⟨hspeaker, by simp [hspeaks, hspoken]⟩)
  obtain ⟨entry, hentry⟩ := Option.isSome_iff_exists.mp (List.getLast?_isSome.mpr hne)
  obtain ⟨hhas, hlabel⟩ := hlast entry hentry
  obtain ⟨own, hown⟩ := Option.isSome_iff_exists.mp hhas
  obtain ⟨label, hlabel⟩ := Option.isSome_iff_exists.mp hlabel
  rw [AsOf.getLast?_filterMap_of_last (fun e _ he => by simp [hspeaks, he]) hentry hown] at hwords
  rw [AsOf.getLast?_filterMap_of_last (fun e _ he => by simp [hspeaks, he]) hentry hlabel]
    at hcategory
  obtain ⟨hmem, -⟩ := List.mem_filter.mp (List.mem_of_getLast? hentry)
  obtain ⟨chunk, hchunk, hof⟩ := List.mem_filterMap.mp hmem
  obtain ⟨⟨n, said⟩, hsaid, hif⟩ := Option.bind_eq_some_iff.mp hof
  obtain ⟨hn, hsame⟩ := Option.ite_none_right_eq_some.mp hif
  obtain rfl : said = entry := Option.some.inj hsame
  exact ⟨chunk, hchunk, (n, said), hsaid, hn, by rw [hown, Option.map_some, Option.some.inj hwords],
    by rw [hlabel, Option.some.inj hcategory]⟩

/-- A category belongs to its words: when the last chunk of a group that says anything says both, if
any chunk gives the group its words, then the words and the category of a number were read from one
chunk, or no chunk gives words and these are a line of the answer block. -/
theorem category_belongs_to_words {responseText : String} {i : ℕ} {words : List String}
    {category : String}
    (hwords : (parseAnswer canonicalize responseText boardWords).proposalWords[i]? =
      some (some words))
    (hcategory : categoryOf (parseAnswer canonicalize responseText boardWords).categoryByGroup
      (i + 1) = some category)
    (hlast : GivesWords canonicalize boardWords responseText (i + 1) →
      ∀ entry ∈ lastEntry canonicalize boardWords responseText (i + 1),
        entry.words.isSome ∧ entry.category.isSome) :
    ReadTogether canonicalize boardWords responseText (i + 1) words category ∨
      (∀ j, ¬ GivesWords canonicalize boardWords responseText (j + 1)) ∧
        ∃ line, (parseAnswerBlock canonicalize responseText.toList boardWords)[i]? = some line ∧
          words = line.map trim := by
  unfold parseAnswer at hwords hcategory
  simp only [] at hwords hcategory
  rw [List.getElem?_map] at hwords
  obtain ⟨source, hsource, hsome⟩ := Option.map_eq_some_iff.mp hwords
  obtain ⟨line, hline, htrim⟩ := Option.map_eq_some_iff.mp hsome
  by_cases hstructured : 0 < (parseGroups canonicalize boardWords
      responseText.toList).parsedGroupWords.length
  · left
    rw [if_pos hstructured] at hsource
    have hjoin : (parseGroups canonicalize boardWords
        responseText.toList).parsedGroupWords[i]?.join = some line := by
      rw [hsource, hline]
      rfl
    have hgives : GivesWords canonicalize boardWords responseText (i + 1) := by
      rw [givesWords_iff, hjoin]
      rfl
    rw [← htrim]
    exact readTogether_of_last hjoin hcategory (hlast hgives)
  · right
    rw [if_neg hstructured, List.getElem?_map] at hsource
    obtain ⟨own, hown, heq⟩ := Option.map_eq_some_iff.mp hsource
    have hempty := List.eq_nil_of_length_eq_zero (Nat.eq_zero_of_not_pos hstructured)
    refine ⟨fun j hgives => ?_, line, ?_, htrim.symm⟩
    · rw [givesWords_iff, hempty] at hgives
      cases hgives
    · rw [hown]
      exact heq.trans hline

end Writing

/-- A reply that says its first group twice, and in full each time. -/
def correctedReply : String :=
  "### GROUPS\nGroup 1\nCategory: Fruits\nWords: APPLE, PEAR, FIG, KIWI\n" ++
    "Group 1\nCategory: Colors\nWords: RED, BLUE, PINK, GREY\n" ++
    "### ANSWER\nRED, BLUE, PINK, GREY"

theorem category_belongs_to_words_of_correctedReply :
    ReadTogether Char.toUpper [] correctedReply 1 ["RED", "BLUE", "PINK", "GREY"] "Colors" ∨
      (∀ j, ¬ GivesWords Char.toUpper [] correctedReply (j + 1)) ∧
        ∃ line, (parseAnswerBlock Char.toUpper correctedReply.toList [])[0]? = some line ∧
          ["RED", "BLUE", "PINK", "GREY"] = line.map trim := by
  refine category_belongs_to_words ?_ ?_ fun _ => ?_
  · decide +kernel
  · decide +kernel
  · decide +kernel

/-- A reply that gives a category and leaves the words to the answer block. -/
def unlistedReply : String :=
  "### GROUPS\nGroup 1\nCategory: Fruits\n\n### ANSWER\nAPPLE, BANANA, CHERRY, DATE"

/-- A reply that starts its first group again and gives two words. -/
def restartedReply : String :=
  "### GROUPS\nGroup 1\nCategory: Fruits\nWords: APPLE, PEAR, FIG, KIWI\n" ++
    "Group 1\nCategory: Colors\nWords: RED, BLUE\n" ++
    "### ANSWER\nAPPLE, PEAR, FIG, KIWI"

/-- The words of a line of the answer block come with the category of a chunk that has no words, and
the words of a chunk come with the category of a later one. -/
theorem words_beside_foreign_category :
    (parseAnswer Char.toUpper unlistedReply []).proposalWords[0]? =
        some (some ["APPLE", "BANANA", "CHERRY", "DATE"]) ∧
      categoryOf (parseAnswer Char.toUpper unlistedReply []).categoryByGroup 1 = some "Fruits" ∧
      ¬ ReadTogether Char.toUpper [] unlistedReply 1 ["APPLE", "BANANA", "CHERRY", "DATE"]
        "Fruits" ∧
      (parseAnswer Char.toUpper restartedReply []).proposalWords[0]? =
        some (some ["APPLE", "PEAR", "FIG", "KIWI"]) ∧
      categoryOf (parseAnswer Char.toUpper restartedReply []).categoryByGroup 1 = some "Colors" ∧
      ¬ ReadTogether Char.toUpper [] restartedReply 1 ["APPLE", "PEAR", "FIG", "KIWI"]
        "Colors" := by
  decide +kernel

end Connections
