import Connections.Grammar.PlainItems

/-!
# Board words behind placeholders

In a line of board words, in whatever casing, every word that the cleanup would damage is replaced
by its placeholder and no other text is.  What is left has nothing to strip, and each piece of it is
restored to the text that stood there.
-/

namespace Connections

open TextScan

/-- What the host's case folding of a pattern does to the characters that matter here: the letters
of both cases fold alike, an ASCII character that is no letter folds with itself only, and the
number of code units is kept. -/
structure IsCanonicalize (canonicalize : Char → Char) : Prop where
  toUpper : ∀ c : Char, canonicalize c.toUpper = canonicalize c
  ascii : ∀ c d : Char, d.toNat < 128 → d.isAlpha = false →
    canonicalize c = canonicalize d → c = d
  units : ∀ c d : Char, canonicalize c = canonicalize d →
    (0x10000 ≤ c.toNat ↔ 0x10000 ≤ d.toNat)

/-- A text typed in another casing of its ASCII letters. -/
def Recased (word typed : List Char) : Prop := typed.map Char.toUpper = word.map Char.toUpper

instance (word typed : List Char) : Decidable (Recased word typed) :=
  inferInstanceAs (Decidable (_ = _))

/-- The items with placeholders for those that the cleanup would damage. -/
def maskItems : ℕ → List (List Char) → List (List Char)
  | _, [] => []
  | count, item :: items =>
    if item.any isStrippable then placeholder count :: maskItems (count + 1) items
    else item :: maskItems count items

theorem maskItems_eq_nil {count : ℕ} {items : List (List Char)} :
    maskItems count items = [] ↔ items = [] := by
  cases items with
  | nil => simp [maskItems]
  | cons item items =>
    rw [maskItems]
    split
    · simp
    · simp

/-- What stands behind the first item of a line. -/
def lineRest (items : List (List Char)) : List Char :=
  if items = [] then [] else ',' :: ' ' :: joinItems items

theorem joinItems_eq_append (item : List Char) (items : List (List Char)) :
    joinItems (item :: items) = item ++ lineRest items := by
  cases items with
  | nil => simp [joinItems, lineRest]
  | cons item' items => rw [joinItems_cons, lineRest, if_neg (by simp)]

theorem lineRest_cases (items : List (List Char)) :
    lineRest items = [] ∨ ∃ r, lineRest items = ',' :: r := by
  unfold lineRest
  split
  · exact .inl rfl
  · exact .inr ⟨_, rfl⟩

section Folding

variable {canonicalize : Char → Char}

/-- What a pattern matches folds to it character by character. -/
theorem matchFolded_eq_some {word s rest : List Char}
    (h : matchFolded canonicalize word s = some rest) :
    ∃ u, s = u ++ rest ∧
      List.Forall₂ (fun p c => canonicalize p = canonicalize c) word u := by
  induction word generalizing s with
  | nil =>
    obtain rfl : s = rest := Option.some.inj h
    exact ⟨[], rfl, .nil⟩
  | cons p word ih =>
    cases s with
    | nil => simp [matchFolded] at h
    | cons c s =>
      rw [matchFolded] at h
      split at h
      · rename_i hfold
        obtain ⟨u, rfl, hu⟩ := ih h
        exact ⟨c :: u, rfl, .cons hfold hu⟩
      · simp at h

theorem matchFolded_of_forall₂ {word u : List Char} (rest : List Char)
    (h : List.Forall₂ (fun p c => canonicalize p = canonicalize c) word u) :
    matchFolded canonicalize word (u ++ rest) = some rest := by
  induction h with
  | nil => rfl
  | cons hfold _ ih => rw [List.cons_append, matchFolded, if_pos hfold, ih]

variable (hc : IsCanonicalize canonicalize)
include hc

theorem Recased.forall₂ {word typed : List Char} (h : Recased word typed) :
    List.Forall₂ (fun p c => canonicalize p = canonicalize c) word typed := by
  have heq : List.Forall₂ (· = ·) (word.map Char.toUpper) (typed.map Char.toUpper) := by
    rw [List.forall₂_eq_eq_eq]
    exact h.symm
  rw [List.forall₂_map_left_iff, List.forall₂_map_right_iff] at heq
  refine heq.imp fun p c hsame => ?_
  rw [← hc.toUpper p, ← hc.toUpper c, hsame]

/-- Texts that fold together have the same number of code units. -/
theorem utf16Length_of_forall₂ {word u : List Char}
    (h : List.Forall₂ (fun p c => canonicalize p = canonicalize c) word u) :
    utf16Length word = utf16Length u := by
  induction h with
  | nil => rfl
  | @cons p c word u hfold _ ih =>
    have hunits := hc.units p c hfold
    simp only [utf16Length, List.length_cons, List.countP_cons, decide_eq_true_eq] at ih ⊢
    by_cases hwide : 0x10000 ≤ c.toNat
    · rw [if_pos hwide, if_pos (hunits.mpr hwide)]
      omega
    · rw [if_neg hwide, if_neg (mt hunits.mp hwide)]
      omega

/-- A character that is no letter stands in both of two texts that fold together, or in none. -/
theorem not_mem_of_forall₂ {word u : List Char} {d : Char} (hd : d.toNat < 128)
    (hletter : d.isAlpha = false)
    (h : List.Forall₂ (fun p c => canonicalize p = canonicalize c) word u) (hword : d ∉ word) :
    d ∉ u := by
  induction h with
  | nil => simp
  | @cons p c word u hfold _ ih =>
    rw [List.mem_cons, not_or] at hword ⊢
    refine ⟨fun heq => hword.1 ?_, ih hword.2⟩
    exact (hc.ascii p d hd hletter (heq ▸ hfold)).symm

/-- A word without a comma that occurs at an item lies within it. -/
theorem occursAt_within {word item t : List Char} (hword : ',' ∉ word)
    (ht : t = [] ∨ ∃ r, t = ',' :: r) (h : occursAt canonicalize (item ++ t) word) :
    ∃ u v, item = u ++ v ∧
      List.Forall₂ (fun p c => canonicalize p = canonicalize c) word u := by
  obtain ⟨rest, hmatch, -⟩ := (Option.any_eq_true _ _).mp h
  obtain ⟨u, hsplit, hu⟩ := matchFolded_eq_some hmatch
  have hcomma : ',' ∉ u := not_mem_of_forall₂ hc (by decide) (by decide) hu hword
  rcases List.append_eq_append_iff.mp hsplit with ⟨v, rfl, hv⟩ | ⟨v, rfl, -⟩
  · -- The word would reach over the comma behind the item.
    cases v with
    | nil => exact ⟨item, [], by simp, by simpa using hu⟩
    | cons c v =>
      rcases ht with rfl | ⟨r, rfl⟩
      · simp at hv
      · obtain ⟨rfl, -⟩ := List.cons.inj hv
        simp at hcomma
  · exact ⟨u, v, rfl, hu⟩

end Folding

section Masking

variable {canonicalize : Char → Char} {words : List (List Char)}

/-- A character at which no word occurs is kept. -/
theorem maskFrom_cons (prev : Option Char) (count : ℕ) {c : Char} {s : List Char}
    (h : ∀ word ∈ words, occursAt canonicalize (c :: s) word = false) :
    maskFrom canonicalize words prev 0 count (c :: s) =
      (c :: (maskFrom canonicalize words (some c) 0 count s).1,
        (maskFrom canonicalize words (some c) 0 count s).2) := by
  have hnone : words.find? (occursAt canonicalize (c :: s)) = none :=
    List.find?_eq_none.mpr fun word hword => by simp [h word hword]
  rw [maskFrom, hnone, ite_self]

variable (canonicalize words) in
/-- What is left of a word that was found is skipped. -/
theorem maskFrom_skip (c : Char) (s t : List Char) (count : ℕ) :
    ∃ last, maskFrom canonicalize words (some c) s.length count (s ++ t) =
      maskFrom canonicalize words (some last) 0 count t := by
  induction s generalizing c with
  | nil => exact ⟨c, rfl⟩
  | cons d s ih => exact ih d

/-- The words that a line is searched for, longer ones first. -/
structure Searched (words : List (List Char)) : Prop where
  items : ∀ word ∈ words, IsItem word
  strippable : ∀ word ∈ words, word.any isStrippable
  sorted : words.Pairwise fun a b => utf16Length b ≤ utf16Length a

theorem isAlpha_of_isStrippable {c : Char} (h : isStrippable c) :
    c.toNat < 128 ∧ c.isAlpha = false := by
  simp only [isStrippable, List.mem_cons, List.not_mem_nil, or_false, decide_eq_true_eq] at h
  rcases h with rfl | rfl | rfl | rfl | rfl | rfl <;> exact ⟨by decide, by decide⟩

variable (hc : IsCanonicalize canonicalize) (hw : Searched words)
include hc hw

/-- No word starts with what separates two items. -/
theorem occursAt_separator {c : Char} (hsep : c = ',' ∨ c = ' ') (s : List Char)
    {word : List Char} (hword : word ∈ words) : occursAt canonicalize (c :: s) word = false := by
  have hitem := hw.items word hword
  obtain ⟨p, ps, rfl⟩ := List.exists_cons_of_ne_nil hitem.nonempty
  rw [occursAt, matchFolded, if_neg]
  · rfl
  · intro hfold
    rcases hsep with rfl | rfl
    · obtain rfl := hc.ascii p ',' (by decide) (by decide) hfold
      exact hitem.unseparated List.mem_cons_self
    · obtain rfl := hc.ascii p ' ' (by decide) (by decide) hfold
      exact absurd (head_of_trimmed hitem.trimmed) (by decide)

/-- No word occurs in a text that has nothing to strip. -/
theorem occursAt_of_clean {s t : List Char} (hs : ∀ c ∈ s, isStrippable c = false)
    (ht : t = [] ∨ ∃ r, t = ',' :: r) {word : List Char} (hword : word ∈ words) :
    occursAt canonicalize (s ++ t) word = false := by
  by_contra hoccurs
  rw [Bool.not_eq_false] at hoccurs
  obtain ⟨u, v, rfl, hu⟩ := occursAt_within hc (hw.items word hword).unseparated ht hoccurs
  obtain ⟨d, hd, hstrip⟩ := List.any_eq_true.mp (hw.strippable word hword)
  obtain ⟨hascii, hletter⟩ := isAlpha_of_isStrippable hstrip
  have hback : List.Forall₂ (fun p c => canonicalize p = canonicalize c) u word :=
    hu.flip.imp fun _ _ => Eq.symm
  refine not_mem_of_forall₂ hc hascii hletter hback (fun hmem => ?_) hd
  rw [hs d (List.mem_append_left v hmem)] at hstrip
  cases hstrip

/-- Of the words that occur at an item, the first one is as long as the item. -/
theorem find?_occursAt {item t : List Char} (ht : t = [] ∨ ∃ r, t = ',' :: r)
    (hword : ∃ word ∈ words, Recased word item) :
    ∃ word, words.find? (occursAt canonicalize (item ++ t)) = some word ∧
      word.length = item.length := by
  obtain ⟨own, hown, hrecased⟩ := hword
  have hfolds := hrecased.forall₂ hc
  have hoccurs : occursAt canonicalize (item ++ t) own := by
    rw [occursAt, matchFolded_of_forall₂ t hfolds]
    rcases ht with rfl | ⟨r, rfl⟩
    · rfl
    · rfl
  have hsome : (words.find? (occursAt canonicalize (item ++ t))).isSome :=
    List.find?_isSome.mpr ⟨own, hown, hoccurs⟩
  obtain ⟨word, hfound⟩ := Option.isSome_iff_exists.mp hsome
  refine ⟨word, hfound, ?_⟩
  obtain ⟨hhere, before, after, rfl, hbefore⟩ := List.find?_eq_some_iff_append.mp hfound
  -- The item's own word is not behind a shorter one.
  have hlong : utf16Length own ≤ utf16Length word := by
    rcases List.mem_append.mp hown with hmem | hmem
    · have hnot := hbefore own hmem
      simp [hoccurs] at hnot
    · rcases List.mem_cons.mp hmem with rfl | hmem
      · exact le_rfl
      · exact (List.pairwise_cons.mp (List.pairwise_append.mp hw.sorted).2.1).1 own hmem
  have hitem := hw.items word (List.mem_append_right _ List.mem_cons_self)
  obtain ⟨u, v, rfl, hu⟩ := occursAt_within hc hitem.unseparated ht hhere
  rw [utf16Length_of_forall₂ hc hfolds, utf16Length_of_forall₂ hc hu] at hlong
  have hv : v = [] := by
    simp only [utf16Length, List.length_append, List.countP_append] at hlong
    exact List.eq_nil_of_length_eq_zero (by omega)
  rw [hv, List.append_nil, hu.length_eq]

/-- A text that has nothing to strip is kept. -/
theorem maskFrom_clean (prev : Option Char) (count : ℕ) {s t : List Char}
    (hs : ∀ c ∈ s, isStrippable c = false) (ht : t = [] ∨ ∃ r, t = ',' :: r) :
    ∃ last, maskFrom canonicalize words prev 0 count (s ++ t) =
      (s ++ (maskFrom canonicalize words last 0 count t).1,
        (maskFrom canonicalize words last 0 count t).2) := by
  induction s generalizing prev with
  | nil => exact ⟨prev, rfl⟩
  | cons c s ih =>
    obtain ⟨last, hrest⟩ := ih (some c) fun d hd => hs d (List.mem_cons_of_mem c hd)
    refine ⟨last, ?_⟩
    rw [List.cons_append, maskFrom_cons prev count, hrest, List.cons_append]
    exact fun word hword => occursAt_of_clean hc hw hs ht hword

/-- An item that the cleanup would damage is replaced whole. -/
theorem maskFrom_protected {prev : Option Char} (hprev : prev.all isItemBoundary) (count : ℕ)
    {item t : List Char} (ht : t = [] ∨ ∃ r, t = ',' :: r) (hne : item ≠ [])
    (hword : ∃ word ∈ words, Recased word item) :
    ∃ last, maskFrom canonicalize words prev 0 count (item ++ t) =
      (placeholder count ++ (maskFrom canonicalize words last 0 (count + 1) t).1,
        item :: (maskFrom canonicalize words last 0 (count + 1) t).2) := by
  obtain ⟨word, hfound, hlength⟩ := find?_occursAt hc hw ht hword
  obtain ⟨c, s, rfl⟩ := List.exists_cons_of_ne_nil hne
  rw [List.cons_append] at hfound
  have hskip : word.length - 1 = s.length := by
    rw [hlength, List.length_cons, Nat.add_sub_cancel]
  have htake : (c :: (s ++ t)).take word.length = c :: s := by
    rw [hlength, ← List.cons_append, List.take_left]
  obtain ⟨last, hrest⟩ := maskFrom_skip canonicalize words c s t (count + 1)
  refine ⟨some last, ?_⟩
  rw [List.cons_append, maskFrom, if_pos hprev, hfound]
  simp only [hskip, hrest, htake]

/-- A line of items is masked item by item. -/
theorem maskFrom_joinItems {prev : Option Char} (hprev : prev.all isItemBoundary) (count : ℕ)
    {items : List (List Char)} (hitems : ∀ item ∈ items, item ≠ [] ∧
      (item.any isStrippable → ∃ word ∈ words, Recased word item)) :
    maskFrom canonicalize words prev 0 count (joinItems items) =
      (joinItems (maskItems count items), items.filter (·.any isStrippable)) := by
  induction items generalizing prev count with
  | nil => rfl
  | cons item items ih =>
    obtain ⟨hne, hword⟩ := hitems item List.mem_cons_self
    have hrest : ∀ last count, maskFrom canonicalize words last 0 count (lineRest items) =
        (lineRest (maskItems count items), items.filter (·.any isStrippable)) := by
      intro last count
      by_cases hnil : items = []
      · rw [hnil]
        rfl
      · have hspace : (some ' ').all isItemBoundary := rfl
        rw [lineRest, lineRest, if_neg hnil, if_neg (mt maskItems_eq_nil.mp hnil),
          maskFrom_cons last count fun word hword =>
            occursAt_separator hc hw (.inl rfl) _ hword,
          maskFrom_cons _ count fun word hword =>
            occursAt_separator hc hw (.inr rfl) _ hword,
          ih hspace count fun i hi => hitems i (List.mem_cons_of_mem item hi)]
    rw [joinItems_eq_append]
    by_cases hstrip : item.any isStrippable
    · obtain ⟨last, hprotected⟩ :=
        maskFrom_protected hc hw hprev count (lineRest_cases items) hne (hword hstrip)
      rw [hprotected, hrest, maskItems, if_pos hstrip, joinItems_eq_append,
        List.filter_cons_of_pos (by simpa using hstrip)]
    · have hclean : ∀ c ∈ item, isStrippable c = false := by simpa using hstrip
      obtain ⟨last, hkept⟩ := maskFrom_clean hc hw prev count hclean (lineRest_cases items)
      rw [hkept, hrest, maskItems, if_neg hstrip, joinItems_eq_append,
        List.filter_cons_of_neg (by simpa using hstrip)]

end Masking

section Restoring

/-- A placeholder gives back the text that it stands for. -/
theorem replaceAll_placeholder (originals : List (List Char)) (n : ℕ) :
    replaceAll (placeholderAt originals) (placeholder n) =
      originals.getD n "undefined".toList := by
  have hdigits : ∀ c ∈ Nat.toDigits 10 n, c.isDigit := fun c hc =>
    Nat.isDigit_of_mem_toDigits (by decide) (by decide) hc
  have hrepr : (toString n).toList = Nat.toDigits 10 n := Nat.toList_repr
  have hlook : placeholderAt originals ('\uE000' :: ((Nat.toDigits 10 n ++ ['\uE001']) ++ [])) =
      some (originals.getD n "undefined".toList, []) := by
    rw [placeholderAt, List.append_nil, List.takeWhile_append_of_pos hdigits,
      List.dropWhile_append_of_pos hdigits, List.takeWhile_cons_of_neg (by decide),
      List.dropWhile_cons_of_neg (by decide), List.append_nil]
    simp only [true_and, Nat.ofDigitChars_ten_toDigits]
    rw [if_pos ⟨Nat.toDigits_ne_nil, trivial⟩]
  have hscan := scan_of_match hlook
  rw [List.append_nil] at hscan
  rw [placeholder, hrepr, List.cons_append, replaceAll, hscan]
  simp [scan, scanFrom]

/-- A text without placeholders is left as it is. -/
theorem replaceAll_of_not_mem (originals : List (List Char)) {s : List Char} (h : '\uE000' ∉ s) :
    replaceAll (placeholderAt originals) s = s := by
  refine replaceAll_quiet (quiet_of_forall _ fun c hc r => ?_)
  have hne : c ≠ '\uE000' := fun heq => h (heq ▸ hc)
  rw [placeholderAt]
  cases r.dropWhile Char.isDigit with
  | nil => rfl
  | cons d rest => exact if_neg fun hand => hne hand.1

/-- The masked items are restored to the items. -/
theorem map_replaceAll_maskItems (before : List (List Char)) {items : List (List Char)}
    (hitems : ∀ item ∈ items, '\uE000' ∉ item) :
    (maskItems before.length items).map (replaceAll (placeholderAt
      (before ++ items.filter (·.any isStrippable)))) = items := by
  induction items generalizing before with
  | nil => rfl
  | cons item items ih =>
    have hrest := fun i hi => hitems i (List.mem_cons_of_mem item hi)
    by_cases hstrip : item.any isStrippable
    · have hnext := ih (before ++ [item]) hrest
      rw [List.length_append, List.length_singleton, List.append_assoc,
        List.singleton_append] at hnext
      rw [maskItems, if_pos hstrip, List.filter_cons_of_pos (by simpa using hstrip),
        List.map_cons, hnext, replaceAll_placeholder]
      simp
    · rw [maskItems, if_neg hstrip, List.filter_cons_of_neg (by simpa using hstrip),
        List.map_cons, ih before hrest, replaceAll_of_not_mem _ (hitems item List.mem_cons_self)]

end Restoring

section Protecting

/-- A piece of a line that the cleanup leaves as it is. -/
structure IsClean (piece : List Char) : Prop where
  unseparated : ',' ∉ piece
  unstripped : ∀ c ∈ piece, isStrippable c = false
  trimmed : trimChars piece = piece

theorem isClean_placeholder (n : ℕ) : IsClean (placeholder n) := by
  have hmem : ∀ c ∈ placeholder n, c = '\uE000' ∨ c.isDigit ∨ c = '\uE001' := by
    intro c hc
    have hrepr : (toString n).toList = Nat.toDigits 10 n := Nat.toList_repr
    rw [placeholder, hrepr, List.cons_append, List.mem_cons, List.mem_append,
      List.mem_singleton] at hc
    rcases hc with hc | hc | hc
    · exact .inl hc
    · exact .inr (.inl (Nat.isDigit_of_mem_toDigits (by decide) (by decide) hc))
    · exact .inr (.inr hc)
  refine ⟨fun hc => ?_, fun c hc => ?_, trimChars_eq_self ?_ ?_⟩
  · rcases hmem _ hc with h | h | h
    · cases h
    · cases h
    · cases h
  · by_contra hstrip
    rw [Bool.not_eq_false] at hstrip
    simp only [isStrippable, List.mem_cons, List.not_mem_nil, or_false, decide_eq_true_eq] at hstrip
    rcases hstrip with rfl | rfl | rfl | rfl | rfl | rfl <;>
      rcases hmem _ hc with h | h | h <;> cases h
  · intro c hc
    obtain rfl : '\uE000' = c := Option.some.inj hc
    decide
  · intro c hc
    rw [placeholder, List.getLast?_append_of_ne_nil _ (by simp), List.getLast?_singleton] at hc
    obtain rfl : '\uE001' = c := Option.some.inj hc
    decide

theorem isClean_of_mem_maskItems {count : ℕ} {items : List (List Char)}
    (hitems : ∀ item ∈ items, IsItem item) {piece : List Char}
    (hpiece : piece ∈ maskItems count items) : IsClean piece := by
  induction items generalizing count with
  | nil => cases hpiece
  | cons item items ih =>
    have hrest := fun i hi => hitems i (List.mem_cons_of_mem item hi)
    rw [maskItems] at hpiece
    split at hpiece
    · rcases List.mem_cons.mp hpiece with rfl | hpiece
      · exact isClean_placeholder count
      · exact ih hrest hpiece
    · rename_i hstrip
      rcases List.mem_cons.mp hpiece with rfl | hpiece
      · have hitem := hitems piece List.mem_cons_self
        exact ⟨hitem.unseparated, by simpa using hstrip, hitem.trimmed⟩
      · exact ih hrest hpiece

/-- A line of board words in any casing is masked to clean pieces, one for each word, and each
piece is restored to the word that was typed. -/
theorem protectBoardWords_joinItems {canonicalize : Char → Char}
    (hc : IsCanonicalize canonicalize) {boardWords : List String}
    (hboard : ∀ word ∈ boardWords, IsItem word.toList) {items : List (List Char)}
    (hitems : ∀ item ∈ items, IsItem item ∧ '\uE000' ∉ item ∧
      ∃ word ∈ boardWords, Recased word.toList item) :
    ∃ pieces, (protectBoardWords canonicalize (joinItems items) boardWords).1 = joinItems pieces ∧
      (∀ piece ∈ pieces, IsClean piece) ∧
      pieces.map (protectBoardWords canonicalize (joinItems items) boardWords).2 = items := by
  set words := ((boardWords.map String.toList).filter (·.any isStrippable)).insertionSort
    fun a b => utf16Length b ≤ utf16Length a with hwords
  have hmem : ∀ word, word ∈ words ↔ (∃ w ∈ boardWords, w.toList = word) ∧
      word.any isStrippable := by
    intro word
    rw [hwords, List.mem_insertionSort, List.mem_filter, List.mem_map]
  have hsearched : Searched words := by
    refine ⟨fun word hword => ?_, fun word hword => ((hmem word).mp hword).2, ?_⟩
    · obtain ⟨⟨w, hw, rfl⟩, -⟩ := (hmem word).mp hword
      exact hboard w hw
    · have : Std.Total fun a b : List Char => utf16Length b ≤ utf16Length a :=
        ⟨fun a b => Nat.le_total _ _⟩
      have : IsTrans (List Char) fun a b => utf16Length b ≤ utf16Length a :=
        ⟨fun a b c hab hbc => Nat.le_trans hbc hab⟩
      exact List.pairwise_insertionSort _ _
  -- What the cleanup would damage is a protected word in another casing.
  have hown : ∀ item ∈ items, item ≠ [] ∧
      (item.any isStrippable → ∃ word ∈ words, Recased word item) := by
    intro item hitem
    obtain ⟨hi, -, word, hword, hrecased⟩ := hitems item hitem
    refine ⟨hi.nonempty, fun hstrip => ⟨word.toList, (hmem _).mpr ⟨⟨word, hword, rfl⟩, ?_⟩,
      hrecased⟩⟩
    obtain ⟨c, hcmem, hcstrip⟩ := List.any_eq_true.mp hstrip
    obtain ⟨hascii, hletter⟩ := isAlpha_of_isStrippable hcstrip
    refine List.any_eq_true.mpr ⟨c, ?_, hcstrip⟩
    by_contra hnot
    exact not_mem_of_forall₂ hc hascii hletter (hrecased.forall₂ hc) hnot hcmem
  unfold protectBoardWords
  simp only [← hwords]
  split
  · rename_i hempty
    refine ⟨items, rfl, fun item hitem => ?_, List.map_id items⟩
    have hi := (hitems item hitem).1
    refine ⟨hi.unseparated, fun c hcmem => ?_, hi.trimmed⟩
    by_contra hstrip
    rw [Bool.not_eq_false] at hstrip
    obtain ⟨word, hword, -⟩ := (hown item hitem).2 (List.any_eq_true.mpr ⟨c, hcmem, hstrip⟩)
    rw [List.isEmpty_iff.mp hempty] at hword
    cases hword
  · rw [maskFrom_joinItems hc hsearched (by rfl) 0 hown]
    refine ⟨maskItems 0 items, rfl, fun piece hpiece => ?_, ?_⟩
    · exact isClean_of_mem_maskItems (fun item hitem => (hitems item hitem).1) hpiece
    · exact map_replaceAll_maskItems [] fun item hitem => (hitems item hitem).2.1

/-- The items of a masked line are the words that were typed. -/
theorem splitItems_pieces {stripped : List Char} (hstripped : ∀ c ∈ stripped, isStrippable c)
    {pieces : List (List Char)} (hclean : ∀ piece ∈ pieces, IsClean piece)
    {restore : List Char → List Char} {words : List String} (hne : words ≠ [])
    (hwords : ∀ word ∈ words, word.toList ≠ [])
    (hrestore : pieces.map restore = words.map String.toList) :
    splitItems stripped restore (joinItems pieces) = words := by
  have hspace : ' ' ∉ stripped := fun hc => absurd (hstripped _ hc) (by decide)
  have hpieces : pieces ≠ [] := by
    rintro rfl
    exact hne (List.map_eq_nil_iff.mp hrestore.symm)
  have hpiece : ∀ piece ∈ pieces, ',' ∉ piece ∧
      trimChars (piece.filter (· ∉ stripped)) = piece := by
    intro piece hpiece
    have h := hclean piece hpiece
    have hfilter : piece.filter (· ∉ stripped) = piece := by
      refine List.filter_eq_self.mpr fun c hc => decide_eq_true fun hmem => ?_
      exact absurd (hstripped c hmem) (by simp [h.unstripped c hc])
    rw [hfilter]
    exact ⟨h.unseparated, h.trimmed⟩
  have hmap : ((joinItems pieces).splitOn ',').map
      (fun w => restore (trimChars (w.filter (· ∉ stripped)))) = words.map String.toList := by
    rw [← hrestore]
    conv_rhs => rw [← map_splitOn_joinItems hspace hpieces hpiece, List.map_map]
    rfl
  have hfull : (words.map String.toList).filter (· ≠ []) = words.map String.toList := by
    refine List.filter_eq_self.mpr fun item hitem => ?_
    obtain ⟨word, hword, rfl⟩ := List.mem_map.mp hitem
    simpa using hwords word hword
  rw [splitItems, hmap, hfull, List.map_map]
  simp [Function.comp_def]

end Protecting

end Connections
