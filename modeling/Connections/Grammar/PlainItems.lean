import Connections.Grammar.AnswerLines

/-!
# Plain items and lines made of them

An item stands on one line without commas, outer white space and group headings; it is plain when
it has none of the other characters that the grammar gives a meaning to either.  No heading starts
in a line of items, and a line of plain items is read back item by item, whatever the cleanup
strips.
-/

namespace Connections

open TextScan

/-- The characters that separate, mark up or end the items of a line. -/
def reservedChars : List Char := ['\n', ',', ':', '\x60', '*', '#', '-', '(', ')']

/-- A text that can stand as a word or a category without being misread. -/
structure IsPlainItem (item : List Char) : Prop where
  nonempty : item ≠ []
  trimmed : trimChars item = item
  unreserved : ∀ c ∈ item, c ∉ reservedChars
  no_heading : firstMatch groupHeading item = none

instance (item : List Char) : Decidable (IsPlainItem item) :=
  decidable_of_iff (item ≠ [] ∧ trimChars item = item ∧ item.all (· ∉ reservedChars) ∧
      firstMatch groupHeading item = none)
    ⟨fun ⟨h₁, h₂, h₃, h₄⟩ => ⟨h₁, h₂, by simpa using h₃, h₄⟩,
      fun h => ⟨h.nonempty, h.trimmed, by simpa using h.unreserved, h.no_heading⟩⟩

/-- A text that can stand between the commas of a line. -/
structure IsItem (item : List Char) : Prop where
  nonempty : item ≠ []
  trimmed : trimChars item = item
  unseparated : ',' ∉ item
  unbroken : '\n' ∉ item
  no_heading : firstMatch groupHeading item = none

instance (item : List Char) : Decidable (IsItem item) :=
  decidable_of_iff (item ≠ [] ∧ trimChars item = item ∧ ',' ∉ item ∧ '\n' ∉ item ∧
      firstMatch groupHeading item = none)
    ⟨fun ⟨h₁, h₂, h₃, h₄, h₅⟩ => ⟨h₁, h₂, h₃, h₄, h₅⟩,
      fun h => ⟨h.nonempty, h.trimmed, h.unseparated, h.unbroken, h.no_heading⟩⟩

theorem IsPlainItem.isItem {item : List Char} (h : IsPlainItem item) : IsItem item where
  nonempty := h.nonempty
  trimmed := h.trimmed
  unseparated hc := h.unreserved _ hc (by decide)
  unbroken hc := h.unreserved _ hc (by decide)
  no_heading := h.no_heading

section Characters

/-- Only the small letters have an upper case of their own. -/
theorem toUpper_cases (c : Char) :
    (c.toUpper = c ∧ ¬ (97 ≤ c.toNat ∧ c.toNat ≤ 122)) ∨
      (97 ≤ c.toNat ∧ c.toNat ≤ 122 ∧ c.toUpper.toNat + 32 = c.toNat) := by
  have ha : ('a'.val).toNat = 97 := rfl
  have hz : ('z'.val).toNat = 122 := rfl
  unfold Char.toUpper
  split
  · rename_i hletter
    obtain ⟨hlo, hhi⟩ := hletter
    rw [UInt32.le_iff_toNat_le] at hlo hhi
    have hshift : ('A'.val - 'a'.val).toNat = 4294967264 := rfl
    refine .inr ?_
    simp only [Char.toNat, UInt32.toNat_add] at hlo hhi ⊢
    omega
  · rename_i hletter
    refine .inl ⟨rfl, fun hrange => hletter ?_⟩
    simp only [UInt32.le_iff_toNat_le, ha, hz]
    exact hrange

/-- A character that is no letter lies in neither of the two ranges. -/
theorem ranges_of_not_isAlpha {c : Char} (h : c.isAlpha = false) :
    ¬ (65 ≤ c.toNat ∧ c.toNat ≤ 90) ∧ ¬ (97 ≤ c.toNat ∧ c.toNat ≤ 122) := by
  obtain ⟨hupper, hlower⟩ : c.isUpper = false ∧ c.isLower = false := Bool.or_eq_false_iff.mp h
  have hnotUpper : ¬ (c.val ≥ 'A'.val ∧ c.val ≤ 'Z'.val) := of_decide_eq_false hupper
  have hnotLower := Bool.and_eq_false_iff.mp hlower
  simp only [decide_eq_false_iff_not, UInt32.le_iff_toNat_le, ge_iff_le] at hnotUpper hnotLower
  have hA : ('A'.val).toNat = 65 := rfl
  have hZ : ('Z'.val).toNat = 90 := rfl
  have ha : ('a'.val).toNat = 97 := rfl
  have hz : ('z'.val).toNat = 122 := rfl
  have hnat : c.val.toNat = c.toNat := rfl
  constructor
  · omega
  · omega

/-- A character that is no letter is the upper case of itself only. -/
theorem eq_of_toUpper_eq {c d : Char} (h : c.toUpper = d) (hd : d.isAlpha = false) : c = d := by
  rcases toUpper_cases c with ⟨hsame, -⟩ | ⟨hlo, hhi, hupper⟩
  · exact hsame.symm.trans h
  · rw [h] at hupper
    have hrange := (ranges_of_not_isAlpha hd).1
    omega

theorem toUpper_toUpper (c : Char) : c.toUpper.toUpper = c.toUpper := by
  rcases toUpper_cases c with ⟨hsame, -⟩ | ⟨hlo, hhi, hupper⟩
  · rw [hsame, hsame]
  · rcases toUpper_cases c.toUpper with ⟨hsame, -⟩ | ⟨hlo', -, -⟩
    · exact hsame
    · omega

theorem isWhitespace_toUpper (c : Char) : isWhitespace c.toUpper = isWhitespace c := by
  rcases toUpper_cases c with ⟨hsame, -⟩ | ⟨hlo, hhi, hupper⟩
  · rw [hsame]
  · rw [Bool.eq_iff_iff]
    simp only [isWhitespace, List.mem_cons, List.not_mem_nil, or_false, Bool.or_eq_true,
      Bool.and_eq_true, decide_eq_true_eq]
    omega

theorem isDigit_toUpper (c : Char) : c.toUpper.isDigit = c.isDigit := by
  rcases toUpper_cases c with ⟨hsame, -⟩ | ⟨hlo, hhi, hupper⟩
  · rw [hsame]
  · rw [Bool.eq_iff_iff, Char.isDigit_iff_toNat, Char.isDigit_iff_toNat]
    have h9 : '9'.toNat = 57 := rfl
    omega

theorem toUpper_of_isDigit {c : Char} (h : c.isDigit) : c.toUpper = c := by
  have hc := (Char.isDigit_iff_toNat.mp h).2
  have h9 : '9'.toNat = 57 := rfl
  rcases toUpper_cases c with ⟨hsame, -⟩ | ⟨hlo, -, -⟩
  · exact hsame
  · omega

theorem isWhitespace_of_isDigit {c : Char} (h : c.isDigit) : isWhitespace c = false := by
  obtain ⟨hlo, hhi⟩ := Char.isDigit_iff_toNat.mp h
  have h0 : '0'.toNat = 48 := rfl
  have h9 : '9'.toNat = 57 := rfl
  simp only [isWhitespace, List.mem_cons, List.not_mem_nil, or_false, Bool.or_eq_false_iff,
    decide_eq_false_iff_not, Bool.and_eq_false_iff]
  omega

end Characters

section Trimmed

theorem length_trimChars_le (s : List Char) : (trimChars s).length ≤ s.length := by
  obtain ⟨w, w', hs, -, -⟩ := exists_trimChars s
  have hlen := congrArg List.length hs
  simp only [List.length_append] at hlen
  omega

/-- A trimmed text starts with no white space. -/
theorem head_of_trimmed {c : Char} {s : List Char} (h : trimChars (c :: s) = c :: s) :
    isWhitespace c = false := by
  by_contra hc
  have hcut := trimChars_cons (by simpa using hc) s
  have hlen := length_trimChars_le s
  rw [← hcut, h, List.length_cons] at hlen
  omega

/-- A trimmed text ends with no white space. -/
theorem last_of_trimmed {c : Char} {s : List Char} (h : trimChars (s ++ [c]) = s ++ [c]) :
    isWhitespace c = false := by
  by_contra hc
  have hcut := trimChars_append s (w := [c]) (by simpa using hc)
  have hlen := length_trimChars_le s
  rw [← hcut, h, List.length_append, List.length_singleton] at hlen
  omega

/-- A text without white space at its ends is trimmed. -/
theorem trimChars_eq_self {s : List Char} (hhead : ∀ c ∈ s.head?, isWhitespace c = false)
    (hlast : ∀ c ∈ s.getLast?, isWhitespace c = false) : trimChars s = s := by
  have hdrop : ∀ l : List Char, (∀ c ∈ l.head?, isWhitespace c = false) →
      l.dropWhile isWhitespace = l := by
    intro l hl
    cases l with
    | nil => rfl
    | cons c l => rw [List.dropWhile_cons, if_neg (by simp [hl c rfl])]
  rw [trimChars, hdrop s hhead, hdrop s.reverse (by rwa [List.head?_reverse]), List.reverse_reverse]

end Trimmed

section Heading

theorem groupHeading_cons {c : Char} (hc : c.toUpper ≠ 'G') (s : List Char) :
    groupHeading (c :: s) = none := by
  have hmatch : matchText "Group" (c :: s) = none :=
    matchText_cons (show "Group".toList = 'G' :: "roup".toList from rfl) (Ne.symm hc) s
  simp [groupHeading, hmatch]

/-- What may follow an item: a character of its own, and no digits behind white space. -/
structure StopsHeading (t : List Char) : Prop where
  exists_cons : ∃ c r, t = c :: r ∧ c.toUpper ∉ "Group".toList.map Char.toUpper
  no_number : t.head?.any isWhitespace → (t.dropWhile isWhitespace).takeWhile Char.isDigit = []

theorem stopsHeading_comma (r : List Char) : StopsHeading (',' :: r) where
  exists_cons := ⟨',', r, rfl, by decide⟩
  no_number h := by simp [isWhitespace] at h

theorem stopsHeading_break {r : List Char}
    (h : (r.dropWhile isWhitespace).takeWhile Char.isDigit = []) : StopsHeading ('\n' :: r) where
  exists_cons := ⟨'\n', r, rfl, by decide⟩
  no_number _ := by simpa [isWhitespace] using h

/-- A heading that starts in an item without white space at its end lies within the item. -/
theorem groupHeading_append {s t : List Char} (ht : StopsHeading t)
    (hlast : ∀ c ∈ s.getLast?, isWhitespace c = false) (h : groupHeading s = none) :
    groupHeading (s ++ t) = none := by
  obtain ⟨c, r, rfl, hc⟩ := ht.exists_cons
  cases hs : matchText "Group" s with
  | none =>
    have hst := matchText_append hc s r
    simp [groupHeading, hst, hs]
  | some rest =>
    have hst := matchText_append hc s r
    rw [hs, Option.map_some] at hst
    simp only [groupHeading, hs, hst, Option.bind_eq_bind, Option.bind_some, ite_eq_right_iff,
      reduceCtorEq, imp_false, not_and, not_not] at h ⊢
    cases rest with
    | nil => exact ht.no_number
    | cons d rest =>
      intro hd
      -- The last character of the item stops the white space, so the digits would be its own.
      have hspace : (d :: rest).dropWhile isWhitespace ≠ [] := by
        intro hnil
        have hall := List.dropWhile_eq_nil_iff.mp hnil
        have hmem := List.getLast_mem (List.cons_ne_nil d rest)
        have hlast' := hlast ((d :: rest).getLast (List.cons_ne_nil d rest)) (by
          obtain ⟨u, rfl⟩ := matchFolded_suffix hs
          rw [List.getLast?_append_of_ne_nil _ (List.cons_ne_nil d rest)]
          exact List.getLast?_eq_some_getLast _)
        rw [hall _ hmem] at hlast'
        simp at hlast'
      obtain ⟨e, rest', he⟩ := List.exists_cons_of_ne_nil hspace
      have hdigit := h (by simpa using hd)
      rw [List.dropWhile_append, if_neg (by simp [he]), he]
      rw [he, List.takeWhile_cons] at hdigit
      rw [List.cons_append, List.takeWhile_cons]
      split at hdigit
      · simp at hdigit
      · rename_i hne
        rw [if_neg hne]

/-- No heading starts in an item. -/
theorem IsItem.quiet {item t : List Char} (h : IsItem item) (ht : StopsHeading t) :
    Quiet groupHeading item t := by
  refine quiet_of_suffix fun v hv hs => ?_
  apply groupHeading_append ht _ (eq_none_of_firstMatch h.no_heading hs)
  intro c hc
  obtain ⟨u, rfl⟩ := hs
  obtain ⟨v, rfl⟩ := List.getLast?_eq_some_iff.mp hc
  rw [← List.append_assoc] at h
  exact last_of_trimmed h.trimmed

end Heading

section Lines

/-- Items on one line. -/
def joinItems (items : List (List Char)) : List Char := [',', ' '].intercalate items

theorem joinItems_cons (item item' : List Char) (items : List (List Char)) :
    joinItems (item :: item' :: items) = item ++ ',' :: ' ' :: joinItems (item' :: items) := by
  simp [joinItems]

variable {items : List (List Char)}

/-- The line of plain items has no reserved character but the commas. -/
theorem mem_joinItems (h : ∀ item ∈ items, IsPlainItem item) {c : Char}
    (hc : c ∈ joinItems items) : c = ',' ∨ c ∉ reservedChars := by
  rcases mem_intercalate hc with hc | ⟨item, hitem, hc⟩
  · rcases List.mem_cons.mp hc with rfl | hc
    · exact .inl rfl
    · obtain rfl := List.mem_singleton.mp hc
      exact .inr (by decide)
  · exact .inr ((h item hitem).unreserved c hc)

theorem joinItems_ne_nil (hne : items ≠ []) (h : ∀ item ∈ items, IsItem item) :
    joinItems items ≠ [] := by
  obtain ⟨item, items, rfl⟩ := List.exists_cons_of_ne_nil hne
  have hitem := (h item List.mem_cons_self).nonempty
  cases items with
  | nil => simpa [joinItems] using hitem
  | cons item' items => simp [joinItems_cons]

theorem head?_joinItems (h : ∀ item ∈ items, IsItem item) :
    ∀ c ∈ (joinItems items).head?, isWhitespace c = false := by
  intro c hc
  cases items with
  | nil => simp [joinItems] at hc
  | cons item items =>
    have hitem := h item List.mem_cons_self
    obtain ⟨d, item, rfl⟩ := List.exists_cons_of_ne_nil hitem.nonempty
    have hd := head_of_trimmed hitem.trimmed
    cases items <;> simp_all [joinItems]

theorem getLast?_joinItems (h : ∀ item ∈ items, IsItem item) :
    ∀ c ∈ (joinItems items).getLast?, isWhitespace c = false := by
  intro c hc
  induction items with
  | nil => simp [joinItems] at hc
  | cons item items ih =>
    cases items with
    | nil =>
      have hitem := h item List.mem_cons_self
      obtain ⟨s, hs⟩ := List.getLast?_eq_some_iff.mp hc
      obtain rfl : item = s ++ [c] := by simpa [joinItems] using hs
      exact last_of_trimmed hitem.trimmed
    | cons item' items =>
      have hrest : ∀ item ∈ item' :: items, IsItem item :=
        fun i hi => h i (List.mem_cons_of_mem item hi)
      have hne := joinItems_ne_nil (by simp) hrest
      rw [joinItems_cons, List.getLast?_append_of_ne_nil _ (by simp), List.getLast?_cons_cons,
        List.getLast?_cons_of_ne_nil hne] at hc
      exact ih hrest hc

/-- A line of items is one line. -/
theorem unbroken_joinItems (h : ∀ item ∈ items, IsItem item) : '\n' ∉ joinItems items := by
  intro hmem
  rcases mem_intercalate hmem with hmem | ⟨item, hitem, hmem⟩
  · simp at hmem
  · exact (h item hitem).unbroken hmem

/-- A line of items is trimmed. -/
theorem trimChars_joinItems (h : ∀ item ∈ items, IsItem item) :
    trimChars (joinItems items) = joinItems items :=
  trimChars_eq_self (head?_joinItems h) (getLast?_joinItems h)

/-- No match starts in a line of items when none starts in an item, in front of what follows it
there, or at what separates the items. -/
theorem quiet_joinItems_of {β : Type} {look : List Char → Option β}
    (hcomma : ∀ r, look (',' :: r) = none) (hspace : ∀ r, look (' ' :: r) = none) {t : List Char}
    (h : ∀ item ∈ items, (∀ r, Quiet look item (',' :: r)) ∧ Quiet look item t) :
    Quiet look (joinItems items) t := by
  induction items with
  | nil => trivial
  | cons item items ih =>
    obtain ⟨hmid, hlast⟩ := h item List.mem_cons_self
    cases items with
    | nil => simpa [joinItems] using hlast
    | cons item' items =>
      rw [joinItems_cons, quiet_append, quiet_cons, quiet_cons]
      exact ⟨hmid _, hcomma _, hspace _, ih fun i hi => h i (List.mem_cons_of_mem item hi)⟩

/-- No heading starts in a line of items. -/
theorem quiet_joinItems (h : ∀ item ∈ items, IsItem item) {t : List Char}
    (ht : StopsHeading t) : Quiet groupHeading (joinItems items) t :=
  quiet_joinItems_of (groupHeading_cons (by decide)) (groupHeading_cons (by decide))
    fun item hitem =>
      ⟨fun r => (h item hitem).quiet (stopsHeading_comma r), (h item hitem).quiet ht⟩

/-- Stripping and trimming leave a plain item as it is. -/
theorem IsPlainItem.cleaned {item stripped : List Char} (h : IsPlainItem item)
    (hstripped : stripped ⊆ reservedChars) :
    trimChars (item.filter (· ∉ stripped)) = item := by
  have hall : ∀ c ∈ item, decide (c ∉ stripped) = true := fun c hc => by
    simpa using fun hs => h.unreserved c hc (hstripped hs)
  rw [List.filter_eq_self.mpr hall, h.trimmed]

/-- The cleaned pieces between the commas are the items that the cleanup leaves as they are. -/
theorem map_splitOn_joinItems {stripped : List Char} (hspace : ' ' ∉ stripped) (hne : items ≠ [])
    (h : ∀ item ∈ items, ',' ∉ item ∧ trimChars (item.filter (· ∉ stripped)) = item) :
    ((joinItems items).splitOn ',').map (fun w => trimChars (w.filter (· ∉ stripped))) =
      items := by
  induction items with
  | nil => exact absurd rfl hne
  | cons item items ih =>
    obtain ⟨hcomma, hcleaned⟩ := h item List.mem_cons_self
    cases items with
    | nil =>
      have hone : joinItems [item] = item := by simp [joinItems]
      rw [hone, List.splitOn_eq_singleton hcomma, List.map_singleton, hcleaned]
    | cons item' items =>
      have hrest := ih (by simp) fun i hi => h i (List.mem_cons_of_mem item hi)
      rw [joinItems_cons, List.splitOn_append_cons_self_of_not_mem hcomma, List.map_cons,
        hcleaned, List.splitOn_cons_eq_if_modifyHead, if_neg (by decide)]
      congr 1
      generalize (joinItems (item' :: items)).splitOn ',' = pieces at hrest
      cases pieces with
      | nil => exact hrest
      | cons piece pieces =>
        rw [List.modifyHead_cons, List.map_cons, List.filter_cons_of_pos (by simpa using hspace),
          trimChars_cons (by decide)]
        exact hrest

/-- A line of plain items is read back item by item, whatever is stripped of the characters that
no item has. -/
theorem splitItems_joinItems {stripped : List Char} (hstripped : stripped ⊆ reservedChars)
    {words : List String} (hne : words ≠ [])
    (h : ∀ word ∈ words, IsPlainItem word.toList) :
    splitItems stripped id (joinItems (words.map String.toList)) = words := by
  have hitems : ∀ item ∈ words.map String.toList, IsPlainItem item := by
    intro item hitem
    obtain ⟨word, hword, rfl⟩ := List.mem_map.mp hitem
    exact h word hword
  have hfilter : (words.map String.toList).filter (· ≠ []) = words.map String.toList := by
    rw [List.filter_eq_self]
    intro item hitem
    simpa using (hitems item hitem).nonempty
  rw [splitItems]
  simp only [id_eq]
  have hspace : ' ' ∉ stripped := fun hc => absurd (hstripped hc) (by decide)
  rw [map_splitOn_joinItems hspace (by simpa using hne) fun item hitem =>
    ⟨(hitems item hitem).isItem.unseparated, (hitems item hitem).cleaned hstripped⟩, hfilter,
    List.map_map]
  simp [Function.comp_def]

end Lines

section Fields

theorem fieldLine_cons {name : String} {p c : Char} {ps : List Char}
    (hp : name.toList = p :: ps) (hc : p.toUpper ≠ c.toUpper) (s : List Char) :
    fieldLine name (c :: s) = none := by
  rw [fieldLine, matchText_cons hp hc]
  rfl

/-- No field starts in a text without its first letter. -/
theorem quiet_fieldLine_of_foreign {name : String} {p : Char} {ps s : List Char}
    (hp : name.toList = p :: ps) (hs : p.toUpper ∉ s.map Char.toUpper) (t : List Char) :
    Quiet (fieldLine name) s t :=
  quiet_of_forall t fun _ hc => fieldLine_cons hp fun h => hs (h ▸ List.mem_map_of_mem hc)

/-- No field starts in a text without a colon that a line break follows. -/
theorem quiet_fieldLine {name : String} (hcolon : ':' ∈ name.toList)
    (hbreak : '\n'.toUpper ∉ name.toList.map Char.toUpper) {s : List Char} (hs : ':' ∉ s)
    (t : List Char) : Quiet (fieldLine name) s ('\n' :: t) := by
  refine quiet_of_suffix fun v _ hv => ?_
  have hnone : matchText name v = none := by
    apply matchFolded_eq_none hcolon
    intro c hc h
    obtain rfl : c = ':' := eq_of_toUpper_eq h.symm (by decide)
    exact hs (hv.subset hc)
  rw [fieldLine, matchText_append hbreak, hnone]
  rfl

/-- The line behind a blank. -/
theorem lineAfterSpace_eq {line : List Char} (hne : line ≠ [])
    (hhead : ∀ c ∈ line.head?, isWhitespace c = false) (hbreak : '\n' ∉ line) (t : List Char) :
    lineAfterSpace (' ' :: (line ++ '\n' :: t)) = some line := by
  obtain ⟨c, line, rfl⟩ := List.exists_cons_of_ne_nil hne
  have hc : isWhitespace c = false := hhead c rfl
  have hdrop : (' ' :: (c :: line ++ '\n' :: t)).dropWhile isWhitespace =
      c :: line ++ '\n' :: t := by
    rw [List.dropWhile_cons_of_pos (by rfl), List.cons_append,
      List.dropWhile_cons_of_neg (by simp [hc])]
  have htake : (c :: line ++ '\n' :: t).takeWhile (· ≠ '\n') = c :: line := by
    rw [List.takeWhile_append_of_pos, List.takeWhile_cons_of_neg (by simp), List.append_nil]
    intro d hd
    have hne : d ≠ '\n' := fun h => hbreak (h ▸ hd)
    simpa using hne
  rw [lineAfterSpace, hdrop]
  exact congrArg some htake

/-- A field at the start of a text gives its line. -/
theorem firstMatch_fieldLine (name : String) {line : List Char} (hne : line ≠ [])
    (hhead : ∀ c ∈ line.head?, isWhitespace c = false) (hbreak : '\n' ∉ line) (t : List Char) :
    firstMatch (fieldLine name) (name.toList ++ ' ' :: (line ++ '\n' :: t)) = some line := by
  apply firstMatch_of_some
  rw [fieldLine, matchText, matchFolded_self, Option.bind_some,
    lineAfterSpace_eq hne hhead hbreak]

end Fields

end Connections
