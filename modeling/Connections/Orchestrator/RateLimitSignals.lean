import Connections.Grammar.PlainItems
import Connections.Strategy.Conversation
import Mathlib.Algebra.Order.Floor.Ring
import Mathlib.Data.Rat.Floor
import Mathlib.Tactic.Linarith
import Mathlib.Tactic.Positivity

/-!
# What a 429 says about its limit

The waits of a 429 stand in its headers, as plain seconds, as a duration, or as the time of the
reset; the limit that was hit is named in the text of its body.  None of the waits is negative, and
a duration in whole numbers is read back.
-/

namespace Connections

open TextScan

section Durations

/-- The value of digits, exactly; the host rounds it when they are many. -/
def digitsValue (digits : List Char) : ℚ := Nat.ofDigitChars 10 digits 0

/-- A whole number at the start of a text. -/
def wholeNumber (s : List Char) : Option (ℚ × List Char) :=
  if s.takeWhile Char.isDigit = [] then none
  else some (digitsValue (s.takeWhile Char.isDigit), s.dropWhile Char.isDigit)

/-- The digits behind a point, if there are some, as a fraction. -/
def fraction : List Char → ℚ × List Char
  | '.' :: t =>
    let digits := t.takeWhile Char.isDigit
    if digits = [] then (0, '.' :: t)
    else (digitsValue digits / 10 ^ digits.length, t.dropWhile Char.isDigit)
  | s => (0, s)

/-- A number at the start of a text, with or without a fraction. -/
def decimalNumber (s : List Char) : Option (ℚ × List Char) :=
  (wholeNumber s).map fun whole => (whole.1 + (fraction whole.2).1, (fraction whole.2).2)

/-- A part of a duration with its unit, if the text starts with one, and what is left. -/
def durationPart (number : List Char → Option (ℚ × List Char)) (unit : Char) (s : List Char) :
    Option ℚ × List Char :=
  match number s with
  | some (n, c :: rest) => if c = unit then (some n, rest) else (none, s)
  | _ => (none, s)

/-- The seconds of a duration such as `2h59m59.56s`, which has at least one of its parts.  A part
is never given back: what is behind it could not be read otherwise. -/
def parseGroqResetDuration (value : Option String) : Option ℚ :=
  value.bind fun text =>
    let (hours, afterHours) := durationPart wholeNumber 'h' (trimChars text.toList)
    let (minutes, afterMinutes) := durationPart wholeNumber 'm' afterHours
    let (seconds, rest) := durationPart decimalNumber 's' afterMinutes
    if rest = [] ∧ (hours.isSome ∨ minutes.isSome ∨ seconds.isSome) then
      some (hours.getD 0 * 3600 + minutes.getD 0 * 60 + seconds.getD 0)
    else none

theorem digitsValue_nonneg (digits : List Char) : 0 ≤ digitsValue digits := Nat.cast_nonneg _

/-- The digits carry no sign. -/
theorem wholeNumber_nonneg (s rest : List Char) (n : ℚ) (h : wholeNumber s = some (n, rest)) :
    0 ≤ n := by
  unfold wholeNumber at h
  split at h
  · cases h
  · cases h
    exact digitsValue_nonneg _

/-- The places behind the point carry no sign either. -/
theorem fraction_nonneg (s : List Char) : 0 ≤ (fraction s).1 := by
  unfold fraction
  split
  · dsimp only
    split
    · exact le_rfl
    · exact div_nonneg (digitsValue_nonneg _) (by positivity)
  · exact le_rfl

/-- A number with a fraction is not negative. -/
theorem decimalNumber_nonneg (s rest : List Char) (n : ℚ) (h : decimalNumber s = some (n, rest)) :
    0 ≤ n := by
  obtain ⟨whole, hwhole, hn⟩ := Option.map_eq_some_iff.mp h
  cases hn
  exact add_nonneg (wholeNumber_nonneg _ _ _ hwhole) (fraction_nonneg _)

section Parts

variable {number : List Char → Option (ℚ × List Char)}

/-- A part of a duration is not negative, and a part left out counts nothing. -/
theorem durationPart_nonneg (hnumber : ∀ s rest n, number s = some (n, rest) → 0 ≤ n) (unit : Char)
    (s : List Char) : 0 ≤ (durationPart number unit s).1.getD 0 := by
  unfold durationPart
  split
  · split
    · exact hnumber _ _ _ ‹_›
    · exact le_rfl
  · exact le_rfl

/-- No duration is negative. -/
theorem parseGroqResetDuration_nonneg {value : Option String} {seconds : ℚ}
    (h : parseGroqResetDuration value = some seconds) : 0 ≤ seconds := by
  obtain ⟨text, -, hread⟩ := Option.bind_eq_some_iff.mp h
  simp only [Option.ite_none_right_eq_some, Option.some.injEq] at hread
  obtain ⟨-, rfl⟩ := hread
  have hhours := durationPart_nonneg wholeNumber_nonneg 'h' (trimChars text.toList)
  have hminutes := durationPart_nonneg wholeNumber_nonneg 'm'
    (durationPart wholeNumber 'h' (trimChars text.toList)).2
  have hseconds := durationPart_nonneg decimalNumber_nonneg 's' (durationPart wholeNumber 'm'
    (durationPart wholeNumber 'h' (trimChars text.toList)).2).2
  linarith

/-- A part of a duration as it is written. -/
def partText (unit : Char) : Option ℕ → List Char
  | none => []
  | some n => Nat.toDigits 10 n ++ [unit]

/-- A duration in whole numbers as it is written. -/
def durationText (hours minutes seconds : Option ℕ) : String :=
  String.ofList (partText 'h' hours ++ (partText 'm' minutes ++ partText 's' seconds))

/-- Reads the digits of a number that a unit follows. -/
def ReadsDigits (number : List Char → Option (ℚ × List Char)) : Prop :=
  number [] = none ∧ ∀ (n : ℕ) (unit : Char) (rest : List Char), unit ∈ ['h', 'm', 's'] →
    number (Nat.toDigits 10 n ++ unit :: rest) = some ((n : ℚ), unit :: rest)

/-- `(\d+)` is one of the patterns that read digits. -/
theorem wholeNumber_readsDigits : ReadsDigits wholeNumber := by
  refine ⟨rfl, fun n unit rest hunit => ?_⟩
  have hdigits : ∀ c ∈ Nat.toDigits 10 n, c.isDigit := fun c hc =>
    Nat.isDigit_of_mem_toDigits (by decide) (by decide) hc
  have hnone : ¬ unit.isDigit := by
    simp only [List.mem_cons, List.not_mem_nil, or_false] at hunit
    rcases hunit with rfl | rfl | rfl <;> decide
  rw [wholeNumber, List.takeWhile_append_of_pos hdigits, List.dropWhile_append_of_pos hdigits,
    List.takeWhile_cons_of_neg hnone, List.dropWhile_cons_of_neg hnone, List.append_nil,
    if_neg Nat.toDigits_ne_nil, digitsValue, Nat.ofDigitChars_ten_toDigits]

/-- `(\d+(?:\.\d+)?)` is another. -/
theorem decimalNumber_readsDigits : ReadsDigits decimalNumber := by
  refine ⟨rfl, fun n unit rest hunit => ?_⟩
  have hfraction : fraction (unit :: rest) = (0, unit :: rest) := by
    unfold fraction
    split
    · cases ‹_ :: _ = _›
      exact absurd hunit (by decide)
    · rfl
  rw [decimalNumber, wholeNumber_readsDigits.2 n unit rest hunit, Option.map_some, hfraction,
    add_zero]

/-- A part that is there is read, and one that is missing is none when none is behind it. -/
theorem durationPart_same (hreads : ReadsDigits number) {unit : Char}
    (hunit : unit ∈ ['h', 'm', 's']) (n : Option ℕ) {rest : List Char}
    (hrest : durationPart number unit rest = (none, rest)) :
    durationPart number unit (partText unit n ++ rest) = (n.map (↑), rest) := by
  cases n with
  | none => exact hrest
  | some n =>
    rw [partText, List.append_assoc, List.singleton_append, durationPart,
      hreads.2 n unit rest hunit]
    exact if_pos rfl

/-- No part is read off a part with another unit. -/
theorem durationPart_other (hreads : ReadsDigits number) {unit other : Char} (hne : other ≠ unit)
    (hother : other ∈ ['h', 'm', 's']) (n : Option ℕ) {rest : List Char}
    (hrest : durationPart number unit rest = (none, rest)) :
    durationPart number unit (partText other n ++ rest) = (none, partText other n ++ rest) := by
  cases n with
  | none => exact hrest
  | some n =>
    rw [partText, List.append_assoc, List.singleton_append, durationPart,
      hreads.2 n other rest hother]
    exact if_neg hne

/-- At the end of the text no part is found. -/
theorem durationPart_nil (hreads : ReadsDigits number) (unit : Char) :
    durationPart number unit [] = (none, []) := by
  rw [durationPart, hreads.1]

/-- A part has no white space. -/
theorem isWhitespace_of_mem_partText {unit c : Char} (hunit : isWhitespace unit = false)
    {n : Option ℕ} (hc : c ∈ partText unit n) : isWhitespace c = false := by
  cases n with
  | none => cases hc
  | some n =>
    rcases List.mem_append.mp hc with hdigit | hlast
    · exact isWhitespace_of_isDigit
        (Nat.isDigit_of_mem_toDigits (by decide) (by decide) hdigit)
    · rw [List.mem_singleton.mp hlast]
      exact hunit

/-- A duration in whole numbers is read back when it has some part. -/
theorem parseGroqResetDuration_durationText (hours minutes seconds : Option ℕ)
    (hsome : hours.isSome ∨ minutes.isSome ∨ seconds.isSome) :
    parseGroqResetDuration (some (durationText hours minutes seconds)) =
      some (((hours.getD 0 * 3600 + minutes.getD 0 * 60 + seconds.getD 0 : ℕ)) : ℚ) := by
  have hwhole := wholeNumber_readsDigits
  have hdecimal := decimalNumber_readsDigits
  have hspace : ∀ c ∈ partText 'h' hours ++ (partText 'm' minutes ++ partText 's' seconds),
      isWhitespace c = false := by
    intro c hc
    simp only [List.mem_append] at hc
    rcases hc with hc | hc | hc <;> exact isWhitespace_of_mem_partText (by decide) hc
  have htrim := trimChars_eq_self (fun c hc => hspace c (List.mem_of_mem_head? hc))
    (fun c hc => hspace c (List.mem_of_mem_getLast? hc))
  -- The parts are read from the left, each of them in front of what is left.
  have hh : durationPart wholeNumber 'h' (partText 'h' hours ++
      (partText 'm' minutes ++ partText 's' seconds)) =
        (hours.map (↑), partText 'm' minutes ++ partText 's' seconds) := by
    refine durationPart_same hwhole (by decide) hours ?_
    refine durationPart_other hwhole (by decide) (by decide) minutes ?_
    have hs : durationPart wholeNumber 'h' (partText 's' seconds ++ []) = _ :=
      durationPart_other hwhole (by decide) (by decide) seconds (durationPart_nil hwhole 'h')
    rwa [List.append_nil] at hs
  have hm : durationPart wholeNumber 'm' (partText 'm' minutes ++ partText 's' seconds) =
      (minutes.map (↑), partText 's' seconds) := by
    refine durationPart_same hwhole (by decide) minutes ?_
    have hs : durationPart wholeNumber 'm' (partText 's' seconds ++ []) = _ :=
      durationPart_other hwhole (by decide) (by decide) seconds (durationPart_nil hwhole 'm')
    rwa [List.append_nil] at hs
  have hs : durationPart decimalNumber 's' (partText 's' seconds) = (seconds.map (↑), []) := by
    have hlast := durationPart_same hdecimal (by decide) seconds (durationPart_nil hdecimal 's')
    rwa [List.append_nil] at hlast
  rw [parseGroqResetDuration, Option.bind_some, durationText, String.toList_ofList, htrim]
  simp only [hh, hm, hs, Option.isSome_map]
  rw [if_pos ⟨trivial, hsome⟩]
  cases hours <;> cases minutes <;> cases seconds <;> simp

end Parts

example : parseGroqResetDuration (some "2h59m59.56s") = some (2 * 3600 + 59 * 60 + 59.56) := by
  decide +kernel

end Durations

section Headers

-- The finite number that `Number` reads from a text.
variable (number : String → Option ℚ)

/-- The seconds of a plain count. -/
def parseSecondsHeader (value : Option String) : Option ℚ := (value.bind number).filter (0 ≤ ·)

/-- The whole seconds until a time in milliseconds. -/
def parseResetTimestampSeconds (now : ℚ) (value : Option String) : Option ℚ :=
  (value.bind number).map fun resetMs => max 0 (⌈(resetMs - now) / 1000⌉ : ℤ)

variable {number}

/-- A header in seconds asks for no wait into the past. -/
theorem parseSecondsHeader_nonneg {value : Option String} {seconds : ℚ}
    (h : parseSecondsHeader number value = some seconds) : 0 ≤ seconds :=
  of_decide_eq_true (Option.filter_eq_some_iff.mp h).2

/-- A reset that has passed asks for no wait. -/
theorem parseResetTimestampSeconds_nonneg {now : ℚ} {value : Option String} {seconds : ℚ}
    (h : parseResetTimestampSeconds number now value = some seconds) : 0 ≤ seconds := by
  obtain ⟨resetMs, -, rfl⟩ := Option.map_eq_some_iff.mp h
  exact le_max_left _ _

/-- A wait until a reset is long enough, and by less than a second too long; it is longer than some
whole seconds just when the reset is. -/
theorem parseResetTimestampSeconds_spec {now resetMs : ℚ} {value : String}
    (hvalue : number value = some resetMs) (hlater : now ≤ resetMs) :
    ∃ seconds, parseResetTimestampSeconds number now (some value) = some seconds ∧
      resetMs ≤ now + seconds * 1000 ∧ now + seconds * 1000 < resetMs + 1000 ∧
      ∀ whole : ℤ, whole < seconds ↔ now + whole * 1000 < resetMs := by
  have hnonneg : 0 ≤ ⌈(resetMs - now) / 1000⌉ :=
    Int.ceil_nonneg (div_nonneg (sub_nonneg.mpr hlater) (by norm_num))
  refine ⟨⌈(resetMs - now) / 1000⌉, ?_, ?_, ?_, ?_⟩
  · rw [parseResetTimestampSeconds, Option.bind_some, hvalue, Option.map_some,
      max_eq_right (by exact_mod_cast hnonneg)]
  · have hle := Int.le_ceil ((resetMs - now) / 1000)
    linarith
  · have hlt := Int.ceil_lt_add_one ((resetMs - now) / 1000)
    linarith
  · intro whole
    rw [Int.cast_lt, Int.lt_ceil, lt_div_iff₀ (by norm_num), lt_sub_iff_add_lt, add_comm]

end Headers

namespace Json

/-- A field with a text. -/
def textField (key : String) (json : Json) : Option String := (json.field key).bind str?

end Json

section Bodies

/-- A character of a word, for the boundaries of a pattern. -/
def isWordChar (c : Char) : Bool := c.isAlphanum || c = '_'

/-- Whether a pattern matches at the start of a word, behind a character of a word or not. -/
def matchesWord (look : List Char → Option (List Char)) : Bool → List Char → Bool
  | _, [] => false
  | inWord, c :: s => !inWord && (look (c :: s)).isSome || matchesWord look (isWordChar c) s

/-- The end of a word. -/
def wordEnd (s : List Char) : Option (List Char) := if s.head?.any isWordChar then none else some s

/-- White space, of which there is some. -/
def matchSpaces (s : List Char) : Option (List Char) :=
  if s.head?.any isWhitespace then some (s.dropWhile isWhitespace) else none

/-- A fixed text that may be there. -/
def matchMaybe (pattern : String) (s : List Char) : List Char := (matchText pattern s).getD s

/-- A fixed text that stands alone, up to case. -/
def namesWord (pattern : String) (text : List Char) : Bool :=
  matchesWord (fun s => (matchText pattern s).bind wordEnd) false text

/-- A fixed text anywhere, up to case. -/
def namesText (pattern : String) (text : List Char) : Bool :=
  (firstMatch (matchText pattern) text).isSome

/-- What a quota per day counts. -/
inductive PerDayDimension
  | tokens
  | requests
  deriving DecidableEq, Repr

/-- Tokens per day, in words. -/
def namesTokensPerDay (text : List Char) : Bool :=
  matchesWord (fun s => do
    let rest ← matchSpaces (matchMaybe "s" (← matchText "token" s))
    let rest ← matchSpaces (← matchText "per" rest)
    wordEnd (← matchText "day" rest)) false text

/-- The quota per day that a text of Groq names. -/
def perDayDimension (text : List Char) : Option PerDayDimension :=
  if !namesWord "per day" text && !(namesText "(RPD)" text || namesText "(TPD)" text) then none
  else if namesTokensPerDay text || namesText "(TPD)" text then some .tokens
  else some .requests

/-- A month, or by the month, before tokens or requests. -/
def namesMonthlyCount (text : List Char) : Bool :=
  matchesWord (fun s => do
    let rest ← matchSpaces (matchMaybe "ly" (← matchText "month" s))
    (matchText "token" rest).or (matchText "request" rest)) false text

/-- Whether a text of Mistral names the quota of a month. -/
def namesMonthlyQuota (text : List Char) : Bool :=
  namesWord "monthly" text || namesWord "quota" text || namesWord "capacity exceeded" text ||
    namesWord "per month" text || namesMonthlyCount text

-- `JSON.parse`.
variable (parseJson : String → Option Json)

/-- The texts in which a limit may be named, each on lines of its own: the message, the body, and
some fields of the body. -/
def limitText (fields : Json → List (Option String)) (responseBody : Option String)
    (fallbackMessage : String) : List Char :=
  let parsed := ((responseBody.bind parseJson).map fields).getD []
  ['\n'].intercalate
    ((fallbackMessage :: (responseBody.toList ++ parsed.reduceOption)).map String.toList)

/-- The quota per day that a 429 of Groq names. -/
def groqPerDayRateLimitDimension (responseBody : Option String) (fallbackMessage : String) :
    Option PerDayDimension :=
  perDayDimension (limitText parseJson (fun parsed =>
    [(parsed.field "error").bind (·.textField "message")]) responseBody fallbackMessage)

/-- Whether a 429 of Mistral names the quota of a month. -/
def mistralMonthlyRateLimitFromBody (responseBody : Option String) (fallbackMessage : String) :
    Bool :=
  namesMonthlyQuota (limitText parseJson (fun parsed =>
    let error := parsed.field "error"
    [error.bind (·.textField "message"), error.bind (·.textField "type"),
      error.bind (·.textField "code"), parsed.textField "message", parsed.textField "type"])
    responseBody fallbackMessage)

/-! What the message names is found, whatever the body is. -/

/-- A pattern found at the start is found there with more text behind. -/
theorem matchFolded_append_of_some {fold : Char → Char} {pattern s rest : List Char}
    (h : matchFolded fold pattern s = some rest) (t : List Char) :
    matchFolded fold pattern (s ++ t) = some (rest ++ t) := by
  induction pattern generalizing s with
  | nil =>
    obtain rfl : s = rest := Option.some.inj h
    rfl
  | cons p pattern ih =>
    cases s with
    | nil => cases h
    | cons c s =>
      rw [matchFolded] at h
      split at h
      · rw [List.cons_append, matchFolded, if_pos ‹_›, ih h]
      · cases h

/-- A pattern found in a text is found in a longer one. -/
theorem namesText_append {pattern : String} {text : List Char} (h : namesText pattern text)
    (t : List Char) : namesText pattern (text ++ t) := by
  have hlook : ∀ s, (matchText pattern s).isSome → (matchText pattern (s ++ t)).isSome := by
    intro s hs
    obtain ⟨rest, hrest⟩ := Option.isSome_iff_exists.mp hs
    exact Option.isSome_iff_exists.mpr ⟨_, matchFolded_append_of_some hrest t⟩
  unfold namesText at h ⊢
  induction text with
  | nil =>
    have hnil := hlook [] h
    cases t with
    | nil => exact h
    | cons c t =>
      rw [List.nil_append, firstMatch, Option.isSome_or, Bool.or_eq_true]
      exact .inl hnil
  | cons c text ih =>
    rw [firstMatch, Option.isSome_or, Bool.or_eq_true] at h
    rw [List.cons_append, firstMatch, Option.isSome_or, Bool.or_eq_true]
    exact h.imp (hlook (c :: text)) ih

/-- A word found in a line is still a word with another line behind it. -/
theorem namesWord_append {pattern : String} {text : List Char} (h : namesWord pattern text)
    (t : List Char) : namesWord pattern (text ++ '\n' :: t) := by
  have hlook : ∀ s, ((matchText pattern s).bind wordEnd).isSome →
      ((matchText pattern (s ++ '\n' :: t)).bind wordEnd).isSome := by
    intro s hs
    obtain ⟨rest', hrest'⟩ := Option.isSome_iff_exists.mp hs
    obtain ⟨rest, hrest, hend⟩ := Option.bind_eq_some_iff.mp hrest'
    rw [matchText, matchFolded_append_of_some hrest]
    cases rest with
    | nil => rfl
    | cons c rest =>
      rw [wordEnd] at hend
      split at hend
      · cases hend
      · exact Option.isSome_iff_exists.mpr ⟨_, if_neg ‹_›⟩
  unfold namesWord at h ⊢
  generalize false = inWord at h ⊢
  induction text generalizing inWord with
  | nil => cases h
  | cons c text ih =>
    rw [matchesWord, Bool.or_eq_true, Bool.and_eq_true] at h
    rw [List.cons_append, matchesWord, Bool.or_eq_true, Bool.and_eq_true]
    exact h.imp (fun hhere => ⟨hhere.1, hlook (c :: text) hhere.2⟩) (ih _)

/-- The message stands before the rest of the texts. -/
theorem limitText_cases (fields : Json → List (Option String)) (responseBody : Option String)
    (fallbackMessage : String) :
    limitText parseJson fields responseBody fallbackMessage = fallbackMessage.toList ∨
      ∃ rest, limitText parseJson fields responseBody fallbackMessage =
        fallbackMessage.toList ++ '\n' :: rest := by
  simp only [limitText, List.map_cons]
  generalize List.map String.toList (responseBody.toList ++ _) = others
  cases others with
  | nil => exact .inl (List.intercalate_singleton ..)
  | cons other others =>
    rw [List.intercalate_cons_cons, List.append_assoc, List.singleton_append]
    exact .inr ⟨_, rfl⟩

/-- What the message names, the texts name. -/
theorem namesWord_limitText {pattern fallbackMessage : String}
    (h : namesWord pattern fallbackMessage.toList) (fields : Json → List (Option String))
    (responseBody : Option String) :
    namesWord pattern (limitText parseJson fields responseBody fallbackMessage) := by
  rcases limitText_cases parseJson fields responseBody fallbackMessage with heq | ⟨rest, heq⟩
  · rwa [heq]
  · rw [heq]
    exact namesWord_append h rest

/-- The text that is searched contains the message of the error. -/
theorem namesText_limitText {pattern fallbackMessage : String}
    (h : namesText pattern fallbackMessage.toList) (fields : Json → List (Option String))
    (responseBody : Option String) :
    namesText pattern (limitText parseJson fields responseBody fallbackMessage) := by
  rcases limitText_cases parseJson fields responseBody fallbackMessage with heq | ⟨rest, heq⟩
  · rwa [heq]
  · rw [heq]
    exact namesText_append h _

/-- A text of Groq names a quota per day just when it has the words or one of the abbreviations. -/
theorem isSome_perDayDimension {text : List Char} :
    (perDayDimension text).isSome ↔
      namesWord "per day" text ∨ namesText "(RPD)" text ∨ namesText "(TPD)" text := by
  unfold perDayDimension
  generalize namesWord "per day" text = words
  generalize namesText "(RPD)" text = requests
  generalize namesText "(TPD)" text = tokens
  generalize namesTokensPerDay text = tokenWords
  revert words requests tokens tokenWords
  decide

example : perDayDimension "on tokens per day (TPD): Limit 200000".toList = some .tokens := by
  decide +kernel

/-- A quota per day that the message of a 429 of Groq names is found. -/
theorem groqPerDayRateLimitDimension_of_message {fallbackMessage : String}
    (h : namesWord "per day" fallbackMessage.toList ∨ namesText "(RPD)" fallbackMessage.toList ∨
      namesText "(TPD)" fallbackMessage.toList) (responseBody : Option String) :
    (groqPerDayRateLimitDimension parseJson responseBody fallbackMessage).isSome := by
  refine isSome_perDayDimension.mpr ?_
  rcases h with h | h | h
  · exact .inl (namesWord_limitText parseJson h _ _)
  · exact .inr (.inl (namesText_limitText parseJson h _ _))
  · exact .inr (.inr (namesText_limitText parseJson h _ _))

end Bodies

end Connections
