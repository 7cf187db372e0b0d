import Mathlib.Algebra.BigOperators.Group.List.Basic
import Mathlib.Algebra.GroupWithZero.Nat
import Mathlib.Data.Int.Order.Basic
import Mathlib.Order.Lattice

/-!
# Calendar dates

The proleptic Gregorian calendar over days numbered from the first of January 1970.  Day numbers and
valid dates correspond one to one, and the date behind a date has the next number.
-/

namespace Calendar

/-- The number of the first day of a year. -/
def dayFromYear (year : ℤ) : ℤ :=
  365 * (year - 1970) + (year - 1969) / 4 - (year - 1901) / 100 + (year - 1601) / 400

/-- A year with a twenty-ninth of February. -/
def IsLeap (year : ℤ) : Prop := year % 4 = 0 ∧ (year % 100 ≠ 0 ∨ year % 400 = 0)

instance : DecidablePred IsLeap := fun _ => inferInstanceAs (Decidable (_ ∧ _))

/-- The days of a year. -/
def daysInYear (year : ℤ) : ℕ := if IsLeap year then 366 else 365

/-- A year ends where the next one begins. -/
theorem dayFromYear_succ (year : ℤ) :
    dayFromYear (year + 1) = dayFromYear year + daysInYear year := by
  by_cases hleap : IsLeap year
  · rw [daysInYear, if_pos hleap]
    unfold IsLeap at hleap
    unfold dayFromYear
    omega
  · rw [daysInYear, if_neg hleap]
    unfold IsLeap at hleap
    unfold dayFromYear
    omega

/-- An earlier year ends before a later one begins. -/
theorem dayFromYear_le {year later : ℤ} (h : year < later) :
    dayFromYear (year + 1) ≤ dayFromYear later := by
  unfold dayFromYear
  omega

/-- The year of a day, guessed from the mean length of a year and set right by one. -/
def yearFromDay (day : ℤ) : ℤ :=
  let guess := 400 * (day + 719528) / 146097
  if day < dayFromYear guess then guess - 1
  else if dayFromYear (guess + 1) ≤ day then guess + 1 else guess

/-- A day falls in its year. -/
theorem yearFromDay_spec (day : ℤ) :
    dayFromYear (yearFromDay day) ≤ day ∧ day < dayFromYear (yearFromDay day + 1) := by
  simp only [yearFromDay]
  generalize hguess : 400 * (day + 719528) / 146097 = guess
  have hlow : dayFromYear (guess - 1) ≤ day := by
    unfold dayFromYear
    omega
  have hhigh : day < dayFromYear (guess + 1 + 1) := by
    unfold dayFromYear
    omega
  by_cases hless : day < dayFromYear guess
  · rw [if_pos hless, Int.sub_add_cancel]
    exact ⟨hlow, hless⟩
  · rw [if_neg hless]
    by_cases hmore : dayFromYear (guess + 1) ≤ day
    · rw [if_pos hmore]
      exact ⟨hmore, hhigh⟩
    · rw [if_neg hmore]
      exact ⟨Int.not_lt.mp hless, Int.not_le.mp hmore⟩

/-- A day falls in no other year. -/
theorem yearFromDay_eq {day year : ℤ} (hfirst : dayFromYear year ≤ day)
    (hlast : day < dayFromYear (year + 1)) : yearFromDay day = year := by
  obtain ⟨hle, hlt⟩ := yearFromDay_spec day
  rcases lt_trichotomy (yearFromDay day) year with hless | hsame | hmore
  · have hends := dayFromYear_le hless
    omega
  · exact hsame
  · have hends := dayFromYear_le hmore
    omega

/-! ### Months -/

/-- The lengths of the months of a year. -/
def monthLengths (year : ℤ) : List ℕ :=
  [31, if IsLeap year then 29 else 28, 31, 30, 31, 30, 31, 31, 30, 31, 30, 31]

/-- The days of a month. -/
def daysInMonth (year : ℤ) (month : Fin 12) : ℕ := (monthLengths year).getD month 0

/-- The days of a year before a month. -/
def monthStart (year : ℤ) (month : ℕ) : ℕ := ((monthLengths year).take month).sum

theorem length_monthLengths (year : ℤ) : (monthLengths year).length = 12 := rfl

theorem sum_monthLengths (year : ℤ) : (monthLengths year).sum = daysInYear year := by
  unfold monthLengths daysInYear
  split <;> rfl

/-- A month has a first day, and none behind the thirty-first. -/
theorem daysInMonth_bounds (year : ℤ) (month : Fin 12) :
    1 ≤ daysInMonth year month ∧ daysInMonth year month ≤ 31 := by
  unfold daysInMonth monthLengths
  by_cases hleap : IsLeap year
  · rw [if_pos hleap]
    revert month
    decide
  · rw [if_neg hleap]
    revert month
    decide

theorem daysInMonth_pos (year : ℤ) (month : Fin 12) : 1 ≤ daysInMonth year month :=
  (daysInMonth_bounds year month).1

/-- The next month starts behind the days of a month. -/
theorem monthStart_succ (year : ℤ) (month : Fin 12) :
    monthStart year (month + 1) = monthStart year month + daysInMonth year month := by
  have hlt : (month : ℕ) < (monthLengths year).length := month.isLt
  rw [monthStart, List.sum_take_succ _ _ hlt, daysInMonth, List.getD_eq_getElem?_getD,
    List.getElem?_eq_getElem hlt]
  rfl

theorem monthStart_twelve (year : ℤ) : monthStart year 12 = daysInYear year := by
  rw [monthStart, List.take_of_length_le (Nat.le_of_eq (length_monthLengths year)),
    sum_monthLengths]

/-- The place of a number among consecutive stretches of some lengths: which stretch, and how far
into it. -/
def locate : List ℕ → ℕ → ℕ × ℕ
  | [], n => (0, n)
  | length :: lengths, n =>
    if n < length then (0, n)
    else ((locate lengths (n - length)).1 + 1, (locate lengths (n - length)).2)

/-- A number below the total falls in one of the stretches. -/
theorem locate_spec {lengths : List ℕ} {n : ℕ} (h : n < lengths.sum) :
    (locate lengths n).1 < lengths.length ∧
      (locate lengths n).2 < lengths.getD (locate lengths n).1 0 ∧
      (lengths.take (locate lengths n).1).sum + (locate lengths n).2 = n := by
  induction lengths generalizing n with
  | nil => simp at h
  | cons length lengths ih =>
    by_cases hlt : n < length
    · simp [locate, hlt]
    · rw [List.sum_cons] at h
      obtain ⟨hindex, hoffset, hsum⟩ := ih (n := n - length) (by omega)
      simp only [locate, hlt, ↓reduceIte, List.length_cons, List.getD_cons_succ,
        List.take_succ_cons, List.sum_cons]
      exact ⟨by omega, hoffset, by omega⟩

/-- A number that is some way into a stretch is found there. -/
theorem locate_eq {lengths : List ℕ} {index offset : ℕ} (h : offset < lengths.getD index 0) :
    locate lengths ((lengths.take index).sum + offset) = (index, offset) := by
  induction lengths generalizing index with
  | nil => simp at h
  | cons length lengths ih =>
    cases index with
    | zero =>
      rw [List.getD_cons_zero] at h
      simp [locate, h]
    | succ index =>
      rw [List.getD_cons_succ] at h
      have hge : ¬ length + (lengths.take index).sum + offset < length := by omega
      have hsub : length + (lengths.take index).sum + offset - length =
          (lengths.take index).sum + offset := by omega
      rw [List.take_succ_cons, List.sum_cons, locate, if_neg hge, hsub, ih h]

/-! ### Dates -/

/-- A date of the calendar; its month is counted from zero and its day from one. -/
@[ext]
structure CivilDate where
  year : ℤ
  month : Fin 12
  day : ℕ
  day_pos : 1 ≤ day
  day_le : day ≤ daysInMonth year month
  deriving DecidableEq

namespace CivilDate

/-- The number of the day of a date. -/
def dayNumber (date : CivilDate) : ℤ :=
  dayFromYear date.year + monthStart date.year date.month + (date.day - 1)

/-- A number counted from the first day of its year. -/
theorem toNat_lt (n : ℤ) :
    (n - dayFromYear (yearFromDay n)).toNat < (monthLengths (yearFromDay n)).sum := by
  obtain ⟨hle, hlt⟩ := yearFromDay_spec n
  rw [dayFromYear_succ] at hlt
  rw [sum_monthLengths]
  omega

/-- The date of a day. -/
def ofDayNumber (n : ℤ) : CivilDate :=
  let year := yearFromDay n
  let place := locate (monthLengths year) (n - dayFromYear year).toNat
  { year := year
    month := ⟨place.1, (locate_spec (toNat_lt n)).1⟩
    day := place.2 + 1
    day_pos := Nat.succ_pos _
    day_le := (locate_spec (toNat_lt n)).2.1 }

/-- The date of a day has its number. -/
theorem dayNumber_ofDayNumber (n : ℤ) : (ofDayNumber n).dayNumber = n := by
  have hsum := (locate_spec (toNat_lt n)).2.2
  have hle := (yearFromDay_spec n).1
  simp only [dayNumber, ofDayNumber, monthStart]
  omega

/-- A date falls in its year. -/
theorem yearFromDay_dayNumber (date : CivilDate) : yearFromDay date.dayNumber = date.year := by
  have hpos := date.day_pos
  have hle := date.day_le
  have hstart := monthStart_succ date.year date.month
  have htotal : monthStart date.year (date.month + 1) ≤ daysInYear date.year := by
    have hsplit := congrArg List.sum (List.take_append_drop (date.month + 1)
      (monthLengths date.year))
    rw [List.sum_append, sum_monthLengths] at hsplit
    unfold monthStart
    omega
  apply yearFromDay_eq
  · unfold dayNumber
    omega
  · rw [dayFromYear_succ]
    unfold dayNumber
    omega

/-- The date of the number of a date is the date. -/
theorem ofDayNumber_dayNumber (date : CivilDate) : ofDayNumber date.dayNumber = date := by
  have hpos := date.day_pos
  have hle := date.day_le
  have hyear := yearFromDay_dayNumber date
  have hplace : locate (monthLengths (yearFromDay date.dayNumber))
      (date.dayNumber - dayFromYear (yearFromDay date.dayNumber)).toNat =
        ((date.month : ℕ), date.day - 1) := by
    have hoffset : (date.dayNumber - dayFromYear date.year).toNat =
        ((monthLengths date.year).take date.month).sum + (date.day - 1) := by
      unfold dayNumber monthStart
      omega
    rw [hyear, hoffset]
    apply locate_eq
    unfold daysInMonth at hle
    omega
  ext
  · exact hyear
  · exact congrArg Prod.fst hplace
  · have hday := congrArg Prod.snd hplace
    change (locate _ _).2 + 1 = date.day
    rw [hday]
    exact Nat.sub_add_cancel hpos

/-- The date behind a date. -/
def next (date : CivilDate) : CivilDate :=
  if h : date.day < daysInMonth date.year date.month then
    ⟨date.year, date.month, date.day + 1, Nat.succ_pos _, h⟩
  else if date.month < 11 then
    ⟨date.year, date.month + 1, 1, Nat.le_refl _, daysInMonth_pos _ _⟩
  else ⟨date.year + 1, 0, 1, Nat.le_refl _, daysInMonth_pos _ _⟩

/-- The date behind a date has the next number. -/
theorem dayNumber_next (date : CivilDate) : date.next.dayNumber = date.dayNumber + 1 := by
  have hle := date.day_le
  have hstart := monthStart_succ date.year date.month
  unfold next
  by_cases hday : date.day < daysInMonth date.year date.month
  · rw [dif_pos hday]
    simp only [dayNumber]
    omega
  · rw [dif_neg hday]
    by_cases hmonth : date.month < 11
    · have hval : ((date.month + 1 : Fin 12) : ℕ) = date.month + 1 := by
        omega
      rw [if_pos hmonth]
      simp only [dayNumber, hval]
      omega
    · have hval : (date.month : ℕ) + 1 = 12 := by omega
      rw [hval, monthStart_twelve] at hstart
      rw [if_neg hmonth]
      have hzero : monthStart (date.year + 1) ((0 : Fin 12) : ℕ) = 0 := rfl
      simp only [dayNumber, dayFromYear_succ, hzero]
      omega

/-- The date of the day behind a day is the one behind its date. -/
theorem ofDayNumber_succ (n : ℤ) : ofDayNumber (n + 1) = (ofDayNumber n).next := by
  rw [← ofDayNumber_dayNumber (ofDayNumber n).next, dayNumber_next, dayNumber_ofDayNumber]

end CivilDate

end Calendar
