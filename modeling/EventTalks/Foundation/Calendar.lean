import EventTalks.Foundation.Date
import Mathlib.Data.List.Basic

/-! # The Gregorian calendar and the ISO 8601 text of a date

Days are counted in years that begin in March, so that the leap day comes last
(`Foundation.MarchDay`), and written as a year, a month and a day
(`Foundation.CivilDay`). The text of a number of seconds is the usual internet
form in universal time, with years beyond four digits written out and years
before zero signed (`Foundation.ISO8601.gregorian`).
-/

namespace Foundation

/-- A day, as its offset into a year that begins in March. -/
structure MarchDay where
  year : Int
  ofYear : Int

/-- The day a number of days after the first of March of the year zero. -/
def MarchDay.ofDays (days : Int) : MarchDay :=
  let ofEra := days % 146097
  let century := min (ofEra / 36524) 3
  let ofCentury := ofEra - 36524 * century
  let ofCycle := ofCentury % 1461
  let year := min (ofCycle / 365) 3
  { year := 400 * (days / 146097) + 100 * century + 4 * (ofCentury / 1461) + year
    ofYear := ofCycle - 365 * year }

/-- The days from the first of March of the year zero to a day. -/
def MarchDay.days (march : MarchDay) : Int :=
  146097 * (march.year / 400) + 36524 * (march.year % 400 / 100) +
    1461 * (march.year % 100 / 4) + 365 * (march.year % 4) + march.ofYear

/-- The centuries, the four-year cycles and the years of a count of years. -/
theorem year_digits (era : Int) {century cycle year : Int} (centuries : 0 ≤ century ∧ century ≤ 3)
    (cycles : 0 ≤ cycle ∧ cycle ≤ 24) (years : 0 ≤ year ∧ year ≤ 3) :
    (400 * era + 100 * century + 4 * cycle + year) / 400 = era ∧
      (400 * era + 100 * century + 4 * cycle + year) % 400 / 100 = century ∧
      (400 * era + 100 * century + 4 * cycle + year) % 100 / 4 = cycle ∧
      (400 * era + 100 * century + 4 * cycle + year) % 4 = year := by
  refine ⟨?_, ?_, ?_, ?_⟩ <;> omega

/-- A day is counted back from its year and its day of that year. -/
theorem MarchDay.days_ofDays (days : Int) : (MarchDay.ofDays days).days = days := by
  simp only [MarchDay.ofDays, MarchDay.days]
  obtain ⟨century, centuryIs⟩ : ∃ century, century = min (days % 146097 / 36524) 3 := ⟨_, rfl⟩
  rw [← centuryIs]
  obtain ⟨ofCentury, ofCenturyIs⟩ : ∃ rest, rest = days % 146097 - 36524 * century := ⟨_, rfl⟩
  rw [← ofCenturyIs]
  obtain ⟨year, yearIs⟩ : ∃ year, year = min (ofCentury % 1461 / 365) 3 := ⟨_, rfl⟩
  rw [← yearIs]
  have centuries : 0 ≤ century ∧ century ≤ 3 := by omega
  have inside : 0 ≤ ofCentury ∧ ofCentury ≤ 36524 := by omega
  have cycles : 0 ≤ ofCentury / 1461 ∧ ofCentury / 1461 ≤ 24 := by omega
  have years : 0 ≤ year ∧ year ≤ 3 := by omega
  obtain ⟨era, hundreds, fours, ones⟩ :=
    year_digits (days / 146097) centuries cycles years
  rw [era, hundreds, fours, ones]
  omega

/-- A year has at most 366 days. -/
theorem MarchDay.ofYear_bounds (days : Int) :
    0 ≤ (MarchDay.ofDays days).ofYear ∧ (MarchDay.ofDays days).ofYear ≤ 365 := by
  simp only [MarchDay.ofDays]
  omega

/-- A day of the proleptic Gregorian calendar. -/
structure CivilDay where
  year : Int
  month : Int
  day : Int
deriving DecidableEq, Repr

/-- The day with an offset into a year that begins in March. -/
def CivilDay.ofMarch (march : MarchDay) : CivilDay :=
  let month := (5 * march.ofYear + 2) / 153
  { year := if month < 10 then march.year else march.year + 1
    month := if month < 10 then month + 3 else month - 9
    day := march.ofYear - (153 * month + 2) / 5 + 1 }

/-- The offset of a day into the year that begins in March. -/
def CivilDay.march (civil : CivilDay) : MarchDay :=
  let month := if 3 ≤ civil.month then civil.month - 3 else civil.month + 9
  { year := if 3 ≤ civil.month then civil.year else civil.year - 1
    ofYear := (153 * month + 2) / 5 + civil.day - 1 }

/-- A day of a year is found again from its month. -/
theorem CivilDay.march_ofMarch {march : MarchDay} (lower : 0 ≤ march.ofYear)
    (upper : march.ofYear ≤ 365) : (CivilDay.ofMarch march).march = march := by
  rcases march with ⟨year, ofYear⟩
  simp only [CivilDay.ofMarch, CivilDay.march] at *
  obtain ⟨month, monthIs⟩ : ∃ month, month = (5 * ofYear + 2) / 153 := ⟨_, rfl⟩
  have months : 0 ≤ month ∧ month ≤ 11 := by omega
  rw [← monthIs]
  by_cases early : month < 10
  · have late : 3 ≤ month + 3 := by omega
    simp only [early, late, ↓reduceIte, MarchDay.mk.injEq, true_and]
    omega
  · have wrapped : ¬ 3 ≤ month - 9 := by omega
    simp only [early, wrapped, ↓reduceIte, MarchDay.mk.injEq]
    omega

/-- The days from the epoch back to the first of March of the year zero. -/
def epochOffset : Int := 719468

/-- The day a number of days after the epoch. -/
def CivilDay.ofDays (days : Int) : CivilDay := .ofMarch (.ofDays (days + epochOffset))

/-- The days from the epoch to a day. -/
def CivilDay.days (civil : CivilDay) : Int := civil.march.days - epochOffset

/-- **Counting inverts writing**, for every day of the calendar. -/
theorem CivilDay.days_ofDays (days : Int) : (CivilDay.ofDays days).days = days := by
  obtain ⟨lower, upper⟩ := MarchDay.ofYear_bounds (days + epochOffset)
  rw [CivilDay.days, CivilDay.ofDays, CivilDay.march_ofMarch lower upper, MarchDay.days_ofDays]
  omega

/-- Months and days have two digits. -/
theorem CivilDay.ofDays_bounds (days : Int) :
    0 ≤ (CivilDay.ofDays days).month ∧ (CivilDay.ofDays days).month < 100 ∧
      0 ≤ (CivilDay.ofDays days).day ∧ (CivilDay.ofDays days).day < 100 := by
  obtain ⟨lower, upper⟩ := MarchDay.ofYear_bounds (days + epochOffset)
  simp only [CivilDay.ofDays, CivilDay.ofMarch]
  omega

/-- A number in decimal, with leading zeros up to a width. -/
def paddedDigits (width number : Nat) : List Char :=
  List.replicate (width - (Nat.toDigits 10 number).length) '0' ++ Nat.toDigits 10 number

/-- The number a decimal text denotes. -/
def digitsValue (digits : List Char) : Nat := Nat.ofDigitChars 10 digits 0

/-- Padded digits have the value of their number. -/
@[simp] theorem digitsValue_paddedDigits (width number : Nat) :
    digitsValue (paddedDigits width number) = number := by
  rw [digitsValue, paddedDigits, Nat.ofDigitChars_append, Nat.ofDigitChars_replicate_zero,
    Nat.mul_zero, Nat.ofDigitChars_ten_toDigits]

/-- A number below one hundred, as two decimal digits. -/
def twoDigits (number : Int) : List Char :=
  [Nat.digitChar (number.toNat / 10), Nat.digitChar (number.toNat % 10)]

/-- Two digits have the value of their number. -/
@[simp] theorem digitsValue_twoDigits (number : Int) (lower : 0 ≤ number) (upper : number < 100) :
    (digitsValue (twoDigits number) : Int) = number := by
  rw [digitsValue, twoDigits, Nat.ofDigitChars_cons_digitChar_of_lt_ten (by omega),
    Nat.ofDigitChars_cons_digitChar_of_lt_ten (by omega), Nat.ofDigitChars_nil]
  omega

/-- The text of a year. -/
def yearText (year : Int) : List Char :=
  if year < 0 then '-' :: paddedDigits 4 year.natAbs else paddedDigits 4 year.natAbs

/-- The year a text denotes. -/
def yearValue : List Char → Int
  | '-' :: digits => -(digitsValue digits : Int)
  | digits => digitsValue digits

/-- Digits do not begin with a dash. -/
theorem head_paddedDigits_ne_dash (width number : Nat) (rest : List Char) :
    paddedDigits width number ≠ '-' :: rest := by
  intro same
  have member : '-' ∈ paddedDigits width number := same ▸ List.mem_cons_self
  rcases List.mem_append.mp member with zero | digit
  · exact absurd (List.eq_of_mem_replicate zero) (by decide)
  · exact absurd (Nat.isDigit_of_mem_toDigits (by decide) (by decide) digit) (by decide)

/-- A year is read back from its text. -/
@[simp] theorem yearValue_yearText (year : Int) : yearValue (yearText year) = year := by
  unfold yearText
  split
  · simp only [yearValue, digitsValue_paddedDigits]
    omega
  · have value : yearValue (paddedDigits 4 year.natAbs) =
      digitsValue (paddedDigits 4 year.natAbs) := by
      unfold yearValue
      split
      · rename_i same
        exact absurd same (head_paddedDigits_ne_dash 4 year.natAbs _)
      · rfl
    rw [value, digitsValue_paddedDigits]
    omega

namespace ISO8601

/-- The text of a time of day and of the month and day before it. -/
def tailText (civil : CivilDay) (ofDay : Int) : List Char :=
  ['-'] ++ twoDigits civil.month ++ ['-'] ++ twoDigits civil.day ++ ['T'] ++
    twoDigits (ofDay / 3600) ++ [':'] ++ twoDigits (ofDay / 60 % 60) ++ [':'] ++
    twoDigits (ofDay % 60) ++ ['Z']

/-- The text after the year has one length. -/
theorem length_tailText (civil : CivilDay) (ofDay : Int) : (tailText civil ofDay).length = 16 := rfl

/-- The text of a number of seconds from the epoch. -/
def text (seconds : Int) : List Char :=
  let civil := CivilDay.ofDays (seconds / 86400)
  yearText civil.year ++ tailText civil (seconds % 86400)

/-- The seconds from the epoch that a year and the rest of a text denote. -/
def value (year : Int) : List Char → Option Int
  | [_, m, m', _, d, d', _, h, h', _, n, n', _, s, s', _] =>
      let civil : CivilDay := ⟨year, digitsValue [m, m'], digitsValue [d, d']⟩
      some (86400 * civil.days + 3600 * digitsValue [h, h'] + 60 * digitsValue [n, n'] +
        digitsValue [s, s'])
  | _ => none

/-- The time is read back from the text after the year. -/
theorem value_tailText (seconds : Int) :
    value (CivilDay.ofDays (seconds / 86400)).year
      (tailText (CivilDay.ofDays (seconds / 86400)) (seconds % 86400)) = some seconds := by
  obtain ⟨months, monthsBelow, days, daysBelow⟩ := CivilDay.ofDays_bounds (seconds / 86400)
  have month := digitsValue_twoDigits _ months monthsBelow
  have day := digitsValue_twoDigits _ days daysBelow
  have hour := digitsValue_twoDigits (seconds % 86400 / 3600) (by omega) (by omega)
  have minute := digitsValue_twoDigits (seconds % 86400 / 60 % 60) (by omega) (by omega)
  have second := digitsValue_twoDigits (seconds % 86400 % 60) (by omega) (by omega)
  have counted := CivilDay.days_ofDays (seconds / 86400)
  simp only [twoDigits] at month day hour minute second
  simp only [tailText, twoDigits, List.cons_append, List.nil_append, value, month, day, hour,
    minute, second, counted]
  congr 1
  omega

/-- Read a text that this calendar writes. -/
def read (text : List Char) : Option Int :=
  let split := text.length - 16
  value (yearValue (text.take split)) (text.drop split)

/-- **A time is read back from its text**. -/
theorem read_text (seconds : Int) : read (text seconds) = some seconds := by
  unfold read text
  simp only [List.length_append, length_tailText, Nat.add_sub_cancel, List.take_left,
    List.drop_left, yearValue_yearText]
  exact value_tailText seconds

/-- **The Gregorian text form.** A text is read when it is one that is written. -/
def gregorian : ISO8601 where
  string seconds := String.ofList (text seconds)
  seconds? string := (read string.toList).filter fun seconds => text seconds = string.toList
  seconds?_string seconds := by
    rw [String.toList_ofList, read_text, Option.filter_some]
    simp

end ISO8601

example : ISO8601.gregorian.string 1570441200 = "2019-10-07T09:40:00Z" := by decide

end Foundation
