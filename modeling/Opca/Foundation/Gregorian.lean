/-
  Foundation/Gregorian.lean --- dates of the proleptic Gregorian calendar: which
  there are, the date after each, and their numbering by days.
-/
import Opca.Foundation.Calendar
import Mathlib.Tactic.IntervalCases

set_option autoImplicit false

namespace Opca.Foundation.Calendar

/-! ## Dates -/

structure Date where
  year : Int
  month : Nat
  day : Nat
  deriving DecidableEq, Repr

def isLeapYear (year : Int) : Prop := year % 4 = 0 ∧ (year % 100 ≠ 0 ∨ year % 400 = 0)

instance (year : Int) : Decidable (isLeapYear year) := inferInstanceAs (Decidable (_ ∧ _))

def monthLength (year : Int) (month : Nat) : Nat :=
  if month = 2 then (if isLeapYear year then 29 else 28)
  else if month = 4 ∨ month = 6 ∨ month = 9 ∨ month = 11 then 30
  else 31

namespace Date

structure Valid (d : Date) : Prop where
  month_pos : 1 ≤ d.month
  month_le : d.month ≤ 12
  day_pos : 1 ≤ d.day
  day_le : d.day ≤ monthLength d.year d.month

/-- The date of the day after. -/
def next (d : Date) : Date :=
  if d.day < monthLength d.year d.month then { d with day := d.day + 1 }
  else if d.month < 12 then ⟨d.year, d.month + 1, 1⟩
  else ⟨d.year + 1, 1, 1⟩

/-- The days from 1970-01-01. -/
def number (d : Date) : Int := daysFromCivil d.year d.month d.day

variable {d e : Date}

/-! ## Years from March

The year is cut after February, so that the leap day is its last; a date is then a
year of that kind and the day of it, and its number is a sum of the two. -/

/-- The year from March that the date lies in. -/
def marchYear (d : Date) : Int := if d.month ≤ 2 then d.year - 1 else d.year

/-- The month of that year, from 0. -/
def marchMonth (d : Date) : Nat := (d.month + 9) % 12

/-- The days before a month of that year. -/
def monthStart (marchMonth : Nat) : Nat := (153 * marchMonth + 2) / 5

/-- The day of that year, from 0. -/
def marchDay (d : Date) : Int := monthStart d.marchMonth + d.day - 1

/-- The days from 0000-03-01 to the first day of a year from March. -/
def yearStart (year : Int) : Int := year * 365 + year / 4 - year / 100 + year / 400

/-- A year from March has a 366th day where the leap day that ends it is. -/
theorem yearStart_succ (year : Int) :
    yearStart (year + 1) = yearStart year + 365 + (if isLeapYear (year + 1) then 1 else 0) := by
  unfold yearStart
  by_cases h : isLeapYear (year + 1)
  · rw [if_pos h]
    unfold isLeapYear at h
    omega
  · rw [if_neg h]
    unfold isLeapYear at h
    omega

theorem yearStart_lt {year later : Int} (h : year < later) :
    yearStart year + 365 + (if isLeapYear (year + 1) then 1 else 0) ≤ yearStart later := by
  rw [← yearStart_succ]
  unfold yearStart
  omega

theorem number_eq (d : Date) : d.number = yearStart d.marchYear + d.marchDay - 719468 := by
  have hday : d.marchDay = (153 * ((d.month + 9) % 12) + 2) / 5 + d.day - 1 := by
    simp [marchDay, monthStart, marchMonth]
  rw [hday]
  unfold number daysFromCivil yearStart marchYear
  dsimp only
  generalize (153 * ((d.month + 9 : Int) % 12) + 2) / 5 = start
  split <;> omega

theorem Valid.marchDay_nonneg (h : d.Valid) : 0 ≤ d.marchDay := by
  have := h.day_pos
  unfold marchDay
  omega

/-- The months but February end where the next one begins. -/
theorem monthLength_add {year : Int} {month : Nat} (hpos : 1 ≤ month) (hle : month ≤ 12)
    (hne : month ≠ 2) : monthStart ((month + 9) % 12) + monthLength year month =
      monthStart ((month + 9) % 12 + 1) := by
  interval_cases month <;> simp_all [monthLength, monthStart]

theorem monthStart_le {month later : Nat} (h : month ≤ later) :
    monthStart month ≤ monthStart later :=
  Nat.div_le_div_right (by omega)

/-- Of two days of the year, the one in the later month from March is later. -/
theorem Valid.marchDay_lt {month : Nat} (h : d.Valid) (hlt : d.marchMonth < month)
    (hmonth : month ≤ 11) : d.marchDay < monthStart month := by
  have hne : d.month ≠ 2 := by unfold marchMonth at hlt; omega
  have hend := @monthLength_add d.year _ h.month_pos h.month_le hne
  have hday := h.day_le
  have hstart : monthStart (d.marchMonth + 1) ≤ monthStart month := monthStart_le hlt
  unfold marchDay marchMonth at *
  omega

theorem Valid.marchDay_le (h : d.Valid) :
    d.marchDay < 365 + (if isLeapYear (d.marchYear + 1) then 1 else 0) := by
  by_cases hfebruary : d.month = 2
  · have hday := h.day_le
    unfold monthLength at hday
    unfold marchDay marchYear marchMonth
    simp only [hfebruary, if_true, le_refl, Int.sub_add_cancel, monthStart] at hday ⊢
    split at hday <;> simp_all <;> omega
  · have hbefore : d.marchDay < monthStart 11 := by
      apply h.marchDay_lt _ (by omega)
      have := h.month_pos
      have := h.month_le
      unfold marchMonth
      omega
    unfold monthStart at hbefore
    split <;> omega

/-- The order of dates, by year, month and day. -/
def Before (d e : Date) : Prop :=
  d.year < e.year ∨ d.year = e.year ∧ (d.month < e.month ∨ d.month = e.month ∧ d.day < e.day)

theorem before_or_eq (d e : Date) : d.Before e ∨ d = e ∨ e.Before d := by
  rw [Date.mk.injEq d.year d.month d.day e.year e.month e.day]
  unfold Before
  omega

/-- An earlier date has a lower number. -/
theorem Valid.number_lt (hd : d.Valid) (he : e.Valid) (h : d.Before e) :
    d.number < e.number := by
  have hnonneg := he.marchDay_nonneg
  have hle := hd.marchDay_le
  have hday := he.day_pos
  have hmonth := hd.month_pos
  have hmonth' := he.month_le
  unfold Before at h
  rw [number_eq, number_eq]
  by_cases hyear : d.marchYear < e.marchYear
  · have := yearStart_lt hyear
    omega
  · have hsame : d.marchYear = e.marchYear := by
      unfold marchYear at hyear ⊢
      split at hyear <;> split at hyear <;> omega
    rw [hsame]
    rcases Nat.lt_trichotomy d.marchMonth e.marchMonth with hlt | heq | hgt
    · have hbefore := hd.marchDay_lt hlt (by unfold marchMonth; omega)
      unfold marchDay at *
      omega
    · have hmonths : d.month = e.month := by
        have := hd.month_le
        have := he.month_pos
        unfold marchMonth at heq
        omega
      have hdays : d.day < e.day := by
        unfold marchYear at hsame
        rw [hmonths] at hsame h
        split at hsame <;> omega
      unfold marchDay
      rw [heq]
      omega
    · unfold marchYear at hsame
      unfold marchMonth at hgt
      have := he.month_pos
      have := hd.month_le
      split at hsame <;> split at hsame <;> omega

theorem Valid.number_lt_iff (hd : d.Valid) (he : e.Valid) :
    d.number < e.number ↔ d.Before e := by
  refine ⟨fun h => ?_, hd.number_lt he⟩
  rcases before_or_eq d e with hbefore | rfl | hafter
  · exact hbefore
  · exact absurd h (Int.lt_irrefl _)
  · exact absurd h (Int.not_lt.mpr (Int.le_of_lt (he.number_lt hd hafter)))

/-- Dates are told apart by their numbers. -/
theorem eq_of_number (hd : d.Valid) (he : e.Valid) (h : d.number = e.number) : d = e := by
  rcases before_or_eq d e with hbefore | heq | hafter
  · exact absurd (hd.number_lt he hbefore) (h ▸ Int.lt_irrefl _)
  · exact heq
  · exact absurd (he.number_lt hd hafter) (h ▸ Int.lt_irrefl _)

/-! ## The day after -/

theorem Valid.next (h : d.Valid) : d.next.Valid := by
  obtain ⟨hpos, hle, hday, hlength⟩ := h
  unfold Date.next
  split
  · next hlt => exact ⟨hpos, hle, by simp, hlt⟩
  · split
    · next hmonth =>
      refine ⟨by simp, hmonth, by simp, ?_⟩
      unfold monthLength
      split <;> split <;> simp
    · exact ⟨by simp, by simp, by simp, by simp [monthLength]⟩

theorem Valid.number_next (h : d.Valid) : d.next.number = d.number + 1 := by
  obtain ⟨hpos, hle, hday, hlength⟩ := h
  unfold Date.next
  split
  · rw [number_eq, number_eq]
    unfold marchDay marchMonth marchYear
    dsimp only
    omega
  · next hlast =>
    have hlast : d.day = monthLength d.year d.month := by omega
    by_cases hfebruary : d.month = 2
    · -- the leap day, where there is one, ends the year from March
      have hyear := yearStart_succ (d.year - 1)
      rw [Int.sub_add_cancel] at hyear
      rw [if_pos (by omega), number_eq, number_eq]
      unfold marchDay marchMonth marchYear
      dsimp only
      rw [hlast, hfebruary, monthLength, if_pos rfl]
      simp only [le_refl, if_true, Nat.reduceAdd, Nat.reduceLeDiff, if_false, hyear, monthStart]
      split <;> simp <;> omega
    · have hend := @monthLength_add d.year _ hpos hle hfebruary
      split
      · next hmonth =>
        have hsucc : (d.month + 1 + 9) % 12 = (d.month + 9) % 12 + 1 := by omega
        rw [number_eq, number_eq]
        unfold marchDay marchMonth marchYear
        dsimp only
        rw [hsucc]
        split <;> split <;> omega
      · next hmonth =>
        have hdecember : d.month = 12 := by omega
        rw [number_eq, number_eq]
        unfold marchDay marchMonth marchYear
        simp_all
        omega

theorem number_epoch : (Date.mk 1970 1 1).number = 0 := by decide

theorem valid_newYear (year : Int) : (Date.mk year 1 1).Valid :=
  ⟨by simp, by simp, by simp, by simp [monthLength]⟩

end Date

/-! ## Moments -/

/-- A second of a day. -/
structure Moment where
  date : Date
  hour : Nat
  minute : Nat
  second : Nat
  deriving DecidableEq, Repr

namespace Moment

structure Valid (m : Moment) : Prop where
  date : m.date.Valid
  hour : m.hour < 24
  minute : m.minute < 60
  second : m.second < 60

/-- The seconds from the epoch. -/
def seconds (m : Moment) : Int :=
  m.date.number * 86400 + m.hour * 3600 + m.minute * 60 + m.second

variable {m n : Moment}

theorem Valid.seconds_div (h : m.Valid) : m.seconds / 86400 = m.date.number := by
  obtain ⟨-, hhour, hminute, hsecond⟩ := h
  unfold seconds
  omega

theorem Valid.seconds_mod (h : m.Valid) :
    (m.seconds % 86400).toNat = m.hour * 3600 + m.minute * 60 + m.second := by
  obtain ⟨-, hhour, hminute, hsecond⟩ := h
  unfold seconds
  omega

end Moment

end Opca.Foundation.Calendar
