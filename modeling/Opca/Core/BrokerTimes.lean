/-
  Core/BrokerTimes.lean --- the times a broker writes in RFC 3339, and the texts the
  desktop makes of them (`enrolment.rs`, `services/acme_broker/mod.rs`).
-/
import Opca.Core.Database
import Opca.Foundation.Gregorian
import Opca.Foundation.Radix

set_option autoImplicit false

namespace Opca.Core.BrokerTimes

open Opca.Foundation Calendar Acme

/-! ## Days to dates -/

def dateOf (days : Int) : Date :=
  let (year, month, day) := civilFromDays days
  ⟨year, month, day⟩

/-- A day of the era is one of a century's, of its four-year cycles' and of their
years', the last century and the last year of a cycle being those that may be longer. -/
theorem exists_cycles {dayOfEra : Int} (hpos : 0 ≤ dayOfEra) (hlt : dayOfEra < 146097) :
    ∃ century cycle year dayOfYear : Int,
      (0 ≤ century ∧ century ≤ 3) ∧ (0 ≤ cycle ∧ cycle ≤ 24) ∧ (0 ≤ year ∧ year ≤ 3) ∧
      dayOfEra = 36524 * century + 1461 * cycle + 365 * year + dayOfYear ∧
      (0 ≤ dayOfYear ∧ dayOfYear ≤ 365) ∧
      (dayOfYear = 365 → year = 3 ∧ (cycle = 24 → century = 3)) := by
  have hcentury : ∃ century : Int, (0 ≤ century ∧ century ≤ 3) ∧
      0 ≤ dayOfEra - 36524 * century ∧
      (dayOfEra - 36524 * century < 36524 ∨
        dayOfEra - 36524 * century = 36524 ∧ century = 3) := by
    by_cases hlast : dayOfEra = 146096
    · exact ⟨3, by omega, by omega, by omega⟩
    · exact ⟨dayOfEra / 36524, by omega, by omega, by omega⟩
  obtain ⟨century, hcentury, hleft, hright⟩ := hcentury
  generalize hday : dayOfEra - 36524 * century = day at hleft hright
  have hyear : ∃ year : Int, (0 ≤ year ∧ year ≤ 3) ∧ 0 ≤ day % 1461 - 365 * year ∧
      (day % 1461 - 365 * year < 365 ∨ day % 1461 - 365 * year = 365 ∧ year = 3) := by
    by_cases hlast : day % 1461 = 1460
    · exact ⟨3, by omega, by omega, by omega⟩
    · exact ⟨day % 1461 / 365, by omega, by omega, by omega⟩
  obtain ⟨year, hyear, hleft', hright'⟩ := hyear
  refine ⟨century, day / 1461, year, day % 1461 - 365 * year, hcentury, by omega, hyear,
    by omega, by omega, fun hlast => ⟨by omega, fun hcycle => by omega⟩⟩

/-- What the code computes of a day of the era is the year that the day lies in. -/
theorem yearOfEra_eq {dayOfEra century cycle year dayOfYear : Int}
    (hcentury : 0 ≤ century ∧ century ≤ 3) (hcycle : 0 ≤ cycle ∧ cycle ≤ 24)
    (hyear : 0 ≤ year ∧ year ≤ 3)
    (hday : dayOfEra = 36524 * century + 1461 * cycle + 365 * year + dayOfYear)
    (hdayOfYear : 0 ≤ dayOfYear ∧ dayOfYear ≤ 365)
    (hlast : dayOfYear = 365 → year = 3 ∧ (cycle = 24 → century = 3)) :
    (dayOfEra - dayOfEra / 1460 + dayOfEra / 36524 - dayOfEra / 146096) / 365 =
      100 * century + 4 * cycle + year := by
  have hcenturies : dayOfEra / 36524 - dayOfEra / 146096 = century := by
    generalize hrest : 1461 * cycle + 365 * year + dayOfYear = rest
    have hrest₁ : 0 ≤ rest ∧ (rest < 36524 ∨ rest = 36524 ∧ century = 3) := by omega
    have heq : dayOfEra = 36524 * century + rest := by omega
    rcases hrest₁ with ⟨hnonneg, hlt | ⟨hend, hthird⟩⟩
    · have hfirst : dayOfEra / 36524 = century := by omega
      have hsecond : dayOfEra / 146096 = 0 := by omega
      omega
    · omega
  have hcycles : dayOfEra / 1460 =
      25 * century + cycle + (24 * century + cycle + 365 * year + dayOfYear) / 1460 := by
    omega
  have hover : (24 * century + cycle + 365 * year + dayOfYear) / 1460 = 0 ∧
        24 * century + cycle + 365 * year + dayOfYear < 1460 ∨
      (24 * century + cycle + 365 * year + dayOfYear) / 1460 = 1 ∧
        1460 ≤ 24 * century + cycle + 365 * year + dayOfYear := by omega
  rcases hover with ⟨hover, -⟩ | ⟨hover, hle⟩
  · omega
  · omega

theorem civil_march {shiftedMonth dayOfYear : Int} (hpos : 0 ≤ dayOfYear)
    (hle : dayOfYear ≤ 365) (hmonth : shiftedMonth = (5 * dayOfYear + 2) / 153) :
    0 ≤ shiftedMonth ∧ shiftedMonth ≤ 11 ∧
      0 ≤ dayOfYear - (153 * shiftedMonth + 2) / 5 ∧
      dayOfYear < (153 * (shiftedMonth + 1) + 2) / 5 := by
  omega

/-- The leap years among the year's, and the days before it. -/
theorem year_of_cycles {era century cycle year : Int} (hcentury : 0 ≤ century ∧ century ≤ 3)
    (hcycle : 0 ≤ cycle ∧ cycle ≤ 24) (hyear : 0 ≤ year ∧ year ≤ 3) :
    (100 * century + 4 * cycle + year) / 4 = 25 * century + cycle ∧
      (100 * century + 4 * cycle + year) / 100 = century ∧
      Date.yearStart (100 * century + 4 * cycle + year + era * 400) =
        era * 146097 + 36524 * century + 1461 * cycle + 365 * year ∧
      (year = 3 → (cycle = 24 → century = 3) →
        isLeapYear (100 * century + 4 * cycle + year + era * 400 + 1)) := by
  have hfours : (100 * century + 4 * cycle + year) / 4 = 25 * century + cycle := by omega
  have hhundreds : (100 * century + 4 * cycle + year) / 100 = century := by omega
  refine ⟨hfours, hhundreds, ?_, ?_⟩
  · have hfours' : (100 * century + 4 * cycle + year + era * 400) / 4 =
        25 * century + cycle + era * 100 := by omega
    have hhundreds' : (100 * century + 4 * cycle + year + era * 400) / 100 =
        century + era * 4 := by omega
    have heras : (100 * century + 4 * cycle + year + era * 400) / 400 = era := by omega
    rw [Date.yearStart, hfours', hhundreds', heras]
    omega
  · rintro rfl hends
    unfold isLeapYear
    refine ⟨by omega, ?_⟩
    by_cases hcycle' : cycle = 24
    · rw [hcycle', hends hcycle']
      omega
    · omega

theorem dateOf_march (days : Int) :
    ∃ year month dayOfYear : Int, (0 ≤ month ∧ month ≤ 11) ∧
      (0 ≤ dayOfYear ∧ dayOfYear ≤ 365) ∧ (dayOfYear = 365 → isLeapYear (year + 1)) ∧
      days = Date.yearStart year + dayOfYear - 719468 ∧
      0 ≤ dayOfYear - (153 * month + 2) / 5 ∧ dayOfYear < (153 * (month + 1) + 2) / 5 ∧
      dateOf days = ⟨year + (if month < 10 then 0 else 1),
        (if month < 10 then month + 3 else month - 9).toNat,
        (dayOfYear - (153 * month + 2) / 5 + 1).toNat⟩ := by
  have hsplit := Int.mul_ediv_add_emod (days + 719468) 146097
  unfold dateOf civilFromDays
  dsimp only
  generalize hera : (days + 719468) / 146097 = era at hsplit ⊢
  have hpos : 0 ≤ (days + 719468) % 146097 := by omega
  have hlt : (days + 719468) % 146097 < 146097 := by omega
  generalize (days + 719468) % 146097 = dayOfEra at *
  obtain ⟨century, cycle, year, dayOfYear, hcentury, hcycle, hyear, hday, hdayOfYear, hlast⟩ :=
    exists_cycles hpos hlt
  obtain ⟨hfours, hhundreds, hstart, hleap⟩ :=
    @year_of_cycles era _ _ _ hcentury hcycle hyear
  obtain ⟨hmonth, hmonth', hleft, hright⟩ := civil_march hdayOfYear.1 hdayOfYear.2 rfl
  have hdays : dayOfEra - (365 * (100 * century + 4 * cycle + year) +
      (25 * century + cycle) - century) = dayOfYear := by omega
  rw [yearOfEra_eq hcentury hcycle hyear hday hdayOfYear hlast, hfours, hhundreds, hdays]
  refine ⟨100 * century + 4 * cycle + year + era * 400, (5 * dayOfYear + 2) / 153, dayOfYear,
    ⟨hmonth, hmonth'⟩, hdayOfYear, ?_, ?_, hleft, hright, ?_⟩
  · intro hends
    exact hleap (hlast hends).1 (hlast hends).2
  · rw [hstart]
    omega
  · generalize (5 * dayOfYear + 2) / 153 = month at *
    congr 1
    by_cases hlate : month < 10
    · simp only [hlate, if_true]
      rw [if_neg (by omega)]
    · simp only [hlate, if_false]
      rw [if_pos (by omega)]

/-- The date is one of the calendar's, and the day's own. -/
theorem dateOf_spec (days : Int) : (dateOf days).Valid ∧ (dateOf days).number = days := by
  obtain ⟨year, month, dayOfYear, ⟨hmonth, hmonth'⟩, hday, hleap, hdays, hleft, hright, hdate⟩ :=
    dateOf_march days
  have hmarch : (dateOf days).marchYear = year ∧ (dateOf days).marchMonth = month.toNat := by
    rw [hdate]
    unfold Date.marchYear Date.marchMonth
    by_cases hlate : month < 10
    · simp only [hlate, if_true]
      rw [if_neg (by omega)]
      omega
    · simp only [hlate, if_false]
      rw [if_pos (by omega)]
      omega
  have hstart : (Date.monthStart month.toNat : Int) = (153 * month + 2) / 5 := by
    simp [Date.monthStart, Int.toNat_of_nonneg hmonth]
  have hdayNumber : ((dateOf days).day : Int) = dayOfYear - (153 * month + 2) / 5 + 1 := by
    rw [hdate]
    exact Int.toNat_of_nonneg (by omega)
  constructor
  · obtain ⟨hvalid, hle⟩ : 1 ≤ (dateOf days).month ∧ (dateOf days).month ≤ 12 := by
      rw [hdate]
      dsimp only
      split <;> omega
    refine ⟨hvalid, hle, by omega, ?_⟩
    by_cases hfebruary : month = 11
    · -- the year ends with the leap day, or the day before it
      have hlength : monthLength (dateOf days).year (dateOf days).month =
          if isLeapYear (year + 1) then 29 else 28 := by
        rw [hdate, hfebruary]
        rfl
      rw [hlength]
      split
      · omega
      · next hcommon =>
        have hne : dayOfYear ≠ 365 := fun hlast => hcommon (hleap hlast)
        omega
    · have hshifted := hmarch.2
      unfold Date.marchMonth at hshifted
      have hend := @Date.monthLength_add (dateOf days).year _ hvalid hle (by omega)
      have hnext : (Date.monthStart (month.toNat + 1) : Int) = (153 * (month + 1) + 2) / 5 := by
        simp [Date.monthStart, Int.toNat_of_nonneg hmonth]
      rw [hshifted] at hend
      omega
  · rw [Date.number_eq, Date.marchDay, hmarch.1, hmarch.2, hstart, hdayNumber]
    omega

theorem dateOf_number {d : Date} (h : d.Valid) : dateOf d.number = d :=
  Date.eq_of_number (dateOf_spec _).1 h (dateOf_spec _).2

theorem dateOf_succ (days : Int) : dateOf (days + 1) = (dateOf days).next := by
  obtain ⟨hvalid, hnumber⟩ := dateOf_spec days
  have hnext := dateOf_number hvalid.next
  rw [hvalid.number_next, hnumber] at hnext
  exact hnext

/-! ## The texts -/

theorem toList_padded (width n : Nat) :
    (padded width n).toList =
      List.replicate (width - (Nat.toDigits 10 n).length) '0' ++ Nat.toDigits 10 n := by
  simp [padded, Nat.repr_eq_ofList_toDigits]

theorem length_padded {width n : Nat} (hpos : 0 < width) (hlt : n < 10 ^ width) :
    (padded width n).toList.length = width := by
  have hle := (Nat.length_toDigits_le_iff (b := 10) (by omega) hpos).mpr hlt
  rw [toList_padded, List.length_append, List.length_replicate]
  omega

theorem isDigit_padded {width n : Nat} : ∀ c ∈ (padded width n).toList, c.isDigit = true := by
  intro c hc
  rw [toList_padded, List.mem_append] at hc
  rcases hc with hzero | hdigit
  · rw [List.eq_of_mem_replicate hzero]
    rfl
  · exact Nat.isDigit_of_mem_toDigits (by omega) (by omega) hdigit

theorem ofDigitChars_padded (width n : Nat) :
    Nat.ofDigitChars 10 (padded width n).toList 0 = n := by
  rw [toList_padded, Nat.ofDigitChars_append, Nat.ofDigitChars_replicate_zero, Nat.mul_zero,
    Nat.ofDigitChars_ten_toDigits]

theorem digits_padded (width n : Nat) : digits (padded width n).toList = some n := by
  rw [digits, if_pos (List.all_eq_true.mpr isDigit_padded), ofDigitChars_padded]

/-- `YYYY-MM-DDTHH:MM:SS`. -/
def plain (m : Moment) : String :=
  padded 4 m.date.year.toNat ++ "-" ++ padded 2 m.date.month ++ "-" ++ padded 2 m.date.day ++
    "T" ++ padded 2 m.hour ++ ":" ++ padded 2 m.minute ++ ":" ++ padded 2 m.second

/-- `YYYYMMDDHHMMSSZ`, as the desktop's database has it. -/
def compact (m : Moment) : String :=
  padded 4 m.date.year.toNat ++ padded 2 m.date.month ++ padded 2 m.date.day ++
    padded 2 m.hour ++ padded 2 m.minute ++ padded 2 m.second ++ "Z"

/-- A second of a day of the years 1970 to 9999. -/
structure InRange (m : Moment) : Prop extends m.Valid where
  year_ge : 1970 ≤ m.date.year
  year_lt : m.date.year < 10000

variable {m n : Moment}

theorem monthLength_le {year : Int} {month : Nat} : monthLength year month ≤ 31 := by
  unfold monthLength
  split
  · split <;> simp
  · split <;> simp

theorem daysInMonth_eq {year month : Nat} : daysInMonth year month = monthLength year month := by
  have hleap : isLeap year = true ↔ isLeapYear (year : Int) := by
    simp only [isLeap, isLeapYear, Bool.and_eq_true, Bool.or_eq_true, decide_eq_true_eq]
    omega
  unfold daysInMonth monthLength
  by_cases hfebruary : month = 2
  · simp only [hfebruary, if_true, hleap]
  · simp [hfebruary, or_assoc]

/-- The parts of a text, each as wide as it was padded to. -/
theorem InRange.lengths (h : InRange m) :
    (padded 4 m.date.year.toNat).toList.length = 4 ∧ (padded 2 m.date.month).toList.length = 2 ∧
      (padded 2 m.date.day).toList.length = 2 ∧ (padded 2 m.hour).toList.length = 2 ∧
      (padded 2 m.minute).toList.length = 2 ∧ (padded 2 m.second).toList.length = 2 := by
  have hyear := h.year_lt
  have hmonth := h.date.month_le
  have hday := h.date.day_le.trans monthLength_le
  have hhour := h.hour
  have hminute := h.minute
  have hsecond := h.second
  refine ⟨length_padded ?_ ?_, length_padded ?_ ?_, length_padded ?_ ?_, length_padded ?_ ?_,
    length_padded ?_ ?_, length_padded ?_ ?_⟩ <;> omega

/-- The text that a list of parts is, character by character. -/
theorem InRange.chars (h : InRange m) :
    ∃ y₁ y₂ y₃ y₄ m₁ m₂ d₁ d₂ h₁ h₂ n₁ n₂ s₁ s₂ : Char,
      ((digits [y₁, y₂, y₃, y₄] = some m.date.year.toNat ∧ digits [m₁, m₂] = some m.date.month ∧
        digits [d₁, d₂] = some m.date.day) ∧
        digits [h₁, h₂] = some m.hour ∧ digits [n₁, n₂] = some m.minute ∧
        digits [s₁, s₂] = some m.second) ∧
      (plain m).toList = [y₁, y₂, y₃, y₄, '-', m₁, m₂, '-', d₁, d₂, 'T', h₁, h₂, ':', n₁, n₂,
        ':', s₁, s₂] ∧
      (compact m).toList = [y₁, y₂, y₃, y₄, m₁, m₂, d₁, d₂, h₁, h₂, n₁, n₂, s₁, s₂, 'Z'] := by
  obtain ⟨hyear, hmonth, hday, hhour, hminute, hsecond⟩ := h.lengths
  obtain ⟨y₁, y₂, y₃, y₄, hyear⟩ := List.length_eq_four.mp hyear
  obtain ⟨m₁, m₂, hmonth⟩ := List.length_eq_two.mp hmonth
  obtain ⟨d₁, d₂, hday⟩ := List.length_eq_two.mp hday
  obtain ⟨h₁, h₂, hhour⟩ := List.length_eq_two.mp hhour
  obtain ⟨n₁, n₂, hminute⟩ := List.length_eq_two.mp hminute
  obtain ⟨s₁, s₂, hsecond⟩ := List.length_eq_two.mp hsecond
  refine ⟨y₁, y₂, y₃, y₄, m₁, m₂, d₁, d₂, h₁, h₂, n₁, n₂, s₁, s₂, ?_, ?_, ?_⟩
  · simp only [← hyear, ← hmonth, ← hday, ← hhour, ← hminute, ← hsecond, digits_padded,
      and_self]
  · simp [plain, hyear, hmonth, hday, hhour, hminute, hsecond]
  · simp [compact, hyear, hmonth, hday, hhour, hminute, hsecond]

/-- The plain text is read as the moment. -/
theorem InRange.secondsOf_plain (h : InRange m) : secondsOf (plain m).toList = some m.seconds := by
  obtain ⟨y₁, y₂, y₃, y₄, m₁, m₂, d₁, d₂, h₁, h₂, n₁, n₂, s₁, s₂,
    ⟨⟨hyear, hmonth, hday⟩, hhour, hminute, hsecond⟩, hplain, -⟩ := h.chars
  have hnat : (m.date.year.toNat : Int) = m.date.year := by
    have := h.year_ge
    omega
  have hdate : 1 ≤ m.date.month ∧ m.date.month ≤ 12 ∧ 1 ≤ m.date.day ∧
      m.date.day ≤ daysInMonth m.date.year.toNat m.date.month := by
    rw [daysInMonth_eq, hnat]
    exact ⟨h.date.month_pos, h.date.month_le, h.date.day_pos, h.date.day_le⟩
  have hclock : m.hour < 24 ∧ m.minute < 60 ∧ m.second < 60 := ⟨h.hour, h.minute, h.second⟩
  rw [hplain]
  simp [secondsOf, hyear, hmonth, hday, hhour, hminute, hsecond, hdate, hclock, hnat,
    Moment.seconds, Date.number, guard]

/-- The digits of the desktop's text. -/
def compactDigits (m : Moment) : List Char :=
  (padded 4 m.date.year.toNat).toList ++ ((padded 2 m.date.month).toList ++
    ((padded 2 m.date.day).toList ++ ((padded 2 m.hour).toList ++
      ((padded 2 m.minute).toList ++ (padded 2 m.second).toList))))

theorem toList_compact (m : Moment) : (compact m).toList = compactDigits m ++ ['Z'] := by
  simp [compact, compactDigits]

theorem isDigit_compactDigits : ∀ c ∈ compactDigits m, c.isDigit = true := by
  intro c hc
  simp only [compactDigits, List.mem_append] at hc
  rcases hc with hc | hc | hc | hc | hc | hc <;> exact isDigit_padded c hc

theorem InRange.length_compactDigits (h : InRange m) : (compactDigits m).length = 14 := by
  obtain ⟨hyear, hmonth, hday, hhour, hminute, hsecond⟩ := h.lengths
  simp only [compactDigits, List.length_append]
  omega

theorem InRange.ofDigitChars_compactDigits (h : InRange m) :
    Nat.ofDigitChars 10 (compactDigits m) 0 = ((((m.date.year.toNat * 100 + m.date.month) * 100 +
      m.date.day) * 100 + m.hour) * 100 + m.minute) * 100 + m.second := by
  obtain ⟨hyear, hmonth, hday, hhour, hminute, hsecond⟩ := h.lengths
  have hstep : ∀ (n value : Nat), (padded 2 n).toList.length = 2 →
      Nat.ofDigitChars 10 (padded 2 n).toList value = value * 100 + n := by
    intro n value hlength
    rw [Nat.ofDigitChars_eq_ofDigitChars_zero, hlength, ofDigitChars_padded]
    omega
  simp only [compactDigits, Nat.ofDigitChars_append, ofDigitChars_padded]
  rw [hstep _ _ hmonth, hstep _ _ hday, hstep _ _ hhour, hstep _ _ hminute, hstep _ _ hsecond]

/-- The places of a numeral weigh what the parts of the moment before them do. -/
theorem InRange.lt_of_before (hm : InRange m) (hn : InRange n) (h : m.date.Before n.date) :
    Nat.ofDigitChars 10 (compactDigits m) 0 < Nat.ofDigitChars 10 (compactDigits n) 0 ∧
      m.seconds < n.seconds := by
  have hnumber := hm.date.number_lt hn.date h
  have hyear := hm.year_ge
  have hmonth := hm.date.month_le
  have hday := hm.date.day_le.trans monthLength_le
  obtain ⟨-, hhour, hminute, hsecond⟩ := hm.toValid
  have hdays : (m.date.year.toNat * 100 + m.date.month) * 100 + m.date.day + 1 ≤
      (n.date.year.toNat * 100 + n.date.month) * 100 + n.date.day := by
    unfold Date.Before at h
    rcases h with h | ⟨h, h' | ⟨h', h''⟩⟩ <;> omega
  rw [hm.ofDigitChars_compactDigits, hn.ofDigitChars_compactDigits]
  constructor
  · generalize (m.date.year.toNat * 100 + m.date.month) * 100 + m.date.day = days at hdays ⊢
    generalize (n.date.year.toNat * 100 + n.date.month) * 100 + n.date.day = days' at hdays ⊢
    omega
  · unfold Moment.seconds
    omega

/-- The desktop's texts are ordered as the moments are. -/
theorem compact_lt_iff (hm : InRange m) (hn : InRange n) :
    compact m < compact n ↔ m.seconds < n.seconds := by
  have hlength := hm.length_compactDigits.trans hn.length_compactDigits.symm
  rw [String.lt_iff_toList_lt, toList_compact, toList_compact, Radix.append_lt_append hlength,
    Radix.lt_iff_ofDigitChars hlength isDigit_compactDigits isDigit_compactDigits]
  rcases Date.before_or_eq m.date n.date with hbefore | heq | hafter
  · obtain ⟨htext, hseconds⟩ := hm.lt_of_before hn hbefore
    exact ⟨fun _ => hseconds, fun _ => htext⟩
  · obtain ⟨-, hhour, hminute, hsecond⟩ := hm.toValid
    obtain ⟨-, hhour', hminute', hsecond'⟩ := hn.toValid
    rw [hm.ofDigitChars_compactDigits, hn.ofDigitChars_compactDigits, Moment.seconds,
      Moment.seconds, heq]
    generalize (n.date.year.toNat * 100 + n.date.month) * 100 + n.date.day = days
    omega
  · obtain ⟨htext, hseconds⟩ := hn.lt_of_before hm hafter
    exact ⟨fun h => absurd h (Nat.lt_asymm htext), fun h => absurd h (Int.lt_asymm hseconds)⟩

/-! ## From the broker to the desktop -/

/-- A second since the epoch, by its date and the clock. -/
def ofSeconds (seconds : Nat) : Moment where
  date := dateOf ((seconds / 86400 : Nat) : Int)
  hour := seconds % 86400 / 3600
  minute := seconds % 86400 % 3600 / 60
  second := seconds % 86400 % 60

/-- The second that a time lies in. -/
def momentOf (time : Time) : Moment := ofSeconds (time / 1000000000).toNat

theorem rfc3339_eq (time : Time) : rfc3339 time = plain (momentOf time) ++ "Z" := by
  unfold rfc3339 plain momentOf ofSeconds dateOf
  dsimp only

theorem ofSeconds_valid (seconds : Nat) : (ofSeconds seconds).Valid where
  date := (dateOf_spec _).1
  hour := by
    show seconds % 86400 / 3600 < 24
    omega
  minute := by
    show seconds % 86400 % 3600 / 60 < 60
    omega
  second := Nat.mod_lt _ (by omega)

theorem seconds_ofSeconds (seconds : Nat) : (ofSeconds seconds).seconds = seconds := by
  have hdate : (ofSeconds seconds).date.number = ((seconds / 86400 : Nat) : Int) :=
    (dateOf_spec _).2
  rw [Moment.seconds, hdate]
  simp only [ofSeconds]
  omega

theorem seconds_momentOf {time : Time} (h : 0 ≤ time) :
    (momentOf time).seconds = time / second := by
  rw [momentOf, seconds_ofSeconds]
  unfold second
  rw [Int.toNat_of_nonneg (Int.ediv_nonneg h (by decide))]

/-- The start of the year 10000. -/
def endOfYears : Time := (Date.mk 10000 1 1).number * 86400 * second

theorem inRange_ofSeconds {seconds : Nat} (hlt : seconds < (Date.mk 10000 1 1).number * 86400) :
    InRange (ofSeconds seconds) where
  toValid := ofSeconds_valid seconds
  year_ge := by
    have hvalid := (ofSeconds_valid seconds).date
    have hnumber : (ofSeconds seconds).date.number = ((seconds / 86400 : Nat) : Int) :=
      (dateOf_spec _).2
    by_contra hneg
    have hbefore := hvalid.number_lt (Date.valid_newYear 1970) (Or.inl (not_le.mp hneg))
    rw [Date.number_epoch] at hbefore
    omega
  year_lt := by
    have hvalid := (ofSeconds_valid seconds).date
    have hnumber : (ofSeconds seconds).date.number = ((seconds / 86400 : Nat) : Int) :=
      (dateOf_spec _).2
    have hbefore := (hvalid.number_lt_iff (Date.valid_newYear 10000)).mp (by omega)
    have hmonth := hvalid.month_pos
    have hday := hvalid.day_pos
    unfold Date.Before at hbefore
    dsimp only at hbefore
    omega

theorem inRange_momentOf {time : Time} (h : 0 ≤ time) (hlt : time < endOfYears) :
    InRange (momentOf time) := by
  apply inRange_ofSeconds
  rw [Int.toNat_of_nonneg (Int.ediv_nonneg h (by decide))]
  exact Int.ediv_lt_of_lt_mul (by decide) hlt

/-- What `chrono` does with a time in RFC 3339 and with `%Y%m%d%H%M%SZ`, for the
seconds of the years 1970 to 9999. -/
structure ReadsTimes (chrono : Chrono) (times : OpensslTimes) : Prop where
  parse : ∀ m, InRange m →
    chrono.parseFromRfc3339 (plain m ++ "Z") = .ok (m.seconds * second)
  openssl : ∀ m, InRange m → chrono.openssl (m.seconds * second) = compact m
  read : ∀ m, InRange m → times.parse (compact m) = some (m.seconds * second)

variable {chrono : Chrono} {times : OpensslTimes}

/-- The desktop keeps a broker's time as the text of its second. -/
theorem ReadsTimes.opensslTime_rfc3339 (h : ReadsTimes chrono times) {time : Time}
    (hpos : 0 ≤ time) (hlt : time < endOfYears) :
    opensslTime chrono (rfc3339 time) = .ok (compact (momentOf time)) := by
  have hrange := inRange_momentOf hpos hlt
  rw [rfc3339_eq, opensslTime, h.parse _ hrange]
  dsimp only
  rw [h.openssl _ hrange]

/-- The broker writes each instant's own date and time, its days walking the calendar
from the epoch; the desktop's text of it is that second again, and the texts of two
are ordered as the seconds are. -/
theorem times_reach_desktop (chrono : Chrono) (times : OpensslTimes)
    (h : ReadsTimes chrono times) :
    (dateOf 0 = ⟨1970, 1, 1⟩ ∧
      (∀ days, (dateOf days).Valid ∧ dateOf (days + 1) = (dateOf days).next ∧
        (dateOf days).number = days) ∧
      ∀ date : Date, date.Valid → dateOf date.number = date) ∧
    ∀ time : Time, 0 ≤ time → time < endOfYears →
      (momentOf time).Valid ∧
      (momentOf time).seconds = time / second ∧
      rfc3339 time = plain (momentOf time) ++ "Z" ∧
      secondsOf (plain (momentOf time)).toList = some (time / second) ∧
      ∃ text, opensslTime chrono (rfc3339 time) = .ok text ∧
        times.parse text = some (time / second * second) ∧
        ∀ later : Time, 0 ≤ later → later < endOfYears →
          ∃ text', opensslTime chrono (rfc3339 later) = .ok text' ∧
            (text < text' ↔ time / second < later / second) ∧
            (text = text' ↔ time / second = later / second) := by
  refine ⟨⟨by decide, fun days => ?_, fun date => dateOf_number⟩, fun time hpos hlt => ?_⟩
  · exact ⟨(dateOf_spec days).1, dateOf_succ days, (dateOf_spec days).2⟩
  · have hrange := inRange_momentOf hpos hlt
    have hseconds := seconds_momentOf hpos
    refine ⟨hrange.toValid, hseconds, rfc3339_eq time, ?_, _,
      h.opensslTime_rfc3339 hpos hlt, ?_, fun later hpos' hlt' => ?_⟩
    · rw [hrange.secondsOf_plain, hseconds]
    · rw [h.read _ hrange, hseconds]
    · have hrange' := inRange_momentOf hpos' hlt'
      have hseconds' := seconds_momentOf hpos'
      refine ⟨_, h.opensslTime_rfc3339 hpos' hlt', ?_, ?_⟩
      · rw [compact_lt_iff hrange hrange', hseconds, hseconds']
      · rw [← hseconds, ← hseconds']
        constructor
        · intro htext
          apply Int.le_antisymm <;> rw [← Int.not_lt]
          · rw [← compact_lt_iff hrange' hrange, htext]
            exact String.lt_irrefl _
          · rw [← compact_lt_iff hrange hrange', htext]
            exact String.lt_irrefl _
        · intro hsame
          unfold momentOf at hsame ⊢
          rw [seconds_ofSeconds, seconds_ofSeconds] at hsame
          rw [Int.ofNat.inj hsame]

/-! ## A reader of such times -/

/-- `YYYYMMDDHHMMSSZ`, as the second it names. -/
def compactSeconds : List Char → Option Int
  | [y₁, y₂, y₃, y₄, m₁, m₂, d₁, d₂, h₁, h₂, n₁, n₂, s₁, s₂, 'Z'] =>
    secondsOf [y₁, y₂, y₃, y₄, '-', m₁, m₂, '-', d₁, d₂, 'T', h₁, h₂, ':', n₁, n₂, ':', s₁, s₂]
  | _ => none

def sampleChrono : Chrono where
  parseFromRfc3339 text :=
    ((secondsOf text.toList.dropLast).map (· * second)).elim (.error "invalid") .ok
  openssl time := compact (momentOf time)

def sampleTimes : OpensslTimes where
  parse text := (compactSeconds text.toList).map (· * second)
  format time := compact (momentOf time)

theorem InRange.ofSeconds_eq (h : InRange m) : ofSeconds m.seconds.toNat = m := by
  have hnonneg : 0 ≤ m.date.number := by
    rw [← Date.number_epoch]
    by_contra hneg
    have hbefore := (h.date.number_lt_iff (Date.valid_newYear 1970)).mp (not_le.mp hneg)
    have hyear := h.year_ge
    have hmonth := h.date.month_pos
    have hday := h.date.day_pos
    unfold Date.Before at hbefore
    dsimp only at hbefore
    omega
  have hdiv := h.seconds_div
  have hmod := h.seconds_mod
  have hseconds : 0 ≤ m.seconds := by
    unfold Moment.seconds
    omega
  obtain ⟨-, hhour, hminute, hsecond⟩ := h.toValid
  have hdays : ((m.seconds.toNat / 86400 : Nat) : Int) = m.date.number := by omega
  have hclock : m.seconds.toNat % 86400 = m.hour * 3600 + m.minute * 60 + m.second := by omega
  rw [ofSeconds, hdays, dateOf_number h.date, hclock]
  obtain ⟨date, hour, minute, second⟩ := m
  simp only at hhour hminute hsecond
  simp only [Moment.mk.injEq, true_and]
  omega

theorem sampleChrono_reads : ReadsTimes sampleChrono sampleTimes where
  parse m h := by
    have hplain := h.secondsOf_plain
    simp [sampleChrono, hplain]
  openssl m h := by
    have hdiv : m.seconds * second / 1000000000 = m.seconds := by
      unfold second
      omega
    show compact (ofSeconds (m.seconds * second / 1000000000).toNat) = compact m
    rw [hdiv, h.ofSeconds_eq]
  read m h := by
    obtain ⟨y₁, y₂, y₃, y₄, m₁, m₂, d₁, d₂, h₁, h₂, n₁, n₂, s₁, s₂, -, hplain, hcompact⟩ :=
      h.chars
    rw [sampleTimes]
    dsimp only
    rw [hcompact, compactSeconds, ← hplain, h.secondsOf_plain]
    rfl

theorem leapDay_reaches_desktop :
    ∃ text, opensslTime sampleChrono (rfc3339 951782400000000000) = .ok text ∧
      sampleTimes.parse text = some 951782400000000000 := by
  obtain ⟨-, -, -, -, text, htext, hread, -⟩ := (times_reach_desktop sampleChrono sampleTimes
    sampleChrono_reads).2 951782400000000000 (by decide) (by decide)
  exact ⟨text, htext, hread⟩

end Opca.Core.BrokerTimes
