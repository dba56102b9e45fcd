/-
  Foundation/Calendar.lean --- the Gregorian calendar: the day number of a date,
  and the reading of `YYYY-MM-DDTHH:MM:SS` as seconds since the epoch.
-/
import Mathlib.Data.Nat.Basic

set_option autoImplicit false

namespace Opca.Foundation.Calendar

/-- The days from 1970-01-01 to a date of the proleptic Gregorian calendar.
The year is counted from March, so that the leap day is its last. -/
def daysFromCivil (year : Int) (month day : Nat) : Int :=
  let year := if month ≤ 2 then year - 1 else year
  let era := year / 400
  let yearOfEra := year - era * 400
  let dayOfYear : Int := (153 * ((month + 9) % 12) + 2) / 5 + day - 1
  let dayOfEra := yearOfEra * 365 + yearOfEra / 4 - yearOfEra / 100 + dayOfYear
  era * 146097 + dayOfEra - 719468

def isLeap (year : Nat) : Bool :=
  year % 4 = 0 && (year % 100 ≠ 0 || year % 400 = 0)

def daysInMonth (year month : Nat) : Nat :=
  if month = 2 then (if isLeap year then 29 else 28)
  else if month = 4 || month = 6 || month = 9 || month = 11 then 30
  else 31

/-- The value of a run of decimal digits. -/
def digits (cs : List Char) : Option Nat :=
  if cs.all Char.isDigit then some (Nat.ofDigitChars 10 cs 0) else none

/-- The second a `YYYY-MM-DDTHH:MM:SS` names, if it is one. -/
def secondsOf : List Char → Option Int
  | [y₁, y₂, y₃, y₄, '-', m₁, m₂, '-', d₁, d₂, 'T', h₁, h₂, ':', n₁, n₂, ':', s₁, s₂] => do
    let year ← digits [y₁, y₂, y₃, y₄]
    let month ← digits [m₁, m₂]
    let day ← digits [d₁, d₂]
    let hour ← digits [h₁, h₂]
    let minute ← digits [n₁, n₂]
    let second ← digits [s₁, s₂]
    guard (1 ≤ month ∧ month ≤ 12 ∧ 1 ≤ day ∧ day ≤ daysInMonth year month)
    guard (hour < 24 ∧ minute < 60 ∧ second < 60)
    some (daysFromCivil year month day * 86400 + hour * 3600 + minute * 60 + second)
  | _ => none

example : secondsOf "2000-03-01T12:00:05".toList = some 951912005 := by decide

end Opca.Foundation.Calendar
