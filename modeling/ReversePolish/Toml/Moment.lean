import ReversePolish.Decimal.Reading
import ReversePolish.Text.Split

/-!
# Dates and times

A moment is a date, a time of day, or both, and both may come with the distance of
the local clock from the universal one. Dates are those of the calendar, with leap
years; the last minute of a day may have a leap second. The parts of a moment have a
fixed number of digits, so `1979-05-27T07:32:00Z` has one form only.
-/

namespace ReversePolish

/-- The number of a row of exactly so many digits. -/
def fixedDigits? (width : Nat) (cs : List Char) : Option Nat :=
  if cs.length = width ∧ cs.all Char.isDigit then some (Decimal.digitsValue cs) else none

/-! ## Dates -/

structure CalendarDate where
  year : Nat
  month : Nat
  day : Nat
  deriving DecidableEq, Repr

namespace CalendarDate

/-- Every fourth year is a leap year, but of the full centuries only every fourth. -/
def isLeapYear (year : Nat) : Bool :=
  year % 4 == 0 && (year % 100 != 0 || year % 400 == 0)

def daysInMonth (year month : Nat) : Nat :=
  if month = 2 then (if isLeapYear year then 29 else 28)
  else if month = 4 ∨ month = 6 ∨ month = 9 ∨ month = 11 then 30
  else 31

/-- Whether the calendar has the date. -/
def isReal (d : CalendarDate) : Bool :=
  1 ≤ d.month && d.month ≤ 12 && 1 ≤ d.day && d.day ≤ daysInMonth d.year d.month

/-- A date as year, month and day with hyphens between them. -/
def read? (cs : List Char) : Option CalendarDate :=
  match Text.split '-' cs with
  | [year, month, day] => do
    let d : CalendarDate :=
      ⟨← fixedDigits? 4 year, ← fixedDigits? 2 month, ← fixedDigits? 2 day⟩
    if d.isReal then some d else none
  | _ => none

end CalendarDate

/-! ## Times -/

structure ClockTime where
  hour : Nat
  minute : Nat
  second : Nat
  nanosecond : Nat
  deriving DecidableEq, Repr

namespace ClockTime

/-- The hour and the minute of a day. -/
def hourMinute? (hour minute : List Char) : Option (Nat × Nat) := do
  let hour ← fixedDigits? 2 hour
  let minute ← fixedDigits? 2 minute
  if hour < 24 ∧ minute < 60 then some (hour, minute) else none

/-- The nanoseconds of a fraction of a second, finer digits dropped. -/
def nanoseconds (fraction : List Char) : Nat :=
  Decimal.digitsValue ((fraction ++ List.replicate 9 '0').take 9)

/-- Seconds, with an optional fraction behind a point. -/
def second? (cs : List Char) : Option (Nat × Nat) := do
  let (whole, fraction) ←
    match Text.splitFirst? '.' cs with
    | none => some (cs, [])
    | some (whole, fraction) =>
      if !fraction.isEmpty && fraction.all Char.isDigit then some (whole, fraction) else none
  let second ← fixedDigits? 2 whole
  if second ≤ 60 then some (second, nanoseconds fraction) else none

/-- A time as hour, minute and second with colons between them. -/
def read? (cs : List Char) : Option ClockTime :=
  match Text.split ':' cs with
  | [hour, minute, second] => do
    let (hour, minute) ← hourMinute? hour minute
    let (second, nanosecond) ← second? second
    some ⟨hour, minute, second, nanosecond⟩
  | _ => none

end ClockTime

/-! ## Moments -/

inductive Moment where
  | date (d : CalendarDate)
  | time (t : ClockTime)
  /-- A date with a time, and by how many minutes its clock is ahead of the universal one
  if that is known. -/
  | dateTime (d : CalendarDate) (t : ClockTime) (ahead : Option Int)
  deriving DecidableEq, Repr

namespace Moment

/-- The minutes in hours and minutes with a colon between them. -/
def minutes? (cs : List Char) : Option Int :=
  match Text.split ':' cs with
  | [hour, minute] =>
    (ClockTime.hourMinute? hour minute).map fun (hour, minute) => 60 * (hour : Int) + minute
  | _ => none

/-- What is known of the clock behind a time: nothing, that it is the universal one, or
its distance from that. -/
def ahead? : List Char → Option (Option Int)
  | [] => some none
  | ['Z'] | ['z'] => some (some 0)
  | '+' :: distance => (minutes? distance).map some
  | '-' :: distance => (minutes? distance).map fun minutes => some (-minutes)
  | _ => none

/-- The characters of a time. -/
def isTimeChar (c : Char) : Bool :=
  c.isDigit || c == ':' || c == '.'

/-- The length of a date. -/
def dateLength : Nat := 10

/-- A moment in one of its three forms. A date and a time are divided by a letter or a
blank. -/
def read? (cs : List Char) : Option Moment :=
  match CalendarDate.read? (cs.take dateLength), cs.drop dateLength with
  | some d, [] => some (.date d)
  | some d, divider :: rest => do
    if ['T', 't', ' '].contains divider then
      let t ← ClockTime.read? (rest.takeWhile isTimeChar)
      let ahead ← ahead? (rest.dropWhile isTimeChar)
      some (.dateTime d t ahead)
    else none
  | none, _ => (ClockTime.read? cs).map .time

end Moment

end ReversePolish
