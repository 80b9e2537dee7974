import PackageLint.Decimal.Rounded
import PackageLint.Text.Basic

/-!
# Dates and times

A date is a day of the calendar that holds since the year 1. A moment is a time of a day, to the
microsecond, and may say how far its clock is ahead of universal time. Only dates and times that exist
are made.

## Main definitions

* `Date`, `Moment`: the values.
* `Date.make`, `Moment.make`: the date and the moment of given numbers, or which of them is out of
  range.
* `Moment.instant`: the place of a moment in time.
* `Date.text`, `Moment.text`: the written forms.
* `Date.literal`, `Moment.literal`: the forms in messages.
-/

namespace PackageLint

/-- A day. -/
structure Date where
  /-- The year, from 1 on. -/
  year : Nat
  /-- The month, from 1 on. -/
  month : Nat
  /-- The day of the month, from 1 on. -/
  day : Nat
  deriving DecidableEq, Repr, Inhabited

/-- A time of a day. -/
structure Moment where
  /-- The day. -/
  date : Date
  /-- The hour. -/
  hour : Nat
  /-- The minute. -/
  minute : Nat
  /-- The second. -/
  second : Nat
  /-- The microsecond. -/
  micro : Nat
  /-- How many minutes the clock is ahead of universal time, if that is known. -/
  ahead : Option Int
  deriving DecidableEq, Repr, Inhabited

/-- Which number of a date or time is out of range. -/
inductive CalendarError where
  | year (value : Nat)
  | month
  | day
  | hour
  | minute
  | second
  | ahead (minutes : Int)
  deriving DecidableEq, Repr

/-! ### The calendar -/

namespace Date

/-- The days of a month. -/
def daysIn (year month : Nat) : Nat :=
  if month = 2 then
    if year % 4 = 0 && (year % 100 != 0 || year % 400 = 0) then 29 else 28
  else if [4, 6, 9, 11].contains month then 30 else 31

/-- The greatest year. -/
def lastYear : Nat := 9999

/-- The date of a year, a month and a day. -/
def make (year month day : Nat) : Except CalendarError Date :=
  if year = 0 || lastYear < year then .error (.year year)
  else if month = 0 || 12 < month then .error .month
  else if day = 0 || daysIn year month < day then .error .day
  else .ok { year, month, day }

/-- The number of days before the first of January of a year. -/
def daysBeforeYear (year : Nat) : Nat :=
  let past := year - 1
  365 * past + past / 4 - past / 100 + past / 400

/-- The number of a day, counted from the first day of the calendar. -/
def number (date : Date) : Nat :=
  (List.range (date.month - 1)).foldl (fun days month => days + daysIn date.year (month + 1))
    (daysBeforeYear date.year + date.day - 1)

end Date

namespace Moment

/-- The minutes of a day. -/
def dayMinutes : Int := 1440

/-- The moment of a day at a time. A clock is less than a day ahead or behind. -/
def make (year month day hour minute second micro : Nat) (ahead : Option Int) :
    Except CalendarError Moment := do
  let minutes := ahead.getD 0
  if dayMinutes ≤ minutes || minutes ≤ -dayMinutes then .error (.ahead minutes)
  let date ← Date.make year month day
  if 23 < hour then .error .hour
  if 59 < minute then .error .minute
  if 59 < second then .error .second
  pure { date, hour, minute, second, micro, ahead }

/-- The microseconds from the start of the calendar to a moment: in universal time if the clock tells
how far it is ahead, and otherwise as the clock shows it. -/
def instant (m : Moment) : Int :=
  let minutes : Int := (m.date.number : Int) * dayMinutes + (m.hour * 60 + m.minute : Nat)
  ((minutes - m.ahead.getD 0) * 60 + m.second) * 1000000 + m.micro

end Moment

/-! ### Written forms -/

/-- A number with zeros before it, at least `length` digits in all. -/
def paddedNumber (length n : Nat) : String :=
  String.ofList (Decimal.padded length (Nat.toDigits 10 n))

/-- A date as it is written. -/
def Date.text (d : Date) : String :=
  paddedNumber 4 d.year ++ "-" ++ paddedNumber 2 d.month ++ "-" ++ paddedNumber 2 d.day

/-- How far a clock is ahead, as hours and minutes with a sign. -/
def aheadText (minutes : Int) : String :=
  let n := minutes.natAbs
  (if minutes < 0 then "-" else "+") ++ paddedNumber 2 (n / 60) ++ ":" ++ paddedNumber 2 (n % 60)

/-- A moment as it is written. A fraction of zero is left out. -/
def Moment.text (m : Moment) : String :=
  m.date.text ++ " " ++ paddedNumber 2 m.hour ++ ":" ++ paddedNumber 2 m.minute ++ ":"
    ++ paddedNumber 2 m.second ++ (if m.micro = 0 then "" else "." ++ paddedNumber 6 m.micro)
    ++ ((m.ahead.map aheadText).getD "")

/-! ### Forms in messages -/

/-- The numbers of a date as they are shown in a message. -/
def Date.numbers (d : Date) : List String := [toString d.year, toString d.month, toString d.day]

/-- A date as it is shown in a message. -/
def Date.literal (d : Date) : String := "datetime.date(" ++ Text.join ", " d.numbers ++ ")"

/-- A span of minutes as it is shown in a message: days, of which there can be less than none, and
seconds. Zeros are left out. -/
def spanLiteral (minutes : Int) : String :=
  let days := minutes / Moment.dayMinutes
  let seconds := minutes % Moment.dayMinutes * 60
  "datetime.timedelta("
    ++ Text.join ", " ((if days = 0 then [] else ["days=" ++ toString days])
      ++ (if seconds = 0 then [] else ["seconds=" ++ toString seconds]))
    ++ ")"

/-- How far a clock is ahead, as it is shown in a message. -/
def aheadLiteral (minutes : Int) : String :=
  if minutes = 0 then "datetime.timezone.utc"
  else "datetime.timezone(" ++ spanLiteral minutes ++ ")"

/-- A moment as it is shown in a message. The seconds and their fraction are left out where they and
all that follows are zero. -/
def Moment.literal (m : Moment) : String :=
  let fraction := if m.micro = 0 then [] else [toString m.micro]
  let seconds := if m.second = 0 && m.micro = 0 then [] else toString m.second :: fraction
  "datetime.datetime("
    ++ Text.join ", " (m.date.numbers ++ [toString m.hour, toString m.minute] ++ seconds
      ++ ((m.ahead.map fun minutes => ["tzinfo=" ++ aheadLiteral minutes]).getD []))
    ++ ")"

/-- The wording of a number out of range. -/
def CalendarError.message : CalendarError → String
  | .year value => "year " ++ toString value ++ " is out of range"
  | .month => "month must be in 1..12"
  | .day => "day is out of range for month"
  | .hour => "hour must be in 0..23"
  | .minute => "minute must be in 0..59"
  | .second => "second must be in 0..59"
  | .ahead minutes =>
    "offset must be a timedelta strictly between -timedelta(hours=24) and timedelta(hours=24), not "
      ++ spanLiteral minutes ++ "."

end PackageLint
