import Facet.Decimal.Layout

/-!
# Dates and times

Documents may hold dates, and dates with a time of day, whose distance from universal time may be
given. Years have four digits and the calendar is the Gregorian one at all times. Two times can be
compared if both are told from universal time or neither is.
-/

namespace Facet

open Decimal.Layout (padded)

/-- A day. -/
structure Date where
  /-- The year. -/
  year : Nat
  /-- The month, the first being one. -/
  month : Nat
  /-- The day of the month, the first being one. -/
  day : Nat
deriving Repr, DecidableEq

/-- A day with a time of day. -/
structure Moment where
  /-- The day. -/
  date : Date
  /-- The hour, the first being zero. -/
  hour : Nat
  /-- The minute. -/
  minute : Nat
  /-- The second. -/
  second : Nat
  /-- Millionths of a second. -/
  micro : Nat
  /-- How many minutes this clock is ahead of universal time, if that is known. -/
  ahead : Option Int
deriving Repr, DecidableEq

/-- Why there is no such date or time. -/
inductive CalendarFault where
  /-- There is no year zero. -/
  | year (year : Nat)
  /-- There is no such month. -/
  | month
  /-- The month has no such day. -/
  | day
  /-- There is no such hour. -/
  | hour
  /-- There is no such minute. -/
  | minute
  /-- There is no such second. -/
  | second
  /-- No clock is so far from universal time. -/
  | ahead (minutes : Int)
deriving Repr, DecidableEq

/-! ## Days -/

namespace Date

/-- Whether a year has a leap day. -/
def isLeap (year : Nat) : Bool := year % 4 = 0 && (year % 100 != 0 || year % 400 = 0)

/-- The number of days of a month. -/
def monthLength (year month : Nat) : Nat :=
  if month = 2 then if isLeap year then 29 else 28
  else if month ∈ [4, 6, 9, 11] then 30
  else 31

/-- The same day, if there is one. -/
def check (d : Date) : Except CalendarFault Date :=
  if d.year = 0 then .error (.year d.year)
  else if d.month = 0 ∨ 12 < d.month then .error .month
  else if d.day = 0 ∨ monthLength d.year d.month < d.day then .error .day
  else .ok d

/-- The number of days from the first day of the first year. -/
def ordinal (d : Date) : Nat :=
  let years := d.year - 1
  let months := (List.range (d.month - 1)).foldl (fun days m => days + monthLength d.year (m + 1)) 0
  years * 365 + years / 4 - years / 100 + years / 400 + months + (d.day - 1)

/-- The text of a day for reading: year, month and day. -/
def plain (d : Date) : String :=
  padded 4 d.year ++ "-" ++ padded 2 d.month ++ "-" ++ padded 2 d.day

/-- The numbers of a day. -/
def fields (d : Date) : List Nat := [d.year, d.month, d.day]

/-- The unmistakable text of a day. -/
def shown (d : Date) : String :=
  "datetime.date(" ++ String.intercalate ", " (d.fields.map toString) ++ ")"

end Date

/-! ## Times -/

namespace Moment

/-- The same time, if there is one. The distance from universal time is looked at first. -/
def check (m : Moment) : Except CalendarFault Moment := do
  if let some minutes := m.ahead then
    if 1440 ≤ minutes.natAbs then throw (.ahead minutes)
  let _ ← m.date.check
  if 24 ≤ m.hour then throw .hour
  if 60 ≤ m.minute then throw .minute
  if 60 ≤ m.second then throw .second
  return m

/-- The number of millionths of a second from the first day of the first year, universal time if
the distance from it is known. -/
def instant (m : Moment) : Int :=
  let minutes : Int := (m.date.ordinal * 24 + m.hour) * 60 + m.minute
  ((minutes - m.ahead.getD 0) * 60 + m.second) * 1000000 + m.micro

/-- Whether two times can be compared. -/
def comparable (a b : Moment) : Bool := a.ahead.isSome == b.ahead.isSome

/-- Whether two times are the same instant. -/
def same (a b : Moment) : Bool := a.comparable b && a.instant == b.instant

/-- A distance from universal time, as hours and minutes with a sign. -/
def aheadText (minutes : Int) : String :=
  let n := minutes.natAbs
  (if minutes < 0 then "-" else "+") ++ padded 2 (n / 60) ++ ":" ++ padded 2 (n % 60)

/-- The text of a time for reading. -/
def plain (m : Moment) : String :=
  m.date.plain ++ " " ++ padded 2 m.hour ++ ":" ++ padded 2 m.minute ++ ":"
    ++ padded 2 m.second
    ++ (if m.micro = 0 then "" else "." ++ padded 6 m.micro)
    ++ (m.ahead.map aheadText).getD ""

/-- A length of time in whole days and what is left of them in seconds, which is not negative. -/
def durationText (minutes : Int) : String :=
  let days := minutes.fdiv 1440
  let seconds := minutes.fmod 1440 * 60
  let parts := (if days = 0 then [] else ["days=" ++ toString days])
    ++ (if seconds = 0 then [] else ["seconds=" ++ toString seconds])
  "datetime.timedelta(" ++ (if parts.isEmpty then "0" else String.intercalate ", " parts) ++ ")"

/-- The unmistakable text of a distance from universal time. -/
def zoneText (minutes : Int) : String :=
  if minutes = 0 then "datetime.timezone.utc"
  else "datetime.timezone(" ++ durationText minutes ++ ")"

/-- The numbers of a time. Seconds are left out if they are zero and nothing follows them. -/
def fields (m : Moment) : List Nat :=
  m.date.fields ++ [m.hour, m.minute]
    ++ (if m.micro ≠ 0 then [m.second, m.micro] else if m.second ≠ 0 then [m.second] else [])

/-- The unmistakable text of a time. -/
def shown (m : Moment) : String :=
  let parts := m.fields.map toString ++ (m.ahead.map fun n => "tzinfo=" ++ zoneText n).toList
  "datetime.datetime(" ++ String.intercalate ", " parts ++ ")"

end Moment

/-- The wording of a date or time that does not exist. -/
def CalendarFault.message : CalendarFault → String
  | .year n => "year " ++ toString n ++ " is out of range"
  | .month => "month must be in 1..12"
  | .day => "day is out of range for month"
  | .hour => "hour must be in 0..23"
  | .minute => "minute must be in 0..59"
  | .second => "second must be in 0..59"
  | .ahead minutes =>
    "offset must be a timedelta strictly between -timedelta(hours=24) and timedelta(hours=24), not "
      ++ Moment.durationText minutes ++ "."

end Facet
