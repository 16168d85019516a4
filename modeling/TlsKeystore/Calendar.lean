/-
The Gregorian calendar, without end in either direction.

Days are counted from 1 January 1970. Years are counted from March for the
arithmetic, so that the leap day comes last: the days before month `m` of
such a year are `(153 m + 2) / 5`, and four centuries are always 146097
days. A `Timestamp` is an instant in whole seconds with the offset of the
clock that showed it.
-/
namespace TlsKeystore

/-- A day of the calendar. -/
structure Date where
  year : Int
  month : Nat
  day : Nat
deriving DecidableEq, Repr

/-- A day and a time of day. -/
structure DateTime where
  date : Date
  hour : Nat
  minute : Nat
  second : Nat
deriving DecidableEq, Repr

/-- Seconds since 1970 in universal time, and how many minutes the clock that
showed the instant was ahead. -/
structure Timestamp where
  seconds : Int
  offset : Int := 0
deriving DecidableEq, Repr

namespace Calendar

def isLeap (year : Int) : Bool :=
  year % 4 == 0 && (year % 100 != 0 || year % 400 == 0)

def daysInMonth (year : Int) (month : Nat) : Nat :=
  match month with
  | 2 => if isLeap year then 29 else 28
  | 4 | 6 | 9 | 11 => 30
  | _ => 31

end Calendar

namespace Date

/-- Whether the calendar has such a day. -/
def isValid (d : Date) : Bool :=
  1 ≤ d.month && d.month ≤ 12 && 1 ≤ d.day && d.day ≤ Calendar.daysInMonth d.year d.month

/-- Days since 1 January 1970. -/
def toDays (d : Date) : Int :=
  let y : Int := if d.month ≤ 2 then d.year - 1 else d.year
  let m : Int := if d.month ≤ 2 then d.month + 9 else d.month - 3
  365 * y + y / 4 - y / 100 + y / 400 + (153 * m + 2) / 5 + (d.day - 1) - 719468

/-- The day that is so many days after 1 January 1970. -/
def ofDays (days : Int) : Date :=
  let z := days + 719468
  let era := z / 146097
  let dayOfEra := z % 146097
  let yearOfEra := (dayOfEra - dayOfEra / 1460 + dayOfEra / 36524 - dayOfEra / 146096) / 365
  let dayOfYear := dayOfEra - (365 * yearOfEra + yearOfEra / 4 - yearOfEra / 100)
  let m := (5 * dayOfYear + 2) / 153
  let day := dayOfYear - (153 * m + 2) / 5 + 1
  let month := if m < 10 then m + 3 else m - 9
  let year := yearOfEra + era * 400
  ⟨if month ≤ 2 then year + 1 else year, month.toNat, day.toNat⟩

end Date

namespace DateTime

/-- Seconds since 1970, as if the clock showed universal time. -/
def toSeconds (t : DateTime) : Int :=
  t.date.toDays * 86400 + t.hour * 3600 + t.minute * 60 + t.second

/-- What a clock in universal time shows so many seconds after 1970. -/
def ofSeconds (s : Int) : DateTime :=
  let r := (s % 86400).toNat
  ⟨Date.ofDays (s / 86400), r / 3600, r / 60 % 60, r % 60⟩

end DateTime

-- ==================================================================== text

namespace Calendar

/-- A number in decimal, filled up to a width from the left. -/
def filled (width : Nat) (fill : Char) (n : Nat) : String :=
  let digits := toString n
  String.ofList (List.replicate (width - digits.length) fill) ++ digits

/-- The short English name of a month. -/
def monthName (month : Nat) : String :=
  (["Jan", "Feb", "Mar", "Apr", "May", "Jun", "Jul", "Aug", "Sep", "Oct", "Nov", "Dec"].drop
    (month - 1)).headD ""

end Calendar

open Calendar in
/-- Month, day, time, year and offset, as in `Nov 14 22:13:20 2023 +00:00`. -/
def Timestamp.text (t : Timestamp) : String :=
  let shown := DateTime.ofSeconds (t.seconds + t.offset * 60)
  let ahead := t.offset.natAbs
  let sign := if t.offset < 0 then "-" else "+"
  monthName shown.date.month ++ " " ++ filled 2 ' ' shown.date.day ++ " "
    ++ filled 2 '0' shown.hour ++ ":" ++ filled 2 '0' shown.minute ++ ":"
    ++ filled 2 '0' shown.second ++ " " ++ toString shown.date.year ++ " "
    ++ sign ++ filled 2 '0' (ahead / 60) ++ ":" ++ filled 2 '0' (ahead % 60)

end TlsKeystore
