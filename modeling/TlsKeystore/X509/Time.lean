/-
The times of a certificate.

UTCTime has two digits of the year, of which 50 and above lie in the
twentieth century; its clock may be ahead of or behind universal time.
GeneralizedTime has four digits of the year and shows universal time; a
fraction of a second is dropped. The writer uses UTCTime for the years
that it can tell, 1950 to 2049, and GeneralizedTime for all others.
-/
import TlsKeystore.Calendar
import TlsKeystore.Asn1.Ber
import TlsKeystore.Asn1.Der

namespace TlsKeystore.X509Time

/-- The value of an ASCII digit. -/
def digit? (x : UInt8) : Option Nat :=
  if 48 ≤ x ∧ x ≤ 57 then some (x.toNat - 48) else none

/-- Two digits at the front, and the octets behind them. -/
def pair? : Bytes → Option (Nat × Bytes)
  | a :: b :: rest => do
    let high ← digit? a
    let low ← digit? b
    some (high * 10 + low, rest)
  | _ => none

-- ============================================================== time zones

/-- `Z`, or the sign, hours and minutes by which the clock is ahead. Minutes take
the sign of the hours, unless these are zero. -/
def offset? : Bytes → Option Int
  | [0x5A] => some 0
  | sign :: rest => do
    let (hours, rest) ← pair? rest
    let (minutes, rest) ← pair? rest
    if rest ≠ [] ∨ 25 < hours ∨ 59 < minutes then none
    else if sign = 0x2B then some (hours * 60 + minutes : Nat)
    else if sign = 0x2D then
      if hours = 0 then some (minutes : Nat) else some (-(hours * 60 + minutes : Nat))
    else none
  | [] => none

/-- A point and up to three digits behind it, which are dropped. -/
def dropFraction? : Bytes → Option Bytes
  | x :: rest =>
    if x = 0x2E ∨ x = 0x2C then
      let digits := rest.takeWhile fun y => (digit? y).isSome
      if 3 < digits.length then none else some (rest.drop digits.length)
    else some (x :: rest)
  | [] => some []

-- ================================================================ reading

/-- Month, day, hour and minute, seconds where two more digits follow, and the
octets behind them. -/
def readFrom? (year : Int) (b : Bytes) : Option (DateTime × Bytes) := do
  let (month, b) ← pair? b
  let (day, b) ← pair? b
  let (hour, b) ← pair? b
  let (minute, b) ← pair? b
  let (second, b) ← if 2 ≤ b.length then pair? b else some (0, b)
  let date : Date := ⟨year, month, day⟩
  if date.isValid && hour ≤ 23 && minute ≤ 59 && second ≤ 59 then
    some (⟨date, hour, minute, second⟩, b)
  else none

/-- The content of a UTCTime. -/
def ofUtc? (b : Bytes) : Option Timestamp := do
  let (yy, b) ← pair? b
  let (t, b) ← readFrom? (if yy < 50 then 2000 + yy else 1900 + yy) b
  let offset ← offset? b
  some ⟨t.toSeconds - offset * 60, offset⟩

/-- The content of a GeneralizedTime. -/
def ofGeneralized? (b : Bytes) : Option Timestamp := do
  let (century, b) ← pair? b
  let (yy, b) ← pair? b
  let (t, b) ← readFrom? (century * 100 + yy) b
  let b ← dropFraction? b
  if b = [0x5A] then some ⟨t.toSeconds, 0⟩ else none

/-- The time at the front, and the octets behind it. -/
def read? (b : Bytes) : Option (Timestamp × Bytes) := do
  let (e, rest) ← Ber.read? b
  let t ←
    if e.isOf .utcTime then ofUtc? e.content
    else if e.isOf .generalizedTime then ofGeneralized? e.content
    else none
  some (t, rest)

-- ================================================================ writing

/-- The last `count` decimal digits of a number. -/
def digits : (count n : Nat) → Bytes
  | 0, _ => []
  | count + 1, n => digits count (n / 10) ++ [UInt8.ofNat (48 + n % 10)]

/-- Month to second in two digits each, and the mark of universal time. -/
def encodeRest (t : DateTime) : Bytes :=
  digits 2 t.date.month ++ digits 2 t.date.day ++ digits 2 t.hour ++ digits 2 t.minute
    ++ digits 2 t.second ++ [0x5A]

/-- The time element of a second of the years 0 to 9999; none outside them. -/
def encode? (seconds : Int) : Option Bytes :=
  let t := DateTime.ofSeconds seconds
  let year := t.date.year
  if year < 0 ∨ 9999 < year then none
  else if 1950 ≤ year ∧ year < 2050 then
    some (Element.encode ⟨Tag.utcTime, digits 2 (year.toNat % 100) ++ encodeRest t⟩)
  else
    some (Element.encode ⟨Tag.generalizedTime, digits 4 year.toNat ++ encodeRest t⟩)

end TlsKeystore.X509Time
