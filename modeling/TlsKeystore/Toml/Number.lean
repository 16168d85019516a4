/-
Numbers and times.

An integer is decimal, or hexadecimal, octal or binary behind `0x`, `0o`,
`0b`, and fits 64 bits with a sign. A number with a fraction or an
exponent, `inf` and `nan` have a floating point. Digits may be grouped by
single underscores. Dates and times are told apart but not kept.
-/
import TlsKeystore.Calendar
import TlsKeystore.Toml.Binary64

namespace TlsKeystore.Toml

-- ================================================================= digits

/-- The value of a digit in a base up to 16. -/
def digitIn? (base : Nat) (c : Char) : Option Nat := (Bytes.hexValue? c).filter (· < base)

/-- The digits that go on, with single underscores between them left out, and the
characters behind them. -/
def moreDigits (base : Nat) : List Char → List Nat × List Char
  | '_' :: c :: rest =>
    match digitIn? base c with
    | some d => let (ds, rest) := moreDigits base rest; (d :: ds, rest)
    | none => ([], '_' :: c :: rest)
  | c :: rest =>
    match digitIn? base c with
    | some d => let (ds, rest) := moreDigits base rest; (d :: ds, rest)
    | none => ([], c :: rest)
  | [] => ([], [])

/-- At least one digit. -/
def digits? (base : Nat) : List Char → Option (List Nat × List Char)
  | [] => none
  | c :: rest => do
    let d ← digitIn? base c
    let (ds, rest) := moreDigits base rest
    some (d :: ds, rest)

/-- The number that digits denote. -/
def numberOf (base : Nat) (ds : List Nat) : Nat := ds.foldl (fun n d => n * base + d) 0

/-- A sign, if there is one: whether it is a minus, and the characters behind it. -/
def sign : List Char → Bool × List Char
  | '-' :: rest => (true, rest)
  | '+' :: rest => (false, rest)
  | s => (false, s)

/-- Decimal digits that do not begin with a zero, or a zero alone. -/
def wholeDigits? : List Char → Option (List Nat × List Char)
  | '0' :: rest => some ([0], rest)
  | s => digits? 10 s

-- =============================================================== integers

/-- An integer that fits 64 bits with a sign. -/
def fitting (n : Int) : Option Int :=
  if -0x8000000000000000 ≤ n ∧ n < 0x8000000000000000 then some n else none

/-- An integer in a base, behind the letter that names it. -/
def integerIn? (base : Nat) (s : List Char) : Option (Int × List Char) := do
  let (ds, rest) ← digits? base s
  some (← fitting (numberOf base ds), rest)

def integer? : List Char → Option (Int × List Char)
  | '0' :: 'x' :: rest => integerIn? 16 rest
  | '0' :: 'o' :: rest => integerIn? 8 rest
  | '0' :: 'b' :: rest => integerIn? 2 rest
  | s => do
    let (negative, s) := sign s
    let (ds, rest) ← wholeDigits? s
    let n : Int := numberOf 10 ds
    some (← fitting (if negative then -n else n), rest)

-- ========================================================= floating point

/-- Digits behind a point, where there is one. -/
def fraction? : List Char → Option (List Nat × List Char)
  | '.' :: rest => digits? 10 rest
  | s => some ([], s)

/-- An exponent, where there is one. -/
def exponent? : List Char → Option (Int × List Char)
  | c :: rest =>
    if c == 'e' || c == 'E' then do
      let (negative, s) := sign rest
      let (ds, rest) ← digits? 10 s
      let n : Int := numberOf 10 ds
      some (if negative then -n else n, rest)
    else some (0, c :: rest)
  | [] => some (0, [])

/-- A decimal with a fraction, an exponent or both. A positive one that is too large is
refused. -/
def decimal? (s : List Char) : Option (Binary64 × List Char) := do
  let (negative, s) := sign s
  let (whole, s) ← wholeDigits? s
  let (places, t) ← fraction? s
  let (exponent, rest) ← exponent? t
  if rest.length = s.length then none
  else
    let x := Binary64.ofDecimal negative (numberOf 10 (whole ++ places))
      (exponent - (places.length : Nat))
    if x = .infinite false then none else some (x, rest)

/-- `inf` and `nan`, with or without a sign. -/
def special? (s : List Char) : Option (Binary64 × List Char) :=
  let (negative, s) := sign s
  match s with
  | 'i' :: 'n' :: 'f' :: rest => some (.infinite negative, rest)
  | 'n' :: 'a' :: 'n' :: rest => some (.notANumber, rest)
  | _ => none

def float? (s : List Char) : Option (Binary64 × List Char) := decimal? s <|> special? s

-- ======================================================== dates and times

/-- A number of exactly `count` digits. -/
def fixed? : (count : Nat) → List Char → Option (Nat × List Char)
  | 0, s => some (0, s)
  | _ + 1, [] => none
  | count + 1, c :: rest => do
    let d ← digitIn? 10 c
    let (n, rest) ← fixed? count rest
    some (d * Nat.pow 10 count + n, rest)

/-- Two digits within bounds. -/
def within? (low high : Nat) (s : List Char) : Option (Nat × List Char) := do
  let (n, rest) ← fixed? 2 s
  if low ≤ n ∧ n ≤ high then some (n, rest) else none

/-- The character at the front, dropped. -/
def expect? (c : Char) : List Char → Option (List Char)
  | x :: rest => if x == c then some rest else none
  | [] => none

/-- A day that the calendar has. -/
def date? (s : List Char) : Option (List Char) := do
  let (year, s) ← fixed? 4 s
  let (month, s) ← within? 1 12 (← expect? '-' s)
  let (_, s) ← within? 1 (Calendar.daysInMonth year month) (← expect? '-' s)
  some s

/-- A time of day, to the second or finer; a minute may have a leap second. -/
def time? (s : List Char) : Option (List Char) := do
  let (_, s) ← within? 0 23 s
  let (_, s) ← within? 0 59 (← expect? ':' s)
  let (_, s) ← within? 0 60 (← expect? ':' s)
  match s with
  | '.' :: rest =>
    let (_, rest) ← (fixed? 1 rest)
    some (rest.dropWhile Char.isDigit)
  | s => some s

/-- How far a clock is ahead, where it is said. -/
def clockOffset? : List Char → Option (List Char)
  | 'Z' :: rest => some rest
  | 'z' :: rest => some rest
  | c :: rest =>
    if c == '+' || c == '-' then do
      let (_, s) ← within? 0 23 rest
      let (_, s) ← within? 0 59 (← expect? ':' s)
      some s
    else some (c :: rest)
  | [] => some []

/-- What may follow a day: a time, with or without an offset. A blank or letter that
no time follows is not part of it. -/
def afterDate? (s : List Char) : Option (List Char) :=
  match s with
  | c :: rest =>
    if c == 'T' || c == 't' || c == ' ' then
      match time? rest with
      | some rest => clockOffset? rest
      | none => some s
    else some s
  | [] => some s

/-- A date, a time, or both. -/
def dateTime? (s : List Char) : Option (List Char) :=
  match date? s with
  | some rest => afterDate? rest
  | none => time? s

end TlsKeystore.Toml
