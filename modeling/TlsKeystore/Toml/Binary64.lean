/-
Numbers of 64 bits with a floating point, in exact arithmetic.

A finite number is `m * 2 ^ e` with `m` below `2 ^ 53`. A decimal becomes
the nearest such number, of two equally near ones the one with even `m`.
`Binary64.text` gives back the decimal with the fewest digits that would
become the same number, and of those the nearest one.
-/
import TlsKeystore.Bytes

namespace TlsKeystore

/-- A number with a floating point. -/
inductive Binary64 where
  | finite (negative : Bool) (m : Nat) (e : Int)
  | infinite (negative : Bool)
  | notANumber
deriving DecidableEq, Repr

namespace Binary64

/-- The least exponent, and the largest. -/
def minExponent : Int := -1074
def maxExponent : Int := 971

/-- The least `m` that fills the last place: the 52nd power of two. -/
def leading : Nat := 0x10000000000000

/-- A quotient rounded to the nearest number, a half to the even one. -/
def roundHalfEven (num den : Nat) : Nat :=
  let q := num / den
  let twice := 2 * (num % den)
  if twice < den then q
  else if den < twice then q + 1
  else if q % 2 = 0 then q else q + 1

/-- A fraction times a power of two, as a fraction. -/
def scale (num den : Nat) (e : Int) : Nat × Nat :=
  if 0 ≤ e then (num * Nat.pow 2 e.toNat, den) else (num, den * Nat.pow 2 (-e).toNat)

/-- The number nearest to a positive fraction. -/
def ofFraction (negative : Bool) (num den : Nat) : Binary64 :=
  let rough : Int := num.log2 - den.log2 - 52
  let (n, d) := scale num den (-rough)
  let e := max (if n < leading * d then rough - 1 else rough) minExponent
  let (n, d) := scale num den (-e)
  let m := roundHalfEven n d
  let (m, e) := if m = 2 * leading then (leading, e + 1) else (m, e)
  if maxExponent < e then .infinite negative else .finite negative m e

/-- The number nearest to `digits * 10 ^ exponent`. -/
def ofDecimal (negative : Bool) (digits : Nat) (exponent : Int) : Binary64 :=
  let size : Int := exponent + (Nat.toDigits 10 digits).length
  if digits = 0 ∨ size < -330 then .finite negative 0 0
  else if 320 < size then .infinite negative
  else if 0 ≤ exponent then ofFraction negative (digits * Nat.pow 10 exponent.toNat) 1
  else ofFraction negative digits (Nat.pow 10 (-exponent).toNat)

-- =================================================================== text

/-- A decimal `digits * 10 ^ exponent`. -/
structure Decimal where
  digits : Nat
  exponent : Int
deriving DecidableEq, Repr

/-- The multiple of `10 ^ k` that becomes the number `m * 2 ^ e`, and the nearest of
those, if there is one. All is measured in quarters of the last place. -/
def multiple? (m : Nat) (e k : Int) : Option Decimal :=
  let below := if m = leading ∧ minExponent < e then 1 else 2
  let (num, den) := scale 1 1 (e - 2)
  let (num, den) :=
    if 0 ≤ k then (num, den * Nat.pow 10 k.toNat) else (num * Nat.pow 10 (-k).toNat, den)
  let low := (4 * m - below) * num
  let mid := 4 * m * num
  let high := (4 * m + 2) * num
  let fits (c : Nat) : Bool :=
    let x := c * den
    if m % 2 = 0 then low ≤ x && x ≤ high else low < x && x < high
  let c := mid / den
  let near := if 2 * (mid % den) ≤ den then [c, c + 1] else [c + 1, c]
  (near.find? fun c => 0 < c && fits c).map (⟨·, k⟩)

/-- The first power of ten that has a fitting multiple, from `k` downwards. -/
def shortestFrom (m : Nat) (e : Int) : (steps : Nat) → (k : Int) → Decimal
  | 0, k => ⟨0, k⟩
  | steps + 1, k =>
    match multiple? m e k with
    | some d => d
    | none => shortestFrom m e steps (k - 1)

/-- The decimal of fewest digits that becomes the number `m * 2 ^ e`. -/
def shortest (m : Nat) (e : Int) : Decimal :=
  let rough : Int := ((m.log2 : Int) + e) * 30103 / 100000 + 2
  shortestFrom m e 24 rough

/-- A decimal without an exponent, with at least one digit on either side of the
point. -/
def Decimal.text (d : Decimal) : String :=
  let ds := (toString d.digits).toList
  if 0 ≤ d.exponent then String.ofList (ds ++ List.replicate d.exponent.toNat '0') ++ ".0"
  else
    let places := (-d.exponent).toNat
    let ds := List.replicate (places + 1 - ds.length) '0' ++ ds
    let whole := ds.length - places
    String.ofList (ds.take whole ++ '.' :: ds.drop whole)

/-- The number as text. -/
def text : Binary64 → String
  | .notANumber => "NaN"
  | .infinite negative => if negative then "-inf" else "inf"
  | .finite negative m e =>
    (if negative then "-" else "") ++ (if m = 0 then "0.0" else (shortest m e).text)

end Binary64
end TlsKeystore
