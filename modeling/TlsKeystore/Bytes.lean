/-
Octet strings and the numbers they denote.

Everything this library reads or writes is a list of octets. A list of
octets denotes a number, most significant octet first; `Bytes.toNat` is
that reading, `Bytes.ofNat` the shortest octets that denote a number, and
`Bytes.padded` the octets of a given length. `Bytes.toHex` and
`Bytes.ofHex?` are the two-digits-per-octet notation.
-/
namespace TlsKeystore

/-- An octet string. -/
abbrev Bytes := List UInt8

namespace Bytes

/-- The longest octet string that there can be room for: as many octets as a signed
word of 64 bits counts. -/
def maxLength : Nat := 0x7FFFFFFFFFFFFFFF

-- ================================================================ numbers

/-- The number that octets denote, most significant octet first. -/
def toNat (b : Bytes) : Nat :=
  b.foldl (fun n x => n * 256 + x.toNat) 0

/-- The `len` low octets of `n`, written in front of `tail`. -/
def paddedOnto : (len n : Nat) → (tail : Bytes) → Bytes
  | 0, _, tail => tail
  | len + 1, n, tail => paddedOnto len (n / 256) (UInt8.ofNat (n % 256) :: tail)

/-- The `len` low octets of `n`, most significant octet first. -/
def padded (len n : Nat) : Bytes := paddedOnto len n []

/-- How many bits it takes to write `n`: none for zero. -/
def bitLength (n : Nat) : Nat := if n = 0 then 0 else n.log2 + 1

/-- How many octets it takes to write `n`: none for zero. -/
def byteLength (n : Nat) : Nat := (bitLength n + 7) / 8

/-- The shortest octets that denote `n`: none for zero. -/
def ofNat (n : Nat) : Bytes := padded (byteLength n) n

/-- The same number without its leading zero octets. -/
def stripZeros (b : Bytes) : Bytes := b.dropWhile (· == 0)

-- ========================================================== hexadecimal

/-- A number below sixteen as a lower-case digit. -/
def hexDigit (n : Nat) : Char :=
  if n < 10 then Char.ofNat (48 + n) else Char.ofNat (87 + n)

/-- The value of a hexadecimal digit of either case. -/
def hexValue? (c : Char) : Option Nat :=
  let n := c.toNat
  if 48 ≤ n ∧ n ≤ 57 then some (n - 48)
  else if 97 ≤ n ∧ n ≤ 102 then some (n - 87)
  else if 65 ≤ n ∧ n ≤ 70 then some (n - 55)
  else none

/-- Two lower-case digits for each octet. -/
def hexChars : Bytes → List Char
  | [] => []
  | x :: rest => hexDigit (x.toNat / 16) :: hexDigit (x.toNat % 16) :: hexChars rest

/-- Lower-case hexadecimal text. -/
def toHex (b : Bytes) : String := String.ofList (hexChars b)

/-- Pairs of digits of either case; none when a digit is missing or foreign. -/
def ofHexChars? : List Char → Option Bytes
  | [] => some []
  | [_] => none
  | a :: b :: rest => do
    let high ← hexValue? a
    let low ← hexValue? b
    let tail ← ofHexChars? rest
    some (UInt8.ofNat (high * 16 + low) :: tail)

/-- Octets from hexadecimal text of either case. -/
def ofHex? (s : String) : Option Bytes := ofHexChars? s.toList

end Bytes
end TlsKeystore
