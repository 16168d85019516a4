/-
Arithmetic modulo a number: powers and inverses.

Powers are taken by repeated squaring from the top bit of the exponent
down. The inverse comes from the extended Euclidean algorithm, which keeps
`x a = r` modulo the modulus for the current remainder `r`.
-/
import TlsKeystore.Bytes

namespace TlsKeystore.Modular

/-- The power over the binary digits of the exponent, top digit first. -/
def powDigits (base modulus : Nat) : (digits : List Bool) → (acc : Nat) → Nat
  | [], acc => acc
  | d :: rest, acc =>
    let square := acc * acc % modulus
    powDigits base modulus rest (if d then square * base % modulus else square)

/-- The binary digits of a number, top digit first. -/
def binary (n : Nat) : List Bool :=
  (List.range (Bytes.bitLength n)).reverse.map n.testBit

/-- `base ^ exponent % modulus`. -/
def pow (base exponent modulus : Nat) : Nat :=
  powDigits (base % modulus) modulus (binary exponent) (1 % modulus)

/-- Euclid's algorithm on two remainders and what each is a multiple of `a` by.
Ends with the greatest common divisor and its multiplier. -/
def euclid (r s : Nat) (x y : Int) : Nat × Int :=
  if _h : s = 0 then (r, x)
  else euclid s (r % s) y (x - (r / s : Nat) * y)
termination_by s
decreasing_by exact Nat.mod_lt _ (by omega)

/-- The number below `modulus` whose product with `a` leaves 1, if there is one. -/
def inverse? (a modulus : Nat) : Option Nat :=
  let (g, x) := euclid (a % modulus) modulus 1 0
  if g = 1 then some (x % modulus).toNat else none

end TlsKeystore.Modular
