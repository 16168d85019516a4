/-
New RSA keys.

A prime is looked for from a random odd number of the right size upwards,
and a new number is drawn where none is found nearby. Numbers with a small
factor are passed over; the others have to pass the test of Miller and
Rabin. Two primes with their top two bits set have a product with its top
bit set, so the modulus has exactly twice their size.
-/
import TlsKeystore.Entropy
import TlsKeystore.Rsa.PrivateKey

namespace TlsKeystore.PrivateKey

/-- The size of a new modulus. -/
def keyBits : Nat := 2048

/-- The public exponent of a new key. -/
def keyExponent : Nat := 65537

-- ================================================================== primes

/-- The primes below a bound, by trial division. -/
def primesBelow (bound : Nat) : List Nat :=
  (List.range bound).filter fun n =>
    2 ≤ n && (List.range (n.sqrt + 1)).all fun d => d < 2 || n % d != 0

/-- The bases of the primality test. -/
def bases : List Nat := primesBelow 72

/-- The product of the small primes. -/
def smallProduct : Nat := (primesBelow 2000).foldl (· * ·) 1

/-- Whether one of `count` squarings of `x`, `x` itself among them, gives `n - 1`. -/
def reachesMinusOne (n : Nat) : (count : Nat) → (x : Nat) → Bool
  | 0, _ => false
  | count + 1, x => x == n - 1 || reachesMinusOne n count (x * x % n)

/-- How often 2 divides a number, up to a bound. -/
def twos : (bound : Nat) → Nat → Nat
  | 0, _ => 0
  | bound + 1, n => if n % 2 = 0 then twos bound (n / 2) + 1 else 0

/-- The test of Miller and Rabin for one base. -/
def passes (n base : Nat) : Bool :=
  let s := twos (Bytes.bitLength n) (n - 1)
  let x := Modular.pow base ((n - 1) / Nat.pow 2 s) n
  x == 1 || reachesMinusOne n s x

/-- Whether an odd number has no small factor and passes for every base. -/
def seemsPrime (n : Nat) : Bool := Nat.gcd n smallProduct == 1 && bases.all (passes n)

/-- Whether a number of `bits` bits can be a prime of a key. -/
def suits (bits n : Nat) : Bool :=
  Bytes.bitLength n == bits && n % keyExponent != 1 && seemsPrime n

/-- The first suitable number among `count` odd ones from `n` on. -/
def primeFrom? (bits : Nat) : (count : Nat) → (n : Nat) → Option Nat
  | 0, _ => none
  | count + 1, n => if suits bits n then some n else primeFrom? bits count (n + 2)

/-- How many odd numbers are tried from one draw. -/
def reach : Nat := 4096

/-- A number of `bits` bits with the top two bits and the last bit set. -/
def oddNumber (bits : Nat) (octets : Bytes) : Nat :=
  let low := Bytes.toNat octets % Nat.pow 2 (bits - 2)
  3 * Nat.pow 2 (bits - 2) + low / 2 * 2 + 1

/-- A prime of `bits` bits, from a number of draws at most. -/
def drawPrime? (bits : Nat) : (draws : Nat) → Draw (Option Nat)
  | 0 => return none
  | draws + 1 => do
    let octets ← Draw.octets (bits / 8)
    match primeFrom? bits reach (oddNumber bits octets) with
    | some p => return some p
    | none => drawPrime? bits draws

-- ==================================================================== keys

/-- The key of two primes, where the exponents have inverses. -/
def ofPrimes? (p q : Nat) : Option PrivateKey := do
  let d ← Modular.inverse? keyExponent ((p - 1) * (q - 1))
  let coefficient ← Modular.inverse? q p
  let k : PrivateKey := ⟨p * q, keyExponent, d, p, q, d % (p - 1), d % (q - 1), coefficient⟩
  if Bytes.bitLength k.modulus = keyBits ∧ k.consistent ∧ k.signs then some k else none

/-- How often a prime, and how often a pair of them, is drawn at most. -/
def maxDraws : Nat := 64

/-- A key from a number of pairs of primes at most. A pair without a key, or with one
that could not be loaded or sign, is no error: the next pair is drawn. -/
def drawKey? : (pairs : Nat) → Draw (Option PrivateKey)
  | 0 => return none
  | pairs + 1 => do
    let p? ← drawPrime? (keyBits / 2) maxDraws
    let q? ← drawPrime? (keyBits / 2) maxDraws
    match p?, q? with
    | some p, some q =>
      match ofPrimes? p q with
      | some k => return some k
      | none => drawKey? pairs
    | _, _ => return none

/-- A new key; none where the stream gives no primes. -/
def generate? : Draw (Option PrivateKey) := drawKey? maxDraws

end TlsKeystore.PrivateKey
