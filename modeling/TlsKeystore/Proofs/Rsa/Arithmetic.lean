/-
Powers by repeated squaring are powers.

The loop of `Modular.pow` runs over the digits of the exponent. With the
power to `a` at hand, a digit `d` leads to the power to `2 a + d`, so that
over all digits the exponent is put together again by the same steps that
took it apart (`powDigits_eq`, `foldl_binary`).
-/
import TlsKeystore.Proofs.Bytes
import TlsKeystore.Rsa.Arithmetic

namespace TlsKeystore.Modular

/-- The digits seen so far, and one more. -/
def pushDigit (a : Nat) (d : Bool) : Nat := 2 * a + d.toNat

/-- The loop gives the power to the number that the digits lead to. -/
theorem powDigits_eq (base modulus : Nat) (digits : List Bool) (a : Nat) :
    powDigits (base % modulus) modulus digits (base ^ a % modulus)
      = base ^ digits.foldl pushDigit a % modulus := by
  induction digits generalizing a with
  | nil => rfl
  | cons d rest ih =>
      have hsquare : base ^ a % modulus * (base ^ a % modulus) % modulus
          = base ^ (2 * a) % modulus := by
        rw [← Nat.mul_mod, ← pow_add, two_mul]
      rw [powDigits, List.foldl_cons, ← ih]
      cases d with
      | false => simp [hsquare, pushDigit]
      | true =>
          have hbase : base ^ (2 * a) % modulus * (base % modulus) % modulus
              = base ^ (2 * a + 1) % modulus := by
            rw [← Nat.mul_mod, ← pow_succ]
          simp [hsquare, hbase, pushDigit]

/-- The digits of a number below a place lead to it. -/
private theorem foldl_testBit (n len a : Nat) :
    (((List.range len).reverse.map n.testBit).foldl pushDigit a)
      = a * 2 ^ len + n % 2 ^ len := by
  induction len generalizing a with
  | zero => simp [Nat.mod_one]
  | succ len ih =>
      have hsplit : n % 2 ^ (len + 1)
          = 2 ^ len * (n.testBit len).toNat + n % 2 ^ len := by
        rw [Nat.testBit_eq_decide_div_mod_eq, Nat.pow_succ, Nat.mod_mul,
          Nat.add_comm]
        congr 2
        rcases Nat.mod_two_eq_zero_or_one (n / 2 ^ len) with h | h <;>
          simp [h]
      rw [List.range_succ, List.reverse_append, List.reverse_singleton,
        List.singleton_append, List.map_cons, List.foldl_cons, ih, hsplit,
        pushDigit, pow_succ]
      ring

theorem foldl_binary (n : Nat) : (binary n).foldl pushDigit 0 = n := by
  have hlt : n < 2 ^ Bytes.bitLength n := by
    rw [Bytes.bitLength_eq_size]
    exact Nat.lt_size_self n
  rw [binary, foldl_testBit, Nat.zero_mul, Nat.zero_add, Nat.mod_eq_of_lt hlt]

/-- Repeated squaring gives the power. -/
theorem pow_eq (base exponent modulus : Nat) :
    pow base exponent modulus = base ^ exponent % modulus := by
  have h := powDigits_eq base modulus (binary exponent) 0
  rwa [pow_zero, foldl_binary] at h

end TlsKeystore.Modular
