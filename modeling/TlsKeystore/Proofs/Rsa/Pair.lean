/-
What two drawn numbers make.

# The size of the product

Numbers of one size with their top two bits set are at least 3/4 of the
power of two above them, so their product is at least 9/16 of its own: its
top bit is set, and it has twice their size, never a bit less
(`bitLength_mul_of_drawn`).

# The other demands

A new key is looked at as a whole, but nearly all that is looked for it has
by the way it is made. The exponents undo each other modulo the product of
the primes less one, hence modulo each factor; the private exponent is odd,
its modulus being even; and the sizes follow from those of the primes. Only
a private exponent no longer than the primes can still be turned down
(`ofPrimes?_eq_some_iff`).
-/
import TlsKeystore.Proofs.Rsa.Generate

namespace TlsKeystore.PrivateKey

variable {bits p q d c : Nat}

-- ============================================================ the product

theorem Drawn.lt_two_pow (hp : Drawn bits p) : p < 2 ^ bits := by
  rw [← hp.size, Bytes.bitLength_eq_size]
  exact Nat.lt_size_self p

/-- The product of two drawn numbers has exactly twice their size. -/
theorem bitLength_mul_of_drawn (hbits : 2 ≤ bits) (hp : Drawn bits p)
    (hq : Drawn bits q) : Bytes.bitLength (p * q) = 2 * bits := by
  have hupper : p * q < 2 ^ (2 * bits) := by
    rw [two_mul, pow_add]
    exact Nat.mul_lt_mul'' hp.lt_two_pow hq.lt_two_pow
  have hlower : 2 ^ (2 * bits - 1) ≤ p * q := by
    have hsplit : 2 * bits - 1 = (bits - 2) + (bits - 2) + 3 := by omega
    calc 2 ^ (2 * bits - 1)
        = 8 * (2 ^ (bits - 2) * 2 ^ (bits - 2)) := by
          rw [hsplit, pow_add, pow_add]
          ring
      _ ≤ 3 * 2 ^ (bits - 2) * (3 * 2 ^ (bits - 2)) := by
          nlinarith [Nat.two_pow_pos (bits - 2)]
      _ ≤ p * q := Nat.mul_le_mul hp.large hq.large
  rw [Bytes.bitLength_eq_size]
  have hle := Nat.size_le.mpr hupper
  have hlt := Nat.lt_size.mpr hlower
  omega

theorem mul_odd_of_drawn (hp : Drawn bits p) (hq : Drawn bits q) :
    p * q % 2 = 1 := by
  rw [Nat.mul_mod, hp.odd, hq.odd]

-- ================================================================ the key

/-- The key of two primes, from its private exponent and its coefficient. -/
def ofParts (p q d c : Nat) : PrivateKey :=
  ⟨p * q, keyExponent, d, p, q, d % (p - 1), d % (q - 1), c⟩

/-- The primes of a new key are far above its public exponent. -/
theorem Drawn.keyExponent_lt (hp : Drawn (keyBits / 2) p) :
    keyExponent < p := by
  have hlarge : keyExponent < 3 * 2 ^ (keyBits / 2 - 2) := by decide +kernel
  exact hlarge.trans_le hp.large

/-- A drawn number less one is even. -/
theorem Drawn.two_dvd_sub_one (hp : Drawn bits p) : 2 ∣ p - 1 := by
  have hodd := hp.odd
  omega

theorem bitLength_modulus_ofParts (hp : Drawn (keyBits / 2) p)
    (hq : Drawn (keyBits / 2) q) : Bytes.bitLength (p * q) = keyBits :=
  bitLength_mul_of_drawn (by decide) hp hq

/-- The numbers of such a key fit together. -/
theorem consistent_ofParts (hp : Drawn (keyBits / 2) p)
    (hq : Drawn (keyBits / 2) q)
    (hd : keyExponent * d ≡ 1 [MOD (p - 1) * (q - 1)]) :
    (ofParts p q d c).consistent = true := by
  have hsize : Bytes.bitLength (p * q) = 2048 :=
    bitLength_modulus_ofParts hp hq
  have hodd := mul_odd_of_drawn hp hq
  have hp1 : 65537 < p := hp.keyExponent_lt
  have hq1 : 65537 < q := hq.keyExponent_lt
  have hmodulus : 65537 < p * q := by nlinarith
  have hone : 1 < p ∧ 1 < q := by omega
  have hexponent : keyExponent = 65537 := rfl
  rw [hexponent, mul_comm _ d] at hd
  have hinverse1 : d * 65537 % (p - 1) = 1 % (p - 1) := hd.of_mul_right _
  have hinverse2 : d * 65537 % (q - 1) = 1 % (q - 1) := hd.of_mul_left _
  simp only [consistent, Bool.and_eq_true, decide_eq_true_eq, beq_iff_eq]
  simp [ofParts, maxBits, maxPublicExponent, hexponent, hsize, hodd, hmodulus,
    hone, hinverse1, hinverse2]

/-- A private exponent is odd: it has an inverse modulo an even number. -/
theorem privateExponent_odd (hp : Drawn bits p)
    (hd : keyExponent * d ≡ 1 [MOD (p - 1) * (q - 1)]) : d % 2 = 1 := by
  have hinverse := hd.of_dvd (hp.two_dvd_sub_one.mul_right (q - 1))
  have hexponent : keyExponent % 2 = 1 := rfl
  rwa [Nat.ModEq, Nat.mul_mod, hexponent, one_mul, Nat.mod_mod] at hinverse

/-- The sizes of such a key are those of a signing key, exactly where the
private exponent is longer than the primes. -/
theorem signs_ofParts_iff (hp : Drawn (keyBits / 2) p)
    (hq : Drawn (keyBits / 2) q)
    (hd : keyExponent * d ≡ 1 [MOD (p - 1) * (q - 1)])
    (hbelow : d < (p - 1) * (q - 1)) (hc : q * c % p = 1 % p)
    (hcbelow : c < p) :
    (ofParts p q d c).signs = true
      ↔ keyBits / 2 < Bytes.bitLength d := by
  have hsize : Bytes.bitLength (p * q) = 2048 :=
    bitLength_modulus_ofParts hp hq
  have hsize1 : Bytes.bitLength p = 1024 := hp.size
  have hsize2 : Bytes.bitLength q = 1024 := hq.size
  have hodd := mul_odd_of_drawn hp hq
  have hdodd := privateExponent_odd hp hd
  have hfactors : (p - 1) * (q - 1) ≤ p * q :=
    Nat.mul_le_mul (Nat.sub_le ..) (Nat.sub_le ..)
  have hcoefficient : c * q % p = 1 := by
    have hp1 : 65537 < p := hp.keyExponent_lt
    rw [mul_comm, hc]
    exact Nat.mod_eq_of_lt (by omega)
  have hexponent {r : Nat} (hr : Drawn (keyBits / 2) r) :
      d % (r - 1) % 2 = 1 ∧ d % (r - 1) < r := by
    have hr1 : 65537 < r := hr.keyExponent_lt
    have hlt := Nat.mod_lt d (show 0 < r - 1 by omega)
    rw [Nat.mod_mod_of_dvd d hr.two_dvd_sub_one]
    exact ⟨hdodd, by omega⟩
  simp only [signs, Bool.and_eq_true, decide_eq_true_eq, beq_iff_eq]
  simp [ofParts, maxBits, maxPublicExponent, keyExponent, keyBits,
    hsize, hodd, hp.odd, hsize1, hq.odd, hsize2, hdodd, hexponent hp,
    hexponent hq, hcoefficient, hcbelow, hbelow.trans_le hfactors]

/-- Two drawn numbers make a key exactly where the inverses are there and
the private exponent is longer than the primes. Everything else that is
looked for is there anyway. -/
theorem ofPrimes?_eq_some_iff {k : PrivateKey}
    (hp : Drawn (keyBits / 2) p) (hq : Drawn (keyBits / 2) q) :
    ofPrimes? p q = some k ↔
      ∃ d c, Modular.inverse? keyExponent ((p - 1) * (q - 1)) = some d
        ∧ Modular.inverse? q p = some c
        ∧ keyBits / 2 < Bytes.bitLength d ∧ k = ofParts p q d c := by
  have hp1 : 65537 < p := hp.keyExponent_lt
  have hq1 : 65537 < q := hq.keyExponent_lt
  have hfactors : 1 < (p - 1) * (q - 1) :=
    one_lt_mul'' (show 1 < p - 1 by omega) (show 1 < q - 1 by omega)
  unfold ofPrimes?
  simp only [Option.bind_eq_bind, Option.bind_eq_some_iff,
    Option.ite_none_right_eq_some]
  refine exists_congr fun d => ?_
  constructor
  · rintro ⟨hd, c, hc, ⟨-, -, hsigns⟩, hk⟩
    obtain ⟨hinverse, hbelow⟩ := Modular.mul_mod_of_inverse? (by omega) hd
    obtain ⟨hcinverse, hcbelow⟩ := Modular.mul_mod_of_inverse? (by omega) hc
    refine ⟨c, hd, hc, ?_, (Option.some.inj hk).symm⟩
    exact (signs_ofParts_iff hp hq hinverse hbelow hcinverse hcbelow).mp
      hsigns
  · rintro ⟨c, hd, hc, hlong, rfl⟩
    obtain ⟨hinverse, hbelow⟩ := Modular.mul_mod_of_inverse? (by omega) hd
    obtain ⟨hcinverse, hcbelow⟩ := Modular.mul_mod_of_inverse? (by omega) hc
    refine ⟨hd, c, hc, ⟨?_, ?_, ?_⟩, rfl⟩
    · exact bitLength_modulus_ofParts hp hq
    · exact consistent_ofParts hp hq hinverse
    · exact (signs_ofParts_iff hp hq hinverse hbelow hcinverse hcbelow).mpr
        hlong

/-- Every new key is what two drawn numbers make. -/
theorem exists_parts_of_generate? {e : Entropy} {k : PrivateKey}
    (h : (generate?.run e).1 = some k) :
    ∃ p q d c, Drawn (keyBits / 2) p ∧ Drawn (keyBits / 2) q
      ∧ k = ofParts p q d c := by
  obtain ⟨p, q, hp, hq, hk⟩ := exists_drawn_of_generate? h
  obtain ⟨d, c, -, -, -, rfl⟩ := (ofPrimes?_eq_some_iff hp hq).mp hk
  exact ⟨p, q, d, c, hp, hq, rfl⟩

end TlsKeystore.PrivateKey
