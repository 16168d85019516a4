/-
Signatures verify.

# The private operation

`Signature.privatePower` takes two small powers and puts them together.
Each is the message to an exponent that undoes the public one modulo the
prime less one, so that the public power gives the message back modulo
that prime (`pow_modEq_self`); what is put together leaves both remainders
(`combined_modEq_prime1`, `combined_modEq_prime2`), and so its public power is
the message modulo the product (`privatePower_pow`).

# The block

The block that is signed has a zero in front, hence is below every modulus
of its length (`IsBlock.toNat_lt`), and the remainder is the block itself.
So a key of two primes never fails to sign (`sign?_isSome`). That a
signature, where there is one, verifies needs none of this: it is checked
before it is handed out (`pow_of_sign?`).
-/
import TlsKeystore.Proofs.Rsa.Arithmetic
import TlsKeystore.Rsa.Signature

namespace TlsKeystore

-- ======================================================= the numbers of a key

/-- A key whose modulus is the product of two primes, and whose exponents
undo the public one modulo each prime less one. -/
structure PrivateKey.Sound (k : PrivateKey) : Prop where
  prime1 : k.prime1.Prime
  prime2 : k.prime2.Prime
  distinct : k.prime1 ≠ k.prime2
  modulus : k.modulus = k.prime1 * k.prime2
  exponent1 : k.exponent1 * k.publicExponent % (k.prime1 - 1) = 1
  exponent2 : k.exponent2 * k.publicExponent % (k.prime2 - 1) = 1

/-- What the sizes of a signing key have to do with one another. -/
theorem PrivateKey.sizes_of_signs {k : PrivateKey} (h : k.signs = true) :
    k.coefficient * k.prime2 % k.prime1 = 1
      ∧ 256 ≤ Bytes.byteLength k.modulus := by
  simp only [signs, Bool.and_eq_true, decide_eq_true_eq, beq_iff_eq] at h
  refine ⟨h.2, ?_⟩
  unfold Bytes.byteLength
  omega

namespace Signature

-- ======================================================= the private power

/-- An exponent that is 1 modulo a prime less one changes nothing modulo
the prime. -/
theorem pow_modEq_self {p j : Nat} (hp : p.Prime) (hj : j % (p - 1) = 1)
    (x : Nat) : x ^ j ≡ x [MOD p] := by
  have hsplit : j = (p - 1) * (j / (p - 1)) + 1 := by
    have := Nat.div_add_mod j (p - 1)
    omega
  by_cases hx : p ∣ x
  · have hzero : x ≡ 0 [MOD p] := (Nat.modEq_zero_iff_dvd).mpr hx
    have hpow : x ^ j ≡ 0 [MOD p] := by
      rw [hsplit, pow_succ]
      exact (Nat.modEq_zero_iff_dvd).mpr (Dvd.dvd.mul_left hx _)
    exact hpow.trans hzero.symm
  · have hcoprime : Nat.Coprime x p :=
      ((Nat.Prime.coprime_iff_not_dvd hp).mpr hx).symm
    have hfermat : x ^ (p - 1) ≡ 1 [MOD p] := by
      rw [← Nat.totient_prime hp]
      exact Nat.ModEq.pow_totient hcoprime
    have hpow := (hfermat.pow (j / (p - 1))).mul_right x
    rw [one_pow, one_mul, ← pow_mul, ← pow_succ, ← hsplit] at hpow
    exact hpow

/-- What the two small powers are put together to, before the modulus. -/
def combined (k : PrivateKey) (m1 m2 : Nat) : Nat :=
  m2 + (k.coefficient * ((m1 : Int) - m2) % k.prime1).toNat * k.prime2

theorem privatePower_eq (k : PrivateKey) (m : Nat) :
    privatePower k m = combined k (m ^ k.exponent1 % k.prime1)
      (m ^ k.exponent2 % k.prime2) % k.modulus := by
  rw [privatePower, Modular.pow_eq, Modular.pow_eq]
  rfl

/-- A multiple of the second prime more does not show modulo that prime. -/
theorem combined_modEq_prime2 (k : PrivateKey) (m1 m2 : Nat) :
    combined k m1 m2 ≡ m2 [MOD k.prime2] := by
  unfold combined Nat.ModEq
  rw [Nat.add_mul_mod_self_right]

/-- Which multiple it is makes up the difference modulo the first. -/
theorem combined_modEq_prime1 {k : PrivateKey}
    (hcoefficient : k.coefficient * k.prime2 % k.prime1 = 1)
    (hpos : 1 < k.prime1) (m1 m2 : Nat) :
    combined k m1 m2 ≡ m1 [MOD k.prime1] := by
  have hinverse : (k.coefficient * k.prime2 : Int) ≡ 1 [ZMOD k.prime1] := by
    have h : k.coefficient * k.prime2 ≡ 1 [MOD k.prime1] := by
      rw [Nat.ModEq, hcoefficient, Nat.mod_eq_of_lt hpos]
    exact_mod_cast (Int.natCast_modEq_iff.mpr h)
  obtain ⟨h, hh⟩ : ∃ h, h = (k.coefficient * ((m1 : Int) - m2)
      % k.prime1).toNat := ⟨_, rfl⟩
  have hmod : (h : Int) ≡ k.coefficient * ((m1 : Int) - m2)
      [ZMOD k.prime1] := by
    have hnonneg : 0 ≤ k.coefficient * ((m1 : Int) - m2) % k.prime1 :=
      Int.emod_nonneg _ (by omega)
    rw [hh, Int.toNat_of_nonneg hnonneg]
    exact Int.mod_modEq _ _
  have hsum : ((m2 + h * k.prime2 : Nat) : Int) ≡ m1 [ZMOD k.prime1] := by
    push_cast
    calc (m2 : Int) + h * k.prime2
        ≡ m2 + k.coefficient * ((m1 : Int) - m2) * k.prime2
          [ZMOD k.prime1] := (hmod.mul_right _).add_left _
      _ = m2 + k.coefficient * k.prime2 * ((m1 : Int) - m2) := by ring
      _ ≡ m2 + 1 * ((m1 : Int) - m2) [ZMOD k.prime1] :=
          (hinverse.mul_right _).add_left _
      _ = m1 := by ring
  rw [combined, ← hh]
  exact Int.natCast_modEq_iff.mp hsum

/-- The public power undoes the private one. -/
theorem privatePower_pow {k : PrivateKey} (hsound : k.Sound)
    (hcoefficient : k.coefficient * k.prime2 % k.prime1 = 1) (m : Nat) :
    privatePower k m ^ k.publicExponent ≡ m [MOD k.modulus] := by
  have hp := hsound.prime1
  have hq := hsound.prime2
  have hsmall {p j : Nat} (hp : p.Prime)
      (hj : j * k.publicExponent % (p - 1) = 1) :
      (m ^ j % p) ^ k.publicExponent ≡ m [MOD p] := by
    have hpow := (Nat.mod_modEq (m ^ j) p).pow k.publicExponent
    rw [← pow_mul] at hpow
    exact hpow.trans (pow_modEq_self hp hj m)
  have hcombined : combined k (m ^ k.exponent1 % k.prime1)
      (m ^ k.exponent2 % k.prime2) ^ k.publicExponent
      ≡ m [MOD k.prime1 * k.prime2] := by
    rw [← Nat.modEq_and_modEq_iff_modEq_mul
      ((Nat.coprime_primes hp hq).mpr hsound.distinct)]
    constructor
    · exact ((combined_modEq_prime1 hcoefficient hp.one_lt _ _).pow _).trans
        (hsmall hp hsound.exponent1)
    · exact ((combined_modEq_prime2 k _ _).pow _).trans
        (hsmall hq hsound.exponent2)
  rw [privatePower_eq, hsound.modulus]
  exact ((Nat.mod_modEq _ _).pow _).trans hcombined

-- ============================================================== the block

/-- What stands in front of a digest: that it is one, and by which
function. -/
def digestName : Bytes :=
  [0x30, 0x31, 0x30, 0x0D, 0x06, 0x09, 0x60, 0x86, 0x48, 0x01, 0x65, 0x03,
    0x04, 0x02, 0x01, 0x05, 0x00, 0x04, 0x20]

/-- The octets of a block that is signed for a message: a zero, a one, a
filling of at least eight octets of one bits, a zero, the digest under its
name. -/
structure IsBlock (length : Nat) (message block : Bytes) : Prop where
  length_eq : block.length = length
  shape : ∃ filling, block = [0, 1] ++ filling ++ [0] ++ digestName
      ++ Sha256.sha256.digest message
    ∧ (∀ x ∈ filling, x = 0xFF) ∧ 8 ≤ filling.length

theorem digestInfo_eq (message : Bytes) :
    digestInfo message = digestName ++ Sha256.sha256.digest message := by
  have hlength := Sha256.length_digest message
  unfold digestInfo
  generalize Sha256.sha256.digest message = digest at *
  have hname : Der.sequence [Der.oid sha256, Der.null]
      = [0x30, 0x0D, 0x06, 0x09, 0x60, 0x86, 0x48, 0x01, 0x65, 0x03, 0x04,
        0x02, 0x01, 0x05, 0x00] := by decide +kernel
  have hdigest : Der.lengthOctets 32 = [0x20] := by decide
  have hall : Der.lengthOctets 49 = [0x31] := by decide
  rw [hname]
  simp [Der.sequence, Der.wrap, Element.encode, Der.octetString, hlength,
    hdigest, hall, digestName, Tag.sequence, Tag.octetString]

/-- The block of a modulus that is long enough. -/
theorem isBlock_encode {length : Nat} (hlength : 62 ≤ length)
    (message : Bytes) : IsBlock length message (encode length message) := by
  have hinfo := digestInfo_eq message
  have hinfoLength : (digestInfo message).length = 51 := by
    rw [hinfo, List.length_append, Sha256.length_digest]
    rfl
  refine ⟨?_, List.replicate (length - 3 - 51) 0xFF, ?_, ?_, ?_⟩
  · simp only [encode, hinfoLength, List.length_append, List.length_cons,
      List.length_nil, List.length_replicate]
    omega
  · simp only [encode, hinfoLength]
    rw [hinfo]
    simp
  · intro x hx
    exact List.eq_of_mem_replicate hx
  · rw [List.length_replicate]
    omega

/-- A block is below every modulus of its length. -/
theorem IsBlock.toNat_lt {n : Nat} {message block : Bytes}
    (h : IsBlock (Bytes.byteLength n) message block) :
    Bytes.toNat block < n := by
  obtain ⟨hlength, filling, rfl, -, -⟩ := h
  simp only [List.cons_append, List.nil_append, List.append_assoc] at hlength ⊢
  generalize 1 :: (filling ++ (0 :: (digestName
    ++ Sha256.sha256.digest message))) = tail at *
  have hlt := Bytes.toNat_lt tail
  have hn : ¬ Bytes.byteLength n ≤ tail.length := by
    rw [List.length_cons] at hlength
    omega
  rw [Bytes.byteLength_le_iff] at hn
  rw [Bytes.toNat_cons]
  simp only [UInt8.reduceToNat, Nat.zero_mul, Nat.zero_add]
  omega

-- ============================================================= signatures

/-- A signature has the length of the modulus, and its public power is the
block. -/
theorem pow_of_sign? {k : PrivateKey} {message s : Bytes}
    (h : sign? k message = some s) :
    s.length = Bytes.byteLength k.modulus
      ∧ Bytes.toNat s ^ k.publicExponent % k.modulus
        = Bytes.toNat (encode (Bytes.byteLength k.modulus) message) := by
  unfold sign? at h
  simp only [Option.ite_none_right_eq_some, Option.some.injEq] at h
  obtain ⟨hverifies, rfl⟩ := h
  refine ⟨Bytes.length_padded .., ?_⟩
  rw [verifies, Modular.pow_eq, beq_iff_eq] at hverifies
  exact hverifies

/-- A signing key of two primes signs every message. -/
theorem sign?_isSome {k : PrivateKey} (hsigns : k.signs = true)
    (hsound : k.Sound) (message : Bytes) :
    ∃ s, sign? k message = some s := by
  obtain ⟨hcoefficient, hlength⟩ := PrivateKey.sizes_of_signs hsigns
  have hblock : Bytes.toNat (encode (Bytes.byteLength k.modulus) message)
      < k.modulus := (isBlock_encode (by omega) message).toNat_lt
  generalize hm : Bytes.toNat (encode (Bytes.byteLength k.modulus) message)
    = m at hblock
  have hpower := privatePower_pow hsound hcoefficient m
  have hbound : privatePower k m < k.modulus := by
    rw [privatePower_eq]
    exact Nat.mod_lt _ (by omega)
  have hroundTrip : Bytes.toNat (Bytes.padded (Bytes.byteLength k.modulus)
      (privatePower k m)) = privatePower k m := by
    rw [Bytes.toNat_padded]
    exact Nat.mod_eq_of_lt (hbound.trans (Bytes.lt_pow_byteLength _))
  have hverifies : verifies k.modulus k.publicExponent message
      (Bytes.padded (Bytes.byteLength k.modulus) (privatePower k m))
      = true := by
    rw [verifies, hm, hroundTrip, Modular.pow_eq, beq_iff_eq]
    rw [Nat.ModEq, Nat.mod_eq_of_lt hblock] at hpower
    exact hpower
  rw [← hm] at hverifies
  exact ⟨_, if_pos hverifies⟩

end Signature

-- =============================================================== one key

/-- A number of this form is prime where some base is of full order, which
is seen at the two primes below it. -/
theorem prime_of_pow {r n a : Nat} (hr : r.Prime)
    (hfull : Modular.pow a (r * 2 ^ n) (r * 2 ^ n + 1) = 1)
    (htwo : Modular.pow a (r * 2 ^ n / 2) (r * 2 ^ n + 1) ≠ 1)
    (hodd : Modular.pow a (r * 2 ^ n / r) (r * 2 ^ n + 1) ≠ 1) :
    (r * 2 ^ n + 1).Prime := by
  have hpos : 0 < r * 2 ^ n := Nat.mul_pos hr.pos (Nat.two_pow_pos n)
  generalize hm : r * 2 ^ n = m at *
  have hcast (j : Nat) : (a : ZMod (m + 1)) ^ j = 1
      ↔ Modular.pow a j (m + 1) = 1 := by
    have h := ZMod.natCast_eq_natCast_iff (a ^ j) 1 (m + 1)
    rw [Nat.cast_pow, Nat.cast_one, Nat.ModEq,
      Nat.mod_eq_of_lt (show 1 < m + 1 by omega)] at h
    rw [Modular.pow_eq]
    exact h
  refine lucas_primality (m + 1) a ?_ ?_
  · rw [Nat.add_sub_cancel, hcast]
    exact hfull
  · intro q hq hdvd
    rw [Nat.add_sub_cancel] at hdvd ⊢
    rw [Ne, hcast]
    rw [← hm] at hdvd
    rcases (Nat.Prime.dvd_mul hq).mp hdvd with h | h
    · rw [(Nat.prime_dvd_prime_iff_eq hq hr).mp h]
      exact hodd
    · rw [(Nat.prime_dvd_prime_iff_eq hq Nat.prime_two).mp
        (hq.dvd_of_dvd_pow h)]
      exact htwo

namespace PrivateKey

/-- The first prime of `plain`. -/
def plainPrime1 : Nat := 3931 * 2 ^ 1012 + 1

/-- The second prime of `plain`. -/
def plainPrime2 : Nat := 7547 * 2 ^ 1011 + 1

/-- A key of 2048 bits whose primes show that they are. -/
def plain : PrivateKey where
  modulus := plainPrime1 * plainPrime2
  publicExponent := 65537
  privateExponent := (33711 * (3931 * 7547 * 2 ^ 1012) + 1) / 65537
  prime1 := plainPrime1
  prime2 := plainPrime2
  exponent1 := (2283 * (plainPrime1 - 1) + 1) / 65537
  exponent2 := (4254 * (plainPrime2 - 1) + 1) / 65537
  coefficient := (269 * plainPrime1 + 7862) / 315

theorem signs_plain : plain.signs = true := by decide +kernel

theorem prime_plainPrime1 : plainPrime1.Prime := by
  unfold plainPrime1
  refine prime_of_pow (a := 3) (by norm_num) ?_ ?_ ?_
  all_goals decide +kernel

theorem prime_plainPrime2 : plainPrime2.Prime := by
  unfold plainPrime2
  refine prime_of_pow (a := 3) (by norm_num) ?_ ?_ ?_
  all_goals decide +kernel

theorem sound_plain : plain.Sound where
  prime1 := prime_plainPrime1
  prime2 := prime_plainPrime2
  distinct := by decide +kernel
  modulus := by decide +kernel
  exponent1 := by decide +kernel
  exponent2 := by decide +kernel

end PrivateKey
end TlsKeystore
