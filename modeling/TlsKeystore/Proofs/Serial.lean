/-
Serial numbers that are drawn.

# The number

A certificate whose serial number is left open gets one from random octets,
with their highest bit cleared. What is left of their number is the
remainder by the power of two that this bit stands for
(`toNat_positiveSerial`), and the certificate shows it as the least INTEGER.

# No bit is lost

There is one least INTEGER for a number (`LeastInteger.inj`), and one text
in hexadecimal for octets (`toHex_inj`). So two certificates show one text
exactly if they were drawn from octets that agree below the highest bit,
whatever zeros stand in front of the numbers, and whether or not an octet
is put in front for the sign.
-/
import TlsKeystore.Proofs.Validity

namespace TlsKeystore

-- =========================================================== hexadecimal

namespace Bytes

theorem hexDigit_inj {m n : Nat} (hm : m < 16) (hn : n < 16)
    (h : hexDigit m = hexDigit n) : m = n := by
  have hall : ∀ m < 16, ∀ n < 16, hexDigit m = hexDigit n → m = n := by decide
  exact hall m hm n hn h

theorem hexChars_inj {a b : Bytes} (h : hexChars a = hexChars b) : a = b := by
  induction a generalizing b with
  | nil =>
      cases b with
      | nil => rfl
      | cons y b => cases h
  | cons x a ih =>
      cases b with
      | nil => cases h
      | cons y b =>
          obtain ⟨hhigh, htail⟩ := List.cons_eq_cons.mp h
          obtain ⟨hlow, hrest⟩ := List.cons_eq_cons.mp htail
          have hx := x.toNat_lt
          have hy := y.toNat_lt
          have hhigh : x.toNat / 16 = y.toNat / 16 :=
            hexDigit_inj (by omega) (by omega) hhigh
          have hlow : x.toNat % 16 = y.toNat % 16 :=
            hexDigit_inj (by omega) (by omega) hlow
          have hxy : x = y := UInt8.toNat_inj.mp (by omega)
          rw [hxy, ih hrest]

theorem toHex_inj {a b : Bytes} : toHex a = toHex b ↔ a = b := by
  constructor
  · intro h
    apply hexChars_inj
    simpa [toHex] using congrArg String.toList h
  · intro h
    rw [h]

end Bytes

-- =============================================================== integers

/-- One number has one least INTEGER. -/
theorem LeastInteger.inj {m n : Nat} {a b : Bytes} (ha : LeastInteger m a)
    (hb : LeastInteger n b) : a = b ↔ m = n := by
  constructor
  · intro h
    rw [← ha.value, ← hb.value, h]
  · intro h
    subst h
    have hlength : a.length = b.length :=
      Nat.le_antisymm (ha.least b hb.unsigned hb.value)
        (hb.least a ha.unsigned ha.value)
    exact Bytes.toNat_injective hlength (ha.value.trans hb.value.symm)

/-- Numbers leave the same below a bit exactly if they agree in all bits
there. -/
theorem mod_two_pow_eq_iff {m n k : Nat} :
    m % 2 ^ k = n % 2 ^ k ↔ ∀ i < k, m.testBit i = n.testBit i := by
  constructor
  · intro h i hi
    have hbit := congrArg (Nat.testBit · i) h
    simpa [Nat.testBit_mod_two_pow, hi] using hbit
  · intro h
    apply Nat.eq_of_testBit_eq
    intro i
    by_cases hi : i < k
    · simp [Nat.testBit_mod_two_pow, hi, h i hi]
    · simp [Nat.testBit_mod_two_pow, hi]

namespace CertificateRequest

-- ================================================================== draws

/-- The number of a draw without its highest bit. -/
theorem toNat_positiveSerial {random : Bytes} (hne : random ≠ []) :
    Bytes.toNat (positiveSerial random)
      = Bytes.toNat random % 2 ^ (8 * random.length - 1) := by
  obtain ⟨x, rest, rfl⟩ := List.exists_cons_of_ne_nil hne
  have hrest := Bytes.toNat_lt rest
  have hand : (x &&& 0x7F).toNat = x.toNat % 128 := by
    rw [UInt8.toNat_and]
    exact Nat.and_two_pow_sub_one_eq_mod x.toNat 7
  have hpow : 2 ^ (8 * (x :: rest).length - 1) = 128 * 256 ^ rest.length := by
    have hexponent : 8 * (x :: rest).length - 1 = 7 + 8 * rest.length := by
      rw [List.length_cons]
      omega
    rw [hexponent, pow_add, pow_mul]
    norm_num
  rw [positiveSerial, Bytes.toNat_cons, Bytes.toNat_cons, hand, hpow]
  generalize 256 ^ rest.length = unit at *
  generalize Bytes.toNat rest = low at *
  have hlow : x.toNat % 128 * unit + low < 128 * unit := by
    have := Nat.mod_lt x.toNat (show 0 < 128 by decide)
    nlinarith
  have hsplit : x.toNat * unit + low
      = x.toNat % 128 * unit + low + 128 * unit * (x.toNat / 128) := by
    conv_lhs => rw [← Nat.mod_add_div x.toNat 128]
    ring
  rw [hsplit, Nat.add_mul_mod_self_left, Nat.mod_eq_of_lt hlow]

theorem unsigned_positiveSerial {random : Bytes} (hne : random ≠ []) :
    Unsigned (positiveSerial random) := by
  obtain ⟨x, rest, rfl⟩ := List.exists_cons_of_ne_nil hne
  refine ⟨x &&& 0x7F, rest, rfl, ?_⟩
  apply UInt8.lt_iff_toNat_lt.mpr
  rw [UInt8.toNat_and]
  exact Nat.lt_of_le_of_lt Nat.and_le_right (by decide)

variable {r : CertificateRequest} {now : Instant} {random der : Bytes}
  {k : PrivateKey}

/-- A certificate of a draw is one with a serial number of 1 to 20 octets,
the least INTEGER for the draw without its highest bit. -/
theorem exists_serial_selfSign (hopen : r.serial = none)
    (hlength : random.length = serialLength)
    (h : (r.terms now random).selfSign k = .ok der) :
    ∃ c, Certificate.parse der = .ok c
      ∧ Inspect.serialHex der = .ok (Bytes.toHex c.serial)
      ∧ LeastInteger (Bytes.toNat random % 2 ^ 159) c.serial
      ∧ 1 ≤ c.serial.length ∧ c.serial.length ≤ 20 := by
  obtain ⟨signed, signature, -, -, -, hparse⟩ :=
    CertificateTerms.parse_selfSign h
  have hne : random ≠ [] := by
    intro hnil
    rw [hnil] at hlength
    cases hlength
  have hserial : (r.terms now random).serial = positiveSerial random := by
    rw [terms, hopen]
    rfl
  have hvalue : Bytes.toNat (positiveSerial random)
      = Bytes.toNat random % 2 ^ 159 := by
    rw [toNat_positiveSerial hne, hlength]
    rfl
  have hleast : LeastInteger (Bytes.toNat random % 2 ^ 159)
      ((r.terms now random).written k signed signature).serial := by
    rw [← hvalue, ← hserial]
    exact leastInteger_naturalOctets _
  refine ⟨_, hparse, Inspect.ask_eq hparse _, hleast, ?_, ?_⟩
  · obtain ⟨x, rest, hcontent, -⟩ := hleast.unsigned
    rw [hcontent]
    exact Nat.succ_le_succ (Nat.zero_le _)
  · -- the draw itself, less its highest bit, is no shorter
    have hle := hleast.least _ (unsigned_positiveSerial hne) hvalue
    have hsame : (positiveSerial random).length = random.length := by
      cases random <;> rfl
    rw [hsame, hlength] at hle
    exact hle

/-- Serial numbers that are drawn are legal and lose nothing of the draw but
its highest bit. Read back from the certificate, such a number is the least
INTEGER for the draw without this bit: without a sign, of 1 to 20 octets.
And two certificates, of whatever requests, keys and clocks, show the same
number exactly if their draws agree in all other bits. -/
theorem serialHex_drawn (hopen : r.serial = none)
    (hlength : random.length = serialLength)
    (h : (r.terms now random).selfSign k = .ok der) :
    (∃ c, Certificate.parse der = .ok c
        ∧ Inspect.serialHex der = .ok (Bytes.toHex c.serial)
        ∧ LeastInteger (Bytes.toNat random % 2 ^ 159) c.serial
        ∧ 1 ≤ c.serial.length ∧ c.serial.length ≤ 20)
      ∧ ∀ (r' : CertificateRequest) (now' : Instant) (random' : Bytes)
        (k' : PrivateKey) (der' : Bytes), r'.serial = none →
        random'.length = serialLength →
        (r'.terms now' random').selfSign k' = .ok der' →
        (Inspect.serialHex der = Inspect.serialHex der'
          ↔ ∀ i < 159, (Bytes.toNat random).testBit i
            = (Bytes.toNat random').testBit i) := by
  have hserial := exists_serial_selfSign hopen hlength h
  refine ⟨hserial, fun r' now' random' k' der' hopen' hlength' h' => ?_⟩
  obtain ⟨c, -, hshown, hleast, -⟩ := hserial
  obtain ⟨c', -, hshown', hleast', -⟩ :=
    exists_serial_selfSign hopen' hlength' h'
  rw [hshown, hshown', Except.ok.injEq, Bytes.toHex_inj, hleast.inj hleast',
    mod_two_pow_eq_iff]

/-- A request that leaves its serial number open. -/
def plain : CertificateRequest where
  commonName := ""
  subject := ⟨"", "", "", "", ""⟩
  notBefore := some ⟨0⟩
  notAfter := some ⟨0⟩

theorem selfSign_terms_plain (random : Bytes)
    (hlength : random.length = serialLength) :
    ∃ der, (plain.terms ⟨0⟩ random).selfSign PrivateKey.plain = .ok der := by
  have hserial : (plain.terms ⟨0⟩ random).serial.length = 20 := by
    rw [← show random.length = 20 from hlength]
    cases random <;> rfl
  have hfirst : (plain.terms ⟨0⟩ random).notBefore.seconds = 0 := rfl
  have hlast : (plain.terms ⟨0⟩ random).notAfter.seconds = 0 := rfl
  have hname : (plain.terms ⟨0⟩ random).nameAttributes
      = plain.subject.attributes plain.commonName := rfl
  apply CertificateTerms.selfSign_isOk_of_writable PrivateKey.signs_plain
    PrivateKey.sound_plain
  · rw [hfirst, X509Time.writable_iff]
    omega
  · rw [hlast, X509Time.writable_iff]
    omega
  · rw [hserial, hname]
    decide +kernel

/-- With a zero octet in front, and a number behind it that takes an octet
for the sign: the highest bit alone makes no difference. -/
theorem serialHex_drawn_plain :
    let low : Bytes := 0 :: 0x80 :: List.replicate 17 0
    ∃ der der',
      (plain.terms ⟨0⟩ (0 :: low)).selfSign PrivateKey.plain = .ok der
      ∧ (plain.terms ⟨0⟩ (0x80 :: low)).selfSign PrivateKey.plain = .ok der'
      ∧ Inspect.serialHex der = Inspect.serialHex der' := by
  intro low
  obtain ⟨der, h⟩ := selfSign_terms_plain (0 :: low) rfl
  obtain ⟨der', h'⟩ := selfSign_terms_plain (0x80 :: low) rfl
  obtain ⟨-, hsame⟩ := serialHex_drawn rfl rfl h
  refine ⟨der, der', h, h',
    (hsame plain ⟨0⟩ (0x80 :: low) _ der' rfl rfl h').mpr ?_⟩
  rw [← mod_two_pow_eq_iff]
  decide

end CertificateRequest
end TlsKeystore
