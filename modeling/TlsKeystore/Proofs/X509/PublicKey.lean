/-
The RSA key that a certificate stores, and the one it shows.

What is stored are two INTEGERs at the front of a sequence, in whatever
octets; further members and trailing octets are passed over
(`StoresNumbers`). No INTEGER has a zero in front that says nothing, and
the sign is not looked at: its octets are read as a number without one. A
certificate shows a key exactly where it stores one, and it shows the
stored octets without their leading zeros (`rsaPublicKey_eq_ok_iff`).
-/
import TlsKeystore.Proofs.Asn1.Ber
import TlsKeystore.Proofs.X509.Inspect

namespace TlsKeystore

namespace Certificate

-- ================================================================= stored

/-- An element that holds an INTEGER in these octets. There is at least one
of them, and no zero in front but before a set top bit. -/
structure HoldsInteger (e : Ber.Element) (octets : Bytes) : Prop where
  primitive : e.constructed = false
  number : e.isOf .integer = true
  content : e.content = octets
  nonempty : octets ≠ []
  least : ∀ x rest, octets = 0 :: x :: rest → 128 ≤ x

/-- The octets of a key that store two numbers at the front of a sequence. -/
def StoresNumbers (key modulus exponent : Bytes) : Prop :=
  ∃ content rest first second behind,
    Ber.readSequence? key = some (content, rest)
    ∧ Ber.Begins content [first, second] behind
    ∧ HoldsInteger first modulus ∧ HoldsInteger second exponent

/-- A certificate that stores an RSA key, with its numbers in these octets. -/
structure StoresRsa (c : Certificate) (modulus exponent : Bytes) : Prop where
  algorithm : c.publicKey.algorithm.algorithm = rsaEncryption
  numbers : StoresNumbers c.publicKey.key modulus exponent

theorem integerOctets?_eq_some_iff {e : Ber.Element} {octets : Bytes} :
    integerOctets? e = some octets ↔ HoldsInteger e octets := by
  constructor
  · intro h
    unfold integerOctets? at h
    split at h
    · cases h
    · next hkind =>
        rw [Bool.not_eq_true, Bool.or_eq_false_iff, Bool.not_eq_false'] at hkind
        split at h
        · cases h
        · next x hcontent =>
            cases h
            exact ⟨hkind.1, hkind.2, hcontent, by simp, by simp⟩
        · next x y rest hcontent =>
            obtain ⟨hleast, h⟩ := Option.ite_none_left_eq_some.mp h
            cases h
            refine ⟨hkind.1, hkind.2, hcontent, by simp, ?_⟩
            intro y' rest' hx
            cases hx
            exact UInt8.not_lt.mp fun hy => hleast ⟨rfl, hy⟩
  · rintro ⟨hprimitive, hnumber, rfl, hnonempty, hleast⟩
    unfold integerOctets?
    rw [if_neg (by simp [hprimitive, hnumber])]
    split
    · next hcontent => exact absurd hcontent hnonempty
    · next hcontent => rw [hcontent]
    · next x y rest hcontent =>
        rw [if_neg, hcontent]
        rintro ⟨rfl, hy⟩
        exact UInt8.not_lt.mpr (hleast y rest hcontent) hy

-- ================================================================== shown

theorem rsaOctets?_eq_some_iff {key : Bytes} {k : RsaPublicOctets} :
    rsaOctets? key = some k
      ↔ ∃ modulus exponent, StoresNumbers key modulus exponent
        ∧ k = ⟨Bytes.stripZeros modulus, Bytes.stripZeros exponent⟩ := by
  unfold rsaOctets?
  simp only [Option.bind_eq_bind, Option.bind_eq_some_iff, Prod.exists,
    integerOctets?_eq_some_iff]
  constructor
  · rintro ⟨content, rest, hsequence, first, mid, hfirst, second, behind,
      hsecond, modulus, hmodulus, exponent, hexponent, hk⟩
    refine ⟨modulus, exponent, ⟨content, rest, first, second, behind,
      hsequence, ?_, hmodulus, hexponent⟩, (Option.some.inj hk).symm⟩
    exact .cons hfirst (.cons hsecond (.nil behind))
  · rintro ⟨modulus, exponent, ⟨content, rest, first, second, behind,
      hsequence, hbegins, hmodulus, hexponent⟩, rfl⟩
    obtain ⟨mid, hfirst, hbegins⟩ := Ber.begins_cons_iff.mp hbegins
    obtain ⟨_, hsecond, hbegins⟩ := Ber.begins_cons_iff.mp hbegins
    exact ⟨content, rest, hsequence, first, mid, hfirst, second, _, hsecond,
      modulus, hmodulus, exponent, hexponent, rfl⟩

/-- A certificate shows an RSA key exactly where it stores one, and then
without leading zeros. -/
theorem rsaPublicKey_eq_ok_iff {c : Certificate} {k : RsaPublicOctets} :
    c.rsaPublicKey = .ok k
      ↔ ∃ modulus exponent, c.StoresRsa modulus exponent
        ∧ k = ⟨Bytes.stripZeros modulus, Bytes.stripZeros exponent⟩ := by
  unfold rsaPublicKey
  constructor
  · intro h
    dsimp only at h
    split at h
    · next hkind =>
        split at h
        · next hoctets =>
            cases h
            obtain ⟨modulus, exponent, hstored, hk⟩ :=
              rsaOctets?_eq_some_iff.mp hoctets
            exact ⟨modulus, exponent, ⟨hkind, hstored⟩, hk⟩
        · cases h
    · obtain ⟨-, h⟩ | ⟨-, h⟩ := ite_eq_iff.mp h
      · cases h
      · cases h
  · rintro ⟨modulus, exponent, ⟨hkind, hstored⟩, hk⟩
    have hoctets := rsaOctets?_eq_some_iff.mpr ⟨_, _, hstored, hk⟩
    simp only [hkind, if_true, hoctets]

end Certificate

/-- An issued certificate shows the numbers of the key that it is for. -/
theorem rsaPublicKey_selfSign {t : CertificateTerms} {k : PrivateKey}
    {der : Bytes} (h : t.selfSign k = .ok der) :
    Inspect.rsaPublicKey der
      = .ok ⟨Bytes.ofNat k.modulus, Bytes.ofNat k.publicExponent⟩ := by
  obtain ⟨signed, signature, -, -, -, hparse⟩ :=
    CertificateTerms.parse_selfSign h
  exact (Inspect.ask_eq hparse _).trans
    (CertificateTerms.rsaPublicKey_written signed signature
      (CertificateTerms.numbersElement_hasRoom h))

end TlsKeystore
