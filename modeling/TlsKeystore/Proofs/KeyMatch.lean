/-
Which certificate a key belongs to.

# Numbers and octets

A certificate shows its key in octets without leading zeros, however many
stood there, and a private key is compared by the shortest octets of its
numbers. Both are the same form of a number (`Bytes.stripZeros_eq_ofNat`),
so that octets are equal exactly where the numbers are
(`hasNumbers_stripZeros`). Zero would have two forms, one of no octets and
one of a single zero; but no key that is read has a zero for a public
number (`PrivateKey.public_pos_of_consistent`).

# New keys

A new key has its size and its public exponent from the way it is made, of
a pair of drawn numbers (`PrivateKey.exists_parts_of_generate?`), and both
readers of its form accept it (`PrivateKey.fit_of_generate?`). The
certificates that it signs for itself show its numbers, so it belongs to all
of them (`keyMatches_encode`).
-/
import TlsKeystore.Proofs.Rsa.Pair
import TlsKeystore.Proofs.Summary
import TlsKeystore.Proofs.X509.PublicKey

namespace TlsKeystore

namespace OpenedBundle

-- ============================================================= comparison

/-- Octets are compared as the numbers that they denote. -/
theorem hasNumbers_ofNat (key : PrivateKey) (modulus exponent : Nat) :
    hasNumbers ⟨Bytes.ofNat modulus, Bytes.ofNat exponent⟩ key
      = decide (modulus = key.modulus ∧ exponent = key.publicExponent) := by
  rw [hasNumbers, Bool.decide_and, Bool.beq_eq_decide_eq,
    Bool.beq_eq_decide_eq]
  simp only [Bytes.ofNat_inj, eq_comm]

theorem hasNumbers_stripZeros (key : PrivateKey) (modulus exponent : Bytes) :
    hasNumbers ⟨Bytes.stripZeros modulus, Bytes.stripZeros exponent⟩ key
      = decide (Bytes.toNat modulus = key.modulus
        ∧ Bytes.toNat exponent = key.publicExponent) := by
  rw [Bytes.stripZeros_eq_ofNat, Bytes.stripZeros_eq_ofNat, hasNumbers_ofNat]

variable {b : OpenedBundle} {c : Certificate} {key : PrivateKey}

theorem keyMatchesOctets_of_decode?
    (hkey : PrivateKey.decode? b.key = some key) (k : RsaPublicOctets) :
    b.keyMatchesOctets k = .ok (hasNumbers k key) := by
  have hprivate : b.privateKey = .ok key := by rw [privateKey, hkey]
  rw [keyMatchesOctets_eq, hprivate]
  rfl

/-- Where both keys are there, they are compared. -/
theorem keyMatches_of_shown {k : RsaPublicOctets}
    (hkey : PrivateKey.decode? b.key = some key)
    (hshown : Inspect.rsaPublicKey b.certificate = .ok k) :
    b.keyMatches = .ok (hasNumbers k key) := by
  rw [keyMatches, hshown]
  exact keyMatchesOctets_of_decode? hkey k

/-- The key that a certificate was issued for is the one it is compared
with. -/
theorem keyMatches_of_selfSign {t : CertificateTerms} {own : PrivateKey}
    (hkey : PrivateKey.decode? b.key = some key)
    (hsign : t.selfSign own = .ok b.certificate) :
    b.keyMatches = .ok (decide (own.modulus = key.modulus
      ∧ own.publicExponent = key.publicExponent)) := by
  rw [keyMatches_of_shown hkey (rsaPublicKey_selfSign hsign),
    hasNumbers_ofNat]

/-- So a fit key, in its own form, belongs to every certificate that it has
signed for itself. -/
theorem keyMatches_encode {t : CertificateTerms} {own : PrivateKey}
    {certificate : Bytes} (hfit : own.Fit)
    (hsign : t.selfSign own = .ok certificate) (label : String) :
    keyMatches ⟨label, own.encode, certificate⟩ = .ok true := by
  have hkey := PrivateKey.decode?_encode hfit.signs hfit.consistent
  rw [keyMatches_of_selfSign (b := ⟨label, own.encode, certificate⟩) hkey
    hsign]
  simp

/-- A bundle with a certificate and a private key that are both read tells
whether the numbers of the two keys are equal, whatever zeros stand in front
of them. It does so exactly where the certificate stores an RSA key. In one
that a key has issued for itself the numbers are those of that key, so that
the key it was signed with belongs to it and a key with another public part
does not. No public number of a private key is zero, which would have two
shortest forms. -/
theorem keyMatches_eq_decide
    (hparse : Certificate.parse b.certificate = .ok c)
    (hkey : PrivateKey.decode? b.key = some key) :
    ((∃ k, Inspect.rsaPublicKey b.certificate = .ok k)
        ↔ ∃ modulus exponent, c.StoresRsa modulus exponent)
      ∧ (∀ modulus exponent, c.StoresRsa modulus exponent →
          b.keyMatches = .ok (decide (Bytes.toNat modulus = key.modulus
            ∧ Bytes.toNat exponent = key.publicExponent)))
      ∧ (∀ modulus exponent : Bytes,
          b.keyMatchesOctets
              ⟨Bytes.stripZeros modulus, Bytes.stripZeros exponent⟩
            = .ok (decide (Bytes.toNat modulus = key.modulus
              ∧ Bytes.toNat exponent = key.publicExponent)))
      ∧ (∀ (t : CertificateTerms) (own : PrivateKey),
          t.selfSign own = .ok b.certificate →
            b.keyMatches = .ok (decide (own.modulus = key.modulus
              ∧ own.publicExponent = key.publicExponent))
            ∧ (PrivateKey.load? b.key = some own →
              b.keyMatches = .ok true))
      ∧ 0 < key.modulus ∧ 0 < key.publicExponent := by
  have hask : Inspect.rsaPublicKey b.certificate = c.rsaPublicKey :=
    Inspect.ask_eq hparse _
  have hpublic := PrivateKey.public_pos_of_consistent
    (PrivateKey.numbers_of_decode? hkey).2
  have hcompared (modulus exponent : Bytes) := (keyMatchesOctets_of_decode?
    hkey ⟨_, _⟩).trans (congrArg Except.ok
      (hasNumbers_stripZeros key modulus exponent))
  refine ⟨?_, ?_, hcompared, ?_, hpublic⟩
  · rw [hask]
    constructor
    · rintro ⟨k, hk⟩
      obtain ⟨modulus, exponent, hstored, -⟩ :=
        Certificate.rsaPublicKey_eq_ok_iff.mp hk
      exact ⟨modulus, exponent, hstored⟩
    · rintro ⟨modulus, exponent, hstored⟩
      exact ⟨_, Certificate.rsaPublicKey_eq_ok_iff.mpr
        ⟨modulus, exponent, hstored, rfl⟩⟩
  · intro modulus exponent hstored
    have hshown := Certificate.rsaPublicKey_eq_ok_iff.mpr
      ⟨modulus, exponent, hstored, rfl⟩
    rw [keyMatches_of_shown hkey (hask.trans hshown), hasNumbers_stripZeros]
  · intro t own hsign
    refine ⟨keyMatches_of_selfSign hkey hsign, ?_⟩
    intro hload
    obtain rfl := PrivateKey.eq_of_load?_of_decode? hload hkey
    rw [keyMatches_of_selfSign hkey hsign]
    simp

/-- A small key, of the primes 3 and 5. -/
def smallKey : PrivateKey := ⟨15, 3, 3, 3, 5, 1, 3, 2⟩

/-- The certificate of a new key, with that key and with another one. -/
theorem keyMatches_drawn :
    ∃ certificate c,
      CertificateTerms.plain.selfSign PrivateKey.drawn = .ok certificate
      ∧ Certificate.parse certificate = .ok c
      ∧ PrivateKey.decode? PrivateKey.drawn.encode = some PrivateKey.drawn
      ∧ PrivateKey.decode? smallKey.encode = some smallKey
      ∧ keyMatches ⟨"own", PrivateKey.drawn.encode, certificate⟩ = .ok true
      ∧ keyMatches ⟨"other", smallKey.encode, certificate⟩ = .ok false := by
  obtain ⟨certificate, -, hsign, -⟩ := CertificateTerms.selfSign_drawn
  obtain ⟨signed, signature, -, -, -, hparse⟩ :=
    CertificateTerms.parse_selfSign hsign
  have hown := PrivateKey.decode?_encode PrivateKey.fit_drawn.signs
    PrivateKey.fit_drawn.consistent
  have hother : PrivateKey.decode? smallKey.encode = some smallKey := by
    decide +kernel
  obtain ⟨-, -, -, hmatch, -⟩ := keyMatches_eq_decide
    (b := ⟨"own", PrivateKey.drawn.encode, certificate⟩) hparse hown
  obtain ⟨-, -, -, hmatch', -⟩ := keyMatches_eq_decide
    (b := ⟨"other", smallKey.encode, certificate⟩) hparse hother
  refine ⟨certificate, _, hsign, hparse, hown, hother, ?_, ?_⟩
  · rw [(hmatch _ _ hsign).1]
    simp
  · rw [(hmatch' _ _ hsign).1]
    decide +kernel

end OpenedBundle

-- =============================================================== new keys

namespace PrivateKey

variable {e : Entropy} {k : PrivateKey}

/-- Whatever the stream, a new key has a modulus of exactly 2048 bits, which
is odd and takes up 256 octets, the first with its top bit set. Its public
exponent is 65537. Its form is accepted for signing and is read with its own
numbers, which are those that every certificate shows that it signs for
itself. So it belongs to all of them. -/
theorem newKey_fits (h : (generate?.run e).1 = some k) :
    (Bytes.bitLength k.modulus = 2048
        ∧ (∃ x rest, Bytes.ofNat k.modulus = x :: rest ∧ 128 ≤ x
          ∧ rest.length = 255)
        ∧ k.modulus % 2 = 1)
      ∧ k.publicExponent = 65537
      ∧ load? k.encode = some k
      ∧ decode? k.encode = some k
      ∧ ∀ (t : CertificateTerms) (label : String) (certificate : Bytes),
          t.selfSign k = .ok certificate →
            Inspect.rsaPublicKey certificate
              = .ok ⟨Bytes.ofNat k.modulus, Bytes.ofNat k.publicExponent⟩
            ∧ OpenedBundle.keyMatches ⟨label, k.encode, certificate⟩
              = .ok true := by
  have hfit := fit_of_generate? h
  obtain ⟨p, q, d, c, hp, hq, rfl⟩ := exists_parts_of_generate? h
  have hsize : Bytes.bitLength (p * q) = 2048 :=
    bitLength_modulus_ofParts hp hq
  refine ⟨⟨hsize, Bytes.exists_cons_of_bitLength hsize,
    mul_odd_of_drawn hp hq⟩, rfl, load?_encode hfit.signs,
    decode?_encode hfit.signs hfit.consistent, ?_⟩
  intro t label certificate hsign
  exact ⟨rsaPublicKey_selfSign hsign,
    OpenedBundle.keyMatches_encode hfit hsign label⟩

/-- The key that is drawn from `plainStream`, and a certificate for it. -/
theorem newKey_fits_plainStream :
    (generate?.run plainStream).1 = some drawn
    ∧ Bytes.bitLength drawn.modulus = 2048
    ∧ ∃ certificate,
      CertificateTerms.plain.selfSign drawn = .ok certificate
      ∧ OpenedBundle.keyMatches ⟨"own", drawn.encode, certificate⟩
        = .ok true := by
  have hdrawn : (generate?.run plainStream).1 = some drawn := by
    rw [run_generate?_plainStream]
  obtain ⟨certificate, -, hsign, -⟩ := CertificateTerms.selfSign_drawn
  obtain ⟨⟨hsize, -⟩, -, -, -, hmatch⟩ := newKey_fits hdrawn
  exact ⟨hdrawn, hsize, certificate, hsign, (hmatch _ _ _ hsign).2⟩

end PrivateKey
end TlsKeystore
