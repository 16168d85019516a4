/-
Asking an issued certificate.

All questions of `Inspect` are questions to the certificate that the
octets are read as, and for an issued one that is `written` of its terms
(`parse_selfSign`). So each answer is worked out from the terms alone, and
`inspect_selfSign` has them all.

The serial number needs a word. What is shown are the octets of an
INTEGER, whatever octets the number was given as; `LeastInteger` says
which: a first octet without the sign, and none to spare.
-/
import TlsKeystore.Proofs.X509.Issue

namespace TlsKeystore

-- =============================================================== integers

/-- Octets that an INTEGER reads as a number that is not negative. -/
def Unsigned (content : Bytes) : Prop :=
  ∃ x rest, content = x :: rest ∧ x < 128

/-- The shortest octets that an INTEGER reads as `n`. -/
structure LeastInteger (n : Nat) (content : Bytes) : Prop where
  unsigned : Unsigned content
  value : Bytes.toNat content = n
  least : ∀ other, Unsigned other → Bytes.toNat other = n →
    content.length ≤ other.length

/-- Octets without a sign are of a number below half of what they hold. -/
private theorem two_mul_toNat_lt {content : Bytes} (h : Unsigned content) :
    2 * Bytes.toNat content < 256 ^ content.length := by
  obtain ⟨x, rest, rfl, hx⟩ := h
  have hrest := Bytes.toNat_lt rest
  have hx : x.toNat ≤ 127 := by
    have := UInt8.lt_iff_toNat_lt.mp hx
    simp only [UInt8.reduceToNat] at this
    omega
  rw [Bytes.toNat_cons, List.length_cons, pow_succ]
  nlinarith

/-- A number whose first bit would be a sign takes one octet more. -/
private theorem length_lt_of_sign {x : UInt8} {rest other : Bytes}
    (hx : ¬ x < 128) (hother : Unsigned other)
    (hvalue : Bytes.toNat other = Bytes.toNat (x :: rest)) :
    (x :: rest).length < other.length := by
  have hlt := two_mul_toNat_lt hother
  rw [hvalue, Bytes.toNat_cons] at hlt
  have hx : 128 ≤ x.toNat := by
    have := mt UInt8.lt_iff_toNat_lt.mpr hx
    simp only [UInt8.reduceToNat] at this
    omega
  have hpow : 256 ^ (x :: rest).length < 256 ^ other.length := by
    have hhalf := Nat.mul_le_mul_right (256 ^ rest.length) hx
    rw [List.length_cons, pow_succ]
    omega
  exact (Nat.pow_lt_pow_iff_right (by decide)).mp hpow

theorem leastInteger_naturalOctets (n : Nat) :
    LeastInteger n (Der.naturalOctets n) := by
  have hvalue := Der.toNat_naturalOctets n
  rcases Der.naturalOctets_cases n with ⟨rfl, h⟩ | ⟨x, rest, hn, h⟩
  · rw [h]
    refine ⟨⟨0, [], rfl, by decide⟩, rfl, ?_⟩
    rintro other ⟨y, tail, rfl, -⟩ -
    exact Nat.succ_le_succ (Nat.zero_le _)
  · rcases h with ⟨hx, h⟩ | ⟨hx, h⟩
    · refine ⟨⟨x, rest, h, hx⟩, hvalue, ?_⟩
      intro other _ hother
      have hlt := Bytes.toNat_lt other
      rw [hother, ← Bytes.byteLength_le_iff, ← Bytes.length_ofNat, hn,
        ← h] at hlt
      exact hlt
    · refine ⟨⟨0, x :: rest, h, by decide⟩, hvalue, ?_⟩
      intro other hunsigned hother
      rw [h]
      refine length_lt_of_sign hx hunsigned ?_
      rw [hother, ← hn, Bytes.toNat_ofNat]

-- ============================================================== questions

namespace Certificate

/-- A number that is written shows no needless zero. -/
theorem integerOctets?_naturalOctets (n : Nat) :
    integerOctets? ⟨0, false, 2, Der.naturalOctets n⟩
      = some (Der.naturalOctets n) := by
  have hinteger : Ber.Element.isOf ⟨0, false, 2, Der.naturalOctets n⟩
      .integer = true := rfl
  unfold integerOctets?
  rcases Der.naturalOctets_cases n with ⟨-, h⟩ | ⟨x, rest, hn, h⟩
  · rw [h] at hinteger ⊢
    simp [hinteger]
  · have hzero := Bytes.head?_ofNat n
    rw [hn] at hzero
    rcases h with ⟨-, h⟩ | ⟨hx, h⟩
    · rw [h] at hinteger ⊢
      cases rest with
      | nil => simp [hinteger]
      | cons y tail =>
          have hx0 : ¬ x = 0 := by simpa using hzero
          simp [hinteger, hx0]
    · rw [h] at hinteger ⊢
      simp [hinteger, hx]

/-- The subject of a certificate is that of a template, for a name: six
attributes in this order, all of them texts in UTF-8. -/
def Names (c : Certificate) (subject : SubjectTemplate) (name : String) :
    Prop :=
  c.subject.relative.map (·.map fun a => (a.kind, a.tag, Utf8.decode? a.value))
    = [[(NameAttribute.commonName, 0x0C, some name)],
      [(NameAttribute.orgUnit, 0x0C, some subject.orgUnit)],
      [(NameAttribute.organization, 0x0C, some subject.organization)],
      [(NameAttribute.locality, 0x0C, some subject.locality)],
      [(NameAttribute.state, 0x0C, some subject.state)],
      [(NameAttribute.country, 0x0C, some subject.country)]]

theorem stripZeros_naturalOctets (n : Nat) :
    Bytes.stripZeros (Der.naturalOctets n) = Bytes.ofNat n := by
  rw [Bytes.stripZeros_eq_ofNat, Der.toNat_naturalOctets]

end Certificate

namespace CertificateTerms

open Element (around ofNatural)

variable {t : CertificateTerms} {k : PrivateKey}

/-- The numbers of a public key, read from their sequence. -/
theorem rsaOctets?_numbersElement (hroom : (numbersElement k).HasRoom) :
    Certificate.rsaOctets? (numbersElement k).encode
      = some ⟨Bytes.ofNat k.modulus, Bytes.ofNat k.publicExponent⟩ := by
  have hsequence := Ber.readSequence?_around hroom []
  rw [List.append_nil] at hsequence
  have hmodulusRoom : (ofNatural k.modulus).HasRoom := hroom.of_mem (by simp)
  have hexponentRoom : (ofNatural k.publicExponent).HasRoom :=
    hroom.of_mem (by simp)
  have hmodulus := Ber.read?_encode (by simp) hmodulusRoom
    (ofNatural k.publicExponent).encode
  have hexponent := Ber.read?_encode (by simp) hexponentRoom []
  rw [List.append_nil] at hexponent
  rw [Certificate.rsaOctets?, numbersElement, hsequence]
  simp [hmodulus, hexponent, Certificate.integerOctets?_naturalOctets,
    Certificate.stripZeros_naturalOctets]

section Written

variable (signed signature : Bytes)

theorem commonName_written :
    (t.written k signed signature).commonName = .ok (some t.commonName) := by
  have hfind : (Name.writtenName t.nameAttributes).attributes.find?
      (·.kind = NameAttribute.commonName)
      = some (Name.writtenAttribute NameAttribute.commonName
          t.commonName) := by
    simp [Name.attributes, Name.writtenName, nameAttributes,
      SubjectTemplate.attributes, Name.writtenAttribute]
  have htag : (0x0C : Nat) ∈ NameAttribute.stringTags := by decide
  show (Name.writtenName t.nameAttributes).commonName.mapError _ = _
  rw [Name.commonName, hfind]
  simp [Name.writtenAttribute, htag, Utf8.decode?_encode, Except.mapError]

theorem rsaPublicKey_written (hroom : (numbersElement k).HasRoom) :
    (t.written k signed signature).rsaPublicKey
      = .ok ⟨Bytes.ofNat k.modulus, Bytes.ofNat k.publicExponent⟩ := by
  have hkind : (t.written k signed signature).publicKey.algorithm.algorithm
      = Certificate.rsaEncryption := rfl
  have hkey : (t.written k signed signature).publicKey.key
      = (numbersElement k).encode := rfl
  simp only [Certificate.rsaPublicKey, hkind, if_true, hkey,
    rsaOctets?_numbersElement hroom]

theorem caConstraint_written :
    (t.written k signed signature).caConstraint
      = .ok (if t.ca then some ⟨true, none, true⟩ else none) := by
  have hvalue : Certificate.constraintsValue? constraintsValue
      = some (true, none) := by decide
  have hne : keyIdentifier ≠ Certificate.basicConstraints := by
    simp [keyIdentifier, Certificate.basicConstraints, Oid.ofArcs_inj]
  have hextensions : (t.written k signed signature).extensions
      = (extensionMembers t k).map Prod.snd := rfl
  rw [Certificate.caConstraint, hextensions, extensionMembers]
  cases t.ca with
  | true => simp [hne, hvalue]
  | false => rfl

/-- The subject is that of the terms, in full. -/
theorem names_written :
    (t.written k signed signature).Names t.subject t.commonName := by
  simp [Certificate.Names, written, Name.writtenName, nameAttributes,
    SubjectTemplate.attributes, Name.writtenAttribute, Utf8.decode?_encode]

end Written

end CertificateTerms

-- ============================================================ the octets

/-- A question to octets is one to the certificate that they are. -/
theorem Inspect.ask_eq {α : Type} {der : Bytes} {c : Certificate}
    (h : Certificate.parse der = .ok c)
    (question : Certificate → Except InspectFailure α) :
    Inspect.ask question der = question c := by
  rw [Inspect.ask, h]
  rfl

/-- A fraction of a second is not written. -/
theorem validity_selfSign {t : CertificateTerms} {k : PrivateKey} {der : Bytes}
    (h : t.selfSign k = .ok der) :
    Inspect.validity der
      = .ok (⟨t.notBefore.seconds, 0⟩, ⟨t.notAfter.seconds, 0⟩) := by
  obtain ⟨signed, signature, -, -, -, hparse⟩ :=
    CertificateTerms.parse_selfSign h
  exact Inspect.ask_eq hparse _

/-- An issued certificate gives back what it was asked to say: the name and
the subject in full, the validity in whole seconds, the serial number as
the least INTEGER, the algorithm, the key, and the constraints of an
authority exactly where it is one. -/
theorem inspect_selfSign {t : CertificateTerms} {k : PrivateKey} {der : Bytes}
    (h : t.selfSign k = .ok der) :
    Inspect.commonName der = .ok (some t.commonName)
    ∧ (∃ c, Certificate.parse der = .ok c ∧ c.Names t.subject t.commonName)
    ∧ Inspect.selfIssued der = .ok true
    ∧ Inspect.validity der
      = .ok (⟨t.notBefore.seconds, 0⟩, ⟨t.notAfter.seconds, 0⟩)
    ∧ (∃ content, Inspect.serialHex der = .ok (Bytes.toHex content)
      ∧ LeastInteger (Bytes.toNat t.serial) content)
    ∧ Inspect.signatureAlgorithm der = .ok "1.2.840.113549.1.1.11"
    ∧ Inspect.rsaPublicKey der
      = .ok ⟨Bytes.ofNat k.modulus, Bytes.ofNat k.publicExponent⟩
    ∧ Inspect.caConstraint der
      = .ok (if t.ca then some ⟨true, none, true⟩ else none) := by
  obtain ⟨signed, signature, -, -, -, hparse⟩ :=
    CertificateTerms.parse_selfSign h
  have hask {α : Type} := Inspect.ask_eq (α := α) hparse
  have hroom := CertificateTerms.numbersElement_hasRoom h
  have hself : (t.written k signed signature).selfIssued = true := by
    simp [Certificate.selfIssued, CertificateTerms.written]
  have hdotted : Signature.sha256WithRsa.dotted
      = "1.2.840.113549.1.1.11" := by decide +kernel
  refine ⟨?_, ⟨_, hparse, CertificateTerms.names_written ..⟩, ?_,
    validity_selfSign h, ⟨_, ?_, leastInteger_naturalOctets _⟩, ?_, ?_, ?_⟩
  · exact (hask _).trans (CertificateTerms.commonName_written ..)
  · rw [Inspect.selfIssued, hask, hself]
  · exact hask _
  · rw [Inspect.signatureAlgorithm, hask, ← hdotted]
    rfl
  · exact (hask _).trans (CertificateTerms.rsaPublicKey_written _ _ hroom)
  · exact (hask _).trans (CertificateTerms.caConstraint_written ..)

theorem inspect_selfSign_plain :
    ∃ der, CertificateTerms.plain.selfSign PrivateKey.plain = .ok der
      ∧ Inspect.commonName der = .ok (some "")
      ∧ Inspect.validity der = .ok (⟨-1, 0⟩, ⟨0, 0⟩)
      ∧ Inspect.caConstraint der = .ok (some ⟨true, none, true⟩) := by
  obtain ⟨der, h⟩ := CertificateTerms.selfSign_plain
  obtain ⟨hname, -, -, hvalidity, -, -, -, hca⟩ := inspect_selfSign h
  have hfirst : CertificateTerms.plain.notBefore.seconds = -1 := by decide
  have hlast : CertificateTerms.plain.notAfter.seconds = 0 := by decide
  rw [hfirst, hlast] at hvalidity
  exact ⟨der, h, hname, hvalidity, hca⟩

end TlsKeystore
