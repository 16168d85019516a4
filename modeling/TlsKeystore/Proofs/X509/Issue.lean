/-
A certificate that is issued is the certificate that is read.

# The tree

`signedElement` is the element that is signed, `certificateElement` what
is issued: the signed element, the algorithm, the signature. For these
octets the reader gives the certificate `written`, field by field what the
terms say (`parse_selfSign`), and `signed` are the octets that went into
the signature, not octets that say the same.

# What it is worth

All questions of `Inspect` are questions to that certificate, so that each
of them gives back what was asked for (`inspect_selfSign`).
-/
import TlsKeystore.Proofs.Rsa.Generate
import TlsKeystore.Proofs.X509.Certificate
import TlsKeystore.X509.Issue

namespace TlsKeystore.CertificateTerms

open Element (around ofOid ofNatural ofOctets ofNull)
open Certificate (plainAlgorithm publicKeyElement plainExtension
  criticalExtension extensionsElement versionElement readsAs)

variable {t : CertificateTerms} {k : PrivateKey}

-- =============================================================== the tree

/-- The numbers of a public key. -/
def numbersElement (k : PrivateKey) : Element :=
  around Tag.sequence [ofNatural k.modulus, ofNatural k.publicExponent]

/-- The public part of a key. -/
def keyElement (k : PrivateKey) : Element :=
  publicKeyElement PrivateKey.rsaEncryption (numbersElement k).encode

theorem publicKeyInfo_eq (k : PrivateKey) :
    publicKeyInfo k = (keyElement k).encode := rfl

/-- The value of the key identifier of an authority. -/
def identifierValue (k : PrivateKey) : Bytes :=
  (ofOctets ((Sha256.sha256.digest (publicKeyInfo k)).take 20)).encode

/-- The value of the constraints of an authority. -/
def constraintsValue : Bytes :=
  (around Tag.sequence [⟨Tag.boolean, [0xFF]⟩]).encode

/-- The extensions, each with what it is read as. -/
def extensionMembers (t : CertificateTerms) (k : PrivateKey) :
    List (Element × Extension) :=
  if t.ca then
    [(plainExtension keyIdentifier (identifierValue k),
        ⟨keyIdentifier, false, identifierValue k⟩),
      (criticalExtension Certificate.basicConstraints constraintsValue,
        ⟨Certificate.basicConstraints, true, constraintsValue⟩)]
  else []

/-- The last field, where there are extensions. -/
def lastElements (t : CertificateTerms) (k : PrivateKey) : List Element :=
  if t.ca then [extensionsElement ((extensionMembers t k).map Prod.fst)]
  else []

/-- The name of subject and issuer. -/
def nameAttributes (t : CertificateTerms) : List (Oid × String) :=
  t.subject.attributes t.commonName

/-- What is signed, from the elements of both times. -/
def signedElement (t : CertificateTerms) (k : PrivateKey)
    (first last : Element) : Element :=
  around Tag.sequence ([versionElement,
    ofNatural (Bytes.toNat t.serial), plainAlgorithm Signature.sha256WithRsa,
    Name.nameElement t.nameAttributes, around Tag.sequence [first, last],
    Name.nameElement t.nameAttributes, keyElement k] ++ lastElements t k)

/-- What is issued. -/
def certificateElement (signed : Element) (signature : Bytes) : Element :=
  around Tag.sequence [signed, plainAlgorithm Signature.sha256WithRsa,
    ⟨Tag.bitString, 0 :: signature⟩]

theorem authorityExtensions_eq (hca : t.ca = true) :
    authorityExtensions k
      = (extensionsElement ((extensionMembers t k).map Prod.fst)).encode := by
  rw [extensionMembers, if_pos hca]
  rfl

/-- The parts that are signed make up the element that is signed. -/
private theorem sequence_eq_signedElement (t : CertificateTerms)
    (k : PrivateKey) (first last : Element) :
    Der.sequence [Der.wrap (Tag.explicit 0) [Der.natural 2],
        Der.natural (Bytes.toNat t.serial), algorithm,
        Name.encode t.nameAttributes,
        Der.sequence [first.encode, last.encode],
        Name.encode t.nameAttributes, publicKeyInfo k,
        if t.ca then authorityExtensions k else []]
      = (signedElement t k first last).encode := by
  have hversion : Der.wrap (Tag.explicit 0) [Der.natural 2]
      = versionElement.encode := rfl
  have hvalidity := Der.sequence_eq_encode [first, last]
  have halgorithm : algorithm
      = (plainAlgorithm Signature.sha256WithRsa).encode := rfl
  have hserial : Der.natural (Bytes.toNat t.serial)
      = (ofNatural (Bytes.toNat t.serial)).encode := rfl
  rw [List.map_cons, List.map_singleton] at hvalidity
  rw [Name.encode_eq, publicKeyInfo_eq, hvalidity, hversion, halgorithm,
    hserial, signedElement, ← Der.sequence_eq_encode, lastElements]
  cases hca : t.ca with
  | true =>
      rw [if_pos rfl, if_pos rfl, authorityExtensions_eq hca]
      rfl
  | false =>
      simp [Der.sequence, Der.wrap, around]

/-- What is signed is the encoding of an element whose times are read as
the bounds of the validity. -/
theorem toSign?_eq_some {signed : Bytes} (h : t.toSign? k = some signed) :
    ∃ first last, signed = (signedElement t k first last).encode
      ∧ (∀ rest, X509Time.read? (first.encode ++ rest)
          = some (⟨t.notBefore.seconds, 0⟩, rest))
      ∧ (∀ rest, X509Time.read? (last.encode ++ rest)
          = some (⟨t.notAfter.seconds, 0⟩, rest)) := by
  unfold toSign? at h
  cases hfirst : X509Time.encode? t.notBefore.seconds with
  | none => simp [hfirst] at h
  | some first =>
      cases hlast : X509Time.encode? t.notAfter.seconds with
      | none => simp [hlast] at h
      | some last =>
          obtain ⟨firstElement, rfl, hfirstRead⟩ :=
            X509Time.read?_encode? hfirst
          obtain ⟨lastElement, rfl, hlastRead⟩ :=
            X509Time.read?_encode? hlast
          refine ⟨firstElement, lastElement, ?_, hfirstRead, hlastRead⟩
          simp only [hfirst, hlast, Option.bind_eq_bind, Option.bind_some,
            Option.some.injEq] at h
          rw [← h]
          exact sequence_eq_signedElement t k firstElement lastElement

/-- A certificate is issued exactly where the bounds of the validity can be
written and the key signs, and there is room. -/
theorem selfSign_eq_ok_iff {der : Bytes} :
    t.selfSign k = .ok der
      ↔ ∃ signed signature, t.toSign? k = some signed
        ∧ Signature.sign? k signed = some signature
        ∧ Der.sequence [signed, algorithm, Der.bitString signature] = der
        ∧ der.length ≤ Bytes.maxLength := by
  unfold selfSign
  cases hsigned : t.toSign? k with
  | none => simp
  | some signed =>
      cases hsignature : Signature.sign? k signed with
      | none => simp [hsignature]
      | some signature =>
          simp only [Option.some.injEq, exists_eq_left', hsignature,
            exists_and_left]
          split
          · next hroom =>
              constructor
              · intro h
                cases h
                exact ⟨rfl, hroom⟩
              · rintro ⟨rfl, -⟩
                rfl
          · next hroom =>
              constructor
              · intro h
                cases h
              · rintro ⟨rfl, h⟩
                exact absurd h hroom

/-- A certificate is no more than some five hundred octets longer than what
is signed. -/
theorem length_certificate_le {signed signature : Bytes}
    (hsignature : signature.length ≤ 512)
    (hroom : signed.length + 560 ≤ Bytes.maxLength) :
    (Der.sequence [signed, algorithm, Der.bitString signature]).length
      ≤ signed.length + 560 := by
  have halgorithm : algorithm.length = 15 := by decide +kernel
  have hbits : (Der.bitString signature).length ≤ 513 + 6 := by
    refine Element.length_encode_le ?_ (by decide)
    simp only [List.length_cons]
    omega
  refine Der.length_wrap_le (n := signed.length + 550) ?_ ?_
  · simp only [List.flatten_cons, List.flatten_nil, List.length_append,
      List.length_nil, halgorithm]
    omega
  · omega

/-- So is one that was issued with a signing key. -/
theorem length_selfSign_le {signed der : Bytes} (hsigns : k.signs = true)
    (h : t.selfSign k = .ok der) (hsigned : t.toSign? k = some signed)
    (hroom : signed.length + 560 ≤ Bytes.maxLength) :
    der.length ≤ signed.length + 560 := by
  obtain ⟨signed', signature, hsigned', hsignature, rfl, -⟩ :=
    selfSign_eq_ok_iff.mp h
  obtain rfl : signed = signed' :=
    Option.some.inj (hsigned.symm.trans hsigned')
  obtain ⟨hsignatureLength, -⟩ := Signature.pow_of_sign? hsignature
  have hbytes := PrivateKey.byteLength_modulus_le hsigns
  exact length_certificate_le (by omega) hroom

/-- A signing key of two primes signs whatever there is room for. -/
theorem selfSign_isOk {signed : Bytes} (hsigns : k.signs = true)
    (hsound : k.Sound) (hsigned : t.toSign? k = some signed)
    (hroom : signed.length + 560 ≤ Bytes.maxLength) :
    ∃ der, t.selfSign k = .ok der := by
  obtain ⟨signature, hsignature⟩ :=
    Signature.sign?_isSome hsigns hsound signed
  obtain ⟨hsignatureLength, -⟩ := Signature.pow_of_sign? hsignature
  have hbytes := PrivateKey.byteLength_modulus_le hsigns
  refine ⟨_, selfSign_eq_ok_iff.mpr ⟨signed, signature, hsigned, hsignature,
    rfl, ?_⟩⟩
  exact (length_certificate_le (by omega) hroom).trans hroom

/-- Terms with the least that there is to say. -/
def plain : CertificateTerms where
  commonName := ""
  subject := ⟨"", "", "", "", ""⟩
  notBefore := ⟨-1⟩
  notAfter := ⟨0⟩
  serial := [0, 0xFF]
  ca := true

theorem selfSign_plain :
    ∃ der, plain.selfSign PrivateKey.plain = .ok der := by
  have hsigned : (plain.toSign? PrivateKey.plain).any
      (·.length + 560 ≤ Bytes.maxLength) = true := by decide +kernel
  obtain ⟨signed, hsigned, hroom⟩ := (Option.any_eq_true _ _).mp hsigned
  exact selfSign_isOk PrivateKey.signs_plain PrivateKey.sound_plain hsigned
    (of_decide_eq_true hroom)

/-- A key that was drawn signs for itself what there is room for. -/
theorem selfSign_drawn :
    ∃ certificate signed, plain.selfSign PrivateKey.drawn = .ok certificate
      ∧ plain.toSign? PrivateKey.drawn = some signed
      ∧ signed.length ≤ 1000 := by
  have hsigned : (plain.toSign? PrivateKey.drawn).any
      (·.length ≤ 1000) = true := by decide +kernel
  obtain ⟨signed, hsigned, hsmall⟩ := (Option.any_eq_true _ _).mp hsigned
  rw [decide_eq_true_eq] at hsmall
  obtain ⟨certificate, hsign⟩ := selfSign_isOk PrivateKey.fit_drawn.signs
    PrivateKey.sound_drawn hsigned (by unfold Bytes.maxLength; omega)
  exact ⟨certificate, signed, hsign, hsigned, hsmall⟩

-- ================================================================ reading

/-- The name of subject and issuer in one line. -/
def nameText (t : CertificateTerms) : String :=
  ", ".intercalate
    (t.nameAttributes.map fun a => NameAttribute.label a.1 ++ "=" ++ a.2)

/-- The certificate that an issued one is read as. -/
def written (t : CertificateTerms) (k : PrivateKey)
    (signed signature : Bytes) : Certificate where
  signed := signed
  version := 2
  serial := Der.naturalOctets (Bytes.toNat t.serial)
  algorithm := readsAs Signature.sha256WithRsa
  issuer := Name.writtenName t.nameAttributes
  notBefore := ⟨t.notBefore.seconds, 0⟩
  notAfter := ⟨t.notAfter.seconds, 0⟩
  subject := Name.writtenName t.nameAttributes
  publicKey := ⟨readsAs PrivateKey.rsaEncryption, (numbersElement k).encode⟩
  issuerId := none
  subjectId := none
  extensions := (extensionMembers t k).map Prod.snd
  signatureAlgorithm := readsAs Signature.sha256WithRsa
  signature := signature

/-- Every extension is read as what it says. -/
private theorem readExtension?_extensionMembers :
    ∀ m ∈ extensionMembers t k, m.1.HasRoom → ∀ rest,
      Certificate.readExtension? (m.1.encode ++ rest) = some (m.2, rest) := by
  intro m hm hroom rest
  unfold extensionMembers at hm
  split at hm
  · simp only [List.mem_cons, List.not_mem_nil, or_false] at hm
    rcases hm with rfl | rfl
    · exact Certificate.readExtension?_plainExtension hroom rest
    · exact Certificate.readExtension?_criticalExtension hroom rest
  · cases hm

/-- What comes last is read to the end: no unique identifiers, and the
extensions, if there are any. -/
private theorem read_lastElements (hroom : ∀ e ∈ lastElements t k, e.HasRoom) :
    let b := (lastElements t k).flatMap Element.encode
    Certificate.readUniqueId 1 .issuerId b = .ok (none, b)
      ∧ Certificate.readUniqueId 2 .subjectId b = .ok (none, b)
      ∧ Certificate.readExtensions b
        = .ok ((extensionMembers t k).map Prod.snd, []) := by
  cases hca : t.ca with
  | true =>
      have hlast : lastElements t k
          = [extensionsElement ((extensionMembers t k).map Prod.fst)] := by
        rw [lastElements, if_pos hca]
      rw [hlast] at hroom ⊢
      have hextensions := hroom _ (List.mem_singleton_self _)
      rw [List.flatMap_singleton]
      exact ⟨Certificate.readUniqueId_extensionsElement (by decide)
          hextensions,
        Certificate.readUniqueId_extensionsElement (by decide) hextensions,
        Certificate.readExtensions_extensionsElement hextensions
          readExtension?_extensionMembers⟩
  | false =>
      have hlast : lastElements t k = [] := by simp [lastElements, hca]
      have hmembers : extensionMembers t k = [] := by
        simp [extensionMembers, hca]
      rw [hlast, hmembers]
      exact ⟨rfl, rfl, rfl⟩

/-- The fields that are signed, read in order. -/
theorem readSigned_signedElement {first last : Element} (signed : Bytes)
    (hroom : (signedElement t k first last).HasRoom)
    (hfirst : ∀ rest, X509Time.read? (first.encode ++ rest)
      = some (⟨t.notBefore.seconds, 0⟩, rest))
    (hlast : ∀ rest, X509Time.read? (last.encode ++ rest)
      = some (⟨t.notAfter.seconds, 0⟩, rest)) :
    Certificate.readSigned signed (signedElement t k first last).content
      = .ok (t.written k signed [], []) := by
  have hserial : (ofNatural (Bytes.toNat t.serial)).HasRoom :=
    hroom.of_mem (by simp)
  have halgorithm : (plainAlgorithm Signature.sha256WithRsa).HasRoom :=
    hroom.of_mem (by simp)
  have hname : (Name.nameElement t.nameAttributes).HasRoom :=
    hroom.of_mem (by simp)
  have hvalidity : (around Tag.sequence [first, last]).HasRoom :=
    hroom.of_mem (by simp)
  have hkey : (keyElement k).HasRoom := hroom.of_mem (by simp)
  have hend := read_lastElements (t := t) (k := k) fun e he =>
    hroom.of_mem (List.mem_append_right _ he)
  rw [signedElement, Element.around_content, List.flatMap_append]
  simp only [List.flatMap_cons, List.flatMap_nil, List.append_nil,
    List.append_assoc]
  generalize (lastElements t k).flatMap Element.encode = b at hend ⊢
  obtain ⟨hissuerId, hsubjectId, hextensions⟩ := hend
  unfold Certificate.readSigned
  refine (Certificate.Reader.bind_eq
    (Certificate.readVersion_versionElement _)).trans ?_
  refine (Certificate.Reader.bind_eq (Certificate.field_eq
    (Certificate.readSerial?_ofNatural hserial _))).trans ?_
  refine (Certificate.Reader.bind_eq (Certificate.field_eq
    (Certificate.readAlgorithm?_plainAlgorithm halgorithm _))).trans ?_
  refine (Certificate.Reader.bind_eq (Certificate.field_eq
    (Name.read?_nameElement hname _))).trans ?_
  refine (Certificate.Reader.bind_eq
    (Certificate.readValidity_around hvalidity hfirst hlast _)).trans ?_
  refine (Certificate.Reader.bind_eq (Certificate.field_eq
    (Name.read?_nameElement hname _))).trans ?_
  refine (Certificate.Reader.bind_eq
    (Certificate.readPublicKey_publicKeyElement hkey _)).trans ?_
  refine (Certificate.Reader.bind_eq hissuerId).trans ?_
  refine (Certificate.Reader.bind_eq hsubjectId).trans ?_
  exact Certificate.Reader.bind_eq hextensions

/-- The fields of an issued certificate, with the octets that are signed. -/
private theorem readFields_certificateElement {first last : Element}
    {signature : Bytes}
    (hroom : (certificateElement (signedElement t k first last)
      signature).HasRoom)
    (hfirst : ∀ rest, X509Time.read? (first.encode ++ rest)
      = some (⟨t.notBefore.seconds, 0⟩, rest))
    (hlast : ∀ rest, X509Time.read? (last.encode ++ rest)
      = some (⟨t.notAfter.seconds, 0⟩, rest)) :
    Certificate.readFields (certificateElement (signedElement t k first last)
        signature).content
      = .ok (t.written k (signedElement t k first last).encode signature,
          []) := by
  have hsignedRoom : (signedElement t k first last).HasRoom :=
    hroom.of_mem (by simp)
  have halgorithmRoom : (plainAlgorithm Signature.sha256WithRsa).HasRoom :=
    hroom.of_mem (by simp)
  have hbitsRoom : Element.HasRoom ⟨Tag.bitString, 0 :: signature⟩ :=
    hroom.of_mem (by simp)
  -- what stands behind the octets that are signed
  obtain ⟨rest, hrest⟩ : ∃ rest,
      rest = (plainAlgorithm Signature.sha256WithRsa).encode
        ++ Element.encode ⟨Tag.bitString, 0 :: signature⟩ := ⟨_, rfl⟩
  have hcontent : (certificateElement (signedElement t k first last)
      signature).content = (signedElement t k first last).encode ++ rest := by
    rw [hrest, certificateElement, Element.around_content]
    simp
  have hinner : Ber.readSequence? ((signedElement t k first last).encode
      ++ rest) = some ((signedElement t k first last).content, rest) :=
    Ber.readSequence?_around hsignedRoom rest
  have htake : ((signedElement t k first last).encode ++ rest).take
      (((signedElement t k first last).encode ++ rest).length - rest.length)
      = (signedElement t k first last).encode := by
    rw [List.length_append, Nat.add_sub_cancel, List.take_left]
  have hsigned := readSigned_signedElement
    (signedElement t k first last).encode hsignedRoom hfirst hlast
  have halgorithm : Certificate.field .malformed Certificate.readAlgorithm?
      rest = .ok (readsAs Signature.sha256WithRsa,
        Element.encode ⟨Tag.bitString, 0 :: signature⟩) := by
    rw [hrest]
    exact Certificate.field_eq
      (Certificate.readAlgorithm?_plainAlgorithm halgorithmRoom _)
  have hbits := Certificate.readSignature?_bitString hbitsRoom []
  rw [List.append_nil] at hbits
  have hsignature : Certificate.field .signature Certificate.readSignature?
      (Element.encode ⟨Tag.bitString, 0 :: signature⟩)
      = .ok (signature, []) := Certificate.field_eq hbits
  rw [hcontent, Certificate.readFields, hinner]
  simp only [htake, hsigned, halgorithm, hsignature, bind, Except.bind]
  rfl

/-- What is issued, as the element that it is the encoding of. -/
private theorem eq_encode_of_selfSign {der : Bytes}
    (h : t.selfSign k = .ok der) :
    ∃ first last signature,
      t.toSign? k = some (signedElement t k first last).encode
      ∧ Signature.sign? k (signedElement t k first last).encode
        = some signature
      ∧ Der.sequence [(signedElement t k first last).encode, algorithm,
          Der.bitString signature] = der
      ∧ (certificateElement (signedElement t k first last)
          signature).encode = der
      ∧ (certificateElement (signedElement t k first last) signature).HasRoom
      ∧ (∀ rest, X509Time.read? (first.encode ++ rest)
          = some (⟨t.notBefore.seconds, 0⟩, rest))
      ∧ (∀ rest, X509Time.read? (last.encode ++ rest)
          = some (⟨t.notAfter.seconds, 0⟩, rest)) := by
  obtain ⟨signed, signature, hsigned, hsignature, hder, hlength⟩ :=
    selfSign_eq_ok_iff.mp h
  obtain ⟨first, last, rfl, hfirst, hlast⟩ := toSign?_eq_some hsigned
  have htree : (certificateElement (signedElement t k first last)
      signature).encode = der := by
    rw [← hder]
    exact (Der.sequence_eq_encode [_, _, _]).symm
  refine ⟨first, last, signature, hsigned, hsignature, hder, htree, ?_,
    hfirst, hlast⟩
  rw [← htree] at hlength
  exact Element.Within.of_encode hlength

/-- An issued certificate is read as what it says, over the very octets that
were signed. -/
theorem parse_selfSign {der : Bytes} (h : t.selfSign k = .ok der) :
    ∃ signed signature, t.toSign? k = some signed
      ∧ Signature.sign? k signed = some signature
      ∧ Der.sequence [signed, algorithm, Der.bitString signature] = der
      ∧ Certificate.parse der = .ok (t.written k signed signature) := by
  obtain ⟨first, last, signature, hsigned, hsignature, hder, htree, hroom,
    hfirst, hlast⟩ := eq_encode_of_selfSign h
  refine ⟨_, signature, hsigned, hsignature, hder, ?_⟩
  have houter : Ber.readSequence? der = some ((certificateElement
      (signedElement t k first last) signature).content, []) := by
    rw [← htree, ← List.append_nil (Element.encode _)]
    exact Ber.readSequence?_around hroom []
  rw [Certificate.parse, houter]
  simp only [readFields_certificateElement hroom hfirst hlast]
  rfl

/-- Inside an issued certificate there is room for the public key. -/
theorem numbersElement_hasRoom {der : Bytes} (h : t.selfSign k = .ok der) :
    (numbersElement k).HasRoom := by
  obtain ⟨first, last, signature, -, -, -, -, hroom, -, -⟩ :=
    eq_encode_of_selfSign h
  have hsigned : (signedElement t k first last).HasRoom :=
    hroom.of_mem (by simp)
  have hkey : (keyElement k).HasRoom := hsigned.of_mem (by simp)
  have hbits : Element.HasRoom
      ⟨Tag.bitString, 0 :: (numbersElement k).encode⟩ :=
    hkey.of_mem (by simp)
  refine Element.Within.of_encode ?_
  exact (Nat.le_succ _).trans hbits

end TlsKeystore.CertificateTerms
