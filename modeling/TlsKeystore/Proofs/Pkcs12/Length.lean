/-
How long a bundle is.

The writer refuses a bundle that no strict reader would take. The bounds
below say how far away that is: what is written around key, certificate
and names is some hundred octets, whatever the password and the salts, so
that nothing of ordinary size is ever refused (`length_bundleElement_le`,
`write_isOk`). Every element costs six octets at most on top of its
content, which is all the arithmetic there is.
-/
import TlsKeystore.Proofs.Pkcs12.Pfx

namespace TlsKeystore.Pkcs12

open Element (around ofOid ofNatural ofOctets)

@[simp] theorem length_writtenDigest (macPassword salt content : Bytes) :
    (writtenDigest macPassword salt content).length = 32 :=
  Sha256.length_finish ..

-- ================================================================== salts

/-- Salts and vectors of the lengths that the writer draws. -/
structure Salts.Sized (s : Salts) : Prop where
  certificateSalt : s.certificateSalt.length = Writer.saltLength
  certificateIv : s.certificateIv.length = Writer.ivLength
  keySalt : s.keySalt.length = Writer.saltLength
  keyIv : s.keyIv.length = Writer.ivLength
  macSalt : s.macSalt.length = Writer.saltLength

@[simp] theorem length_octets (n : Nat) (e : Entropy) :
    ((Draw.octets n).run e).1.length = n := by
  show ((List.range n).map _).length = n
  rw [List.length_map, List.length_range]

/-- What is drawn has these lengths, whatever the stream. -/
theorem sized_drawSalts (e : Entropy) : (Writer.drawSalts.run e).1.Sized where
  certificateSalt := length_octets ..
  certificateIv := length_octets ..
  keySalt := length_octets ..
  keyIv := length_octets ..
  macSalt := length_octets ..

-- ================================================================== parts

/-- The identifiers that a writer uses are short. -/
private theorem length_kind_le : ∀ kind ∈ [localKeyId, friendlyName, pbes2,
    pbkdf2, hmacSha256, aes256Cbc, dataContent, encryptedContent, sha256],
    (ofOid kind).encode.length ≤ 11 := by
  decide +kernel

private theorem length_bagKind_le : ∀ kind ∈ [certificateBag, shroudedKeyBag],
    (ofOid kind).encode.length ≤ 13 := by
  decide +kernel

/-- How far the bounds below are meant to go. -/
private theorem maxLength_eq : Der.maxLength = 268435455 := rfl

private theorem length_attribute_le {kind : Oid} {value : Element} {n : Nat}
    (hkind : (ofOid kind).encode.length ≤ 11)
    (hvalue : value.encode.length ≤ n) (hn : n ≤ 100000000) :
    (Attribute.element ⟨kind, [value]⟩).encode.length ≤ n + 23 := by
  have hset : (around Tag.set [value]).encode.length ≤ n + 6 :=
    Element.length_around_le (by simpa using hvalue)
      (by rw [maxLength_eq]; omega)
  refine Element.length_around_le (n := n + 17) ?_
    (by rw [maxLength_eq]; omega)
  simp only [List.map_cons, List.map_nil, List.sum_cons, List.sum_nil]
  omega

/-- The attributes of a bag: its name and some eighty octets. -/
private theorem length_attributes_le {keyId name : Bytes} {n : Nat}
    (hkeyId : keyId.length = 20) (hname : name.length ≤ n)
    (hn : n ≤ 90000000) :
    (attributesElement (writtenAttributes keyId name)).encode.length
      ≤ n + 84 := by
  have hid : (ofOctets keyId).encode.length ≤ 26 :=
    Element.length_encode_le (n := 20) (by simp [ofOctets, hkeyId])
      (by rw [maxLength_eq]; omega)
  have hbmp : (Element.encode ⟨Tag.bmpString, name⟩).length ≤ n + 6 :=
    Element.length_encode_le hname (by rw [maxLength_eq]; omega)
  have hfirst : (Attribute.element
      ⟨localKeyId, [ofOctets keyId]⟩).encode.length ≤ 26 + 23 :=
    length_attribute_le (length_kind_le _ (by simp)) hid (by omega)
  have hsecond : (Attribute.element
      ⟨friendlyName, [⟨Tag.bmpString, name⟩]⟩).encode.length ≤ n + 6 + 23 :=
    length_attribute_le (length_kind_le _ (by simp)) hbmp (by omega)
  refine Element.length_around_le (n := n + 78) ?_
    (by rw [maxLength_eq]; omega)
  have hperm : (Element.sorted ((writtenAttributes keyId name).map
      Attribute.element)).Perm ((writtenAttributes keyId name).map
      Attribute.element) := List.mergeSort_perm ..
  rw [(hperm.map _).sum_eq]
  simp only [writtenAttributes, List.map_cons, List.map_nil, List.sum_cons,
    List.sum_nil]
  omega

/-- A bag: its value, its name and some hundred octets. -/
theorem length_bag_le {kind : Oid} {value : Element} {keyId name : Bytes}
    {m n : Nat} (hkind : kind ∈ [certificateBag, shroudedKeyBag])
    (hvalue : value.encode.length ≤ m) (hkeyId : keyId.length = 20)
    (hname : name.length ≤ n) (hmn : m + n ≤ 90000000) :
    (bagElement kind value (writtenAttributes keyId name)).encode.length
      ≤ m + n + 109 := by
  have hkind := length_bagKind_le kind hkind
  have hattributes := length_attributes_le hkeyId hname (by omega)
  have hexplicit : (around (Tag.explicit 0) [value]).encode.length
      ≤ m + 6 :=
    Element.length_around_le (by simpa using hvalue)
      (by rw [maxLength_eq]; omega)
  refine Element.length_around_le (n := m + n + 103) ?_
    (by rw [maxLength_eq]; omega)
  simp only [List.map_cons, List.map_nil, List.sum_cons, List.sum_nil]
  omega

/-- A safe of one bag. -/
private theorem length_safe_le {kind : Oid} {value : Element}
    {keyId name : Bytes} {m n : Nat}
    (hkind : kind ∈ [certificateBag, shroudedKeyBag])
    (hvalue : value.encode.length ≤ m) (hkeyId : keyId.length = 20)
    (hname : name.length ≤ n) (hmn : m + n ≤ 90000000) :
    (safeElement kind value keyId name).encode.length ≤ m + n + 115 := by
  have hbag := length_bag_le hkind hvalue hkeyId hname hmn
  exact Element.length_around_le (by simpa using hbag)
    (by rw [maxLength_eq]; omega)

/-- An algorithm with its parameters. -/
private theorem length_algorithm_le {kind : Oid} {parameters : Element}
    {n : Nat} (hkind : (ofOid kind).encode.length ≤ 11)
    (hparameters : parameters.encode.length ≤ n) (hn : n ≤ 1000) :
    (algorithmElement kind parameters).encode.length ≤ n + 17 := by
  refine Element.length_around_le (n := n + 11) ?_
    (by rw [maxLength_eq]; omega)
  simp only [List.map_cons, List.map_nil, List.sum_cons, List.sum_nil]
  omega

/-- The scheme, under a salt and a vector of the writer's lengths. -/
theorem length_scheme_le {salt iv : Bytes}
    (hsalt : salt.length = Writer.saltLength)
    (hiv : iv.length = Writer.ivLength) :
    (schemeElement salt iv).encode.length ≤ 146 := by
  have hsaltElement : (ofOctets salt).encode.length ≤ 38 :=
    Element.length_encode_le (n := 32) (by simp [ofOctets, hsalt,
      Writer.saltLength]) (by rw [maxLength_eq]; omega)
  have hivElement : (ofOctets iv).encode.length ≤ 22 :=
    Element.length_encode_le (n := 16) (by simp [ofOctets, hiv,
      Writer.ivLength]) (by rw [maxLength_eq]; omega)
  have hrounds : (ofNatural Writer.rounds).encode.length ≤ 4 := by
    decide
  have hprf : (algorithmElement hmacSha256 Element.ofNull).encode.length
      ≤ 2 + 17 :=
    length_algorithm_le (length_kind_le _ (by simp)) (n := 2) (Nat.le_refl 2)
      (by omega)
  have hparameters : (derivationParameters salt).encode.length
      ≤ 61 + 6 := by
    refine Element.length_around_le ?_ (by rw [maxLength_eq]; omega)
    simp only [List.map_cons, List.map_nil, List.sum_cons, List.sum_nil]
    omega
  have hderivation : (algorithmElement pbkdf2
      (derivationParameters salt)).encode.length ≤ 61 + 6 + 17 :=
    length_algorithm_le (length_kind_le _ (by simp)) hparameters (by omega)
  have hcipher : (algorithmElement aes256Cbc (ofOctets iv)).encode.length
      ≤ 22 + 17 :=
    length_algorithm_le (length_kind_le _ (by simp)) hivElement (by omega)
  have hboth : (schemeParameters salt iv).encode.length ≤ 123 + 6 := by
    refine Element.length_around_le ?_ (by rw [maxLength_eq]; omega)
    simp only [List.map_cons, List.map_nil, List.sum_cons, List.sum_nil]
    omega
  have hscheme : (schemeElement salt iv).encode.length ≤ 123 + 6 + 17 :=
    length_algorithm_le (length_kind_le _ (by simp)) hboth (by omega)
  exact hscheme

/-- Hence it always fits. -/
theorem fits_schemeElement {salt iv : Bytes}
    (hsalt : salt.length = Writer.saltLength)
    (hiv : iv.length = Writer.ivLength) : (schemeElement salt iv).Fits := by
  refine Element.Within.of_encode ((length_scheme_le hsalt hiv).trans ?_)
  rw [maxLength_eq]
  omega

-- ================================================================== safes

/-- Content of the plain type. -/
theorem length_data_le {content : Bytes} {n : Nat}
    (h : content.length ≤ n) (hn : n ≤ 200000000) :
    (dataElement content).encode.length ≤ n + 29 := by
  have hoctets : (ofOctets content).encode.length ≤ n + 6 :=
    Element.length_encode_le h (by rw [maxLength_eq]; omega)
  have hexplicit : (around (Tag.explicit 0) [ofOctets
      content]).encode.length ≤ n + 6 + 6 :=
    Element.length_around_le (by simpa using hoctets)
      (by rw [maxLength_eq]; omega)
  have hkind := length_kind_le dataContent (by simp)
  refine Element.length_around_le (n := n + 23) ?_
    (by rw [maxLength_eq]; omega)
  simp only [List.map_cons, List.map_nil, List.sum_cons, List.sum_nil]
  omega

/-- Content that is encrypted as a whole. -/
theorem length_encrypted_le {salt iv cipher : Bytes} {n : Nat}
    (hscheme : (schemeElement salt iv).encode.length ≤ 146)
    (h : cipher.length ≤ n) (hn : n ≤ 200000000) :
    (encryptedElement salt iv cipher).encode.length ≤ n + 201 := by
  have hdata := length_kind_le dataContent (by simp)
  have hkind := length_kind_le encryptedContent (by simp)
  have hversion : (ofNatural 0).encode.length ≤ 3 := by decide
  have hcipher : (Element.encode ⟨0x80, cipher⟩).length ≤ n + 6 :=
    Element.length_encode_le h (by rw [maxLength_eq]; omega)
  have hinfo : (encryptedInfo salt iv cipher).encode.length
      ≤ n + 163 + 6 := by
    refine Element.length_around_le ?_ (by rw [maxLength_eq]; omega)
    simp only [List.map_cons, List.map_nil, List.sum_cons, List.sum_nil]
    omega
  have hfields : (encryptedFields salt iv cipher).encode.length
      ≤ n + 172 + 6 := by
    refine Element.length_around_le ?_ (by rw [maxLength_eq]; omega)
    simp only [List.map_cons, List.map_nil, List.sum_cons, List.sum_nil]
    omega
  have hexplicit : (around (Tag.explicit 0) [encryptedFields salt iv
      cipher]).encode.length ≤ n + 178 + 6 :=
    Element.length_around_le (by simpa using hfields)
      (by rw [maxLength_eq]; omega)
  refine Element.length_around_le (n := n + 195) ?_
    (by rw [maxLength_eq]; omega)
  simp only [List.map_cons, List.map_nil, List.sum_cons, List.sum_nil]
  omega

/-- What a certificate's bag holds. -/
theorem length_certificateValue_le {certificate : Bytes} {m : Nat}
    (hcertificate : certificate.length ≤ m) (hm : m ≤ 80000000) :
    (certificateValue certificate).encode.length ≤ m + 30 := by
  have hoctets : (ofOctets certificate).encode.length ≤ m + 6 :=
    Element.length_encode_le hcertificate (by rw [maxLength_eq]; omega)
  have hexplicit : (around (Tag.explicit 0) [ofOctets
      certificate]).encode.length ≤ m + 6 + 6 :=
    Element.length_around_le (by simpa using hoctets)
      (by rw [maxLength_eq]; omega)
  have hkind : (ofOid x509Certificate).encode.length ≤ 12 := by
    decide +kernel
  refine Element.length_around_le (n := m + 24) ?_ (by rw [maxLength_eq]; omega)
  simp only [List.map_cons, List.map_nil, List.sum_cons, List.sum_nil]
  omega

/-- What a key's bag holds. -/
theorem length_keyValue_le {key salt iv : Bytes} {password : String} {m : Nat}
    (hsalt : salt.length = Writer.saltLength)
    (hiv : iv.length = Writer.ivLength) (hkey : key.length ≤ m)
    (hm : m ≤ 80000000) :
    (keyValue salt iv (Writer.encrypt salt iv password key)).encode.length
      ≤ m + 174 := by
  have hcipher := Writer.length_encrypt salt iv password key
  have hoctets : (ofOctets (Writer.encrypt salt iv password
      key)).encode.length ≤ m + 16 + 6 := by
    refine Element.length_encode_le ?_ (by rw [maxLength_eq]; omega)
    show (Writer.encrypt salt iv password key).length ≤ m + 16
    omega
  have hscheme := length_scheme_le hsalt hiv
  refine Element.length_around_le (n := m + 168) ?_
    (by rw [maxLength_eq]; omega)
  simp only [List.map_cons, List.map_nil, List.sum_cons, List.sum_nil]
  omega

/-- The safe of a certificate, with its subject. -/
private theorem length_certificateSafe_le {certificate keyId subject : Bytes}
    {password : String} {salt iv : Bytes} {m n : Nat}
    (hsalt : salt.length = Writer.saltLength)
    (hiv : iv.length = Writer.ivLength) (hkeyId : keyId.length = 20)
    (hcertificate : certificate.length ≤ m) (hsubject : subject.length ≤ n)
    (hmn : m + n ≤ 80000000) :
    (certificateSafeElement certificate keyId subject password salt
      iv).encode.length ≤ m + n + 362 := by
  have hvalue := length_certificateValue_le hcertificate (by omega)
  have hsafe : (safeElement certificateBag (certificateValue certificate)
      keyId subject).encode.length ≤ m + 30 + n + 115 :=
    length_safe_le (by simp) hvalue hkeyId hsubject (by omega)
  have hcipher := Writer.length_encrypt salt iv password (safeElement
    certificateBag (certificateValue certificate) keyId subject).encode
  have h := length_encrypted_le (n := m + n + 161)
    (length_scheme_le hsalt hiv) (by rw [hcipher]; omega) (by omega)
  exact h

/-- The safe of a key, with its name. -/
private theorem length_keySafe_le {key keyId name : Bytes}
    {password : String} {salt iv : Bytes} {m n : Nat}
    (hsalt : salt.length = Writer.saltLength)
    (hiv : iv.length = Writer.ivLength) (hkeyId : keyId.length = 20)
    (hkey : key.length ≤ m) (hname : name.length ≤ n)
    (hmn : m + n ≤ 80000000) :
    (keySafeElement key keyId name password salt iv).encode.length
      ≤ m + n + 318 := by
  have hvalue : (keyValue salt iv (Writer.encrypt salt iv password
      key)).encode.length ≤ m + 174 :=
    length_keyValue_le hsalt hiv hkey (by omega)
  have hsafe : (safeElement shroudedKeyBag (keyValue salt iv
      (Writer.encrypt salt iv password key)) keyId name).encode.length
      ≤ m + 174 + n + 115 :=
    length_safe_le (by simp) hvalue hkeyId hname (by omega)
  have h := length_data_le hsafe (by omega)
  exact h.trans (by omega)

-- ============================================================== the whole

private theorem length_mac_le {digest salt : Bytes}
    (hdigest : digest.length = 32)
    (hsalt : salt.length = Writer.saltLength) :
    (macElement digest salt).encode.length ≤ 125 := by
  have hdigestElement : (ofOctets digest).encode.length ≤ 32 + 6 :=
    Element.length_encode_le (by simp [ofOctets, hdigest])
      (by rw [maxLength_eq]; omega)
  have hsaltElement : (ofOctets salt).encode.length ≤ 32 + 6 :=
    Element.length_encode_le (by simp [ofOctets, hsalt, Writer.saltLength])
      (by rw [maxLength_eq]; omega)
  have hkind := length_kind_le sha256 (by simp)
  have hrounds : (ofNatural Writer.rounds).encode.length ≤ 4 := by
    decide
  have halgorithm : (around Tag.sequence [ofOid sha256]).encode.length
      ≤ 11 + 6 :=
    Element.length_around_le (by simpa using hkind)
      (by rw [maxLength_eq]; omega)
  have hinfo : (around Tag.sequence [around Tag.sequence [ofOid sha256],
      ofOctets digest]).encode.length ≤ 55 + 6 := by
    refine Element.length_around_le ?_ (by rw [maxLength_eq]; omega)
    simp only [List.map_cons, List.map_nil, List.sum_cons, List.sum_nil]
    omega
  refine Element.length_around_le (n := 119) ?_ (by rw [maxLength_eq]; omega)
  simp only [List.map_cons, List.map_nil, List.sum_cons, List.sum_nil]
  omega

/-- A bundle of content under the MAC that is written for it. -/
theorem length_bundle_le {macPassword salt content : Bytes} {n : Nat}
    (hsalt : salt.length = Writer.saltLength) (hcontent : content.length ≤ n)
    (hn : n ≤ 100000000) :
    (bundleElement content (writtenDigest macPassword salt content)
      salt).encode.length ≤ n + 163 := by
  have hdata := length_data_le hcontent (by omega)
  have hmac := length_mac_le (length_writtenDigest macPassword salt content)
    hsalt
  have hversion : (ofNatural pfxVersion).encode.length ≤ 3 := by
    decide
  refine Element.length_around_le (n := n + 157) ?_
    (by rw [maxLength_eq]; omega)
  simp only [List.map_cons, List.map_nil, List.sum_cons, List.sum_nil]
  omega

/-- Around key, certificate and names a bundle has less than a thousand
octets. -/
theorem length_bundleElement_le {key certificate subject name : Bytes}
    {macPassword : Bytes} {password : String} {salts : Salts} {n : Nat}
    (hsalts : salts.Sized)
    (hlength : key.length + certificate.length + subject.length
      + name.length ≤ n) (hn : n ≤ 80000000) :
    let content := (contentElement key certificate subject name password
      salts).encode
    (bundleElement content (writtenDigest macPassword salts.macSalt content)
      salts.macSalt).encode.length ≤ n + 1000 := by
  intro content
  have hkeyId := Sha1.length_digest certificate
  have hcertificate : (certificateSafeElement certificate
      (Sha1.sha1.digest certificate) subject password salts.certificateSalt
      salts.certificateIv).encode.length
      ≤ certificate.length + subject.length + 362 :=
    length_certificateSafe_le hsalts.certificateSalt hsalts.certificateIv
      hkeyId (Nat.le_refl _) (Nat.le_refl _) (by omega)
  have hkey : (keySafeElement key (Sha1.sha1.digest certificate) name
      password salts.keySalt salts.keyIv).encode.length
      ≤ key.length + name.length + 318 :=
    length_keySafe_le hsalts.keySalt hsalts.keyIv hkeyId (Nat.le_refl _)
      (Nat.le_refl _) (by omega)
  have hcontent : content.length ≤ n + 680 + 6 := by
    refine Element.length_around_le ?_ (by rw [maxLength_eq]; omega)
    simp only [List.map_cons, List.map_nil, List.sum_cons, List.sum_nil]
    omega
  have hbundle : (bundleElement content (writtenDigest macPassword
      salts.macSalt content) salts.macSalt).encode.length
      ≤ n + 680 + 6 + 163 :=
    length_bundle_le hsalts.macSalt hcontent (by omega)
  omega

/-- A bundle is written wherever the certificate parses, the texts stand in
the plane, and all of it is no longer than eighty million octets. -/
theorem write_isOk {key certificate subject bmpName macPassword : Bytes}
    {cert : BagCertificate} {name password : String} {salts : Salts}
    (hsalts : salts.Sized)
    (hcert : BagCertificate.ofDer? certificate = some cert)
    (hsubject : Bmp.encode? cert.subject = some subject)
    (hname : Bmp.encode? name = some bmpName)
    (hpassword : Bmp.password? password = some macPassword)
    (hlength : key.length + certificate.length + subject.length
      + bmpName.length ≤ 80000000) :
    ∃ der, Writer.write key certificate name password salts = .ok der := by
  refine ⟨_, write_eq_ok_iff.mpr ⟨cert, subject, bmpName, macPassword, _,
    hcert, hsubject, hname, hpassword, rfl, rfl, ?_⟩⟩
  refine (length_bundleElement_le hsalts (Nat.le_refl _) hlength).trans ?_
  rw [maxLength_eq]
  omega

end TlsKeystore.Pkcs12
