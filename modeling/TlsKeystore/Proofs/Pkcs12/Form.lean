/-
The form of a bundle.

# What is open

Whatever key and certificate a bundle holds, and whatever its password, it
is a filling of one form, `bundleForm`, for which nothing is asked but a
name and the identifier that links key and certificate. Eight places are
open (`Blank`): salts, initial vectors and cipher texts of both safes, and
digest and salt of the MAC.

# What stands there

Beside each cipher text stands the scheme that it is under, with the salt
and the vector of the same safe (`guarded_bundleForm`), and no other
identifier stands anywhere in the tree than the few of `writtenKinds`. How
long the contents are depends on the lengths of what is encrypted and on
nothing else (`Blank.length`).
-/
import TlsKeystore.Proofs.Asn1.Form
import TlsKeystore.Proofs.Pkcs12.Length

namespace TlsKeystore.Pkcs12

open Element (around ofOid ofNatural ofOctets ofNull)

-- ================================================================= places

/-- What is new in every bundle. -/
inductive Blank where
  | certificateSalt
  | certificateIv
  | certificateCipher
  | keySalt
  | keyIv
  | keyCipher
  | digest
  | macSalt
deriving DecidableEq, Repr

/-- Salts and vectors as they are, with cipher texts and a digest. -/
def Salts.contents (s : Salts) (certificateCipher keyCipher digest : Bytes) :
    Blank → Bytes
  | .certificateSalt => s.certificateSalt
  | .certificateIv => s.certificateIv
  | .certificateCipher => certificateCipher
  | .keySalt => s.keySalt
  | .keyIv => s.keyIv
  | .keyCipher => keyCipher
  | .digest => digest
  | .macSalt => s.macSalt

/-- How long a cipher text is: whole blocks, the last one not full before it
was filled. -/
def cipherLength (text : Nat) : Nat := (text / 16 + 1) * 16

/-- How long the contents are, by the lengths of both texts. -/
def Blank.length (certificateText keyText : Nat) : Blank → Nat
  | certificateSalt => Writer.saltLength
  | certificateIv => Writer.ivLength
  | certificateCipher => cipherLength certificateText
  | keySalt => Writer.saltLength
  | keyIv => Writer.ivLength
  | keyCipher => cipherLength keyText
  | digest => 32
  | macSalt => Writer.saltLength

-- ================================================================== forms

def algorithmForm (kind : Oid) (parameters : Form Blank) : Form Blank :=
  .branch Tag.sequence [.leaf (ofOid kind), parameters]

/-- PBES2 with PBKDF2 over HMAC-SHA-256 and AES with 256 bits. -/
def schemeForm (salt iv : Blank) : Form Blank :=
  algorithmForm pbes2 (.branch Tag.sequence [
    algorithmForm pbkdf2 (.branch Tag.sequence [
      .slot Tag.octetString salt, .leaf (ofNatural Writer.rounds),
      algorithmForm hmacSha256 (.leaf ofNull)]),
    algorithmForm aes256Cbc (.slot Tag.octetString iv)])

/-- The scheme that a cipher text is under. -/
def Blank.scheme? : Blank → Option (Form Blank)
  | certificateCipher => some (schemeForm certificateSalt certificateIv)
  | keyCipher => some (schemeForm keySalt keyIv)
  | _ => none

def attributeForm (a : Attribute) : Form Blank :=
  .branch Tag.sequence [.leaf (ofOid a.kind),
    .branch Tag.set (a.values.map .leaf)]

/-- Attributes in the order in which the set holds them. -/
def attributesForm (attributes : List Attribute) : Form Blank :=
  .branch Tag.set ((attributes.mergeSort fun a b =>
    Der.precedes a.element.encode b.element.encode).map attributeForm)

def dataForm (content : Form Blank) : Form Blank :=
  .branch Tag.sequence [.leaf (ofOid dataContent),
    .branch (Tag.explicit 0) [.branch Tag.octetString [content]]]

/-- The safe of the certificate: all of it is cipher text. -/
def certificateSafeForm : Form Blank :=
  .branch Tag.sequence [.leaf (ofOid encryptedContent),
    .branch (Tag.explicit 0) [.branch Tag.sequence [.leaf (ofNatural 0),
      .branch Tag.sequence [.leaf (ofOid dataContent),
        schemeForm .certificateSalt .certificateIv,
        .slot 0x80 .certificateCipher]]]]

/-- The safe of the key: a bag under its name, with the key as cipher text. -/
def keySafeForm (keyId name : Bytes) : Form Blank :=
  dataForm (.branch Tag.sequence [.branch Tag.sequence [
    .leaf (ofOid shroudedKeyBag),
    .branch (Tag.explicit 0) [.branch Tag.sequence [
      schemeForm .keySalt .keyIv, .slot Tag.octetString .keyCipher]],
    attributesForm (writtenAttributes keyId name)]])

def macForm : Form Blank :=
  .branch Tag.sequence [.branch Tag.sequence [
      .branch Tag.sequence [.leaf (ofOid sha256)],
      .slot Tag.octetString .digest],
    .slot Tag.octetString .macSalt, .leaf (ofNatural Writer.rounds)]

/-- A bundle for a name, with key and certificate under one identifier. -/
def bundleForm (keyId name : Bytes) : Form Blank :=
  .branch Tag.sequence [.leaf (ofNatural pfxVersion),
    dataForm (.branch Tag.sequence [certificateSafeForm,
      keySafeForm keyId name]),
    macForm]

@[simp] theorem bundleForm_tag (keyId name : Bytes) :
    (bundleForm keyId name).tag = Tag.sequence := rfl

-- =============================================================== fillings

section Fillings

variable (contents : Blank → Bytes)

theorem fill_schemeForm (salt iv : Blank) :
    (schemeForm salt iv).fill contents
      = schemeElement (contents salt) (contents iv) := by
  simp only [schemeForm, algorithmForm, Form.fill, List.map_cons,
    List.map_nil]
  rfl

theorem fill_attributesForm (attributes : List Attribute) :
    (attributesForm attributes).fill contents
      = attributesElement attributes := by
  have hattribute (a : Attribute) :
      (attributeForm a).fill contents = a.element := by
    simp only [attributeForm, Form.fill, List.map_cons, List.map_nil,
      List.map_map, Function.comp_def, List.map_id']
    rfl
  simp only [attributesForm, Form.fill, List.map_map, Function.comp_def,
    hattribute, attributesElement, sorted_map_element]

theorem fill_dataForm (content : Form Blank) :
    (dataForm content).fill contents
      = dataElement (content.fill contents).encode := by
  simp only [dataForm, Form.fill, List.map_cons, List.map_nil, dataElement]
  simp only [around, ofOctets, List.flatMap_cons, List.flatMap_nil,
    List.append_nil]

theorem fill_certificateSafeForm :
    certificateSafeForm.fill contents
      = encryptedElement (contents .certificateSalt) (contents .certificateIv)
          (contents .certificateCipher) := by
  simp only [certificateSafeForm, Form.fill, fill_schemeForm, List.map_cons,
    List.map_nil]
  rfl

theorem fill_keySafeForm (keyId name : Bytes) :
    (keySafeForm keyId name).fill contents
      = dataElement (safeElement shroudedKeyBag (keyValue (contents .keySalt)
          (contents .keyIv) (contents .keyCipher)) keyId name).encode := by
  simp only [keySafeForm, fill_dataForm, Form.fill, fill_schemeForm,
    fill_attributesForm, List.map_cons, List.map_nil]
  rfl

/-- The form of a bundle, filled, is a bundle. -/
theorem fill_bundleForm (keyId name : Bytes) :
    (bundleForm keyId name).fill contents
      = bundleElement (around Tag.sequence [
            encryptedElement (contents .certificateSalt)
              (contents .certificateIv) (contents .certificateCipher),
            dataElement (safeElement shroudedKeyBag
              (keyValue (contents .keySalt) (contents .keyIv)
                (contents .keyCipher)) keyId name).encode]).encode
          (contents .digest) (contents .macSalt) := by
  simp only [bundleForm, Form.fill, fill_dataForm, fill_certificateSafeForm,
    fill_keySafeForm, macForm, List.map_cons, List.map_nil]
  rfl

end Fillings

-- ================================================================= facts

@[simp] private theorem schemeForm_tag (salt iv : Blank) :
    (schemeForm salt iv).tag = Tag.sequence := rfl

@[simp] private theorem attributesForm_tag (attributes : List Attribute) :
    (attributesForm attributes).tag = Tag.set := rfl

private theorem known_schemeForm (salt iv : Blank) :
    (schemeForm salt iv).Known := by
  simp [schemeForm, algorithmForm, Form.Known]

private theorem known_attributesForm (keyId name : Bytes) :
    (attributesForm (writtenAttributes keyId name)).Known := by
  rw [attributesForm, Form.Known]
  intro p hp
  obtain ⟨a, ha, rfl⟩ := List.mem_map.mp hp
  rw [List.mem_mergeSort, writtenAttributes] at ha
  simp only [List.mem_cons, List.not_mem_nil, or_false] at ha
  rcases ha with rfl | rfl <;> simp [attributeForm, Form.Known]

/-- A strict reader knows all the tags of a bundle. -/
theorem known_bundleForm (keyId name : Bytes) :
    (bundleForm keyId name).Known := by
  simp [bundleForm, dataForm, certificateSafeForm, keySafeForm, macForm,
    Form.Known, known_schemeForm, known_attributesForm]

@[simp] private theorem companion?_schemeForm (salt iv : Blank) :
    (schemeForm salt iv).companion? Blank.scheme? = none := rfl

@[simp] private theorem companion?_attributesForm
    (attributes : List Attribute) :
    (attributesForm attributes).companion? Blank.scheme? = none := rfl

private theorem guarded_schemeForm {salt iv : Blank}
    (hsalt : salt.scheme? = none) (hiv : iv.scheme? = none) :
    (schemeForm salt iv).Guarded Blank.scheme? := by
  simp [schemeForm, algorithmForm, Form.Guarded, hsalt, hiv]

private theorem guarded_attributesForm (attributes : List Attribute) :
    (attributesForm attributes).Guarded Blank.scheme? := by
  simp [attributesForm, attributeForm, Form.Guarded]

/-- Beside each cipher text of a bundle stands its scheme. -/
theorem guarded_bundleForm (keyId name : Bytes) :
    (bundleForm keyId name).Guarded Blank.scheme? := by
  have hcertificate : (schemeForm .certificateSalt .certificateIv).Guarded
      Blank.scheme? := guarded_schemeForm rfl rfl
  have hkey : (schemeForm .keySalt .keyIv).Guarded Blank.scheme? :=
    guarded_schemeForm rfl rfl
  simp [bundleForm, dataForm, certificateSafeForm, keySafeForm, macForm,
    Form.Guarded, guarded_attributesForm, hcertificate, hkey, Blank.scheme?]

-- =========================================================== identifiers

/-- All the identifiers that stand in the open in a bundle. -/
def writtenKinds : List Oid :=
  [dataContent, encryptedContent, pbes2, pbkdf2, hmacSha256, aes256Cbc,
    shroudedKeyBag, localKeyId, friendlyName, sha256]

section Identifiers

variable (contents : Blank → Bytes)

@[simp] private theorem oid_content (kind : Oid) :
    (⟨(ofOid kind).content⟩ : Oid) = kind := rfl

/-- What stands under the other tags is no identifier. -/
private theorem identifiers_others (content : Bytes) :
    (Outline.leaf Tag.integer content).identifiers = []
      ∧ (Outline.leaf Tag.octetString content).identifiers = []
      ∧ (Outline.leaf Tag.null content).identifiers = []
      ∧ (Outline.leaf Tag.bmpString content).identifiers = []
      ∧ (Outline.leaf 0x80 content).identifiers = [] := by
  refine ⟨?_, ?_, ?_, ?_, ?_⟩ <;>
    exact Outline.identifiers_leaf (by decide) content

private theorem identifiers_schemeForm (salt iv : Blank) :
    ((schemeForm salt iv).outline contents).identifiers
      = [pbes2, pbkdf2, hmacSha256, aes256Cbc] := by
  simp [schemeForm, algorithmForm, Form.outline, identifiers_others]

private theorem identifiers_attributesForm (keyId name : Bytes) :
    ((attributesForm (writtenAttributes keyId name)).outline
      contents).identifiers ⊆ [localKeyId, friendlyName] := by
  simp [attributesForm, attributeForm, writtenAttributes, Form.outline,
    identifiers_others, List.subset_def]

theorem identifiers_bundleForm (keyId name : Bytes) :
    ((bundleForm keyId name).outline contents).identifiers
      ⊆ writtenKinds := by
  have hattributes : ((attributesForm (writtenAttributes keyId name)).outline
      contents).identifiers ⊆ writtenKinds :=
    List.Subset.trans (identifiers_attributesForm ..)
      (by simp [writtenKinds])
  unfold writtenKinds at hattributes ⊢
  simp [bundleForm, dataForm, certificateSafeForm, keySafeForm, macForm,
    Form.outline, identifiers_schemeForm, identifiers_others,
    hattributes]

end Identifiers

/-- Under this arc are the older schemes, which name a cipher and a hash at
once. -/
def oldSchemes : Oid := pkcs [12, 1]

example : oldSchemes.content <+: pbeTripleDes.content := by
  decide +kernel

/-- None of the identifiers is that of a certificate's bag, and none is one
of an older scheme. -/
theorem ne_of_mem_writtenKinds :
    ∀ id ∈ writtenKinds,
      id ≠ certificateBag ∧ ¬ oldSchemes.content <+: id.content := by
  decide +kernel

-- ================================================================ writing

/-- The text of the certificate's safe: its bag, under its subject. -/
def certificateText (certificate subject : Bytes) : Bytes :=
  (safeElement certificateBag (certificateValue certificate)
    (Sha1.sha1.digest certificate) subject).encode

/-- What is put in the places of a bundle. -/
def writtenContents (key certificate subject name macPassword : Bytes)
    (password : String) (salts : Salts) : Blank → Bytes :=
  salts.contents
    (Writer.encrypt salts.certificateSalt salts.certificateIv password
      (certificateText certificate subject))
    (Writer.encrypt salts.keySalt salts.keyIv password key)
    (writtenDigest macPassword salts.macSalt
      (contentElement key certificate subject name password salts).encode)

section Writing

variable {key certificate subject bmpName macPassword der : Bytes}
variable {name password : String} {salts : Salts}

/-- How long these contents are, whatever the passwords. -/
theorem length_writtenContents (hsalts : salts.Sized) (place : Blank) :
    (writtenContents key certificate subject bmpName macPassword password
        salts place).length
      = place.length (certificateText certificate subject).length
          key.length := by
  cases place with
  | certificateSalt => exact hsalts.certificateSalt
  | certificateIv => exact hsalts.certificateIv
  | certificateCipher => exact Writer.length_encrypt ..
  | keySalt => exact hsalts.keySalt
  | keyIv => exact hsalts.keyIv
  | keyCipher => exact Writer.length_encrypt ..
  | digest => exact length_writtenDigest ..
  | macSalt => exact hsalts.macSalt

/-- With these contents the form is the bundle that is written. -/
theorem fill_writtenContents :
    (bundleForm (Sha1.sha1.digest certificate) bmpName).fill
        (writtenContents key certificate subject bmpName macPassword password
          salts)
      = bundleElement
          (contentElement key certificate subject bmpName password
            salts).encode
          (writtenDigest macPassword salts.macSalt (contentElement key
            certificate subject bmpName password salts).encode)
          salts.macSalt :=
  fill_bundleForm ..

theorem write_eq_ok_iff_fill :
    Writer.write key certificate name password salts = .ok der
      ↔ ∃ cert subject bmpName macPassword,
        BagCertificate.ofDer? certificate = some cert
        ∧ Bmp.encode? cert.subject = some subject
        ∧ Bmp.encode? name = some bmpName
        ∧ Bmp.password? password = some macPassword
        ∧ ((bundleForm (Sha1.sha1.digest certificate) bmpName).fill
            (writtenContents key certificate subject bmpName macPassword
              password salts)).encode = der
        ∧ der.length ≤ Der.maxLength := by
  rw [write_eq_ok_iff]
  constructor
  · rintro ⟨cert, subject, bmpName, macPassword, _, hcert, hsubject, hname,
      hpassword, rfl, hder, hlength⟩
    exact ⟨cert, subject, bmpName, macPassword, hcert, hsubject, hname,
      hpassword, by rwa [fill_writtenContents], hlength⟩
  · rintro ⟨cert, subject, bmpName, macPassword, hcert, hsubject, hname,
      hpassword, hder, hlength⟩
    exact ⟨cert, subject, bmpName, macPassword, _, hcert, hsubject, hname,
      hpassword, rfl, by rwa [fill_writtenContents] at hder, hlength⟩

/-- How long a bundle becomes. -/
def writtenLength (key certificate subject name : Bytes) : Nat :=
  (bundleForm (Sha1.sha1.digest certificate) name).size
    (Blank.length (certificateText certificate subject).length key.length)

theorem length_fill_writtenContents (hsalts : salts.Sized) :
    ((bundleForm (Sha1.sha1.digest certificate) bmpName).fill
        (writtenContents key certificate subject bmpName macPassword password
          salts)).encode.length
      = writtenLength key certificate subject bmpName := by
  rw [Form.length_fill, writtenLength]
  simp only [length_writtenContents hsalts]

/-- That is less than a thousand octets more than what is put into it. -/
theorem writtenLength_le {n : Nat} (hlength : key.length + certificate.length
      + subject.length + bmpName.length ≤ n) (hn : n ≤ 80000000) :
    writtenLength key certificate subject bmpName ≤ n + 1000 := by
  -- any password and any salts will do
  have hsalts := sized_drawSalts ⟨fun _ => 0, 0⟩
  have hfill : ((bundleForm (Sha1.sha1.digest certificate) bmpName).fill
      (writtenContents key certificate subject bmpName [] ""
        (Writer.drawSalts.run ⟨fun _ => 0, 0⟩).1)).encode.length
      = writtenLength key certificate subject bmpName :=
    length_fill_writtenContents hsalts
  rw [← hfill, fill_writtenContents]
  exact length_bundleElement_le hsalts hlength hn

/-- A bundle of a certificate that parses is written exactly where the texts
stand in the plane and there is room for it. -/
theorem exists_write_iff {cert : BagCertificate} (hsalts : salts.Sized)
    (hcert : BagCertificate.ofDer? certificate = some cert) :
    (∃ der, Writer.write key certificate name password salts = .ok der)
      ↔ (name.toList.all Bmp.admits = true
          ∧ password.toList.all Bmp.admits = true
          ∧ cert.subject.toList.all Bmp.admits = true)
        ∧ writtenLength key certificate (cert.subject.toList.flatMap Bmp.unit)
          (name.toList.flatMap Bmp.unit) ≤ Der.maxLength := by
  simp only [write_eq_ok_iff_fill, Bmp.password?, Option.map_eq_some_iff,
    Bmp.encode?_eq_some_iff]
  constructor
  · rintro ⟨_, cert', _, _, _, hcert', ⟨hsubject, rfl⟩, ⟨hname, rfl⟩,
      ⟨_, ⟨hpassword, rfl⟩, rfl⟩, rfl, hlength⟩
    obtain rfl : cert = cert' := Option.some.inj (hcert.symm.trans hcert')
    rw [length_fill_writtenContents hsalts] at hlength
    exact ⟨⟨hname, hpassword, hsubject⟩, hlength⟩
  · rintro ⟨⟨hname, hpassword, hsubject⟩, hlength⟩
    rw [← length_fill_writtenContents hsalts] at hlength
    exact ⟨_, cert, _, _, _, hcert, ⟨hsubject, rfl⟩, ⟨hname, rfl⟩,
      ⟨_, ⟨hpassword, rfl⟩, rfl⟩, rfl, hlength⟩

/-- Else it is said that something cannot be encoded. -/
theorem write_eq_error {cert : BagCertificate}
    (hcert : BagCertificate.ofDer? certificate = some cert)
    (hnone : ¬ ∃ der, Writer.write key certificate name password salts
      = .ok der) :
    Writer.write key certificate name password salts = .error .encoding := by
  have horDefect (o : Option Bytes) (h : ¬ ∃ a, orDefect .encoding o = .ok a) :
      orDefect .encoding o = .error .encoding := by
    cases o with
    | none => rfl
    | some a => exact absurd ⟨a, rfl⟩ h
  unfold Writer.write at hnone ⊢
  rw [hcert] at hnone ⊢
  exact horDefect _ hnone

end Writing

end TlsKeystore.Pkcs12
