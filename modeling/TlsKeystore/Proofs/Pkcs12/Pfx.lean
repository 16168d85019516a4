/-
A written bundle, read again.

# The tree

`bundleElement` is the element that `Writer.write` encodes, of the
elements of its parts. `write_eq_ok_iff` says exactly when there is a
bundle: the certificate parses, its subject, the name and the password
stand in the plane, and the whole is no longer than a strict reader takes.

# The way back

The last of these conditions is what everything below lives on: a bundle
fits as a whole, so what is inside fits (`Element.Within.of_mem`), and what
is inside an octet string or a cipher text fits since it is no longer than
its container (`fits_of_encryptedElement`). From the outside in, the MAC
agrees (`check_writtenMac`), the two safes are found
(`safes?_contentElement`), and each gives the bag that was put there
(`bags_of_write`).
-/
import TlsKeystore.Proofs.Pkcs12.Writer

namespace TlsKeystore.Pkcs12

open Element (around ofOid ofNatural ofOctets)

-- ============================================================== the parts

/-- The MAC under a digest and a salt. -/
def macElement (digest salt : Bytes) : Element :=
  around Tag.sequence [
    around Tag.sequence [around Tag.sequence [ofOid sha256],
      ofOctets digest],
    ofOctets salt, ofNatural Writer.rounds]

@[simp] theorem macElement_tag (digest salt : Bytes) :
    (macElement digest salt).tag = Tag.sequence := rfl

/-- The safe of a certificate. -/
def certificateSafeElement (certificate keyId subject : Bytes)
    (password : String) (salt iv : Bytes) : Element :=
  encryptedElement salt iv (Writer.encrypt salt iv password
    (safeElement certificateBag (certificateValue certificate) keyId
      subject).encode)

/-- The safe of a key. -/
def keySafeElement (key keyId name : Bytes) (password : String)
    (salt iv : Bytes) : Element :=
  dataElement (safeElement shroudedKeyBag
    (keyValue salt iv (Writer.encrypt salt iv password key)) keyId
    name).encode

/-- Both safes. -/
def contentElement (key certificate subject name : Bytes)
    (password : String) (salts : Salts) : Element :=
  let keyId := Sha1.sha1.digest certificate
  around Tag.sequence [
    certificateSafeElement certificate keyId subject password
      salts.certificateSalt salts.certificateIv,
    keySafeElement key keyId name password salts.keySalt salts.keyIv]

/-- A bundle of content under a MAC. -/
def bundleElement (content digest salt : Bytes) : Element :=
  around Tag.sequence [ofNatural pfxVersion, dataElement content,
    macElement digest salt]

@[simp] theorem bundleElement_tag (content digest salt : Bytes) :
    (bundleElement content digest salt).tag = Tag.sequence := rfl

/-- The digest that a bundle is written with. -/
def writtenDigest (macPassword salt content : Bytes) : Bytes :=
  Mac.compute Sha256.sha256 macPassword salt Writer.rounds content

-- ================================================================ writing

theorem Writer.certificateSafe?_eq (certificate keyId : Bytes)
    (subject password : String) (salt iv : Bytes) :
    Writer.certificateSafe? certificate keyId subject password salt iv
      = (Bmp.encode? subject).map fun subject =>
          (certificateSafeElement certificate keyId subject password salt
            iv).encode := by
  rw [Writer.certificateSafe?, Writer.attributes?_eq]
  cases Bmp.encode? subject <;> rfl

theorem Writer.keySafe?_eq (key keyId : Bytes) (name password : String)
    (salt iv : Bytes) :
    Writer.keySafe? key keyId name password salt iv
      = (Bmp.encode? name).map fun name =>
          (keySafeElement key keyId name password salt iv).encode := by
  rw [Writer.keySafe?, Writer.attributes?_eq]
  cases Bmp.encode? name <;> rfl

/-- The whole, from the octets of the safes. -/
private theorem sequence_eq_bundleElement (content macPassword salt : Bytes) :
    Der.sequence [Der.natural pfxVersion, Writer.dataInfo content,
        Writer.mac macPassword salt content]
      = (bundleElement content (writtenDigest macPassword salt content)
          salt).encode := rfl

/-- A value or a defect is a value where there is one. -/
theorem orDefect_eq_ok_iff {α : Type} {d : Defect} {o : Option α} {a : α} :
    orDefect d o = .ok a ↔ o = some a := by
  cases o <;> simp [orDefect]

/-- A bundle is written exactly where the certificate parses, the texts
stand in the plane and the whole fits. -/
theorem write_eq_ok_iff {key certificate : Bytes} {name password : String}
    {salts : Salts} {der : Bytes} :
    Writer.write key certificate name password salts = .ok der
      ↔ ∃ cert subject bmpName macPassword content,
        BagCertificate.ofDer? certificate = some cert
        ∧ Bmp.encode? cert.subject = some subject
        ∧ Bmp.encode? name = some bmpName
        ∧ Bmp.password? password = some macPassword
        ∧ (contentElement key certificate subject bmpName password
            salts).encode = content
        ∧ (bundleElement content (writtenDigest macPassword
            salts.macSalt content) salts.macSalt).encode = der
        ∧ der.length ≤ Der.maxLength := by
  unfold Writer.write
  cases BagCertificate.ofDer? certificate with
  | none => simp [orDefect, bind, Except.bind]
  | some cert =>
      show orDefect .encoding _ = .ok der ↔ _
      simp only [Writer.keySafe?_eq, Writer.certificateSafe?_eq,
        sequence_eq_bundleElement, orDefect_eq_ok_iff]
      cases hsubject : Bmp.encode? cert.subject with
      | none => simp [hsubject]
      | some subject =>
          cases hname : Bmp.encode? name with
          | none => simp
          | some bmpName =>
              cases hpassword : Bmp.password? password with
              | none => simp
              | some macPassword =>
                  have hcontent : Der.sequence [
                        (certificateSafeElement certificate
                          (Sha1.sha1.digest certificate) subject password
                          salts.certificateSalt salts.certificateIv).encode,
                        (keySafeElement key (Sha1.sha1.digest certificate)
                          bmpName password salts.keySalt salts.keyIv).encode]
                      = (contentElement key certificate subject bmpName
                          password salts).encode :=
                    Der.sequence_eq_encode [_, _]
                  simp only [Option.map_some, Option.bind_eq_bind,
                    Option.bind_some, hcontent]
                  simp only [Option.ite_none_right_eq_some,
                    Option.some.injEq, exists_and_left, exists_eq_left',
                    hsubject]
                  constructor
                  · rintro ⟨hlength, rfl⟩
                    exact ⟨rfl, hlength⟩
                  · rintro ⟨rfl, hlength⟩
                    exact ⟨hlength, rfl⟩

-- ==================================================================== MAC

private theorem rounds?_rounds :
    rounds? (ofNatural Writer.rounds) = some (Writer.rounds : Int) := by
  decide

/-- What the MAC of a written bundle is read as. -/
def writtenMac (digest salt : Bytes) : Mac :=
  ⟨⟨sha256, none⟩, digest, salt, Writer.rounds⟩

theorem ofElement?_macElement {digest salt : Bytes}
    (hfits : (macElement digest salt).Fits) :
    Mac.ofElement? (macElement digest salt)
      = some (writtenMac digest salt) := by
  have hsha256 : sha256.wellFormed = true :=
    Oid.wellFormed_ofArcs (by decide)
  have hfields : (macElement digest salt).items? Tag.sequence
      = some [around Tag.sequence [around Tag.sequence [ofOid sha256],
          ofOctets digest], ofOctets salt, ofNatural Writer.rounds] :=
    Element.items?_around (by simp) hfits
  have hinfo : (around Tag.sequence [around Tag.sequence [ofOid sha256],
      ofOctets digest]).Fits := hfits.of_mem (by simp)
  have hparts := Element.items?_around (by simp) hinfo
  have halgorithm : (around Tag.sequence [ofOid sha256]).items? Tag.sequence
      = some [ofOid sha256] :=
    Element.items?_around (by simp) (hinfo.of_mem (by simp))
  simp [Mac.ofElement?, hfields, hparts, rounds?_rounds, algorithm?,
    halgorithm, Element.oid?_ofOid hsha256, writtenMac]

@[simp] theorem hash?_writtenMac (digest salt : Bytes) :
    (writtenMac digest salt).hash? = some Sha256.sha256 := by
  have hne : sha256 ≠ sha1 := by
    simp [sha256, sha1, Oid.ofArcs_inj]
  unfold Mac.hash? writtenMac
  rw [if_neg hne, if_pos rfl]

/-- A MAC agrees with the content and the password it was made for. -/
theorem check_writtenMac {password : String} {macPassword : Bytes}
    (hpassword : Bmp.password? password = some macPassword)
    {salt content digest : Bytes}
    (hdigest : writtenDigest macPassword salt content = digest) :
    (writtenMac digest salt).check password content = .ok () := by
  have hcompute : Mac.compute Sha256.sha256 macPassword
      (writtenMac digest salt).salt (writtenMac digest salt).rounds content
      = (writtenMac digest salt).digest := hdigest
  unfold Mac.check
  rw [hash?_writtenMac, hpassword]
  simp only [orDefect_some, bind, Except.bind, hcompute, if_true]
  rfl

-- =================================================================== bags

/-- A safe of one bag, read. -/
theorem rawBags?_safeElement {kind : Oid} {value : Element} {keyId : Bytes}
    {s : String} {name : Bytes} (hkind : kind.wellFormed = true)
    (hname : Bmp.encode? s = some name)
    (hfits : (safeElement kind value keyId name).Fits) :
    rawBags? (safeElement kind value keyId name).encode
      = some [⟨kind, around (Tag.explicit 0) [value],
          ⟨some s, some keyId, false⟩⟩] := by
  have hone : Der.readOne? (safeElement kind value keyId name).encode
      = some (safeElement kind value keyId name) :=
    Der.readOne?_encode (by simp) hfits
  have hitems : (safeElement kind value keyId name).items? Tag.sequence
      = some [bagElement kind value (writtenAttributes keyId name)] :=
    Element.items?_around (by simp) hfits
  have hbag : (bagElement kind value (writtenAttributes keyId name)).Fits :=
    hfits.of_mem (by simp)
  simp [rawBags?, hone, hitems, ofElement?_written hkind hname hbag]

/-- The value of a certificate bag gives the certificate back. -/
theorem openCertificate_certificateValue {der : Bytes}
    {cert : BagCertificate} (hcert : BagCertificate.ofDer? der = some cert)
    (hfits : (around (Tag.explicit 0) [certificateValue der]).Fits)
    (kind : Oid) (labels : Labels) :
    RawBag.openCertificate
        ⟨kind, around (Tag.explicit 0) [certificateValue der], labels⟩
      = .ok (.certificate cert labels) := by
  have hkind : x509Certificate.wellFormed = true :=
    Oid.wellFormed_ofArcs (by decide)
  have hitems : valueItems? (around (Tag.explicit 0) [certificateValue der])
      = some [ofOid x509Certificate,
          around (Tag.explicit 0) [ofOctets der]] :=
    valueItems?_around (by simp) hfits
  have hvalue : (certificateValue der).Fits := hfits.of_mem (by simp)
  have honly : (around (Tag.explicit 0) [ofOctets der]).only?
      (Tag.explicit 0) = some (ofOctets der) :=
    Element.only?_around (by simp) (hvalue.of_mem (by simp))
  simp [RawBag.openCertificate, hitems, honly, Element.oid?_ofOid hkind,
    hcert, bind, Except.bind]
  rfl

/-- The value of a key bag gives the key back, under its password. -/
theorem openKey_keyValue {salt iv key : Bytes} {password : String}
    (hiv : iv.length = 16)
    (hfits : (around (Tag.explicit 0) [keyValue salt iv
      (Writer.encrypt salt iv password key)]).Fits)
    (kind : Oid) (labels : Labels) :
    RawBag.openKey ⟨kind, around (Tag.explicit 0) [keyValue salt iv
        (Writer.encrypt salt iv password key)], labels⟩ password
      = .ok (.key key labels) := by
  have hdecrypt : (writtenScheme salt iv).decrypt password
      (Writer.encrypt salt iv password key) = .ok key :=
    decrypt_encrypt hiv password key
  generalize Writer.encrypt salt iv password key = cipher at *
  have hitems : valueItems? (around (Tag.explicit 0)
      [keyValue salt iv cipher])
      = some [schemeElement salt iv, ofOctets cipher] :=
    valueItems?_around (by simp) hfits
  have hvalue : (keyValue salt iv cipher).Fits := hfits.of_mem (by simp)
  have hschemeFits : (schemeElement salt iv).Fits := hvalue.of_mem (by simp)
  obtain ⟨a, halgorithm, hscheme⟩ := ofAlgorithm_schemeElement hiv hschemeFits
  simp [RawBag.openKey, hitems, halgorithm, hscheme, hdecrypt, bind,
    Except.bind]
  rfl

-- ================================================================== safes

/-- What a fitting safe holds fits, since it is shorter than its cipher
text. -/
theorem fits_of_encryptedElement {salt iv : Bytes} {password : String}
    {e : Element} (hfits : (encryptedElement salt iv
      (Writer.encrypt salt iv password e.encode)).Fits) : e.Fits := by
  have hlength := Writer.length_encrypt salt iv password e.encode
  have hcipher := length_le_of_encryptedElement hfits
  refine Element.Within.of_encode ?_
  omega

/-- The bags of a safe of one bag. -/
private theorem bags_of_safeOctets {info : ContentInfo} {kind : Oid}
    {value : Element} {keyId name : Bytes} {s password : String} {bag : Bag}
    (hkind : kind.wellFormed = true) (hname : Bmp.encode? s = some name)
    (hfits : (safeElement kind value keyId name).Fits)
    (hoctets : info.safeOctets password
      = .ok (safeElement kind value keyId name).encode)
    (hbag : RawBag.toBag ⟨kind, around (Tag.explicit 0) [value],
        ⟨some s, some keyId, false⟩⟩ password = .ok (some bag)) :
    info.bags password = .ok [bag] := by
  have hraw := rawBags?_safeElement hkind hname hfits
  simp [ContentInfo.bags, hoctets, hraw, bind, Except.bind,
    List.mapM_cons, List.mapM_nil, hbag, pure, Except.pure]

/-- What stands in a fitting safe under a bag's tag fits. -/
private theorem value_fits {kind : Oid} {value : Element}
    {keyId name : Bytes} (hfits : (safeElement kind value keyId name).Fits) :
    (around (Tag.explicit 0) [value]).Fits := by
  have hbag : (bagElement kind value (writtenAttributes keyId name)).Fits :=
    hfits.of_mem (by simp)
  exact hbag.of_mem (by simp)

/-- The safe of the certificate gives a certificate bag. -/
theorem bags_certificateSafeElement {certificate keyId subject salt iv : Bytes}
    {cert : BagCertificate} {s password : String}
    (hcert : BagCertificate.ofDer? certificate = some cert)
    (hsubject : Bmp.encode? s = some subject) (hiv : iv.length = 16)
    (hfits : (certificateSafeElement certificate keyId subject password salt
      iv).Fits) :
    ∃ info, ContentInfo.ofElement? (certificateSafeElement certificate keyId
        subject password salt iv) = some info
      ∧ info.bags password
        = .ok [.certificate cert ⟨some s, some keyId, false⟩] := by
  have hsafe := fits_of_encryptedElement hfits
  obtain ⟨info, hinfo, hoctets⟩ := safeOctets_encryptedElement hiv hfits
  have hopen := openCertificate_certificateValue hcert (value_fits hsafe)
    certificateBag ⟨some s, some keyId, false⟩
  refine ⟨info, hinfo, bags_of_safeOctets wellFormed_certificateBag
    hsubject hsafe hoctets ?_⟩
  simp only [RawBag.toBag, if_neg certificateBag_ne, if_true, hopen, bind,
    Except.bind]
  rfl

/-- The safe of the key gives a key bag. -/
theorem bags_keySafeElement {key keyId name salt iv : Bytes}
    {s password : String} (hname : Bmp.encode? s = some name)
    (hiv : iv.length = 16)
    (hfits : (keySafeElement key keyId name password salt iv).Fits) :
    ∃ info, ContentInfo.ofElement? (keySafeElement key keyId name password
        salt iv) = some info
      ∧ info.bags password
        = .ok [.key key ⟨some s, some keyId, false⟩] := by
  have hsafe := fits_of_dataElement hfits
  have hinfo := ofElement?_dataElement hfits
  have hopen := openKey_keyValue hiv (value_fits hsafe) shroudedKeyBag
    ⟨some s, some keyId, false⟩
  refine ⟨_, hinfo,
    bags_of_safeOctets wellFormed_shroudedKeyBag hname hsafe ?_ ?_⟩
  · rw [ContentInfo.safeOctets, if_pos rfl, Element.octets?_ofOctets]
    rfl
  · simp only [RawBag.toBag, if_true, hopen, bind, Except.bind]
    rfl

-- ============================================================== the whole

/-- A certificate in a bag is kept as it is. -/
theorem der_of_ofDer? {der : Bytes} {cert : BagCertificate}
    (h : BagCertificate.ofDer? der = some cert) : cert.der = der := by
  unfold BagCertificate.ofDer? at h
  split at h
  · cases h
    rfl
  · cases h

/-- A bundle that fits is read as its content and its MAC. -/
theorem ofBytes?_bundleElement {content digest salt : Bytes}
    (hfits : (bundleElement content digest salt).Fits) :
    Pfx.ofBytes? (bundleElement content digest salt).encode
      = some ⟨⟨dataContent, ofOctets content⟩,
          some (writtenMac digest salt)⟩ := by
  have hone : Der.readOne? (bundleElement content digest salt).encode
      = some (bundleElement content digest salt) :=
    Der.readOne?_encode (by simp) hfits
  have hitems : (bundleElement content digest salt).items? Tag.sequence
      = some [ofNatural pfxVersion, dataElement content,
          macElement digest salt] :=
    Element.items?_around (by simp) hfits
  have hdata : (dataElement content).Fits := hfits.of_mem (by simp)
  have hinfo := ofElement?_dataElement hdata
  have hmacFits : (macElement digest salt).Fits := hfits.of_mem (by simp)
  have hmac := ofElement?_macElement hmacFits
  simp [Pfx.ofBytes?, hone, hitems, hinfo, hmac]

/-- The two safes of the content, and the bag in each. -/
private theorem safes?_contentElement {key certificate subject name : Bytes}
    {cert : BagCertificate} {s password : String} {salts : Salts}
    (hcert : BagCertificate.ofDer? certificate = some cert)
    (hsubject : Bmp.encode? cert.subject = some subject)
    (hname : Bmp.encode? s = some name)
    (hcertificateIv : salts.certificateIv.length = 16)
    (hkeyIv : salts.keyIv.length = 16)
    (hfits : (contentElement key certificate subject name password
      salts).Fits) :
    ∃ first second, Pfx.safes? (contentElement key certificate subject name
        password salts).encode = some [first, second]
      ∧ first.bags password = .ok [.certificate cert ⟨some cert.subject,
          some (Sha1.sha1.digest certificate), false⟩]
      ∧ second.bags password = .ok [.key key ⟨some s,
          some (Sha1.sha1.digest certificate), false⟩] := by
  unfold contentElement at hfits ⊢
  generalize Sha1.sha1.digest certificate = keyId at *
  have hfirst : (certificateSafeElement certificate keyId subject password
      salts.certificateSalt salts.certificateIv).Fits :=
    hfits.of_mem (by simp)
  have hsecond : (keySafeElement key keyId name password salts.keySalt
      salts.keyIv).Fits := hfits.of_mem (by simp)
  obtain ⟨first, hfirstInfo, hfirstBags⟩ :=
    bags_certificateSafeElement hcert hsubject hcertificateIv hfirst
  obtain ⟨second, hsecondInfo, hsecondBags⟩ :=
    bags_keySafeElement hname hkeyIv hsecond
  refine ⟨first, second, ?_, hfirstBags, hsecondBags⟩
  have hone := Der.readOne?_encode (by simp) hfits
  have hitems := Element.items?_around
    (by simp [certificateSafeElement, keySafeElement]) hfits
  simp [Pfx.safes?, hone, hitems, hfirstInfo, hsecondInfo]

/-- The bags of a written bundle, under its password: the certificate under
its subject, then the key under the name, linked by one identifier. -/
theorem bags_of_write {key certificate der : Bytes} {name password : String}
    {salts : Salts} (hcertificateIv : salts.certificateIv.length = 16)
    (hkeyIv : salts.keyIv.length = 16)
    (hwrite : Writer.write key certificate name password salts = .ok der) :
    ∃ p cert, Pfx.ofBytes? der = some p
      ∧ cert.der = certificate
      ∧ p.bags password = .ok [
          .certificate cert ⟨some cert.subject,
            some (Sha1.sha1.digest certificate), false⟩,
          .key key ⟨some name,
            some (Sha1.sha1.digest certificate), false⟩] := by
  obtain ⟨cert, subject, bmpName, macPassword, content, hcert, hsubject,
    hname, hpassword, hcontent, hder, hlength⟩ := write_eq_ok_iff.mp hwrite
  generalize hdigest : writtenDigest macPassword salts.macSalt content
    = digest at hder
  rw [← hder] at hlength
  have hbundle := Element.Within.of_encode hlength
  have hread := ofBytes?_bundleElement hbundle
  have hcheck := check_writtenMac hpassword hdigest
  have hdata : (dataElement content).Fits := hbundle.of_mem (by simp)
  rw [← hcontent] at hdata
  obtain ⟨first, second, hsafes, hfirst, hsecond⟩ :=
    safes?_contentElement hcert hsubject hname hcertificateIv hkeyIv
      (fits_of_dataElement hdata)
  rw [hcontent] at hsafes
  refine ⟨_, cert, by rw [← hder]; exact hread, ?_, ?_⟩
  · exact der_of_ofDer? hcert
  · simp [Pfx.bags, Pfx.content, hcheck, hsafes, hfirst, hsecond, bind,
      Except.bind, List.mapM_cons, List.mapM_nil, pure, Except.pure]

end TlsKeystore.Pkcs12
