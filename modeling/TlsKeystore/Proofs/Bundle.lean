/-
Locking and unlocking.

What `Bundle.lock` makes, `Bundle.unlock` takes apart again under the same
password: one entry under the very name, with the very key and the very
certificate (`unlock_lock`). By `bags_of_write` the bundle holds two bags
that one identifier links; what is left is to see that these two make one
entry, and that no certificate is taken for the issuer of its own
(`entries_of_linked`).

There is such a bundle for every issued certificate as long as texts and sizes
allow it (`lock_isOk_of_selfSign`).
-/
import TlsKeystore.Bundle
import TlsKeystore.Proofs.Pkcs12.Length
import TlsKeystore.Proofs.Results
import TlsKeystore.Proofs.X509.Issue

namespace TlsKeystore

namespace Pkcs12

/-- A leaf alone has nobody above it: its own subject is no issuer. -/
theorem issuers_singleton (cert : BagCertificate) (labels : Labels)
    (steps : Nat) (issuer : String) :
    issuers [(cert, labels)] cert.subject steps issuer = [] := by
  cases steps with
  | zero => rfl
  | succ steps => simp [issuers]

/-- A key and a certificate that one identifier links make one entry, under
the name of the key. -/
theorem entries_of_linked (cert : BagCertificate) (key keyId : Bytes)
    (subject name : String) :
    entries [.certificate cert ⟨some subject, some keyId, false⟩,
        .key key ⟨some name, some keyId, false⟩]
      = [(name, .keyChain key [cert.der])] := by
  have habove := issuers_singleton cert ⟨some subject, some keyId, false⟩ 1
    cert.issuer
  simp [entries, entriesOf, keys, certificates, entryOfKey?,
    entryOfCertificate?, habove, insert]

end Pkcs12

namespace Bundle

open Pkcs12

/-- Locking succeeds exactly where a bundle is written. -/
theorem lock_eq_ok_iff {identity : Identity} {name password : String}
    {salts : Salts} {der : Bytes} :
    lock identity name password salts = .ok der
      ↔ Writer.write identity.key identity.certificate name password salts
        = .ok der :=
  mapError_eq_ok_iff

/-- An issued certificate can stand in a bag. -/
theorem ofDer?_of_selfSign {t : CertificateTerms} {k : PrivateKey}
    {certificate : Bytes} (hsign : t.selfSign k = .ok certificate) :
    BagCertificate.ofDer? certificate
      = some ⟨certificate, t.nameText, t.nameText⟩ := by
  obtain ⟨signed, signature, -, -, -, hparse⟩ :=
    CertificateTerms.parse_selfSign hsign
  rw [BagCertificate.ofDer?, hparse, CertificateTerms.nameText,
    ← Name.text_writtenName]
  rfl

/-- So it is locked where all texts stand in the plane and everything is of
ordinary size. -/
theorem lock_isOk_of_selfSign {t : CertificateTerms} {k : PrivateKey}
    {key certificate signed subject bmpName macPassword : Bytes}
    {name password : String} (hsigns : k.signs = true)
    (hsign : t.selfSign k = .ok certificate)
    (hsigned : t.toSign? k = some signed)
    (hsubject : Bmp.encode? t.nameText = some subject)
    (hname : Bmp.encode? name = some bmpName)
    (hpassword : Bmp.password? password = some macPassword)
    (hlength : key.length + signed.length + subject.length + bmpName.length
      ≤ 70000000) (e : Entropy) :
    ∃ der, lock ⟨k, key, certificate⟩ name password
      (Writer.drawSalts.run e).1 = .ok der := by
  have hcertificate := CertificateTerms.length_selfSign_le hsigns hsign hsigned
    (by unfold Bytes.maxLength; omega)
  obtain ⟨der, hwrite⟩ : ∃ der, Writer.write key certificate name password
      (Writer.drawSalts.run e).1 = .ok der :=
    write_isOk (sized_drawSalts e) (ofDer?_of_selfSign hsign) hsubject hname
      hpassword (by omega)
  exact ⟨der, lock_eq_ok_iff.mpr hwrite⟩

/-- What was locked is unlocked under its password, under its name, octet
by octet: for every identity, name and password, and whatever the salts
that were drawn. -/
theorem unlock_lock {identity : Identity} {name password : String}
    {e : Entropy} {der : Bytes}
    (hlock : lock identity name password (Writer.drawSalts.run e).1
      = .ok der) :
    unlock der password
      = .ok ⟨name, identity.key, identity.certificate⟩ := by
  have hsized := sized_drawSalts e
  obtain ⟨p, cert, hread, hder, hbags⟩ := bags_of_write hsized.certificateIv
    hsized.keyIv (lock_eq_ok_iff.mp hlock)
  have hall : bags der password = .ok [
      .certificate cert ⟨some cert.subject,
        some (Sha1.sha1.digest identity.certificate), false⟩,
      .key identity.key ⟨some name,
        some (Sha1.sha1.digest identity.certificate), false⟩] := by
    rw [bags, hread]
    exact hbags
  rw [unlock, hall]
  show walk none (entries _) = _
  rw [entries_of_linked, hder]
  rfl

/-- A key that was drawn, with the certificate that it signed for itself. -/
theorem unlock_lock_drawn :
    ∃ certificate der,
      CertificateTerms.plain.selfSign PrivateKey.drawn = .ok certificate
      ∧ lock ⟨PrivateKey.drawn, PrivateKey.drawn.encode, certificate⟩ "узел"
          "пароль" (Writer.drawSalts.run PrivateKey.plainStream).1 = .ok der
      ∧ unlock der "пароль"
        = .ok ⟨"узел", PrivateKey.drawn.encode, certificate⟩ := by
  obtain ⟨certificate, signed, hsign, hsigned, hsmall⟩ :=
    CertificateTerms.selfSign_drawn
  have hkey : PrivateKey.drawn.encode.length ≤ 2000 := by decide +kernel
  have hsubject : (Bmp.encode? CertificateTerms.plain.nameText).any
      (·.length ≤ 1000) = true := by decide +kernel
  obtain ⟨subject, hsubject, hsubjectSmall⟩ :=
    (Option.any_eq_true _ _).mp hsubject
  rw [decide_eq_true_eq] at hsubjectSmall
  have hname : Bmp.encode? "узел" = some [4, 67, 4, 55, 4, 53, 4, 59] := by
    decide
  have hpassword : Bmp.password? "пароль"
      = some [4, 63, 4, 48, 4, 64, 4, 62, 4, 59, 4, 76, 0, 0] := by decide
  have hlength : PrivateKey.drawn.encode.length + signed.length
      + subject.length + [4, 67, 4, 55, 4, 53, 4, 59].length ≤ 70000000 := by
    simp only [List.length_cons, List.length_nil]
    omega
  obtain ⟨der, hlock⟩ := lock_isOk_of_selfSign PrivateKey.fit_drawn.signs
    hsign hsigned hsubject hname hpassword hlength PrivateKey.plainStream
  exact ⟨certificate, der, hsign, hlock, unlock_lock hlock⟩

/-- A certificate that says next to nothing, and nothing of anybody. -/
def leastCertificate : Bytes :=
  let algorithm := Der.sequence [Der.oid ⟨[42]⟩]
  let name := Der.sequence []
  let date := Element.encode ⟨Tag.utcTime,
    [0x37, 0x30, 0x30, 0x31, 0x30, 0x31, 0x30, 0x30, 0x30, 0x30, 0x5A]⟩
  Der.sequence [
    Der.sequence [Der.natural 1, algorithm, name, Der.sequence [date, date],
      name, Der.sequence [algorithm, Der.bitString []]],
    algorithm, Der.bitString []]

/-- With any short key it can be locked wherever name and password are in
the plane. -/
theorem lock_leastCertificate {k : PrivateKey} {key : Bytes}
    {name password : String} {bmpName macPassword : Bytes}
    (hname : Bmp.encode? name = some bmpName)
    (hpassword : Bmp.password? password = some macPassword)
    (hlength : key.length + bmpName.length ≤ 1000) (e : Entropy) :
    ∃ der, lock ⟨k, key, leastCertificate⟩ name password
      (Writer.drawSalts.run e).1 = .ok der := by
  have hcert : BagCertificate.ofDer? leastCertificate
      = some ⟨leastCertificate, "", ""⟩ := by decide
  have hsubject : Bmp.encode? "" = some [] := by decide
  have hleast : leastCertificate.length = 62 := by decide
  obtain ⟨der, hwrite⟩ : ∃ der, Writer.write key leastCertificate name
      password (Writer.drawSalts.run e).1 = .ok der :=
    write_isOk (sized_drawSalts e) hcert hsubject hname hpassword
      (by simp only [hleast, List.length_nil]; omega)
  exact ⟨der, lock_eq_ok_iff.mpr hwrite⟩

end Bundle
end TlsKeystore
