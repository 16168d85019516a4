/-
Which texts can be locked.

A bundle holds three texts as BMPStrings, each in a place of its own: the
name stands with the key, the one-line subject of the certificate with the
certificate, and the password goes into the key of the MAC. The subject is
the six texts that the certificate was issued for, between labels that any
BMPString admits (`all_admits_nameText`). So an issued certificate is
locked exactly where eight texts consist of characters that a BMPString
admits, as long as there is room (`lock_selfSign`). What it admits ends
below U+FFFF, the last code point of the plane.
-/
import TlsKeystore.Proofs.Keystore
import TlsKeystore.Proofs.Pkcs12.Form

namespace TlsKeystore

-- ================================================================= texts

namespace Bmp

theorem all_admits_iff {s : String} :
    s.toList.all admits = true ↔ ∀ c ∈ s.toList, c.toNat < 0xFFFF := by
  simp [admits]

/-- Texts in a row, with something between them. -/
theorem all_admits_intercalate {separator : String} {texts : List String}
    (hseparator : separator.toList.all admits = true) :
    (separator.intercalate texts).toList.all admits
      = texts.all fun s => s.toList.all admits := by
  rw [String.toList_intercalate]
  induction texts with
  | nil => rfl
  | cons s texts ih =>
      cases texts with
      | nil => simp
      | cons s' texts =>
          rw [List.map_cons] at ih
          rw [List.map_cons, List.map_cons, List.intercalate_cons_cons,
            List.all_append, List.all_append, hseparator, ih, Bool.and_true]
          rfl

end Bmp

namespace CertificateTerms

/-- The texts that a subject is made of. -/
def subjectTexts (t : CertificateTerms) : List String :=
  [t.commonName, t.subject.orgUnit, t.subject.organization,
    t.subject.locality, t.subject.state, t.subject.country]

/-- In front of each stands its label, which is admitted. -/
private theorem all_admits_labels :
    ∀ kind ∈ [NameAttribute.commonName, NameAttribute.orgUnit,
      NameAttribute.organization, NameAttribute.locality,
      NameAttribute.state, NameAttribute.country],
    (NameAttribute.label kind).toList.all Bmp.admits = true := by
  decide +kernel

/-- A subject is admitted exactly if its texts are. -/
theorem all_admits_nameText (t : CertificateTerms) :
    t.nameText.toList.all Bmp.admits
      = t.subjectTexts.all fun s => s.toList.all Bmp.admits := by
  have hseparator : ", ".toList.all Bmp.admits = true := by decide
  have hequals : Bmp.admits '=' = true := by decide
  have hlabels := all_admits_labels
  simp only [List.forall_mem_cons] at hlabels
  obtain ⟨hcommonName, hunit, horganization, hlocality, hstate, hcountry, -⟩ :=
    hlabels
  rw [nameText, Bmp.all_admits_intercalate hseparator]
  simp [nameAttributes, SubjectTemplate.attributes, subjectTexts, hequals,
    hcommonName, hunit, horganization, hlocality, hstate, hcountry]

end CertificateTerms

-- =============================================================== locking

namespace Bundle

open Pkcs12

/-- An issued certificate is locked, with whatever key, exactly where none
of eight texts has a character from U+FFFF on and the bundle is no longer
than a strict reader takes. Everywhere else it is said that the bundle
cannot be built. -/
theorem lock_selfSign {t : CertificateTerms} {k : PrivateKey}
    {identity : Identity} (hsign : t.selfSign k = .ok identity.certificate)
    (name password : String) (e : Entropy) :
    let texts := [name, password, t.commonName, t.subject.orgUnit,
      t.subject.organization, t.subject.locality, t.subject.state,
      t.subject.country]
    let length := writtenLength identity.key identity.certificate
      (t.nameText.toList.flatMap Bmp.unit) (name.toList.flatMap Bmp.unit)
    let result := lock identity name password (Writer.drawSalts.run e).1
    ((∃ der, result = .ok der)
        ↔ (∀ s ∈ texts, ∀ c ∈ s.toList, c.toNat < 0xFFFF)
          ∧ length ≤ Der.maxLength)
      ∧ ((¬ ∃ der, result = .ok der) → ∃ why, result = .error why
        ∧ why.message = "Failed to build PKCS#12 bundle: DerError") := by
  intro texts length result
  have hcert := ofDer?_of_selfSign hsign
  have hresult (der : Bytes) : result = .ok der ↔ Writer.write identity.key
      identity.certificate name password (Writer.drawSalts.run e).1
      = .ok der := lock_eq_ok_iff
  have htexts : (∀ s ∈ texts, ∀ c ∈ s.toList, c.toNat < 0xFFFF)
      ↔ name.toList.all Bmp.admits = true
        ∧ password.toList.all Bmp.admits = true
        ∧ t.nameText.toList.all Bmp.admits = true := by
    rw [t.all_admits_nameText]
    simp only [← Bmp.all_admits_iff, texts, List.forall_mem_cons,
      CertificateTerms.subjectTexts, List.all_eq_true]
  simp only [hresult]
  constructor
  · rw [exists_write_iff (sized_drawSalts e) hcert, htexts]
  · intro hnone
    have herror := write_eq_error hcert hnone
    refine ⟨.build .encoding, ?_, by decide⟩
    show Except.mapError _ _ = _
    rw [herror]
    rfl

/-- U+FFFE is locked as a password, and U+FFFF is not. -/
theorem lock_selfSign_plain :
    ∃ certificate,
      CertificateTerms.plain.selfSign PrivateKey.plain = .ok certificate
      ∧ let identity : Identity := ⟨PrivateKey.plain, [1, 2, 3], certificate⟩
        let salts := (Writer.drawSalts.run ⟨fun _ => 0, 0⟩).1
        (∃ der, lock identity "node" "\ufffe" salts = .ok der)
        ∧ ∃ why, lock identity "node" "\uffff" salts = .error why
          ∧ why.message = "Failed to build PKCS#12 bundle: DerError" := by
  obtain ⟨certificate, hsign⟩ := CertificateTerms.selfSign_plain
  obtain ⟨signed, -, hsigned, -⟩ :=
    CertificateTerms.selfSign_eq_ok_iff.mp hsign
  have hsmall : (CertificateTerms.plain.toSign? PrivateKey.plain).all
      (·.length ≤ 1000) = true := by decide +kernel
  rw [hsigned, Option.all_some, decide_eq_true_eq] at hsmall
  have hlength := CertificateTerms.length_selfSign_le PrivateKey.signs_plain
    hsign hsigned (by unfold Bytes.maxLength; omega)
  have htext : (CertificateTerms.plain.nameText.toList.flatMap
      Bmp.unit).length ≤ 100 := by decide +kernel
  refine ⟨certificate, hsign, ?_⟩
  intro identity salts
  have hsign' : CertificateTerms.plain.selfSign PrivateKey.plain
      = .ok identity.certificate := hsign
  obtain ⟨hadmitted, -⟩ :=
    lock_selfSign hsign' "node" "\ufffe" ⟨fun _ => 0, 0⟩
  obtain ⟨hiff, hrefused⟩ :=
    lock_selfSign hsign' "node" "\uffff" ⟨fun _ => 0, 0⟩
  refine ⟨hadmitted.mpr ⟨by simp [CertificateTerms.plain], ?_⟩,
    hrefused fun h => ?_⟩
  · have hroom : writtenLength identity.key identity.certificate
        (CertificateTerms.plain.nameText.toList.flatMap Bmp.unit)
        ("node".toList.flatMap Bmp.unit) ≤ 2000 + 1000 := by
      refine writtenLength_le ?_ (by omega)
      have hkey : identity.key.length = 3 := rfl
      have hname : ("node".toList.flatMap Bmp.unit).length = 8 := by decide
      have hcertificate : identity.certificate.length ≤ 1560 :=
        hlength.trans (by omega)
      omega
    exact hroom.trans (by decide)
  · have hlast := (hiff.mp h).1 "\uffff" (by simp) '\uffff' (by decide)
    exact absurd hlast (by decide)

end Bundle
end TlsKeystore
