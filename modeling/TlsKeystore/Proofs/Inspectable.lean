/-
Whatever opens can be looked at.

A certificate bag is refused where its octets do not parse, so none comes
out of a bundle that was not read once already (`parse_of_bags`). What is
opened is one of them, and whoever asks it later reads the same octets.
The questions that every certificate has an answer to are answered, then,
and a summary fails only with what it has to decode further: the public key,
the common name, the basic constraints and the private key (`Undecoded`).
-/
import TlsKeystore.Proofs.Pkcs12.Contents
import TlsKeystore.Proofs.Selection
import TlsKeystore.Proofs.Summary
import TlsKeystore.Proofs.Password

namespace TlsKeystore

-- ================================================================ questions

namespace Certificate

variable {c : Certificate} {why : InspectFailure}

/-- A public key is not shown if it is damaged, or not RSA. -/
theorem cause_of_rsaPublicKey (h : c.rsaPublicKey = .error why) :
    why = .damagedPublicKey ∨ why = .notRsa := by
  unfold rsaPublicKey at h
  by_cases hkind : c.publicKey.algorithm.algorithm = rsaEncryption
  · simp only [if_pos hkind] at h
    cases hoctets : rsaOctets? c.publicKey.key with
    | none =>
        rw [hoctets] at h
        cases h
        exact Or.inl rfl
    | some k =>
        rw [hoctets] at h
        cases h
  · simp only [if_neg hkind] at h
    have hcauses (readable : Bool)
        (h : (if readable then .error .notRsa else .error .damagedPublicKey :
          Except InspectFailure RsaPublicOctets) = .error why) :
        why = .damagedPublicKey ∨ why = .notRsa := by
      cases readable
      · exact Or.inl (Except.error.inj h).symm
      · exact Or.inr (Except.error.inj h).symm
    exact hcauses _ h

/-- A common name is not shown if its string cannot be decoded. -/
theorem cause_of_commonName (h : c.commonName = .error why) :
    ∃ defect, why = .commonName defect := by
  unfold commonName at h
  cases hname : c.subject.commonName with
  | ok name =>
      rw [hname] at h
      cases h
  | error defect =>
      rw [hname] at h
      cases h
      exact ⟨defect, rfl⟩

/-- Basic constraints are not shown if there are several of them. -/
theorem cause_of_caConstraint (h : c.caConstraint = .error why) :
    why = .repeatedConstraints := by
  unfold caConstraint at h
  split at h
  · cases h
  · cases h
  · cases h
    rfl

end Certificate

namespace OpenedBundle

variable {b : OpenedBundle} {c : Certificate}

/-- What of an opened bundle may not be decodable, and what its summary then
says. -/
inductive Undecoded (b : OpenedBundle) : SummaryFailure → Prop where
  | publicKey {why : InspectFailure}
      (fails : Inspect.rsaPublicKey b.certificate = .error why)
      (cause : why = .damagedPublicKey ∨ why = .notRsa) :
      Undecoded b (.certificate why)
  | commonName {defect : Name.Undecodable}
      (fails : Inspect.commonName b.certificate
        = .error (.commonName defect)) :
      Undecoded b (.certificate (.commonName defect))
  | constraints
      (fails : Inspect.caConstraint b.certificate
        = .error .repeatedConstraints) :
      Undecoded b (.certificate .repeatedConstraints)
  | privateKey (fails : PrivateKey.decode? b.key = none) :
      Undecoded b .privateKey

/-- A private key is not read if its form is not that of one. -/
theorem cause_of_privateKey {why : SummaryFailure}
    (h : b.privateKey = .error why) :
    why = .privateKey ∧ PrivateKey.decode? b.key = none := by
  unfold privateKey at h
  split at h
  · next hdecode =>
      cases h
      exact ⟨rfl, hdecode⟩
  · cases h

/-- A certificate that parses has a summary unless something else of the
bundle cannot be decoded. -/
theorem undecoded_of_summary
    (hparse : Certificate.parse b.certificate = .ok c)
    {why : SummaryFailure} (h : b.summary = .error why) : b.Undecoded why := by
  have hask {α : Type} := Inspect.ask_eq (α := α) hparse
  rw [summary_of_parse hparse] at h
  simp only [keyMatchesOctets_eq] at h
  cases hkey : c.rsaPublicKey with
  | error cause =>
      rw [hkey] at h
      cases h
      exact .publicKey ((hask _).trans hkey)
        (Certificate.cause_of_rsaPublicKey hkey)
  | ok k =>
      rw [hkey] at h
      cases hname : c.commonName with
      | error cause =>
          rw [hname] at h
          cases h
          obtain ⟨defect, rfl⟩ := Certificate.cause_of_commonName hname
          exact .commonName ((hask _).trans hname)
      | ok name =>
          rw [hname] at h
          cases hca : c.caConstraint with
          | error cause =>
              rw [hca] at h
              cases h
              obtain rfl := Certificate.cause_of_caConstraint hca
              exact .constraints ((hask _).trans hca)
          | ok ca =>
              rw [hca] at h
              cases hprivate : b.privateKey with
              | error cause =>
                  rw [hprivate] at h
                  cases h
                  obtain ⟨rfl, hdecode⟩ := cause_of_privateKey hprivate
                  exact .privateKey hdecode
              | ok key =>
                  rw [hprivate] at h
                  cases h

/-- Where something cannot be decoded there is no summary. -/
theorem summary_of_undecoded {why : SummaryFailure} (h : b.Undecoded why)
    (s : Summary) : b.summary ≠ .ok s := by
  intro hsummary
  obtain ⟨⟨name, hname⟩, ⟨ca, hca⟩, ⟨k, hk⟩, ⟨matched, hmatched⟩⟩ :=
    summary_isOk_iff.mp ⟨s, hsummary⟩
  cases h with
  | publicKey fails cause =>
      rw [hk] at fails
      cases fails
  | commonName fails =>
      rw [hname] at fails
      cases fails
  | constraints fails =>
      rw [hca] at fails
      cases fails
  | privateKey fails =>
      rw [keyMatches, hk] at hmatched
      change b.keyMatchesOctets k = .ok matched at hmatched
      rw [keyMatchesOctets, fails] at hmatched
      cases hmatched

end OpenedBundle

-- ================================================================== opening

namespace Bundle

open Pkcs12

variable {der : Bytes} {password : String}

/-- No certificate comes out of a bundle unless it parses. -/
theorem parse_of_bags {bs : List Bag} (hbags : bags der password = .ok bs)
    {cert : BagCertificate} {labels : Labels}
    (hmem : (cert, labels) ∈ certificates bs) :
    ∃ c, Certificate.parse cert.der = .ok c := by
  obtain ⟨raw, -, -, rfl⟩ := bags_eq_ok_iff_holds.mp hbags
  obtain ⟨found, hfound, hcert⟩ := List.mem_filterMap.mp hmem
  obtain ⟨bag, -, hopened⟩ := List.mem_filterMap.mp hfound
  cases found with
  | key der labels => cases hcert
  | certificate cert' labels' =>
      cases hcert
      obtain ⟨-, octets, hread⟩ := RawBag.kind_of_certificate
        (RawBag.opened?_eq_some_iff.mp hopened)
      rw [der_of_ofDer? hread]
      unfold BagCertificate.ofDer? at hread
      cases hparse : Certificate.parse octets with
      | error defect =>
          rw [hparse] at hread
          cases hread
      | ok c => exact ⟨c, rfl⟩

/-- What is opened holds a certificate that parses. -/
theorem parse_of_unlock {b : OpenedBundle} (hopen : unlock der password = .ok b) :
    ∃ c, Certificate.parse b.certificate = .ok c := by
  obtain ⟨bs, hbags, hwalk⟩ := unlock_eq_ok_iff_walk.mp hopen
  obtain ⟨earlier, k, later, leaf, hselects, -, -, hcertificate⟩ :=
    entries_eq_singleton_iff.mp (walk_none_eq_ok_iff.mp hwalk)
  obtain ⟨labels, hmem⟩ := mem_of_partner? hselects.partner
  rw [hcertificate]
  exact parse_of_bags hbags hmem

/-- What is opened can be looked at: its certificate parses, and says when it
is valid, its serial number, whether it issued itself and under which
algorithm it is signed. There is a summary unless the public key, the common
name, the basic constraints or the private key cannot be decoded, and where
there is none it is one of these that it fails with. -/
theorem inspectable_of_unlock {b : OpenedBundle}
    (hopen : unlock der password = .ok b) :
    ∃ c, Certificate.parse b.certificate = .ok c
      ∧ Inspect.validity b.certificate = .ok c.validity
      ∧ Inspect.serialHex b.certificate = .ok c.serialHex
      ∧ Inspect.selfIssued b.certificate = .ok c.selfIssued
      ∧ Inspect.signatureAlgorithm b.certificate
        = .ok c.signatureAlgorithmText
      ∧ (∀ why, b.summary = .error why → b.Undecoded why)
      ∧ ((∃ s, b.summary = .ok s) ↔ ∀ why, ¬ b.Undecoded why) := by
  obtain ⟨c, hparse⟩ := parse_of_unlock hopen
  have hask {α : Type} := Inspect.ask_eq (α := α) hparse
  refine ⟨c, hparse, hask _, hask _, hask _, hask _,
    fun why => OpenedBundle.undecoded_of_summary hparse, ?_⟩
  constructor
  · rintro ⟨s, hs⟩ why hundecoded
    exact OpenedBundle.summary_of_undecoded hundecoded s hs
  · intro hall
    cases hsummary : b.summary with
    | ok s => exact ⟨s, rfl⟩
    | error why =>
        exact absurd (OpenedBundle.undecoded_of_summary hparse hsummary)
          (hall why)

/-- The least certificate opens with a key that is none: it shows its dates
and its serial number, and has no summary. -/
theorem inspectable_of_unlock_least :
    ∃ der b why, unlock der "" = .ok b
      ∧ Inspect.validity b.certificate = .ok (⟨0, 0⟩, ⟨0, 0⟩)
      ∧ Inspect.serialHex b.certificate = .ok "01"
      ∧ b.summary = .error why ∧ b.Undecoded why := by
  have hname : Bmp.encode? "node" = some [0, 110, 0, 111, 0, 100, 0, 101] := by
    decide
  have hpassword : Bmp.password? "" = some [0, 0] := by decide
  obtain ⟨der, hlock⟩ : ∃ der, lock
      ⟨⟨0, 0, 0, 0, 0, 0, 0, 0⟩, [1, 2, 3], leastCertificate⟩ "node" ""
      (Writer.drawSalts.run ⟨fun _ => 0, 0⟩).1 = .ok der :=
    lock_leastCertificate hname hpassword (by decide) _
  have hopen := unlock_of_interchangeable (Interchangeable.refl hpassword)
    (sized_drawSalts _) hlock
  obtain ⟨c, -, -, -, -, -, hfails, hsummary⟩ := inspectable_of_unlock hopen
  have hkey : OpenedBundle.Undecoded ⟨"node", [1, 2, 3], leastCertificate⟩
      .privateKey := .privateKey (by decide)
  cases hnone : OpenedBundle.summary
      ⟨"node", [1, 2, 3], leastCertificate⟩ with
  | ok s => exact absurd hkey (hsummary.mp ⟨s, hnone⟩ _)
  | error why =>
      exact ⟨der, _, why, hopen, by decide, by decide, hnone,
        hfails why hnone⟩

end Bundle
end TlsKeystore
