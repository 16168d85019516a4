/-
What a new keystore opens to.

# Whose it is

A bundle that was opened belongs to a name if it stands under it and all
its parts agree: the certificate has the name for its common name and
issued itself, and the key is the one that it was issued for
(`OpenedBundle.BelongsTo`). A keystore of a name is a file that opens to
such a bundle.

# New ones

A new identity is a key that was drawn, its own form, and a certificate that
this key has signed for the name (`generate_eq_ok_iff`). The key is read from
its form with the numbers that the certificate shows, and all else is what the
certificate was asked to say. Locked under the same name, it is a keystore of
that name (`isKeystore_of_newBundle`). Where a key is drawn and
everything is of ordinary size, there is one (`newBundle_isOk`).
-/
import TlsKeystore.Proofs.KeyMatch
import TlsKeystore.Proofs.Password
import TlsKeystore.Provision

namespace TlsKeystore

-- =============================================================== belonging

/-- An opened bundle all of whose parts are of one name. -/
structure OpenedBundle.BelongsTo (b : OpenedBundle) (name : String) : Prop where
  label : b.label = name
  commonName : Inspect.commonName b.certificate = .ok (some name)
  selfIssued : Inspect.selfIssued b.certificate = .ok true
  keyMatches : b.keyMatches = .ok true

/-- The content of a file that opens to a bundle of that name. -/
def Bundle.IsKeystore (password name : String) (content : Bytes) : Prop :=
  ∃ b, Bundle.unlock content password = .ok b ∧ b.BelongsTo name

section Signed

variable {t : CertificateTerms} {k : PrivateKey} {certificate : Bytes}

/-- A certificate that a fit key has signed for itself belongs, with that
key, to the name that it was signed for. -/
theorem belongsTo_of_selfSign (hfit : k.Fit)
    (hsign : t.selfSign k = .ok certificate) :
    OpenedBundle.BelongsTo ⟨t.commonName, k.encode, certificate⟩
      t.commonName := by
  obtain ⟨signed, signature, -, -, -, hparse⟩ :=
    CertificateTerms.parse_selfSign hsign
  have hask {α : Type} := Inspect.ask_eq (α := α) hparse
  have hself : (t.written k signed signature).selfIssued = true := by
    simp [Certificate.selfIssued, CertificateTerms.written]
  refine ⟨rfl, ?_, ?_, ?_⟩
  · exact (hask _).trans (CertificateTerms.commonName_written ..)
  · rw [Inspect.selfIssued, hask, hself]
  · exact OpenedBundle.keyMatches_encode hfit hsign t.commonName

/-- The summary of such a certificate, with the key, says that they match. -/
theorem summary_of_selfSign (hfit : k.Fit)
    (hsign : t.selfSign k = .ok certificate) (label : String) :
    ∃ s, OpenedBundle.summary ⟨label, k.encode, certificate⟩ = .ok s
      ∧ s.keyMatches = true := by
  obtain ⟨signed, signature, -, -, -, hparse⟩ :=
    CertificateTerms.parse_selfSign hsign
  have hask {α : Type} := Inspect.ask_eq (α := α) hparse
  have hmatch := OpenedBundle.keyMatches_encode hfit hsign label
  obtain ⟨s, hs⟩ := OpenedBundle.summary_isOk_iff
    (b := ⟨label, k.encode, certificate⟩).mpr
    ⟨⟨_, (hask _).trans (CertificateTerms.commonName_written ..)⟩,
      ⟨_, (hask _).trans (CertificateTerms.caConstraint_written ..)⟩,
      ⟨_, rsaPublicKey_selfSign hsign⟩, ⟨_, hmatch⟩⟩
  have hshown := (OpenedBundle.answers_of_summary hs).keyMatches
  exact ⟨s, hs, Except.ok.inj (hshown.symm.trans hmatch)⟩

end Signed

-- ========================================================== new identities

namespace Identity

variable {name : String} {subject : SubjectTemplate} {now : Instant}
  {e : Entropy}

/-- The terms of a new certificate, from random octets for its number. -/
def newTerms (name : String) (subject : SubjectTemplate) (now : Instant)
    (random : Bytes) : CertificateTerms :=
  CertificateRequest.terms { commonName := name, subject } now random

/-- The bounds that are given for a new certificate are those that it would
have been given by the clock. -/
theorem terms_eq_newTerms (clock : Instant) (random : Bytes) :
    CertificateRequest.terms
        { commonName := name, subject
          notBefore := some (now.later (-CertificateRequest.backdate))
          notAfter := some (now.later CertificateRequest.validity) }
        clock random
      = newTerms name subject now random := rfl

/-- Once a key is drawn, all depends on the certificate. -/
theorem generate_of_key {k : PrivateKey}
    (hkey : (PrivateKey.generate?.run e).1 = some k) :
    ((generate name subject now).run e).1
      = (((newTerms name subject now
          ((Draw.octets CertificateRequest.serialLength).run
            (PrivateKey.generate?.run e).2).1).selfSign k).map
          fun certificate => ⟨k, k.encode, certificate⟩).mapError .issue := by
  rw [generate, Draw.run_bind]
  generalize PrivateKey.generate?.run e = drawn at hkey
  obtain ⟨k?, e'⟩ := drawn
  obtain rfl : k? = some k := hkey
  dsimp only
  rw [Draw.run_bind]
  generalize (Draw.octets CertificateRequest.serialLength).run e' = random
  simp only [terms_eq_newTerms]
  cases (newTerms name subject now random.1).selfSign k <;> rfl

/-- An identity is a drawn key in its own form, with a certificate that it
has signed. -/
theorem generate_eq_ok_iff {identity : Identity} :
    ((generate name subject now).run e).1 = .ok identity
      ↔ ∃ k certificate, (PrivateKey.generate?.run e).1 = some k
        ∧ (newTerms name subject now
            ((Draw.octets CertificateRequest.serialLength).run
              (PrivateKey.generate?.run e).2).1).selfSign k = .ok certificate
        ∧ identity = ⟨k, k.encode, certificate⟩ := by
  cases hkey : (PrivateKey.generate?.run e).1 with
  | none =>
      have hnone : ((generate name subject now).run e).1 = .error .noKey := by
        rw [generate, Draw.run_bind, hkey]
        rfl
      simp [hnone]
  | some k =>
      rw [generate_of_key hkey]
      cases hsign : (newTerms name subject now
          ((Draw.octets CertificateRequest.serialLength).run
            (PrivateKey.generate?.run e).2).1).selfSign k with
      | error why => simp [Except.map, Except.mapError, hsign]
      | ok certificate =>
          simp [Except.map, Except.mapError, hsign, eq_comm]

end Identity

-- ============================================================ new bundles

namespace Plan

open Pkcs12

variable {p : Plan} {name : String} {now : Instant} {e : Entropy}

/-- A new bundle is one that a new identity is locked into. -/
theorem newBundle_eq_ok_iff {der : Bytes} :
    ((p.newBundle name now).run e).1 = .ok der
      ↔ ∃ identity,
        ((Identity.generate name p.subject now).run e).1 = .ok identity
        ∧ Bundle.lock identity name p.password (Writer.drawSalts.run
            ((Identity.generate name p.subject now).run e).2).1 = .ok der := by
  rw [newBundle, Draw.run_bind]
  generalize (Identity.generate name p.subject now).run e = made
  obtain ⟨made, e'⟩ := made
  cases made with
  | error why =>
      constructor
      · intro h
        cases h
      · rintro ⟨identity, h, -⟩
        cases h
  | ok identity =>
      show (Bundle.lock identity name p.password
        (Writer.drawSalts.run e').1).mapError KeystoreFailure.lock
      = .ok der ↔ _
      simp only [mapError_eq_ok_iff, Except.ok.injEq, exists_eq_left']

/-- A new bundle opens to a key that is fit and a certificate that this key
has signed. -/
theorem unlock_of_newBundle {der : Bytes}
    (h : ((p.newBundle name now).run e).1 = .ok der) :
    ∃ (k : PrivateKey) (certificate random : Bytes), k.Fit
      ∧ (Identity.newTerms name p.subject now random).selfSign k
        = .ok certificate
      ∧ Bundle.unlock der p.password
        = .ok ⟨name, k.encode, certificate⟩ := by
  obtain ⟨identity, hidentity, hlock⟩ := newBundle_eq_ok_iff.mp h
  obtain ⟨k, certificate, hkey, hsign, rfl⟩ :=
    Identity.generate_eq_ok_iff.mp hidentity
  obtain ⟨-, -, -, bmp, -, -, -, -, hpassword, -⟩ :=
    write_eq_ok_iff.mp (Bundle.lock_eq_ok_iff.mp hlock)
  exact ⟨k, certificate, _, PrivateKey.fit_of_generate? hkey, hsign,
    Bundle.unlock_of_interchangeable (Interchangeable.refl hpassword)
      (sized_drawSalts _) hlock⟩

/-- A new bundle is a keystore of the name that it was made for. -/
theorem isKeystore_of_newBundle {der : Bytes}
    (h : ((p.newBundle name now).run e).1 = .ok der) :
    Bundle.IsKeystore p.password name der := by
  obtain ⟨k, certificate, random, hfit, hsign, hunlock⟩ :=
    unlock_of_newBundle h
  exact ⟨_, hunlock, belongsTo_of_selfSign hfit hsign⟩

-- ============================================================== there is one

/-- There is a new bundle where a key of two primes is drawn, the dates can
be written, all texts stand in the plane, and everything is of ordinary
size. -/
theorem newBundle_isOk {k : PrivateKey} {signed subject bmpName bmp : Bytes}
    (hkey : (PrivateKey.generate?.run e).1 = some k) (hsound : k.Sound)
    {t : CertificateTerms}
    (ht : Identity.newTerms name p.subject now
      ((Draw.octets CertificateRequest.serialLength).run
        (PrivateKey.generate?.run e).2).1 = t)
    (hsigned : t.toSign? k = some signed)
    (hsubject : Bmp.encode? t.nameText = some subject)
    (hname : Bmp.encode? name = some bmpName)
    (hpassword : Bmp.password? p.password = some bmp)
    (hlength : k.encode.length + signed.length + subject.length
      + bmpName.length ≤ 70000000) :
    ∃ der, ((p.newBundle name now).run e).1 = .ok der := by
  have hsigns := (PrivateKey.fit_of_generate? hkey).signs
  have hroom : signed.length + 560 ≤ Bytes.maxLength := by
    unfold Bytes.maxLength
    omega
  obtain ⟨certificate, hsign⟩ :=
    CertificateTerms.selfSign_isOk hsigns hsound hsigned hroom
  have hidentity := Identity.generate_eq_ok_iff.mpr
    ⟨k, certificate, hkey, ht ▸ hsign, rfl⟩
  obtain ⟨der, hlock⟩ := Bundle.lock_isOk_of_selfSign hsigns hsign hsigned
    hsubject hname hpassword hlength
    ((Identity.generate name p.subject now).run e).2
  exact ⟨der, newBundle_eq_ok_iff.mpr ⟨_, hidentity, hlock⟩⟩

/-- The terms of the first certificate for `auth` that `plainStream` gives. -/
def authTerms : CertificateTerms :=
  Identity.newTerms "auth" .standard ⟨0⟩ ((Draw.octets
    CertificateRequest.serialLength).run
      { PrivateKey.plainStream with used := 256 }).1

/-- With these octets there is a bundle for `auth`, wherever a plan may have it
stored. -/
theorem newBundle_auth (hsubject : p.subject = .standard)
    (hpassword : p.password = "changeit") :
    ∃ der, ((p.newBundle "auth" ⟨0⟩).run PrivateKey.plainStream).1
      = .ok der := by
  have hkey := PrivateKey.run_generate?_plainStream
  have hsigned : (authTerms.toSign? PrivateKey.drawn).any
      (·.length ≤ 5000) = true := by decide +kernel
  have hissuer : (Bmp.encode? authTerms.nameText).any
      (·.length ≤ 5000) = true := by decide +kernel
  have hencode : PrivateKey.drawn.encode.length ≤ 5000 := by decide +kernel
  obtain ⟨signed, hsigned, hsignedLength⟩ :=
    (Option.any_eq_true _ _).mp hsigned
  obtain ⟨issuer, hissuer, hissuerLength⟩ :=
    (Option.any_eq_true _ _).mp hissuer
  rw [decide_eq_true_eq] at hsignedLength hissuerLength
  have hname : Bmp.encode? "auth" = some [0, 97, 0, 117, 0, 116, 0, 104] := by
    decide
  have hbmp : Bmp.password? p.password = some [0, 99, 0, 104, 0, 97, 0,
      110, 0, 103, 0, 101, 0, 105, 0, 116, 0, 0] := by
    rw [hpassword]
    decide
  refine newBundle_isOk (t := authTerms) (by rw [hkey])
    PrivateKey.sound_drawn (by rw [hkey, hsubject]; rfl) hsigned hissuer hname
    hbmp ?_
  simp only [List.length_cons, List.length_nil]
  omega

end Plan
end TlsKeystore
