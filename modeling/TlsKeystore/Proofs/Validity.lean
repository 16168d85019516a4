/-
When a new certificate is valid.

# The bounds

A new certificate is valid from a day before the clock until five years of
365 days after it. Both bounds are put into the certificate as whole
seconds and come out as the same seconds: a fraction is rounded down
before anything is written, on either side of 1970 (`Instant.seconds_later`),
and the calendar goes there and back without loss in either form of a time.

# The years

There are forms for the years 0 to 9999 (`writable_iff` has the seconds).
Outside them no certificate is issued, rather than one that says something
else (`selfSign_eq_dateOutOfRange_iff`). Inside them nothing but room for
the texts of the subject is asked for, and of the key that it is one of two
primes (`IssuedFor.issued`). A request that names no bounds is given those of
a new certificate (`issuedFor_request`).
-/
import TlsKeystore.Proofs.Keystore
import TlsKeystore.Proofs.X509.Length

namespace TlsKeystore

-- ================================================================= times

/-- Whole seconds later, whatever the fraction. -/
theorem Instant.seconds_later (t : Instant) (s : Int) :
    (t.later s).seconds = t.seconds + s := by
  simp only [later, seconds, perSecond]
  omega

/-- The first second of year 0 and the last one of year 9999. -/
theorem X509Time.writable_iff {s : Int} :
    Writable s ↔ -62167219200 ≤ s ∧ s ≤ 253402300799 :=
  DateTime.year_bounds_iff

-- ========================================================== certificates

namespace CertificateTerms

open X509Time (Writable)

variable {t : CertificateTerms} {k : PrivateKey}

/-- There is something to sign exactly where both bounds can be written. -/
theorem exists_toSign?_iff :
    (∃ signed, t.toSign? k = some signed)
      ↔ Writable t.notBefore.seconds ∧ Writable t.notAfter.seconds := by
  unfold toSign?
  constructor
  · rintro ⟨signed, h⟩
    obtain ⟨_, hfirst, h⟩ := Option.bind_eq_some_iff.mp h
    obtain ⟨_, hlast, -⟩ := Option.bind_eq_some_iff.mp h
    have hwritable {s : Int} {der : Bytes}
        (h : X509Time.encode? s = some der) : Writable s := by
      by_contra hoff
      rw [X509Time.encode?_eq_none hoff] at h
      cases h
    exact ⟨hwritable hfirst, hwritable hlast⟩
  · rintro ⟨hfirst, hlast⟩
    obtain ⟨first, hfirst, -⟩ := X509Time.exists_encode?_iff.mpr hfirst
    obtain ⟨last, hlast, -⟩ := X509Time.exists_encode?_iff.mpr hlast
    rw [hfirst, hlast]
    exact ⟨_, rfl⟩

/-- Dates are complained of where they cannot be written, and nowhere
else. -/
theorem selfSign_eq_dateOutOfRange_iff :
    t.selfSign k = .error .dateOutOfRange
      ↔ ¬ (Writable t.notBefore.seconds ∧ Writable t.notAfter.seconds) := by
  rw [← exists_toSign?_iff (k := k)]
  unfold selfSign
  cases hsigned : t.toSign? k with
  | none => simp
  | some signed =>
      have hsome : ∃ s, some signed = some s := ⟨signed, rfl⟩
      simp only [hsome, not_true_eq_false, iff_false]
      cases hsignature : Signature.sign? k signed with
      | none => simp
      | some signature =>
          dsimp only
          split <;> simp

end CertificateTerms

-- ============================================================== validity

/-- What becomes of a certificate of a key that is to be valid from `first`
to `last`. If it is issued, that is what it says; it is refused for its
dates exactly if they cannot be written; and if they can, a signing key of
two primes issues it, as long as there is room for texts and number of
`length` octets, and for some more. -/
structure IssuedFor (first last : Int) (k : PrivateKey) (length : Nat)
    (result : Except IssueFailure Bytes) : Prop where
  validity : ∀ der, result = .ok der →
    Inspect.validity der = .ok (⟨first, 0⟩, ⟨last, 0⟩)
  refused : result = .error .dateOutOfRange
    ↔ ¬ (X509Time.Writable first ∧ X509Time.Writable last)
  issued : X509Time.Writable first → X509Time.Writable last →
    k.signs = true → k.Sound → length + 4000 ≤ Bytes.maxLength →
    ∃ der, result = .ok der

theorem issuedFor_selfSign {t : CertificateTerms} {first last : Int}
    (hfirst : t.notBefore.seconds = first)
    (hlast : t.notAfter.seconds = last) (k : PrivateKey) :
    IssuedFor first last k
      (2 * Name.textLength t.nameAttributes + t.serial.length)
      (t.selfSign k) where
  validity der h := by
    have hvalidity := validity_selfSign h
    rwa [hfirst, hlast] at hvalidity
  refused := by
    rw [← hfirst, ← hlast]
    exact CertificateTerms.selfSign_eq_dateOutOfRange_iff
  issued hwritable hwritable' hsigns hsound hroom := by
    rw [← hfirst] at hwritable
    rw [← hlast] at hwritable'
    exact CertificateTerms.selfSign_isOk_of_writable hsigns hsound hwritable
      hwritable' hroom

/-- A request that leaves its validity open is given the bounds of a new
identity by the clock. -/
theorem issuedFor_request {r : CertificateRequest}
    (hfirst : r.notBefore = none) (hlast : r.notAfter = none) (now : Instant)
    (random : Bytes) (k : PrivateKey) :
    IssuedFor (now.seconds - 86400) (now.seconds + 157680000) k
      (2 * Name.textLength (r.subject.attributes r.commonName)
        + (r.terms now random).serial.length)
      ((r.terms now random).selfSign k) := by
  have hname : r.subject.attributes r.commonName
      = (r.terms now random).nameAttributes := rfl
  rw [hname]
  refine issuedFor_selfSign ?_ ?_ k
  · rw [CertificateRequest.terms, hfirst]
    exact now.seconds_later (-CertificateRequest.backdate)
  · rw [CertificateRequest.terms, hlast]
    exact now.seconds_later CertificateRequest.validity

/-- A number is as long as what it was drawn from. -/
theorem Identity.length_serial_newTerms (name : String)
    (subject : SubjectTemplate) (now : Instant) (random : Bytes) :
    (newTerms name subject now random).serial.length = random.length := by
  cases random <;> rfl

/-- A new identity at any clock. Its certificate is valid from a day before
the whole second of the clock until five years after it, which is the same
number of seconds always. It is refused for its dates exactly where one of
them is in no year from 0 to 9999. And a request that leaves its validity
open comes, at the same clock, to the same. -/
theorem validity_generate {k : PrivateKey} {e : Entropy}
    (hkey : (PrivateKey.generate?.run e).1 = some k) (name : String)
    (subject : SubjectTemplate) (now : Instant) :
    let first := now.seconds - 86400
    let last := now.seconds + 157680000
    let result := ((Identity.generate name subject now).run e).1
    let inYears := X509Time.Writable first ∧ X509Time.Writable last
    last - first = 157766400
      ∧ (∀ identity, result = .ok identity →
        Inspect.validity identity.certificate
          = .ok (⟨first, 0⟩, ⟨last, 0⟩))
      ∧ (result = .error (.issue .dateOutOfRange) ↔ ¬ inYears)
      ∧ (inYears → k.Sound →
        2 * Name.textLength (subject.attributes name) + 4020
          ≤ Bytes.maxLength →
        ∃ identity, result = .ok identity)
      ∧ ∀ (r : CertificateRequest) (random : Bytes) (k' : PrivateKey),
        r.notBefore = none → r.notAfter = none →
        IssuedFor first last k'
          (2 * Name.textLength (r.subject.attributes r.commonName)
            + (r.terms now random).serial.length)
          ((r.terms now random).selfSign k') := by
  intro first last result inYears
  obtain ⟨t, ht⟩ : ∃ t, Identity.newTerms name subject now
      ((Draw.octets CertificateRequest.serialLength).run
        (PrivateKey.generate?.run e).2).1 = t := ⟨_, rfl⟩
  have hserial : t.serial.length = 20 := by
    rw [← ht, Identity.length_serial_newTerms, Pkcs12.length_octets]
    rfl
  have hissued : IssuedFor first last k
      (2 * Name.textLength (subject.attributes name) + t.serial.length)
      (t.selfSign k) := by
    subst ht
    exact issuedFor_request (r := { commonName := name, subject }) rfl rfl
      now _ k
  have hresult : result = ((t.selfSign k).map fun certificate =>
      ⟨k, k.encode, certificate⟩).mapError .issue := by
    rw [← ht]
    exact Identity.generate_of_key hkey
  refine ⟨by omega, ?_, ?_, ?_, fun r random k' hfirst hlast =>
    issuedFor_request hfirst hlast now random k'⟩
  · intro identity hidentity
    rw [hresult, mapError_eq_ok_iff] at hidentity
    cases hsign : t.selfSign k with
    | error why => simp [hsign, Except.map] at hidentity
    | ok certificate =>
        rw [hsign] at hidentity
        obtain rfl := Except.ok.inj hidentity
        exact hissued.validity certificate hsign
  · rw [hresult, ← hissued.refused]
    cases t.selfSign k <;> simp [Except.map, Except.mapError]
  · rintro ⟨hfirst, hlast⟩ hsound hroom
    have hsigns := (PrivateKey.fit_of_generate? hkey).signs
    obtain ⟨certificate, hsign⟩ :=
      hissued.issued hfirst hlast hsigns hsound (by omega)
    rw [hresult, hsign]
    exact ⟨_, rfl⟩

/-- A nanosecond before 1970 the certificate is valid from the last second
but a day of 1969; and in the last year there is none. -/
theorem validity_generate_plain :
    (∃ identity, ((Identity.generate "auth" .standard ⟨-1⟩).run
          PrivateKey.plainStream).1 = .ok identity
        ∧ Inspect.validity identity.certificate
          = .ok (⟨-86401, 0⟩, ⟨157679999, 0⟩))
      ∧ ((Identity.generate "auth" .standard (.ofSeconds 253402300000)).run
          PrivateKey.plainStream).1 = .error (.issue .dateOutOfRange) := by
  have hkey : (PrivateKey.generate?.run PrivateKey.plainStream).1
      = some PrivateKey.drawn := by
    rw [PrivateKey.run_generate?_plainStream]
  obtain ⟨-, hvalidity, -, hissued, -⟩ :=
    validity_generate hkey "auth" .standard ⟨-1⟩
  obtain ⟨-, -, hrefused, -⟩ :=
    validity_generate hkey "auth" .standard (.ofSeconds 253402300000)
  have hnow : Instant.seconds ⟨-1⟩ = -1 := by decide
  have hlate : (Instant.ofSeconds 253402300000).seconds = 253402300000 := by
    decide
  rw [hnow] at hvalidity hissued
  rw [hlate] at hrefused
  simp only [X509Time.writable_iff] at hissued hrefused
  constructor
  · obtain ⟨identity, hidentity⟩ :=
      hissued (by omega) PrivateKey.sound_drawn (by decide +kernel)
    exact ⟨identity, hidentity, hvalidity identity hidentity⟩
  · exact hrefused.mpr (by omega)

end TlsKeystore
