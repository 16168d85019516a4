/-
A summary says what the questions say that are asked one by one.

# One reading

Every question to octets reads the certificate anew; the summary reads it
once. Where it is read, both come to the same certificate, so that a
summary is nothing but the answers to all questions
(`summary_eq_ok_iff`). Where it is not read, all of them fail alike
(`Inspect.ask_of_error`).

# Failures

Four things can fail once the certificate is read, and the summary asks
for them in an order: the public key, the common name, the constraints,
the private key. What is reported is the first failure in that order, as
if all had been asked one by one (`failure?_summary`).
-/
import TlsKeystore.OpenedBundle
import TlsKeystore.Proofs.Results
import TlsKeystore.Proofs.X509.Inspect

namespace TlsKeystore

-- ================================================================ octets

namespace Inspect

/-- A question to octets that are no certificate fails for what is wrong
with them, whatever it asks. -/
theorem ask_of_error {α : Type} {der : Bytes} {d : Certificate.Defect}
    (h : Certificate.parse der = .error d)
    (question : Certificate → Except InspectFailure α) :
    ask question der = .error (.certificate d) := by
  rw [ask, h]
  rfl

/-- A question that every certificate has an answer to fails only where
there is no certificate. -/
theorem failure?_ask_ok {α : Type} (answer : Certificate → α) (der : Bytes) :
    failure? (ask (fun c => .ok (answer c)) der)
      = (failure? (Certificate.parse der)).map .certificate := by
  cases hparse : Certificate.parse der with
  | error d =>
      rw [ask_of_error hparse]
      rfl
  | ok c =>
      rw [ask_eq hparse]
      rfl

end Inspect

namespace OpenedBundle

-- ================================================================== keys

/-- The private key of a bundle, read from its form. -/
def privateKey (b : OpenedBundle) : Except SummaryFailure PrivateKey :=
  match PrivateKey.decode? b.key with
  | none => .error .privateKey
  | some key => .ok key

/-- Whether the numbers of a key are those that are shown. -/
def hasNumbers (k : RsaPublicOctets) (key : PrivateKey) : Bool :=
  Bytes.ofNat key.modulus == k.modulus
    && Bytes.ofNat key.publicExponent == k.exponent

/-- Keys are compared once the private one is read, and not otherwise. -/
theorem keyMatchesOctets_eq (b : OpenedBundle) (k : RsaPublicOctets) :
    b.keyMatchesOctets k = b.privateKey.map (hasNumbers k) := by
  unfold keyMatchesOctets privateKey
  cases PrivateKey.decode? b.key <;> rfl

-- ================================================================ answers

/-- A summary that holds the answer to every question. -/
structure Answers (b : OpenedBundle) (s : Summary) : Prop where
  label : s.label = b.label
  commonName : Inspect.commonName b.certificate = .ok s.commonName
  selfIssued : Inspect.selfIssued b.certificate = .ok s.selfIssued
  serial : Inspect.serialHex b.certificate = .ok s.serial
  validity : Inspect.validity b.certificate = .ok (s.notBefore, s.notAfter)
  ca : Inspect.caConstraint b.certificate = .ok s.ca
  signatureAlgorithm :
    Inspect.signatureAlgorithm b.certificate = .ok s.signatureAlgorithm
  keyMatches : b.keyMatches = .ok s.keyMatches

variable {b : OpenedBundle} {c : Certificate}

/-- There is one answer to every question. -/
theorem Answers.unique {s s' : Summary} (h : b.Answers s)
    (h' : b.Answers s') : s = s' := by
  obtain ⟨label, commonName, selfIssued, serial, notBefore, notAfter, ca,
    signatureAlgorithm, keyMatches⟩ := s
  have hlabel := h.label.trans h'.label.symm
  have hname := h.commonName.symm.trans h'.commonName
  have hself := h.selfIssued.symm.trans h'.selfIssued
  have hserial := h.serial.symm.trans h'.serial
  have hvalidity := h.validity.symm.trans h'.validity
  have hca := h.ca.symm.trans h'.ca
  have halgorithm := h.signatureAlgorithm.symm.trans h'.signatureAlgorithm
  have hkey := h.keyMatches.symm.trans h'.keyMatches
  simp_all

/-- The keys are compared by the numbers that the certificate shows. -/
theorem keyMatches_of_parse (hparse : Certificate.parse b.certificate = .ok c) :
    b.keyMatches = c.rsaPublicKey.mapError .certificate >>= fun k =>
      b.keyMatchesOctets k := by
  have hkey : Inspect.rsaPublicKey b.certificate = c.rsaPublicKey :=
    Inspect.ask_eq hparse _
  rw [keyMatches, hkey]

/-- The summary of a certificate that was read, by its four steps that can
fail. -/
theorem summary_of_parse (hparse : Certificate.parse b.certificate = .ok c) :
    b.summary = c.rsaPublicKey.mapError .certificate >>= fun k =>
      c.commonName.mapError .certificate >>= fun commonName =>
      c.caConstraint.mapError .certificate >>= fun ca =>
      b.keyMatchesOctets k >>= fun keyMatches =>
      .ok { label := b.label, commonName, selfIssued := c.selfIssued
            serial := c.serialHex, notBefore := c.notBefore
            notAfter := c.notAfter, ca
            signatureAlgorithm := c.signatureAlgorithmText, keyMatches } := by
  rw [summary, Inspect.ask_eq hparse]
  rfl

/-- A summary holds the answer to every question. -/
theorem answers_of_summary {s : Summary} (h : b.summary = .ok s) :
    b.Answers s := by
  cases hparse : Certificate.parse b.certificate with
  | error d =>
      rw [summary, Inspect.ask_of_error hparse] at h
      cases h
  | ok c =>
      have hask {α : Type} := Inspect.ask_eq (α := α) hparse
      rw [summary_of_parse hparse] at h
      obtain ⟨k, hk, h⟩ := bind_eq_ok_iff.mp h
      obtain ⟨name, hname, h⟩ := bind_eq_ok_iff.mp h
      obtain ⟨ca, hca, h⟩ := bind_eq_ok_iff.mp h
      obtain ⟨matched, hmatched, h⟩ := bind_eq_ok_iff.mp h
      obtain rfl := Except.ok.inj h
      refine ⟨rfl, ?_, hask _, hask _, hask _, ?_, hask _, ?_⟩
      · exact (hask _).trans (mapError_eq_ok_iff.mp hname)
      · exact (hask _).trans (mapError_eq_ok_iff.mp hca)
      · rw [keyMatches_of_parse hparse, hk]
        exact hmatched

/-- Four answers are enough for a summary. -/
theorem summary_isOk_iff :
    (∃ s, b.summary = .ok s)
      ↔ (∃ name, Inspect.commonName b.certificate = .ok name)
        ∧ (∃ ca, Inspect.caConstraint b.certificate = .ok ca)
        ∧ (∃ k, Inspect.rsaPublicKey b.certificate = .ok k)
        ∧ ∃ matched, b.keyMatches = .ok matched := by
  constructor
  · rintro ⟨s, h⟩
    have ha := answers_of_summary h
    obtain ⟨k, hk, -⟩ := bind_eq_ok_iff.mp ha.keyMatches
    exact ⟨⟨_, ha.commonName⟩, ⟨_, ha.ca⟩,
      ⟨k, mapError_eq_ok_iff.mp hk⟩, ⟨_, ha.keyMatches⟩⟩
  · rintro ⟨⟨name, hname⟩, ⟨ca, hca⟩, -, ⟨matched, hmatched⟩⟩
    cases hparse : Certificate.parse b.certificate with
    | error d =>
        rw [Inspect.commonName, Inspect.ask_of_error hparse] at hname
        cases hname
    | ok c =>
        rw [Inspect.commonName, Inspect.ask_eq hparse] at hname
        rw [Inspect.caConstraint, Inspect.ask_eq hparse] at hca
        rw [keyMatches_of_parse hparse] at hmatched
        obtain ⟨k, hk, hmatched⟩ := bind_eq_ok_iff.mp hmatched
        rw [summary_of_parse hparse]
        exact ⟨_, bind_eq_ok_iff.mpr ⟨k, hk, bind_eq_ok_iff.mpr
          ⟨name, mapError_eq_ok_iff.mpr hname, bind_eq_ok_iff.mpr
            ⟨ca, mapError_eq_ok_iff.mpr hca, bind_eq_ok_iff.mpr
              ⟨matched, hmatched, rfl⟩⟩⟩⟩⟩

/-- A summary is the answers to all questions, and nothing but them. -/
theorem summary_eq_ok_iff {s : Summary} :
    b.summary = .ok s ↔ b.Answers s := by
  constructor
  · exact answers_of_summary
  · intro ha
    obtain ⟨k, hk, -⟩ := bind_eq_ok_iff.mp ha.keyMatches
    obtain ⟨s', hs'⟩ := summary_isOk_iff.mpr ⟨⟨_, ha.commonName⟩, ⟨_, ha.ca⟩,
      ⟨k, mapError_eq_ok_iff.mp hk⟩, ⟨_, ha.keyMatches⟩⟩
    rw [hs', ha.unique (answers_of_summary hs')]

-- =============================================================== failures

/-- What can go wrong with a bundle, in the order in which it is looked
for: the certificate, its public key, its common name, its constraints, the
private key. Each is what the question alone would fail with. -/
def failures (b : OpenedBundle) : List (Option SummaryFailure) :=
  [(failure? (Certificate.parse b.certificate)).map
      (.certificate <| .certificate ·),
    (failure? (Inspect.rsaPublicKey b.certificate)).map .certificate,
    (failure? (Inspect.commonName b.certificate)).map .certificate,
    (failure? (Inspect.caConstraint b.certificate)).map .certificate,
    failure? b.privateKey]

/-- The summary fails with the first thing that goes wrong. -/
theorem failure?_summary : failure? b.summary = b.failures.findSome? id := by
  unfold failures
  cases hparse : Certificate.parse b.certificate with
  | error d =>
      rw [summary, Inspect.ask_of_error hparse]
      rfl
  | ok c =>
      have hkey : Inspect.rsaPublicKey b.certificate = c.rsaPublicKey :=
        Inspect.ask_eq hparse _
      have hname : Inspect.commonName b.certificate = c.commonName :=
        Inspect.ask_eq hparse _
      have hca : Inspect.caConstraint b.certificate = c.caConstraint :=
        Inspect.ask_eq hparse _
      rw [summary_of_parse hparse, hkey, hname, hca]
      simp only [keyMatchesOctets_eq]
      -- each step hands on to the next one, or is the first to fail
      cases c.rsaPublicKey with
      | error why => rfl
      | ok k =>
          cases c.commonName with
          | error why => rfl
          | ok name =>
              cases c.caConstraint with
              | error why => rfl
              | ok ca => cases b.privateKey <;> rfl

-- =============================================================== agreement

/-- The summary of any octets agrees with the questions asked one by one.
There is one exactly where the common name, the constraints, the public key
and the comparison of the keys have an answer, and it holds just the answers
to all questions. Otherwise it fails with the first thing that goes wrong,
in their order. The remaining four questions fail only where there is no
certificate, and all alike. -/
theorem summary_agrees (b : OpenedBundle) :
    ((∃ s, b.summary = .ok s)
        ↔ (∃ name, Inspect.commonName b.certificate = .ok name)
          ∧ (∃ ca, Inspect.caConstraint b.certificate = .ok ca)
          ∧ (∃ k, Inspect.rsaPublicKey b.certificate = .ok k)
          ∧ ∃ matched, b.keyMatches = .ok matched)
      ∧ (∀ s, b.summary = .ok s ↔ b.Answers s)
      ∧ failure? b.summary = b.failures.findSome? id
      ∧ let unreadable := (failure? (Certificate.parse b.certificate)).map
          InspectFailure.certificate
        failure? (Inspect.selfIssued b.certificate) = unreadable
        ∧ failure? (Inspect.validity b.certificate) = unreadable
        ∧ failure? (Inspect.serialHex b.certificate) = unreadable
        ∧ failure? (Inspect.signatureAlgorithm b.certificate) = unreadable :=
  ⟨summary_isOk_iff, fun _ => summary_eq_ok_iff, failure?_summary,
    Inspect.failure?_ask_ok _ _, Inspect.failure?_ask_ok _ _,
    Inspect.failure?_ask_ok _ _, Inspect.failure?_ask_ok _ _⟩

end OpenedBundle
end TlsKeystore
