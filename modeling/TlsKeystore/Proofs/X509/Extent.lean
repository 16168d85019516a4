/-
How much of its input a certificate takes up.

A certificate is one sequence, and everything that is read of it is read
from the content of that sequence. Its extent are the octets of the
sequence (`Extent`): they alone decide what is read, and with fewer of them
nothing is read at all. So every question is answered as if nothing stood
behind the certificate, be it another one (`sameAnswers_append`).
-/
import TlsKeystore.Proofs.Asn1.Extent
import TlsKeystore.Proofs.Results
import TlsKeystore.Proofs.X509.Constraints

namespace TlsKeystore

-- =========================================================== certificates

namespace Certificate

/-- Octets that a certificate takes up: it is read from them whatever stands
behind them, and nothing is read from fewer of them. -/
structure Extent (own : Bytes) (c : Certificate) : Prop where
  whole : ∀ behind, parse (own ++ behind) = .ok c
  cut : ∀ part, part <+: own → part ≠ own → parse part = .error .malformed

/-- A certificate is what its sequence holds. -/
theorem parse_of_readSequence? {b content rest : Bytes}
    (h : Ber.readSequence? b = some (content, rest)) :
    parse b = (readFields content).map (·.1) := by
  rw [parse, h]

/-- Where no sequence is at the front there is no certificate. -/
theorem parse_of_readSequence?_eq_none {b : Bytes}
    (h : Ber.readSequence? b = none) : parse b = .error .malformed := by
  rw [parse, h]

/-- Octets that are read as a certificate begin with its extent. -/
theorem exists_extent {der : Bytes} {c : Certificate}
    (hparse : parse der = .ok c) : ∃ own, own <+: der ∧ Extent own c := by
  cases hsequence : Ber.readSequence? der with
  | none =>
      rw [parse_of_readSequence?_eq_none hsequence] at hparse
      cases hparse
  | some found =>
      obtain ⟨content, rest⟩ := found
      rw [parse_of_readSequence? hsequence] at hparse
      obtain ⟨own, rfl, hown⟩ := Ber.delimits_readSequence? _ _ _ hsequence
      refine ⟨own, List.prefix_append own rest, ?_, ?_⟩
      · intro behind
        exact (parse_of_readSequence? (hown behind)).trans hparse
      · intro part hfront hne
        have hwhole := hown []
        rw [List.append_nil] at hwhole
        exact parse_of_readSequence?_eq_none
          (Ber.delimits_readSequence?.eq_none_of_cut hwhole hfront hne)

end Certificate

-- ============================================================== questions

namespace Inspect

/-- Octets to which every question has the same answer, or fails alike. -/
structure SameAnswers (der der' : Bytes) : Prop where
  commonName : commonName der = commonName der'
  selfIssued : selfIssued der = selfIssued der'
  caConstraint : caConstraint der = caConstraint der'
  validity : validity der = validity der'
  serialHex : serialHex der = serialHex der'
  signatureAlgorithm : signatureAlgorithm der = signatureAlgorithm der'
  rsaPublicKey : rsaPublicKey der = rsaPublicKey der'

/-- Octets that are read as the same certificate are not told apart. -/
theorem sameAnswers_of_parse {der der' : Bytes} {c : Certificate}
    (h : Certificate.parse der = .ok c) (h' : Certificate.parse der' = .ok c) :
    SameAnswers der der' := by
  have hask {α : Type} (question : Certificate → Except InspectFailure α) :
      ask question der = ask question der' := by
    rw [ask_eq h, ask_eq h']
  exact ⟨hask _, hask _, hask _, hask _, hask _, hask _, hask _⟩

/-- Whatever stands behind a certificate, the answers are those to the
certificate alone, be they values or failures. They are those to its extent,
with which the octets begin. Of fewer octets than these nothing is told: no
question to them has an answer. -/
theorem sameAnswers_append {der : Bytes} {c : Certificate}
    (hparse : Certificate.parse der = .ok c) :
    (∀ behind, SameAnswers (der ++ behind) der)
      ∧ ∃ own, own <+: der
        ∧ (∀ behind, SameAnswers (own ++ behind) der)
        ∧ ∀ part, part <+: own → part ≠ own →
          ∀ {α : Type} (question : Certificate → Except InspectFailure α),
            ask question part = .error (.certificate .malformed) := by
  obtain ⟨own, hfront, hextent⟩ := Certificate.exists_extent hparse
  refine ⟨fun behind => ?_, own, hfront, fun behind => ?_, ?_⟩
  · obtain ⟨rest, rfl⟩ := hfront
    rw [List.append_assoc]
    exact sameAnswers_of_parse (hextent.whole _) hparse
  · exact sameAnswers_of_parse (hextent.whole behind) hparse
  · intro part hpart hne α question
    rw [ask, hextent.cut part hpart hne]
    rfl

/-- A certificate with another one behind it shows its own path length, and
not that of the other. -/
theorem sameAnswers_append_pair :
    (∃ c, Certificate.parse (authorityWithin 1) = .ok c)
      ∧ caConstraint (authorityWithin 1 ++ authorityWithin 0)
        = .ok (some ⟨true, some 1, true⟩)
      ∧ caConstraint (authorityWithin 0)
        = .ok (some ⟨true, some 0, true⟩) := by
  have hreads : (Certificate.parse (authorityWithin 1)).toOption.isSome
      = true := by decide +kernel
  obtain ⟨c, hparse⟩ := isSome_toOption_iff.mp hreads
  obtain ⟨hbehind, -⟩ := sameAnswers_append hparse
  have hown : caConstraint (authorityWithin 1)
      = .ok (some ⟨true, some 1, true⟩) := by decide +kernel
  exact ⟨⟨c, hparse⟩, (hbehind _).caConstraint.trans hown,
    by decide +kernel⟩

end Inspect
end TlsKeystore
