/-
How long a certificate is.

What is issued is refused where there can be no room for it. How far away
that is depends on the texts of the subject, which stand there twice, and
on nothing else: everything around them comes to less than three thousand
octets (`exists_toSign?_le`). So a key of two primes signs certificates for
all texts that can be held at all, provided that the bounds of the validity
can be written (`selfSign_isOk_of_writable`).
-/
import TlsKeystore.Proofs.X509.Issue

namespace TlsKeystore

-- ================================================================== names

/-- How many octets the texts of a name take. -/
def Name.textLength (attributes : List (Oid × String)) : Nat :=
  (attributes.map fun a => (Utf8.encode a.2).length).sum

/-- An attribute takes its type, its text, and three tags with lengths. -/
private theorem Name.length_encodeRelative_le {kind : Oid} {value : String}
    (hroom : (Utf8.encode value).length + 35 ≤ Bytes.maxLength)
    (hkind : (Der.oid kind).length = 5) :
    (Name.encodeRelative kind value).length
      ≤ (Utf8.encode value).length + 35 := by
  have hvalue : (Der.utf8String value).length
      ≤ (Utf8.encode value).length + 10 :=
    Der.length_element_le (Nat.le_refl _) (by omega)
  have hattribute : (Der.sequence [Der.oid kind, Der.utf8String value]).length
      ≤ (Utf8.encode value).length + 15 + 10 := by
    refine Der.length_wrap_le ?_ (by omega)
    simp only [List.flatten_cons, List.flatten_nil, List.length_append,
      List.length_nil]
    omega
  refine Der.length_wrap_le (n := (Utf8.encode value).length + 25) ?_
    (by omega)
  simp only [List.flatten_cons, List.flatten_nil, List.length_append,
    List.length_nil]
  omega

/-- A name takes its texts and little more for each. -/
theorem Name.length_encode_le {attributes : List (Oid × String)}
    (hroom : textLength attributes + 220 ≤ Bytes.maxLength)
    (hkinds : ∀ a ∈ attributes, (Der.oid a.1).length = 5)
    (hcount : attributes.length ≤ 6) :
    (encode attributes).length ≤ textLength attributes + 220 := by
  have hparts : ((attributes.map fun a =>
      encodeRelative a.1 a.2).flatten).length
      ≤ textLength attributes + 35 * attributes.length := by
    clear hcount
    induction attributes with
    | nil => exact Nat.le_refl 0
    | cons a attributes ih =>
        simp only [textLength, List.map_cons, List.sum_cons] at hroom ih ⊢
        have hfront : (encodeRelative a.1 a.2).length
            ≤ (Utf8.encode a.2).length + 35 :=
          length_encodeRelative_le (by omega)
            (hkinds a (List.mem_cons_self ..))
        have hrest := ih (by omega)
          fun b hb => hkinds b (List.mem_cons_of_mem _ hb)
        rw [List.flatten_cons, List.length_append, List.length_cons]
        omega
  exact Der.length_wrap_le (n := textLength attributes + 210)
    (hparts.trans (by omega)) (by omega)

namespace CertificateTerms

variable {t : CertificateTerms} {k : PrivateKey}

theorem length_name_le
    (hroom : Name.textLength t.nameAttributes + 220 ≤ Bytes.maxLength) :
    (Name.encode t.nameAttributes).length
      ≤ Name.textLength t.nameAttributes + 220 := by
  have hkinds : ∀ kind ∈ [NameAttribute.commonName, NameAttribute.orgUnit,
      NameAttribute.organization, NameAttribute.locality,
      NameAttribute.state, NameAttribute.country],
      (Der.oid kind).length = 5 := by decide +kernel
  have hcount : t.nameAttributes.length = 6 := rfl
  refine Name.length_encode_le hroom (fun a ha => ?_) hcount.le
  exact hkinds a.1 (List.mem_map_of_mem (f := Prod.fst) ha)

-- ============================================================== all parts

private theorem length_natural_le {n : Nat}
    (hn : Bytes.byteLength n ≤ 512) : (Der.natural n).length ≤ 513 + 6 :=
  Element.length_encode_le ((Der.length_naturalOctets_le n).trans (by omega))
    (by decide)

/-- The public part of a signing key. -/
theorem length_publicKeyInfo_le (hsigns : k.signs = true) :
    (publicKeyInfo k).length ≤ 1100 := by
  have hexponent : Bytes.byteLength k.publicExponent ≤ 512 := by
    have hbelow : k.publicExponent < 256 ^ 5 := by
      simp only [PrivateKey.signs, Bool.and_eq_true, decide_eq_true_eq]
        at hsigns
      have hmax : PrivateKey.maxPublicExponent = 8589934591 := rfl
      omega
    exact (Bytes.byteLength_le_iff.mpr hbelow).trans (by omega)
  have hmodulusNumber :=
    length_natural_le (PrivateKey.byteLength_modulus_le hsigns)
  have hexponentNumber := length_natural_le hexponent
  have hnumbers : (Der.sequence [Der.natural k.modulus,
      Der.natural k.publicExponent]).length ≤ 1038 + 10 := by
    refine Der.length_wrap_le ?_ (by decide)
    simp only [List.flatten_cons, List.flatten_nil, List.length_append,
      List.length_nil]
    omega
  have hbits : (Der.bitString (Der.sequence [Der.natural k.modulus,
      Der.natural k.publicExponent])).length ≤ 1049 + 6 := by
    refine Element.length_encode_le ?_ (by decide)
    simp only [List.length_cons]
    omega
  have halgorithm : (Der.sequence [Der.oid PrivateKey.rsaEncryption,
      Der.null]).length = 15 := by decide +kernel
  refine Der.length_wrap_le (n := 1090) ?_ (by decide)
  simp only [List.flatten_cons, List.flatten_nil, List.length_append,
    List.length_nil, halgorithm]
  omega

/-- The extensions of an authority. -/
theorem length_authorityExtensions_le (k : PrivateKey) :
    (authorityExtensions k).length ≤ 120 := by
  have hdigest : ((Sha256.sha256.digest (publicKeyInfo k)).take 20).length
      ≤ 20 := List.length_take_le ..
  unfold authorityExtensions
  dsimp only
  generalize (Sha256.sha256.digest (publicKeyInfo k)).take 20 = digest
    at hdigest
  have hinner : (Der.octetString digest).length ≤ 20 + 6 :=
    Element.length_encode_le hdigest (by decide)
  have houter : (Der.octetString (Der.octetString digest)).length ≤ 26 + 6 :=
    Element.length_encode_le hinner (by decide)
  have hkind : (Der.oid keyIdentifier).length = 5 := by decide +kernel
  have hidentifier : (Der.sequence [Der.oid keyIdentifier,
      Der.octetString (Der.octetString digest)]).length ≤ 37 + 10 := by
    refine Der.length_wrap_le ?_ (by decide)
    simp only [List.flatten_cons, List.flatten_nil, List.length_append,
      List.length_nil, hkind]
    omega
  have hconstraints : (Der.sequence [Der.oid Certificate.basicConstraints,
      Der.boolean true, Der.octetString (Der.sequence
        [Der.boolean true])]).length = 17 := by decide +kernel
  have hboth : (Der.sequence [
      Der.sequence [Der.oid keyIdentifier,
        Der.octetString (Der.octetString digest)],
      Der.sequence [Der.oid Certificate.basicConstraints, Der.boolean true,
        Der.octetString (Der.sequence [Der.boolean true])]]).length
      ≤ 64 + 10 := by
    refine Der.length_wrap_le ?_ (by decide)
    simp only [List.flatten_cons, List.flatten_nil, List.length_append,
      List.length_nil, hconstraints]
    omega
  refine Der.length_wrap_le (n := 110) ?_ (by decide)
  simp only [List.flatten_cons, List.flatten_nil, List.append_nil]
  omega

/-- Where the bounds of the validity can be written, there is something to
sign, of the length of the texts twice and of the number, and little
more. -/
theorem exists_toSign?_le (hsigns : k.signs = true)
    (hfirst : X509Time.Writable t.notBefore.seconds)
    (hlast : X509Time.Writable t.notAfter.seconds)
    (hroom : 2 * Name.textLength t.nameAttributes + t.serial.length + 4000
      ≤ Bytes.maxLength) :
    ∃ signed, t.toSign? k = some signed
      ∧ signed.length ≤ 2 * Name.textLength t.nameAttributes
          + t.serial.length + 3000 := by
  obtain ⟨first, hfirst, hfirstLength⟩ := X509Time.exists_encode?_iff.mpr hfirst
  obtain ⟨last, hlast, hlastLength⟩ := X509Time.exists_encode?_iff.mpr hlast
  have hname : (Name.encode (t.subject.attributes t.commonName)).length
      ≤ Name.textLength t.nameAttributes + 220 :=
    length_name_le (by omega)
  have hkey := length_publicKeyInfo_le hsigns
  have hextensions : (if t.ca then authorityExtensions k else []).length
      ≤ 120 := by
    split
    · exact length_authorityExtensions_le k
    · exact Nat.zero_le _
  have hnumber : (Der.natural (Bytes.toNat t.serial)).length
      ≤ t.serial.length + 1 + 10 := by
    have hbytes : Bytes.byteLength (Bytes.toNat t.serial)
        ≤ t.serial.length := Bytes.byteLength_le_iff.mpr (Bytes.toNat_lt _)
    have hoctets := (Der.length_naturalOctets_le _).trans
      (Nat.add_le_add_right hbytes 1)
    exact Der.length_element_le hoctets (by omega)
  have hversion : (Der.wrap (Tag.explicit 0) [Der.natural 2]).length = 5 := by
    decide
  have halgorithm : algorithm.length = 15 := by decide +kernel
  have hvalidity : (Der.sequence [first, last]).length ≤ 34 + 10 := by
    refine Der.length_wrap_le ?_ (by decide)
    simp only [List.flatten_cons, List.flatten_nil, List.length_append,
      List.length_nil]
    omega
  refine ⟨_, by rw [toSign?, hfirst, hlast]; rfl, ?_⟩
  refine (Der.length_wrap_le (n := 2 * Name.textLength t.nameAttributes
    + t.serial.length + 2000) ?_ (by omega)).trans (by omega)
  simp only [List.flatten_cons, List.flatten_nil, List.length_append,
    List.length_nil, hversion, halgorithm]
  omega

/-- So a signing key of two primes issues a certificate for them. -/
theorem selfSign_isOk_of_writable (hsigns : k.signs = true)
    (hsound : k.Sound) (hfirst : X509Time.Writable t.notBefore.seconds)
    (hlast : X509Time.Writable t.notAfter.seconds)
    (hroom : 2 * Name.textLength t.nameAttributes + t.serial.length + 4000
      ≤ Bytes.maxLength) :
    ∃ der, t.selfSign k = .ok der := by
  obtain ⟨signed, hsigned, hlength⟩ :=
    exists_toSign?_le hsigns hfirst hlast hroom
  exact selfSign_isOk hsigns hsound hsigned (by omega)

end CertificateTerms
end TlsKeystore
