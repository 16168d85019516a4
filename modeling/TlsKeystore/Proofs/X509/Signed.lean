/-
Issued certificates are signed by their own keys.

A verifier takes everything from the certificate: the octets that are
signed, the name of the algorithm, the public numbers. `Verifies` is what
it would ask, in terms of a certificate that was read and of arithmetic,
without the functions that sign. An issued certificate answers it
(`verifies_selfSign`), and a key of two primes never fails to give one.
-/
import TlsKeystore.Proofs.X509.Inspect

namespace TlsKeystore

/-- A certificate with a signature of RSA over its own octets `der`: both
algorithms are RSA with SHA-256; the signed octets stand in front, as they
were read; and the public power of the signature is a block for them, of
the length of the modulus. -/
structure Certificate.Verifies (c : Certificate) (der : Bytes)
    (key : RsaPublicOctets) : Prop where
  sameAlgorithm : c.algorithm = c.signatureAlgorithm
  algorithm : c.signatureAlgorithm.algorithm = Signature.sha256WithRsa
  signed : ∃ algorithm, der = Der.sequence [c.signed, algorithm,
    Der.bitString c.signature]
  power : ∃ block, Signature.IsBlock key.modulus.length c.signed block
    ∧ Bytes.toNat c.signature ^ Bytes.toNat key.exponent
        % Bytes.toNat key.modulus = Bytes.toNat block

namespace CertificateTerms

theorem verifies_written {t : CertificateTerms} {k : PrivateKey}
    {signed signature der : Bytes} (hsigns : k.signs = true)
    (hsignature : Signature.sign? k signed = some signature)
    (hder : Der.sequence [signed, algorithm, Der.bitString signature] = der) :
    (t.written k signed signature).Verifies der
      ⟨Bytes.ofNat k.modulus, Bytes.ofNat k.publicExponent⟩ := by
  obtain ⟨-, hlength⟩ := PrivateKey.sizes_of_signs hsigns
  obtain ⟨-, hpower⟩ := Signature.pow_of_sign? hsignature
  have hblock := Signature.isBlock_encode
    (show 62 ≤ Bytes.byteLength k.modulus by omega) signed
  refine ⟨rfl, rfl, ⟨algorithm, hder.symm⟩,
    Signature.encode (Bytes.byteLength k.modulus) signed, ?_, ?_⟩
  · rw [Bytes.length_ofNat]
    exact hblock
  · rw [Bytes.toNat_ofNat, Bytes.toNat_ofNat]
    exact hpower

end CertificateTerms

/-- Whatever is issued for a key that was loaded is signed by that key, over
the octets that it holds and under the public key that it shows; and where
the key is one of two primes, signing does not fail. -/
theorem verifies_selfSign {b : Bytes} {k : PrivateKey}
    (hload : PrivateKey.load? b = some k) :
    (∀ (t : CertificateTerms) (der : Bytes), t.selfSign k = .ok der →
      ∃ (c : Certificate) (key : RsaPublicOctets),
        Certificate.parse der = .ok c
        ∧ c.rsaPublicKey = .ok key ∧ c.Verifies der key)
    ∧ (k.Sound → ∀ message, ∃ s, Signature.sign? k message = some s) := by
  have hsigns := PrivateKey.signs_of_load? hload
  refine ⟨?_, fun hsound => Signature.sign?_isSome hsigns hsound⟩
  intro t der h
  obtain ⟨signed, signature, -, hsignature, hder, hparse⟩ :=
    CertificateTerms.parse_selfSign h
  exact ⟨_, _, hparse, CertificateTerms.rsaPublicKey_written _ _
      (CertificateTerms.numbersElement_hasRoom h),
    CertificateTerms.verifies_written hsigns hsignature hder⟩

theorem verifies_selfSign_plain :
    PrivateKey.load? PrivateKey.plain.encode = some PrivateKey.plain
    ∧ PrivateKey.plain.Sound
    ∧ ∃ (der : Bytes) (c : Certificate) (key : RsaPublicOctets),
      CertificateTerms.plain.selfSign PrivateKey.plain = .ok der
      ∧ c.Verifies der key
      ∧ ∃ s, Signature.sign? PrivateKey.plain der = some s := by
  have hload := PrivateKey.load?_encode PrivateKey.signs_plain
  obtain ⟨hverifies, hsigns⟩ := verifies_selfSign hload
  obtain ⟨der, h⟩ := CertificateTerms.selfSign_plain
  obtain ⟨c, key, -, -, hall⟩ := hverifies _ der h
  exact ⟨hload, PrivateKey.sound_plain, der, c, key, h, hall,
    hsigns PrivateKey.sound_plain der⟩

end TlsKeystore
