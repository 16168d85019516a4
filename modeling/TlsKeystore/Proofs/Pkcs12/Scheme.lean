/-
The scheme that bundles are written with, and that it decrypts.

`schemeElement` is the element that `Writer.scheme` encodes, three levels
of algorithms deep. It is read back as PBES2 with the very salt, number of
rounds and initial vector (`ofAlgorithm_schemeElement`), and under that
scheme what the writer encrypts decrypts again, for every password
(`decrypt_encrypt`): both sides derive the same key, and AES in block
chaining inverts.
-/
import TlsKeystore.Pkcs12.Writer
import TlsKeystore.Proofs.Cipher.Cbc
import TlsKeystore.Proofs.Asn1.Der
import TlsKeystore.Proofs.Asn1.Oid

namespace TlsKeystore.Pkcs12

open Element (around ofOid ofNatural ofOctets ofNull)

-- ============================================================= algorithms

/-- An algorithm with its parameters. -/
def algorithmElement (kind : Oid) (parameters : Element) : Element :=
  around Tag.sequence [ofOid kind, parameters]

@[simp] theorem algorithmElement_tag (kind : Oid) (parameters : Element) :
    (algorithmElement kind parameters).tag = Tag.sequence := rfl

theorem algorithm?_algorithmElement {kind : Oid} {parameters : Element}
    (hkind : kind.wellFormed = true)
    (hknown : Der.knownTag parameters.tag = true)
    (hfits : (algorithmElement kind parameters).Fits) :
    algorithm? (algorithmElement kind parameters)
      = some ⟨kind, some parameters⟩ := by
  have hitems : (algorithmElement kind parameters).items? Tag.sequence
      = some [ofOid kind, parameters] :=
    Element.items?_around (by simp [hknown]) hfits
  simp [algorithm?, hitems, Element.oid?_ofOid hkind]

-- ============================================================= the scheme

/-- The parameters of the key derivation: salt, rounds, keyed hash. -/
def derivationParameters (salt : Bytes) : Element :=
  around Tag.sequence [ofOctets salt, ofNatural Writer.rounds,
    algorithmElement hmacSha256 ofNull]

/-- The parameters of the scheme: key derivation and cipher. -/
def schemeParameters (salt iv : Bytes) : Element :=
  around Tag.sequence [algorithmElement pbkdf2 (derivationParameters salt),
    algorithmElement aes256Cbc (ofOctets iv)]

/-- The scheme under a salt and an initial vector, as an element. -/
def schemeElement (salt iv : Bytes) : Element :=
  algorithmElement pbes2 (schemeParameters salt iv)

@[simp] theorem schemeElement_tag (salt iv : Bytes) :
    (schemeElement salt iv).tag = Tag.sequence := rfl

/-- What the scheme is read as. -/
def writtenScheme (salt iv : Bytes) : Scheme :=
  .pbes2 (.pbkdf2 salt Writer.rounds none .sha256) 32 iv

private theorem prf?_sha256
    (hfits : (algorithmElement hmacSha256 ofNull).Fits) :
    prf? (algorithmElement hmacSha256 ofNull) = some .sha256 := by
  have hkind : hmacSha256.wellFormed = true :=
    Oid.wellFormed_ofArcs (by decide)
  have halgorithm := algorithm?_algorithmElement hkind (by simp) hfits
  have hne : hmacSha256 ≠ hmacSha1 ∧ hmacSha256 ≠ hmacSha224 := by
    simp [hmacSha1, hmacSha224, hmacSha256, Oid.ofArcs_inj]
  have hlookup : [(hmacSha1, Prf.sha1), (hmacSha224, .sha224),
      (hmacSha256, .sha256), (hmacSha384, .sha384),
      (hmacSha512, .sha512)].lookup hmacSha256 = some .sha256 := by
    simp [List.lookup_cons, beq_false_of_ne hne.1, beq_false_of_ne hne.2]
  simp [prf?, halgorithm, hlookup]

private theorem keyDerivation?_pbkdf2 {salt : Bytes}
    (hfits : (algorithmElement pbkdf2 (derivationParameters salt)).Fits) :
    keyDerivation? (algorithmElement pbkdf2 (derivationParameters salt))
      = some (.pbkdf2 salt Writer.rounds none .sha256) := by
  have hparameters : (derivationParameters salt).Fits :=
    hfits.of_mem (by simp)
  have hkind : pbkdf2.wellFormed = true :=
    Oid.wellFormed_ofArcs (by decide)
  have halgorithm := algorithm?_algorithmElement hkind
    (by simp [derivationParameters]) hfits
  have hitems : (derivationParameters salt).items? Tag.sequence
      = some [ofOctets salt, ofNatural Writer.rounds,
          algorithmElement hmacSha256 ofNull] :=
    Element.items?_around (by simp) hparameters
  have hrounds : word? 32 (ofNatural Writer.rounds) = some Writer.rounds := by
    rw [word?, Element.natural?_ofNatural]
    decide
  have hprf := prf?_sha256 (hparameters.of_mem (by simp))
  have hend : pbkdf2End? salt Writer.rounds
      [algorithmElement hmacSha256 ofNull]
      = some (.pbkdf2 salt Writer.rounds none .sha256) := by
    rw [pbkdf2End?, if_neg (by rw [algorithmElement_tag]; decide), hprf]
    rfl
  simp [keyDerivation?, halgorithm, hitems, hrounds, hend]

private theorem cipher?_aes256 {iv : Bytes} (hiv : iv.length = 16)
    (hfits : (algorithmElement aes256Cbc (ofOctets iv)).Fits) :
    cipher? (algorithmElement aes256Cbc (ofOctets iv)) = some (32, iv) := by
  have hkind : aes256Cbc.wellFormed = true :=
    Oid.wellFormed_ofArcs (by decide)
  have halgorithm := algorithm?_algorithmElement hkind (by simp) hfits
  have hne : aes256Cbc ≠ aes128Cbc ∧ aes256Cbc ≠ aes192Cbc := by
    simp [aes128Cbc, aes192Cbc, aes256Cbc, aesCbc, Oid.ofArcs_inj]
  have hlookup : [(aes128Cbc, 16), (aes192Cbc, 24), (aes256Cbc, 32)].lookup
      aes256Cbc = some 32 := by
    simp [List.lookup_cons, beq_false_of_ne hne.1, beq_false_of_ne hne.2]
  simp [cipher?, halgorithm, hlookup, hiv]

theorem ofAlgorithm_schemeElement {salt iv : Bytes} (hiv : iv.length = 16)
    (hfits : (schemeElement salt iv).Fits) :
    ∃ a, algorithm? (schemeElement salt iv) = some a
      ∧ Scheme.ofAlgorithm a = .ok (writtenScheme salt iv) := by
  have hparameters : (schemeParameters salt iv).Fits :=
    hfits.of_mem (by simp)
  have hitems : (schemeParameters salt iv).items? Tag.sequence
      = some [algorithmElement pbkdf2 (derivationParameters salt),
          algorithmElement aes256Cbc (ofOctets iv)] :=
    Element.items?_around (by simp) hparameters
  have hpbkdf2 : (algorithmElement pbkdf2 (derivationParameters salt)).Fits :=
    hparameters.of_mem (by simp)
  have hderivation := keyDerivation?_pbkdf2 hpbkdf2
  have hcipher := cipher?_aes256 hiv (hparameters.of_mem (by simp))
  have hread : Scheme.ofParameters? (schemeParameters salt iv)
      = some (writtenScheme salt iv) := by
    simp [Scheme.ofParameters?, hitems, hderivation, hcipher, writtenScheme]
  refine ⟨_, algorithm?_algorithmElement
    (Oid.wellFormed_ofArcs (by decide)) (by simp [schemeParameters]) hfits, ?_⟩
  simp only [Scheme.ofAlgorithm, if_true, hread]
  rfl

-- ============================================================= decryption

/-- The octets of a cipher text are those of its text, brought up to whole
blocks of sixteen. -/
theorem Writer.length_encrypt (salt iv : Bytes) (password : String)
    (text : Bytes) :
    (Writer.encrypt salt iv password text).length
      = (text.length / 16 + 1) * 16 :=
  Cbc.length_encrypt (by decide) (fun b => Aes.length_encrypt _ b) iv text

/-- What is written under a password can be read under it. -/
theorem decrypt_encrypt {salt iv : Bytes} (hiv : iv.length = 16)
    (password : String) (text : Bytes) :
    (writtenScheme salt iv).decrypt password
      (Writer.encrypt salt iv password text) = .ok text := by
  have hcbc : Cbc.decrypt? 16 (Aes.decrypt (Aes.roundKeys
        (Pbkdf2.derive Sha256.sha256 (Utf8.encode password) salt
          Writer.rounds 32))) iv (Writer.encrypt salt iv password text)
      = some text :=
    Cbc.decrypt?_encrypt (by decide) (by decide)
      (fun b => Aes.length_encrypt _ b)
      (fun b hb => Aes.decrypt_encrypt _ hb) hiv text
  simp only [writtenScheme, Scheme.decrypt, KeyDerivation.derive?, Prf.hash?,
    Option.all_none, if_true]
  show orDefect .passwordScheme (Cbc.decrypt? ..) = .ok text
  rw [hcbc]
  rfl

end TlsKeystore.Pkcs12
