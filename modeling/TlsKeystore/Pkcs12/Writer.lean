/-
Writing bundles.

A bundle is written with the certificate in one safe, encrypted as a
whole, and the key in another, encrypted as a bag, both by PBES2 with
PBKDF2 over HMAC-SHA-256 and AES with 256 bits, under a MAC with SHA-256.
Salts and initial vectors are `Salts`, of fixed lengths, so that the
length of a bundle tells nothing of them.
-/
import TlsKeystore.Entropy
import TlsKeystore.Pkcs12.Pfx

namespace TlsKeystore.Pkcs12

/-- The random octets of a bundle. -/
structure Salts where
  certificateSalt : Bytes
  certificateIv : Bytes
  keySalt : Bytes
  keyIv : Bytes
  macSalt : Bytes
deriving DecidableEq, Repr

namespace Writer

def saltLength : Nat := 32
def ivLength : Nat := 16

/-- The length of the chains of both key derivations and of the MAC. -/
def rounds : Nat := 10000

/-- New salts and initial vectors. -/
def drawSalts : Draw Salts := do
  return ⟨← Draw.octets saltLength, ← Draw.octets ivLength, ← Draw.octets saltLength,
    ← Draw.octets ivLength, ← Draw.octets saltLength⟩

-- ============================================================== encryption

/-- The scheme under a salt and an initial vector. -/
def scheme (salt iv : Bytes) : Bytes :=
  Der.sequence [Der.oid pbes2, Der.sequence
    [Der.sequence [Der.oid pbkdf2, Der.sequence
        [Der.octetString salt, Der.natural rounds,
          Der.sequence [Der.oid hmacSha256, Der.null]]],
      Der.sequence [Der.oid aes256Cbc, Der.octetString iv]]]

/-- The cipher text under that scheme. -/
def encrypt (salt iv : Bytes) (password : String) (text : Bytes) : Bytes :=
  let key := Pbkdf2.derive Sha256.sha256 (Utf8.encode password) salt rounds 32
  Cbc.encrypt 16 (Aes.encrypt (Aes.roundKeys key)) iv text

-- ==================================================================== bags

/-- The attributes of a bag: identifier and friendly name; none where the name is no
BMPString. -/
def attributes? (keyId : Bytes) (name : String) : Option Bytes := do
  let name ← Bmp.encode? name
  let labelled (kind : Oid) (value : Bytes) : Bytes :=
    Der.sequence [Der.oid kind, Der.setOf [value]]
  some (Der.setOf [labelled localKeyId (Der.octetString keyId),
    labelled friendlyName (Element.encode ⟨Tag.bmpString, name⟩)])

/-- A bag of a value and attributes. -/
def bag (kind : Oid) (value attributes : Bytes) : Bytes :=
  Der.sequence [Der.oid kind, Der.wrap (Tag.explicit 0) [value], attributes]

/-- Content of the plain type. -/
def dataInfo (content : Bytes) : Bytes :=
  Der.sequence [Der.oid dataContent, Der.wrap (Tag.explicit 0) [Der.octetString content]]

/-- The safe of the certificate, encrypted as a whole. -/
def certificateSafe? (der keyId : Bytes) (name password : String) (salt iv : Bytes) :
    Option Bytes := do
  let attributes ← attributes? keyId name
  let value := Der.sequence [Der.oid x509Certificate,
    Der.wrap (Tag.explicit 0) [Der.octetString der]]
  let cipher := encrypt salt iv password (Der.sequence [bag certificateBag value attributes])
  some (Der.sequence [Der.oid encryptedContent, Der.wrap (Tag.explicit 0)
    [Der.sequence [Der.natural 0, Der.sequence
      [Der.oid dataContent, scheme salt iv, Element.encode ⟨Tag.implicit 0, cipher⟩]]]])

/-- The safe of the key, with the key encrypted inside. -/
def keySafe? (key keyId : Bytes) (name password : String) (salt iv : Bytes) : Option Bytes := do
  let attributes ← attributes? keyId name
  let value := Der.sequence [scheme salt iv, Der.octetString (encrypt salt iv password key)]
  some (dataInfo (Der.sequence [bag shroudedKeyBag value attributes]))

-- ================================================================== bundles

/-- The MAC over the safes. -/
def mac (password salt content : Bytes) : Bytes :=
  let digest := Mac.compute Sha256.sha256 password salt rounds content
  Der.sequence [Der.sequence [Der.sequence [Der.oid sha256], Der.octetString digest],
    Der.octetString salt, Der.natural rounds]

/-- The bundle of a key and its certificate. The certificate is known by its
subject, the key by `name`, and both are linked by the digest of the certificate.
No bundle is longer than a strict reader takes. -/
def write (key certificate : Bytes) (name password : String) (salts : Salts) :
    Except Defect Bytes := do
  let cert ← orDefect .certificate (BagCertificate.ofDer? certificate)
  let keyId := Sha1.sha1.digest certificate
  orDefect .encoding do
    let certificateSafe ← certificateSafe? certificate keyId cert.subject password
      salts.certificateSalt salts.certificateIv
    let keySafe ← keySafe? key keyId name password salts.keySalt salts.keyIv
    let macPassword ← Bmp.password? password
    let content := Der.sequence [certificateSafe, keySafe]
    let bundle := Der.sequence [Der.natural pfxVersion, dataInfo content,
      mac macPassword salts.macSalt content]
    if bundle.length ≤ Der.maxLength then some bundle else none

end Writer
end TlsKeystore.Pkcs12
