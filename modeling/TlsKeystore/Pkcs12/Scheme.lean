/-
Encryption by password.

A scheme says how the key comes from the password and which cipher uses
it. PBES2 names both parts, with the password as UTF-8; the older PBES1
schemes are one identifier each, with the password as a BMPString. A
`Defect` is the reason why a bundle cannot be read or written.
-/
import TlsKeystore.Asn1.Der
import TlsKeystore.Text.Encoding
import TlsKeystore.Hash.Sha1
import TlsKeystore.Hash.Sha512
import TlsKeystore.Kdf.Pkcs12
import TlsKeystore.Kdf.Scrypt
import TlsKeystore.Cipher.Aes
import TlsKeystore.Cipher.Cbc
import TlsKeystore.Cipher.Rc2
import TlsKeystore.Cipher.TripleDes

namespace TlsKeystore.Pkcs12

/-- Why a bundle cannot be read or written. -/
inductive Defect where
  | encoding
  | integrity
  | certificate
  | passwordScheme
  | filling
  | version
  | parameters
  | contentType
  | encryptionScheme
  | certificateType
deriving DecidableEq, Repr

/-- The name under which a defect is reported. -/
def Defect.name : Defect → String
  | .encoding => "DerError"
  | .integrity => "MacError"
  | .certificate => "X509Error"
  | .passwordScheme => "Pkcs5Error"
  | .filling => "UnpadError"
  | .version => "InvalidVersion"
  | .parameters => "InvalidParameters"
  | .contentType => "UnsupportedContentType"
  | .encryptionScheme => "UnsupportedEncryptionScheme"
  | .certificateType => "UnsupportedCertificateType"

/-- A value, or a defect where there is none. -/
def orDefect {α : Type} (d : Defect) : Option α → Except Defect α
  | some a => .ok a
  | none => .error d

-- ============================================================= identifiers

def pkcs (arcs : List Nat) : Oid := .ofArcs ([1, 2, 840, 113549, 1] ++ arcs)

def pbes2 : Oid := pkcs [5, 13]
def pbkdf2 : Oid := pkcs [5, 12]
def scrypt : Oid := .ofArcs [1, 3, 6, 1, 4, 1, 11591, 4, 11]
def pbeTripleDes : Oid := pkcs [12, 1, 3]
def pbeRc2 : Oid := pkcs [12, 1, 6]
def hmacSha1 : Oid := .ofArcs [1, 2, 840, 113549, 2, 7]
def hmacSha224 : Oid := .ofArcs [1, 2, 840, 113549, 2, 8]
def hmacSha256 : Oid := .ofArcs [1, 2, 840, 113549, 2, 9]
def hmacSha384 : Oid := .ofArcs [1, 2, 840, 113549, 2, 10]
def hmacSha512 : Oid := .ofArcs [1, 2, 840, 113549, 2, 11]
def aesCbc (kind : Nat) : Oid := .ofArcs [2, 16, 840, 1, 101, 3, 4, 1, kind]
def aes128Cbc : Oid := aesCbc 2
def aes192Cbc : Oid := aesCbc 22
def aes256Cbc : Oid := aesCbc 42

-- ================================================================= schemes

/-- An algorithm and its parameters, as they stand in a bundle. -/
structure Algorithm where
  kind : Oid
  parameters : Option Element
deriving DecidableEq, Repr

/-- Which keyed hash PBKDF2 uses; the oldest is known but not used. -/
inductive Prf where
  | sha1
  | sha224
  | sha256
  | sha384
  | sha512
deriving DecidableEq, Repr

/-- How the key comes from the password. -/
inductive KeyDerivation where
  | pbkdf2 (salt : Bytes) (rounds : Nat) (keyLength : Option Nat) (prf : Prf)
  | scrypt (salt : Bytes) (n r p : Nat) (keyLength : Option Nat)
deriving DecidableEq, Repr

/-- The ciphers of the older schemes. -/
inductive OldCipher where
  | tripleDes
  | rc2
deriving DecidableEq, Repr

/-- A scheme with its parameters. The cipher of the newer ones is AES with a key of
`keyLength` octets. -/
inductive Scheme where
  | pbes2 (derivation : KeyDerivation) (keyLength : Nat) (iv : Bytes)
  | pbes1 (cipher : OldCipher) (salt : Bytes) (rounds : Nat)
deriving DecidableEq, Repr

-- ================================================================= reading

/-- An algorithm identifier. -/
def algorithm? (e : Element) : Option Algorithm := do
  match ← e.items? Tag.sequence with
  | [kind] => some ⟨← kind.oid?, none⟩
  | [kind, parameters] => some ⟨← kind.oid?, some parameters⟩
  | _ => none

/-- A non-negative number of so many bits. -/
def word? (bits : Nat) (e : Element) : Option Nat := e.natural?.filter (· < Nat.pow 2 bits)

/-- The keyed hash that an algorithm names, with the NULL that belongs to it. -/
def prf? (e : Element) : Option Prf := do
  let a ← algorithm? e
  if !a.parameters.any Element.isNull then none
  else [(hmacSha1, .sha1), (hmacSha224, .sha224), (hmacSha256, .sha256), (hmacSha384, .sha384),
    (hmacSha512, .sha512)].lookup a.kind

/-- The optional end of PBKDF2's parameters: a key length, a keyed hash. -/
def pbkdf2End? (salt : Bytes) (rounds : Nat) : List Element → Option KeyDerivation
  | [] => some (.pbkdf2 salt rounds none .sha1)
  | [e] =>
    if e.tag = Tag.integer then return .pbkdf2 salt rounds (← word? 16 e) .sha1
    else return .pbkdf2 salt rounds none (← prf? e)
  | [e, f] => return .pbkdf2 salt rounds (← word? 16 e) (← prf? f)
  | _ => none

/-- The key derivation that an algorithm names. -/
def keyDerivation? (e : Element) : Option KeyDerivation := do
  let a ← algorithm? e
  let parameters ← a.parameters
  let items ← parameters.items? Tag.sequence
  if a.kind = pbkdf2 then
    match items with
    | salt :: rounds :: rest => pbkdf2End? (← salt.octets?) (← word? 32 rounds) rest
    | _ => none
  else if a.kind = scrypt then
    match items with
    | [salt, n, r, p] =>
      return .scrypt (← salt.octets?) (← word? 64 n) (← word? 16 r) (← word? 16 p) none
    | [salt, n, r, p, keyLength] =>
      return .scrypt (← salt.octets?) (← word? 64 n) (← word? 16 r) (← word? 16 p)
        (← word? 16 keyLength)
    | _ => none
  else none

/-- Key length and initial vector of the cipher that an algorithm names. -/
def cipher? (e : Element) : Option (Nat × Bytes) := do
  let a ← algorithm? e
  let parameters ← a.parameters
  let iv ← parameters.octets?
  let keyLength ← [(aes128Cbc, 16), (aes192Cbc, 24), (aes256Cbc, 32)].lookup a.kind
  if iv.length = 16 then some (keyLength, iv) else none

/-- The number of rounds of an older scheme: the count cut to 32 bits, and 1 where
that is zero or would be negative. -/
def oldRounds (count : Nat) : Nat :=
  let n := count % 0x100000000
  if n < 0x80000000 then max n 1 else 1

namespace Scheme

/-- The parameters of an older scheme: salt and count. -/
def ofOldParameters? (cipher : OldCipher) (e : Element) : Option Scheme := do
  match ← e.items? Tag.sequence with
  | [salt, count] => return .pbes1 cipher (← salt.octets?) (oldRounds (← word? 64 count))
  | _ => none

/-- The parameters of the newer scheme: key derivation and cipher. -/
def ofParameters? (e : Element) : Option Scheme := do
  match ← e.items? Tag.sequence with
  | [derivation, cipher] =>
    let derivation ← keyDerivation? derivation
    let (keyLength, iv) ← cipher? cipher
    return .pbes2 derivation keyLength iv
  | _ => none

/-- The scheme that an algorithm names. -/
def ofAlgorithm (a : Algorithm) : Except Defect Scheme :=
  let withParameters (read : Element → Option Scheme) : Except Defect Scheme :=
    match a.parameters with
    | none => .error .parameters
    | some e => orDefect .encoding (read e)
  if a.kind = Pkcs12.pbes2 then withParameters ofParameters?
  else if a.kind = pbeTripleDes then withParameters (ofOldParameters? .tripleDes)
  else if a.kind = pbeRc2 then withParameters (ofOldParameters? .rc2)
  else .error .encryptionScheme

end Scheme

-- ============================================================== decryption

/-- The hash function under a keyed hash that is in use. -/
def Prf.hash? : Prf → Option HashFunction
  | .sha1 => none
  | .sha224 => some Sha256.sha224
  | .sha256 => some Sha256.sha256
  | .sha384 => some Sha512.sha384
  | .sha512 => some Sha512.sha512

/-- The key for a cipher that wants `length` octets. -/
def KeyDerivation.derive? (k : KeyDerivation) (password : String) (length : Nat) :
    Option Bytes :=
  match k with
  | .pbkdf2 salt rounds keyLength prf =>
    match prf.hash? with
    | none => none
    | some h =>
      if keyLength.all (· == length) then
        some (Pbkdf2.derive h (Utf8.encode password) salt rounds length)
      else none
  | .scrypt salt n r p keyLength =>
    if keyLength.all (· == length) && Scrypt.admissible n r p length then
      some (Scrypt.derive (Utf8.encode password) salt n r p length)
    else none

/-- The text under a scheme, a password and a cipher text. -/
def Scheme.decrypt (s : Scheme) (password : String) (cipher : Bytes) : Except Defect Bytes :=
  match s with
  | .pbes2 derivation keyLength iv =>
    orDefect .passwordScheme do
      let key ← derivation.derive? password keyLength
      Cbc.decrypt? 16 (Aes.decrypt (Aes.roundKeys key)) iv cipher
  | .pbes1 kind salt rounds => do
    let password ← orDefect .encoding (Bmp.password? password)
    let derive (purpose : Pkcs12Kdf.Purpose) (length : Nat) : Bytes :=
      Pkcs12Kdf.derive Sha1.sha1 purpose password salt rounds length
    let iv := derive .initialVector 8
    match kind with
    | .tripleDes =>
      let keys := TripleDes.keys (derive .encryption 24)
      orDefect .filling (Cbc.decrypt? 8 (TripleDes.decrypt keys) iv cipher)
    | .rc2 =>
      let keys := Rc2.keyWords (derive .encryption 5)
      orDefect .filling (Cbc.decrypt? 8 (Rc2.decrypt keys) iv cipher)

end TlsKeystore.Pkcs12
