/-
The outer form of a bundle.

A PFX holds, as one octet string, a sequence of safes, and may hold a MAC
over these octets. Safes are plain or encrypted as a whole, and are
sequences of bags. `Pfx.bags` gives all bags in the order in which they
stand.
-/
import TlsKeystore.Pkcs12.Bag

namespace TlsKeystore.Pkcs12

def dataContent : Oid := pkcs [7, 1]
def encryptedContent : Oid := pkcs [7, 6]
def sha1 : Oid := .ofArcs [1, 3, 14, 3, 2, 26]
def sha256 : Oid := .ofArcs [2, 16, 840, 1, 101, 3, 4, 2, 1]

/-- Content under its type. -/
structure ContentInfo where
  kind : Oid
  content : Element
deriving DecidableEq, Repr

/-- A digest over the safes, under a key made from the password. -/
structure Mac where
  algorithm : Algorithm
  digest : Bytes
  salt : Bytes
  rounds : Int
deriving DecidableEq, Repr

/-- A bundle by its outer fields. -/
structure Pfx where
  safes : ContentInfo
  mac : Option Mac
deriving DecidableEq, Repr

-- ================================================================ reading

def ContentInfo.ofElement? (e : Element) : Option ContentInfo := do
  match ← e.items? Tag.sequence with
  | [kind, content] => return ⟨← kind.oid?, ← content.only? (Tag.explicit 0)⟩
  | _ => none

/-- A number of rounds: an INTEGER of 32 bits. -/
def rounds? (e : Element) : Option Int :=
  e.integer?.filter fun n => -0x80000000 ≤ n && n < 0x80000000

def Mac.ofElement? (e : Element) : Option Mac := do
  let (info, salt, rounds) ← match ← e.items? Tag.sequence with
    | [info, salt] => some (info, salt, (1 : Int))
    | [info, salt, rounds] => (rounds? rounds).map (info, salt, ·)
    | _ => none
  match ← info.items? Tag.sequence with
  | [algorithm, digest] =>
    return ⟨← algorithm? algorithm, ← digest.octets?, ← salt.octets?, rounds⟩
  | _ => none

/-- The version that a bundle states. -/
def pfxVersion : Nat := 3

/-- The bundle that octets are, with nothing behind it. -/
def Pfx.ofBytes? (b : Bytes) : Option Pfx := do
  let (version, safes, mac) ← match ← (← Der.readOne? b).items? Tag.sequence with
    | [version, safes] => some (version, safes, none)
    | [version, safes, mac] => (Mac.ofElement? mac).map fun m => (version, safes, some m)
    | _ => none
  if version.natural? = some pfxVersion then return ⟨← ContentInfo.ofElement? safes, mac⟩
  else none

-- ===================================================================== MAC

namespace Mac

/-- The hash function under a MAC that can be checked. -/
def hash? (m : Mac) : Option HashFunction :=
  if m.algorithm.kind = sha1 then some Sha1.sha1
  else if m.algorithm.kind = sha256 then some Sha256.sha256
  else none

/-- The keyed digest of content under a password. -/
def compute (h : HashFunction) (password salt : Bytes) (rounds : Int) (content : Bytes) : Bytes :=
  let key := Pkcs12Kdf.derive h .integrity password salt rounds.toNat h.digestLength
  hmac h key content

/-- Succeeds where the digest is that of the content. -/
def check (m : Mac) (password : String) (content : Bytes) : Except Defect Unit := do
  match m.hash? with
  | none => throw .encryptionScheme
  | some h =>
    let password ← orDefect .encoding (Bmp.password? password)
    if compute h password m.salt m.rounds content = m.digest then return ()
    else throw .integrity

end Mac

-- =================================================================== safes

/-- An encrypted safe: a version, how it is encrypted, the cipher text. -/
structure EncryptedSafe where
  version : Nat
  algorithm : Algorithm
  cipher : Option Bytes
deriving DecidableEq, Repr

namespace EncryptedSafe

/-- The highest version there is. -/
def maxVersion : Nat := 5

/-- Whether what follows the content is at most a set of attributes. -/
def endFits (fields : List Element) : Bool :=
  match fields.dropWhile fun e => e.tag == 0x80 || e.tag == 0xA0 with
  | [] => true
  | [⟨0xA1, content⟩] => ((Der.readAll? content).bind Attribute.setOf?).isSome
  | _ => false

def ofElement? (e : Element) : Option EncryptedSafe := do
  match ← e.items? Tag.sequence with
  | version :: info :: fields =>
    let version ← version.natural?
    let (kind, algorithm, cipher) ← match ← info.items? Tag.sequence with
      | [kind, algorithm] => some (kind, algorithm, none)
      | [kind, algorithm, ⟨0x80, cipher⟩] => some (kind, algorithm, some cipher)
      | _ => none
    let _ ← kind.oid?
    if version ≤ maxVersion ∧ endFits fields then
      return ⟨version, ← algorithm? algorithm, cipher⟩
    else none
  | _ => none

/-- The text of the safe. -/
def decrypt (s : EncryptedSafe) (password : String) : Except Defect Bytes := do
  if s.version ≠ 0 then throw .version
  let cipher ← orDefect .encoding s.cipher
  (← Scheme.ofAlgorithm s.algorithm).decrypt password cipher

end EncryptedSafe

/-- The octets of a safe, decrypted where need be. -/
def ContentInfo.safeOctets (c : ContentInfo) (password : String) : Except Defect Bytes :=
  if c.kind = dataContent then orDefect .encoding c.content.octets?
  else if c.kind = encryptedContent then do
    (← orDefect .encoding (EncryptedSafe.ofElement? c.content)).decrypt password
  else .error .contentType

/-- The bags that the octets of a safe are. -/
def rawBags? (b : Bytes) : Option (List RawBag) := do
  (← (← Der.readOne? b).items? Tag.sequence).mapM RawBag.ofElement?

/-- The bags of one safe. -/
def ContentInfo.bags (c : ContentInfo) (password : String) : Except Defect (List Bag) := do
  let raw ← orDefect .encoding (rawBags? (← c.safeOctets password))
  return (← raw.mapM (·.toBag password)).filterMap id

namespace Pfx

/-- The octets that hold the safes. -/
def content (p : Pfx) : Except Defect Bytes :=
  if p.safes.kind = dataContent then orDefect .encoding p.safes.content.octets?
  else .error .contentType

/-- The safes that octets hold. -/
def safes? (b : Bytes) : Option (List ContentInfo) := do
  (← (← Der.readOne? b).items? Tag.sequence).mapM ContentInfo.ofElement?

/-- All bags, once the MAC, if there is one, has been checked. -/
def bags (p : Pfx) (password : String) : Except Defect (List Bag) := do
  let content ← p.content
  match p.mac with
  | some m => m.check password content
  | none => pure ()
  let safes ← orDefect .encoding (safes? content)
  return (← safes.mapM (·.bags password)).flatten

end Pfx
end TlsKeystore.Pkcs12
