/-
Certificates and how they are read.

A certificate is the first SEQUENCE of its input; what follows it is not
looked at. `Certificate.parse` reads the fields in order and stops at the
first that is damaged. A `Defect` names the field where the reader can
tell, and is `malformed` otherwise.
-/
import TlsKeystore.X509.Name
import TlsKeystore.X509.Time

namespace TlsKeystore

/-- An algorithm and, where they are given, its parameters. -/
structure AlgorithmIdentifier where
  algorithm : Oid
  parameters : Option Ber.Element
deriving DecidableEq, Repr

/-- A public key under the algorithm it is for. -/
structure PublicKeyInfo where
  algorithm : AlgorithmIdentifier
  key : Bytes
deriving DecidableEq, Repr

/-- An extension with the octets of its value. -/
structure Extension where
  kind : Oid
  critical : Bool
  value : Bytes
deriving DecidableEq, Repr

/-- A certificate as it was read. `signed` are the octets that the signature
covers; `algorithm` stands inside of them, `signatureAlgorithm` outside. -/
structure Certificate where
  signed : Bytes
  version : Nat
  serial : Bytes
  algorithm : AlgorithmIdentifier
  issuer : Name
  notBefore : Timestamp
  notAfter : Timestamp
  subject : Name
  publicKey : PublicKeyInfo
  issuerId : Option Bytes
  subjectId : Option Bytes
  extensions : List Extension
  signatureAlgorithm : AlgorithmIdentifier
  signature : Bytes
deriving DecidableEq, Repr

namespace Certificate

/-- What is wrong with octets that are no certificate. -/
inductive Defect where
  | malformed
  | version
  | serial
  | date
  | publicKey
  | issuerId
  | subjectId
  | extensions
  | signature
deriving DecidableEq, Repr

/-- The field that a defect names, if any. -/
def Defect.field? : Defect → Option String
  | .malformed => none
  | .version => some "InvalidVersion"
  | .serial => some "InvalidSerial"
  | .date => some "InvalidDate"
  | .publicKey => some "InvalidSPKI"
  | .issuerId => some "InvalidIssuerUID"
  | .subjectId => some "InvalidSubjectUID"
  | .extensions => some "InvalidExtensions"
  | .signature => some "InvalidSignatureValue"

/-- A reader of one field: takes it from the front or finds a defect. -/
abbrev Reader (α : Type) := StateT Bytes (Except Defect) α

/-- A field that reads as `read` says; `defect` where it does not. -/
def field {α : Type} (defect : Defect) (read : Bytes → Option (α × Bytes)) : Reader α := fun b =>
  match read b with
  | some r => .ok r
  | none => .error defect

-- ================================================================= fields

/-- The version of a certificate that does not say: the first, counted from 0. -/
def firstVersion : Nat := 0

/-- An INTEGER of 32 bits in its shortest form. -/
def versionNumber? (b : Bytes) : Option Nat := do
  let (e, _) ← Ber.read? b
  let n := Bytes.toNat e.content
  if e.isOf .integer && !e.constructed && Der.naturalOctets n = e.content && n < 0x100000000 then
    some n
  else none

/-- The version under [0], where there is one. -/
def readVersion : Reader Nat := fun b =>
  if b = [] then .ok (firstVersion, b)
  else match Ber.read? b with
    | none => .error .malformed
    | some (e, rest) =>
      if e.tagClass = 2 ∧ e.number = 0 then
        match versionNumber? e.content with
        | some n => .ok (n, rest)
        | none => .error .version
      else .ok (firstVersion, b)

/-- The serial number: the octets of an INTEGER as they stand. -/
def readSerial? (b : Bytes) : Option (Bytes × Bytes) := do
  let (e, rest) ← Ber.readOpen? b
  if e.isOf .integer then some (e.content, rest) else none

/-- An algorithm: an identifier under whatever tag, and one more element where
more follows. -/
def readAlgorithm? (b : Bytes) : Option (AlgorithmIdentifier × Bytes) := do
  let (content, rest) ← Ber.readSequence? b
  let (kind, content) ← Ber.read? content
  let parameters ←
    if content = [] then some none else (Ber.read? content).map fun (p, _) => some p
  if kind.constructed then none else some (⟨⟨kind.content⟩, parameters⟩, rest)

/-- Both bounds of the validity. -/
def readValidity : Reader (Timestamp × Timestamp) := fun b =>
  match Ber.readSequence? b with
  | none => .error .malformed
  | some (content, rest) =>
    let bounds := do
      let (first, content) ← X509Time.read? content
      let (last, _) ← X509Time.read? content
      some (first, last)
    match bounds with
    | some bounds => .ok (bounds, rest)
    | none => .error .date

def readPublicKey : Reader PublicKeyInfo := fun b =>
  match Ber.readSequence? b with
  | none => .error .malformed
  | some (content, rest) =>
    match readAlgorithm? content with
    | none => .error .malformed
    | some (algorithm, content) =>
      let key? := do
        let (e, _) ← Ber.read? content
        e.bits?
      match key? with
      | some key => .ok (⟨algorithm, key⟩, rest)
      | none => .error .publicKey

/-- The unique identifier under a context tag, where there is one: a count of
unused bits and octets. -/
def readUniqueId (number : Nat) (defect : Defect) : Reader (Option Bytes) := fun b =>
  match Ber.readHeader? b with
  | none => .ok (none, b)
  | some ((e, _), _) =>
    if e.tagClass = 2 ∧ e.number = number then
      match Ber.read? b with
      | some (⟨_, _, _, _ :: octets⟩, rest) => .ok (some octets, rest)
      | _ => .error defect
    else .ok (none, b)

-- ============================================================= extensions

/-- Whether an extension is critical: a BOOLEAN that is not zero; not so where no
BOOLEAN of one octet stands. -/
def readCritical (b : Bytes) : Bool × Bytes :=
  match Ber.read? b with
  | some (⟨_, _, 1, [x]⟩, rest) => (x != 0, rest)
  | _ => (false, b)

/-- An extension: an identifier under whatever tag, criticality, value. -/
def readExtension? (b : Bytes) : Option (Extension × Bytes) := do
  let (content, rest) ← Ber.readSequence? b
  let (kind, content) ← Ber.read? content
  let (critical, content) := readCritical content
  let (value, _) ← Ber.read? content
  let value ← value.octets?
  if kind.constructed then none else some (⟨⟨kind.content⟩, critical, value⟩, rest)

/-- Octets that are extensions to the end. Every extension takes up octets, so as
many steps as there are octets are enough. -/
def readExtensionList? : (steps : Nat) → Bytes → Option (List Extension)
  | _, [] => some []
  | 0, _ :: _ => none
  | steps + 1, x :: rest => do
    let (e, rest) ← readExtension? (x :: rest)
    let es ← readExtensionList? steps rest
    some (e :: es)

/-- The extensions under the tag number 3, the last field. The SEQUENCE of them
reaches to the end, whatever the length under the tag says. -/
def readExtensions : Reader (List Extension) := fun b =>
  if b = [] then .ok ([], [])
  else match Ber.readHeader? b with
    | none => .error .extensions
    | some ((e, _), inner) =>
      if e.number ≠ 3 then .error .extensions
      else match Ber.readSequence? inner with
        | some (content, []) =>
          match readExtensionList? content.length content with
          | some es => .ok (es, [])
          | none => .error .malformed
        | _ => .error .malformed

-- ================================================== the whole certificate

/-- The BIT STRING of the signature. -/
def readSignature? (b : Bytes) : Option (Bytes × Bytes) := do
  let (e, rest) ← Ber.read? b
  let octets ← e.bits?
  some (octets, rest)

/-- The fields that the signature covers, with the outer fields left empty. -/
def readSigned (signed : Bytes) : Reader Certificate := do
  let version ← readVersion
  let serial ← field .serial readSerial?
  let algorithm ← field .malformed readAlgorithm?
  let issuer ← field .malformed Name.read?
  let (notBefore, notAfter) ← readValidity
  let subject ← field .malformed Name.read?
  let publicKey ← readPublicKey
  let issuerId ← readUniqueId 1 .issuerId
  let subjectId ← readUniqueId 2 .subjectId
  let extensions ← readExtensions
  return { signed, version, serial, algorithm, issuer, notBefore, notAfter, subject, publicKey,
           issuerId, subjectId, extensions,
           signatureAlgorithm := algorithm, signature := [] }

/-- The fields inside the outer SEQUENCE. -/
def readFields : Reader Certificate := fun b =>
  match Ber.readSequence? b with
  | none => .error .malformed
  | some (content, rest) => do
    let signed := b.take (b.length - rest.length)
    let (cert, _) ← readSigned signed content
    let (signatureAlgorithm, rest) ← field .malformed readAlgorithm? rest
    let (signature, rest) ← field .signature readSignature? rest
    return ({ cert with signatureAlgorithm, signature }, rest)

/-- The certificate at the front of the input. -/
def parse (b : Bytes) : Except Defect Certificate :=
  match Ber.readSequence? b with
  | none => .error .malformed
  | some (content, _) => (readFields content).map (·.1)

end Certificate
end TlsKeystore
