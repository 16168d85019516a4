/-
What is asked of a certificate.

Each question has an answer or a failure of its own, so that a certificate
that parses can still have, say, no readable common name. `Certificate`
holds the questions to a certificate that was read, `Inspect` those to the
octets of one, each of which reads them anew.
-/
import TlsKeystore.X509.Certificate

namespace TlsKeystore

/-- The basic constraints: whether the certificate may issue others, how long
chains may grow below it, and whether a reader must understand this. -/
structure CaConstraint where
  authority : Bool
  pathLength : Option Nat
  critical : Bool
deriving DecidableEq, Repr

/-- The numbers of an RSA public key, as octets without leading zeros. -/
structure RsaPublicOctets where
  modulus : Bytes
  exponent : Bytes
deriving DecidableEq, Repr

/-- Why a question to a certificate has no answer. -/
inductive InspectFailure where
  | certificate (defect : Certificate.Defect)
  | commonName (why : Name.Undecodable)
  | repeatedConstraints
  | damagedPublicKey
  | notRsa
deriving DecidableEq, Repr

namespace InspectFailure

def message : InspectFailure → String
  | .certificate d =>
    match d.field? with
    | none => "Failed to parse certificate"
    | some f => "Failed to parse certificate: " ++ f
  | .commonName .notUtf8 => "Failed to decode common name: invalid attributes"
  | .commonName .notString => "Failed to decode common name: BER error"
  | .repeatedConstraints => "Failed to decode basic constraints: duplicate extensions"
  | .damagedPublicKey =>
    "Failed to parse subject public key: invalid X.509 Subject Public Key Info"
  | .notRsa => "Subject public key is not RSA"

end InspectFailure

namespace Certificate

-- ======================================================= basic constraints

def basicConstraints : Oid := .ofArcs [2, 5, 29, 19]

/-- A path length within 32 bits, under any of four types that hold numbers. -/
def pathLength? (e : Ber.Element) : Option Nat :=
  let n? :=
    if e.constructed then none
    else if e.isUniversal .integer then
      if 128 ≤ e.content.headD 0 then none else some (Bytes.toNat e.content)
    else if e.isUniversal .enumerated ∨ e.isUniversal .octetString then
      some (Bytes.toNat e.content)
    else if e.isUniversal .bitString then
      e.bits?.map fun octets => Bytes.toNat octets / Nat.pow 2 (e.content.headD 0).toNat
    else none
  n?.filter (· < 0x100000000)

/-- The flag and the path length of a well-formed value: either, both in this
order, or neither. -/
def constraintsValue? (value : Bytes) : Option (Bool × Option Nat) := do
  let (e, _) ← Ber.read? value
  let content ← if e.tagClass = 0 then e.sequence? else none
  let flag? : Ber.Element → Option Bool := fun e =>
    match e with
    | ⟨0, false, 1, [x]⟩ => some (x != 0)
    | _ => none
  if content = [] then some (false, none)
  else
    let (first, content) ← Ber.read? content
    if content = [] then
      match flag? first with
      | some ca => some (ca, none)
      | none => (pathLength? first).map fun n => (false, some n)
    else
      let (second, content) ← Ber.read? content
      let ca ← flag? first
      let n ← pathLength? second
      if content = [] then some (ca, some n) else none

/-- The constraint of the one extension that holds it; none where there is no such
extension, or where its value is damaged. -/
def caConstraint (c : Certificate) : Except InspectFailure (Option CaConstraint) :=
  match c.extensions.filter (·.kind = basicConstraints) with
  | [] => .ok none
  | [e] =>
    .ok ((constraintsValue? e.value).map fun (authority, pathLength) =>
      ⟨authority, pathLength, e.critical⟩)
  | _ => .error .repeatedConstraints

-- ============================================================= public key

def rsaEncryption : Oid := .ofArcs [1, 2, 840, 113549, 1, 1, 1]
def dsa : Oid := .ofArcs [1, 2, 840, 10040, 4, 1]

/-- The key types whose keys stand in an OCTET STRING. -/
def gostKeys : List Oid :=
  [.ofArcs [1, 2, 643, 2, 2, 19], .ofArcs [1, 2, 643, 7, 1, 1, 1, 1],
    .ofArcs [1, 2, 643, 7, 1, 1, 1, 2]]

/-- The octets of an INTEGER, of whatever sign, without a needless zero in front. -/
def integerOctets? (e : Ber.Element) : Option Bytes :=
  if e.constructed || !e.isOf .integer then none
  else match e.content with
    | [] => none
    | [x] => some [x]
    | x :: y :: rest => if x = 0 ∧ y < 128 then none else some (x :: y :: rest)

/-- Modulus and exponent of an RSA key. -/
def rsaOctets? (key : Bytes) : Option RsaPublicOctets := do
  let (content, _) ← Ber.readSequence? key
  let (modulus, content) ← Ber.read? content
  let (exponent, _) ← Ber.read? content
  let modulus ← integerOctets? modulus
  let exponent ← integerOctets? exponent
  some ⟨Bytes.stripZeros modulus, Bytes.stripZeros exponent⟩

/-- The RSA key of the subject. -/
def rsaPublicKey (c : Certificate) : Except InspectFailure RsaPublicOctets :=
  let kind := c.publicKey.algorithm.algorithm
  let key := c.publicKey.key
  if kind = rsaEncryption then
    match rsaOctets? key with
    | some k => .ok k
    | none => .error .damagedPublicKey
  else
    let element? := (Ber.read? key).map (·.1)
    let readable :=
      if kind = dsa then element?.any fun e => !e.constructed && e.isOf .integer
      else if kind ∈ gostKeys then element?.any fun e => e.octets?.isSome
      else true
    if readable then .error .notRsa else .error .damagedPublicKey

-- ========================================================= other questions

/-- The first common name of the subject. -/
def commonName (c : Certificate) : Except InspectFailure (Option String) :=
  c.subject.commonName.mapError .commonName

/-- Whether subject and issuer are the same name, octet by octet. -/
def selfIssued (c : Certificate) : Bool := c.subject.raw == c.issuer.raw

/-- The octets of the serial number in hexadecimal. -/
def serialHex (c : Certificate) : String := Bytes.toHex c.serial

def validity (c : Certificate) : Timestamp × Timestamp := (c.notBefore, c.notAfter)

/-- The outer signature algorithm in dotted form. -/
def signatureAlgorithmText (c : Certificate) : String := c.signatureAlgorithm.algorithm.dotted

end Certificate

-- ================================================ questions to the octets

namespace Inspect

/-- Reads a certificate and asks it. -/
def ask {α : Type} (question : Certificate → Except InspectFailure α) (der : Bytes) :
    Except InspectFailure α := do
  question (← (Certificate.parse der).mapError .certificate)

def commonName : Bytes → Except InspectFailure (Option String) := ask Certificate.commonName

def selfIssued : Bytes → Except InspectFailure Bool := ask fun c => .ok c.selfIssued

def caConstraint : Bytes → Except InspectFailure (Option CaConstraint) :=
  ask Certificate.caConstraint

def validity : Bytes → Except InspectFailure (Timestamp × Timestamp) :=
  ask fun c => .ok c.validity

def serialHex : Bytes → Except InspectFailure String := ask fun c => .ok c.serialHex

def signatureAlgorithm : Bytes → Except InspectFailure String :=
  ask fun c => .ok c.signatureAlgorithmText

def rsaPublicKey : Bytes → Except InspectFailure RsaPublicOctets := ask Certificate.rsaPublicKey

end Inspect
end TlsKeystore
