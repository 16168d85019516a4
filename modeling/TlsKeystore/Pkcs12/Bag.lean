/-
Bags: the single items of a bundle.

A bag holds a key, a certificate or something else, and attributes: a
friendly name, an identifier that links keys to certificates, a mark that
a certificate is trusted. Attributes form a set, so that of two with the
same type the one that comes first in encoded order counts; a set with
equal members is refused.
-/
import TlsKeystore.Pkcs12.Scheme
import TlsKeystore.X509.Certificate

namespace TlsKeystore.Pkcs12

def shroudedKeyBag : Oid := pkcs [12, 10, 1, 2]
def certificateBag : Oid := pkcs [12, 10, 1, 3]
def x509Certificate : Oid := pkcs [9, 22, 1]
def friendlyName : Oid := pkcs [9, 20]
def localKeyId : Oid := pkcs [9, 21]
def trustedUsage : Oid := .ofArcs [2, 16, 840, 1, 113894, 746875, 1, 1]

-- ============================================================== attributes

/-- An attribute with the set of its values. -/
structure Attribute where
  kind : Oid
  values : List Element
deriving DecidableEq, Repr

/-- What the attributes of a bag say. -/
structure Labels where
  name : Option String
  keyId : Option Bytes
  trusted : Bool
deriving DecidableEq, Repr

/-- Members of a set in encoded order; none where two are equal. -/
def ordered? {α : Type} (encode : α → Bytes) (members : List α) : Option (List α) :=
  let keyed := (members.map fun a => (encode a, a)).mergeSort fun a b => Der.precedes a.1 b.1
  if (keyed.zip (keyed.drop 1)).any fun (a, b) => a.1 == b.1 then none
  else some (keyed.map (·.2))

namespace Attribute

def encode (a : Attribute) : Bytes :=
  Der.sequence [Der.oid a.kind, Der.wrap Tag.set (a.values.map Element.encode)]

def ofElement? (e : Element) : Option Attribute := do
  match ← e.items? Tag.sequence with
  | [kind, values] =>
    let values ← values.items? Tag.set
    return ⟨← kind.oid?, ← ordered? Element.encode values⟩
  | _ => none

/-- The attributes of an element that is a set of them, in encoded order. -/
def setOf? (members : List Element) : Option (List Attribute) := do
  ordered? encode (← members.mapM ofElement?)

/-- The first value of the first attribute of a type. -/
def first? (kind : Oid) (attributes : List Attribute) : Option Element := do
  (← attributes.find? (·.kind = kind)).values.head?

end Attribute

def Labels.ofAttributes (attributes : List Attribute) : Labels where
  name := do
    let e ← Attribute.first? friendlyName attributes
    if e.tag = Tag.bmpString then Bmp.decode? e.content else none
  keyId := (Attribute.first? localKeyId attributes).bind Element.octets?
  trusted := ((Attribute.first? trustedUsage attributes).bind Element.oid?).isSome

-- ==================================================================== bags

/-- A bag before its value is looked at. -/
structure RawBag where
  kind : Oid
  value : Element
  labels : Labels
deriving DecidableEq, Repr

def RawBag.ofElement? (e : Element) : Option RawBag := do
  match ← e.items? Tag.sequence with
  | [kind, value] => return ⟨← kind.oid?, value, .ofAttributes []⟩
  | [kind, value, attributes] =>
    let attributes ← Attribute.setOf? (← attributes.items? Tag.set)
    return ⟨← kind.oid?, value, .ofAttributes attributes⟩
  | _ => none

/-- A certificate of a bundle: its octets, and the names that issuers are found
by. -/
structure BagCertificate where
  der : Bytes
  subject : String
  issuer : String
deriving DecidableEq, Repr

/-- A bag that a reader makes use of. -/
inductive Bag where
  | key (der : Bytes) (labels : Labels)
  | certificate (cert : BagCertificate) (labels : Labels)
deriving DecidableEq, Repr

/-- A certificate whose octets parse. -/
def BagCertificate.ofDer? (der : Bytes) : Option BagCertificate :=
  match Certificate.parse der with
  | .ok c => some ⟨der, c.subject.text, c.issuer.text⟩
  | .error _ => none

/-- The elements of the sequence that a bag's value holds. -/
def valueItems? (value : Element) : Option (List Element) := do
  if !value.isExplicit then none
  else (← Der.readOne? value.content).items? Tag.sequence

namespace RawBag

/-- An encrypted key, decrypted. -/
def openKey (bag : RawBag) (password : String) : Except Defect Bag := do
  let parts : Option (Algorithm × Bytes) := do
    match ← valueItems? bag.value with
    | [algorithm, cipher] => return (← algorithm? algorithm, ← cipher.octets?)
    | _ => none
  let (algorithm, cipher) ← orDefect .encoding parts
  let scheme ← Scheme.ofAlgorithm algorithm
  return .key (← scheme.decrypt password cipher) bag.labels

/-- The certificate of a bag. -/
def openCertificate (bag : RawBag) : Except Defect Bag := do
  let parts : Option (Oid × Bytes) := do
    match ← valueItems? bag.value with
    | [kind, value] => return (← kind.oid?, ← (← value.only? (Tag.explicit 0)).octets?)
    | _ => none
  let (kind, der) ← orDefect .encoding parts
  if kind ≠ x509Certificate then throw .certificateType
  return .certificate (← orDefect .certificate (BagCertificate.ofDer? der)) bag.labels

/-- The bag as its type tells; none for types that are passed over. -/
def toBag (bag : RawBag) (password : String) : Except Defect (Option Bag) := do
  if bag.kind = shroudedKeyBag then return some (← bag.openKey password)
  else if bag.kind = certificateBag then return some (← bag.openCertificate)
  else return none

end RawBag
end TlsKeystore.Pkcs12
