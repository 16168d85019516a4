/-
Distinguished names.

A name is a sequence of relative names, each a set of attributes. Reading
is tolerant: the sequence ends at the first member that is not a relative
name, and a relative name at the first member that is not an attribute.
The octets of a name up to there are kept, since two names count as the
same exactly when these agree.

`Name.text` is the one-line form, `CN=a, O=b`, that names an entry without
a friendly name and by which issuers are found.
-/
import TlsKeystore.Asn1.Ber
import TlsKeystore.Asn1.Der
import TlsKeystore.Text.Encoding

namespace TlsKeystore

/-- An attribute type and its value, by tag number and content. -/
structure NameAttribute where
  kind : Oid
  tag : Nat
  value : Bytes
deriving DecidableEq, Repr

/-- A name as it was read: the octets that were read, and its relative names. -/
structure Name where
  raw : Bytes
  relative : List (List NameAttribute)
deriving DecidableEq, Repr

-- ========================================================= attribute types

namespace NameAttribute

def commonName : Oid := .ofArcs [2, 5, 4, 3]
def country : Oid := .ofArcs [2, 5, 4, 6]
def locality : Oid := .ofArcs [2, 5, 4, 7]
def state : Oid := .ofArcs [2, 5, 4, 8]
def organization : Oid := .ofArcs [2, 5, 4, 10]
def orgUnit : Oid := .ofArcs [2, 5, 4, 11]

/-- The names under which attribute types stand in a one-line name. -/
def labels : List (Oid × String) :=
  [(commonName, "CN"), (country, "C"), (locality, "L"), (state, "ST"), (organization, "O"),
    (orgUnit, "OU"),
    (.ofArcs [0, 9, 2342, 19200300, 100, 1, 25], "DC"),
    (.ofArcs [1, 2, 840, 113549, 1, 9, 1], "Email"),
    (.ofArcs [0, 9, 2342, 19200300, 100, 1, 1], "uid"),
    (.ofArcs [2, 5, 4, 4], "surname"),
    (.ofArcs [2, 5, 4, 5], "serialNumber"),
    (.ofArcs [2, 5, 4, 9], "streetAddress"),
    (.ofArcs [2, 5, 4, 12], "title"),
    (.ofArcs [2, 5, 4, 13], "description"),
    (.ofArcs [2, 5, 4, 14], "searchGuide"),
    (.ofArcs [2, 5, 4, 15], "businessCategory"),
    (.ofArcs [2, 5, 4, 16], "postalAddress"),
    (.ofArcs [2, 5, 4, 17], "postalCode"),
    (.ofArcs [2, 5, 4, 41], "name"),
    (.ofArcs [2, 5, 4, 42], "givenName"),
    (.ofArcs [2, 5, 4, 43], "initials"),
    (.ofArcs [2, 5, 4, 44], "generationQualifier"),
    (.ofArcs [2, 5, 4, 45], "uniqueIdentifier"),
    (.ofArcs [2, 5, 4, 46], "dnQualifier")]

/-- The label of an attribute type, or its arcs where it has none. -/
def label (kind : Oid) : String :=
  match labels.lookup kind with
  | some l => l
  | none => "OID(" ++ kind.dotted ++ ")"

/-- The tag numbers whose content is shown as UTF-8 text. -/
def textTags : List Nat := [0x07, 0x0C, 0x12, 0x13, 0x14, 0x15, 0x16, 0x19, 0x1A, 0x1B]

/-- A value as text: decoded where its tag names a text type, else its content in
upper-case hexadecimal; none where the decoding fails. -/
def valueText? (a : NameAttribute) : Option String :=
  if a.tag ∈ textTags then Utf8.decode? a.value
  else if a.tag = 0x1E then Bmp.utf16? a.value
  else some (Bytes.toHex a.value).toUpper

/-- Label and value. -/
def text? (a : NameAttribute) : Option String :=
  (a.valueText?).map (label a.kind ++ "=" ++ ·)

/-- The tag numbers under which a common name may be written. -/
def stringTags : List Nat := [0x0C, 0x12, 0x13, 0x16]

end NameAttribute

-- ================================================================ reading

namespace Name

open Ber

/-- The attribute at the front, its type under whatever tag, and the octets behind
it. -/
def readAttribute? (b : Bytes) : Option (NameAttribute × Bytes) := do
  let (content, rest) ← readSequence? b
  let (kind, content) ← read? content
  let (value, _) ← read? content
  if !kind.constructed then
    some (⟨⟨kind.content⟩, value.number, value.content⟩, rest)
  else none

/-- Reads members from the front until one does not parse, which is left with what
follows. Every member takes up octets, so as many steps as there are octets are
enough. -/
def readMany {α : Type} (one : Bytes → Option (α × Bytes)) :
    (steps : Nat) → Bytes → List α × Bytes
  | 0, b => ([], b)
  | steps + 1, b =>
    match one b with
    | none => ([], b)
    | some (a, rest) =>
      let (members, rest) := readMany one steps rest
      (a :: members, rest)

/-- The relative name at the front, of at least one attribute. -/
def readRelative? (b : Bytes) : Option (List NameAttribute × Bytes) := do
  let (e, rest) ← read? b
  let attributes := (readMany readAttribute? e.content.length e.content).1
  if e.constructed && e.isOf .set && !attributes.isEmpty then some (attributes, rest) else none

/-- The name at the front, and the octets behind it. What is left over in the sequence
does not belong to the name. -/
def read? (b : Bytes) : Option (Name × Bytes) := do
  let (content, rest) ← readSequence? b
  let (relative, left) := readMany readRelative? content.length content
  some (⟨b.take (b.length - rest.length - left.length), relative⟩, rest)

-- ================================================================== views

/-- All attributes in order. -/
def attributes (n : Name) : List NameAttribute := n.relative.flatten

/-- Why a common name cannot be told. -/
inductive Undecodable where
  | notUtf8
  | notString
deriving DecidableEq, Repr

/-- The first common name. -/
def commonName (n : Name) : Except Undecodable (Option String) :=
  match n.attributes.find? (·.kind = NameAttribute.commonName) with
  | none => .ok none
  | some a =>
    if a.tag ∈ NameAttribute.stringTags then
      match Utf8.decode? a.value with
      | some s => .ok (some s)
      | none => .error .notUtf8
    else .error .notString

/-- The one-line form, for a name all of whose values can be shown. -/
def text? (n : Name) : Option String := do
  let relative ← n.relative.mapM fun attributes => do
    let texts ← attributes.mapM NameAttribute.text?
    some (" + ".intercalate texts)
  some (", ".intercalate relative)

/-- The one-line form; a fixed text where a value cannot be shown. -/
def text (n : Name) : String := n.text?.getD "<X509Error: Invalid X.509 name>"

-- ================================================================ writing

/-- One relative name of one attribute with a UTF-8 value. -/
def encodeRelative (kind : Oid) (value : String) : Bytes :=
  Der.wrap Tag.set [Der.sequence [Der.oid kind, Der.utf8String value]]

/-- A name with one attribute in each relative name. -/
def encode (attributes : List (Oid × String)) : Bytes :=
  Der.sequence (attributes.map fun (kind, value) => encodeRelative kind value)

end Name
end TlsKeystore
