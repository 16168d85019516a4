/-
Elements in the distinguished encoding rules.

An element is a tag octet and content octets. `Element.encode` writes it
with the shortest length, and `Der.read?` reads back exactly that form,
from the front of its input. `Der.readAll?` splits content into the
elements it consists of, which is how every constructed element is taken
apart: a reader of a structure matches on the list of its elements, so
that nothing can be left over unnoticed.
-/
import TlsKeystore.Asn1.Oid
import TlsKeystore.Text.Encoding

namespace TlsKeystore

/-- A tag octet and the content under it. -/
structure Element where
  tag : UInt8
  content : Bytes
deriving DecidableEq, Repr, Inhabited

namespace Tag

def boolean : UInt8 := 0x01
def integer : UInt8 := 0x02
def bitString : UInt8 := 0x03
def octetString : UInt8 := 0x04
def null : UInt8 := 0x05
def oid : UInt8 := 0x06
def utf8String : UInt8 := 0x0C
def utcTime : UInt8 := 0x17
def generalizedTime : UInt8 := 0x18
def bmpString : UInt8 := 0x1E
def sequence : UInt8 := 0x30
def set : UInt8 := 0x31

/-- A context tag around whole elements. -/
def explicit (n : UInt8) : UInt8 := 0xA0 + n

/-- A context tag in place of a primitive element's own. -/
def implicit (n : UInt8) : UInt8 := 0x80 + n

end Tag

namespace Der

/-- The longest content that the strict reader takes. -/
def maxLength : Nat := 0x0FFFFFFF

-- ================================================================ writing

/-- The length octets of `n`: the number itself below 128, else how many octets
follow and then the number. -/
def lengthOctets (n : Nat) : Bytes :=
  if n < 128 then [UInt8.ofNat n]
  else
    let octets := Bytes.ofNat n
    UInt8.ofNat (0x80 + octets.length) :: octets

end Der

/-- Tag, length, content. -/
def Element.encode (e : Element) : Bytes :=
  e.tag :: (Der.lengthOctets e.content.length ++ e.content)

namespace Der

/-- An element around parts that are already encoded. -/
def wrap (tag : UInt8) (parts : List Bytes) : Bytes :=
  Element.encode ⟨tag, parts.flatten⟩

def sequence (parts : List Bytes) : Bytes := wrap Tag.sequence parts

/-- The content octets of a non-negative INTEGER: a zero octet goes in front
where the first bit would read as a sign. -/
def naturalOctets (n : Nat) : Bytes :=
  match Bytes.ofNat n with
  | [] => [0]
  | x :: rest => if x < 128 then x :: rest else 0 :: x :: rest

def natural (n : Nat) : Bytes := Element.encode ⟨Tag.integer, naturalOctets n⟩

def octetString (b : Bytes) : Bytes := Element.encode ⟨Tag.octetString, b⟩

/-- A BIT STRING of whole octets. -/
def bitString (b : Bytes) : Bytes := Element.encode ⟨Tag.bitString, 0 :: b⟩

def oid (id : Oid) : Bytes := Element.encode ⟨Tag.oid, id.content⟩

def null : Bytes := Element.encode ⟨Tag.null, []⟩

def utf8String (s : String) : Bytes := Element.encode ⟨Tag.utf8String, Utf8.encode s⟩

def boolean (b : Bool) : Bytes := Element.encode ⟨Tag.boolean, [if b then 0xFF else 0]⟩

/-- Lexicographic order of octet strings. -/
def precedes : Bytes → Bytes → Bool
  | [], _ => true
  | _ :: _, [] => false
  | x :: xs, y :: ys => x < y || (x == y && precedes xs ys)

/-- A SET OF: its encoded members in ascending order. -/
def setOf (members : List Bytes) : Bytes :=
  wrap Tag.set (members.mergeSort precedes)

-- ================================================================ reading

/-- The tags that a strict reader knows: the universal ones in use and every
short one of the other classes. -/
def knownTag (t : UInt8) : Bool :=
  if t &&& 0x1F == 0x1F then false
  else if 0x40 ≤ t then true
  else t ∈ [0x01, 0x02, 0x03, 0x04, 0x05, 0x06, 0x09, 0x0A, 0x0C, 0x12, 0x13, 0x14, 0x15,
    0x16, 0x17, 0x18, 0x1A, 0x1B, 0x1E, 0x30, 0x31]

/-- A length in its shortest form, and the octets behind it. -/
def readLength? : Bytes → Option (Nat × Bytes)
  | [] => none
  | x :: rest =>
    if x < 0x80 then some (x.toNat, rest)
    else
      let count := x.toNat - 0x80
      let octets := rest.take count
      let n := Bytes.toNat octets
      if count ≤ 4 ∧ lengthOctets n = x :: octets ∧ n ≤ maxLength then
        some (n, rest.drop count)
      else none

/-- The element at the front, and the octets behind it. -/
def read? : Bytes → Option (Element × Bytes)
  | [] => none
  | tag :: tail =>
    match readLength? tail with
    | none => none
    | some (n, rest) =>
      let content := rest.take n
      if knownTag tag ∧ content.length = n then some (⟨tag, content⟩, rest.drop n) else none

theorem readLength?_length {b rest : Bytes} {n : Nat} (h : readLength? b = some (n, rest)) :
    rest.length < b.length := by
  match b with
  | [] => simp [readLength?] at h
  | x :: tail =>
    simp only [readLength?] at h
    split at h
    · simp only [Option.some.injEq, Prod.mk.injEq] at h
      simp [← h.2]
    · split at h
      · simp only [Option.some.injEq, Prod.mk.injEq] at h
        simp only [← h.2, List.length_drop, List.length_cons]
        omega
      · simp at h

/-- Reading an element uses up octets. -/
theorem read?_length {b rest : Bytes} {e : Element} (h : read? b = some (e, rest)) :
    rest.length < b.length := by
  match b with
  | [] => simp [read?] at h
  | tag :: tail =>
    simp only [read?] at h
    split at h
    · simp at h
    · rename_i n mid hmid
      split at h
      · simp only [Option.some.injEq, Prod.mk.injEq] at h
        have := readLength?_length hmid
        simp only [← h.2, List.length_drop, List.length_cons]
        omega
      · simp at h

/-- The elements that octets consist of; none when anything else is left. -/
def readAll? (b : Bytes) : Option (List Element) :=
  match b with
  | [] => some []
  | x :: tail =>
    match _front : read? (x :: tail) with
    | none => none
    | some (e, rest) => (readAll? rest).map (e :: ·)
termination_by b.length
decreasing_by exact read?_length _front

/-- The single element that octets consist of. -/
def readOne? (b : Bytes) : Option Element :=
  match read? b with
  | some (e, []) => some e
  | _ => none

end Der

-- ================================================== views of an element

namespace Element

/-- The elements inside an element of the given tag. -/
def items? (tag : UInt8) (e : Element) : Option (List Element) :=
  if e.tag = tag then Der.readAll? e.content else none

/-- The one element inside an element of the given tag. -/
def only? (tag : UInt8) (e : Element) : Option Element :=
  if e.tag = tag then Der.readOne? e.content else none

def octets? (e : Element) : Option Bytes :=
  if e.tag = Tag.octetString then some e.content else none

/-- An identifier in strict form. -/
def oid? (e : Element) : Option Oid :=
  if e.tag = Tag.oid ∧ Oid.wellFormed ⟨e.content⟩ then some ⟨e.content⟩ else none

/-- A non-negative INTEGER in its shortest form. -/
def natural? (e : Element) : Option Nat :=
  let n := Bytes.toNat e.content
  if e.tag = Tag.integer ∧ Der.naturalOctets n = e.content then some n else none

/-- An INTEGER in its shortest two's complement form. -/
def integer? (e : Element) : Option Int :=
  if e.tag ≠ Tag.integer then none
  else match e.content with
    | [] => none
    | x :: rest =>
      let redundant := match rest with
        | [] => false
        | y :: _ => (x == 0 && y < 128) || (x == 0xFF && 128 ≤ y)
      if redundant then none
      else
        let n : Int := Bytes.toNat (x :: rest)
        some (if x < 128 then n else n - (Nat.pow 256 (x :: rest).length : Nat))

/-- Whether an element is a NULL. -/
def isNull (e : Element) : Bool := e.tag == Tag.null && e.content.isEmpty

/-- Whether the tag is of the context class and around whole elements. -/
def isExplicit (e : Element) : Bool := e.tag &&& 0xE0 == 0xA0

end Element
end TlsKeystore
