/-
The outline of an encoding: which elements it nests.

A constructed element branches into the elements inside it. So does an
octet string that is itself exactly one sequence, once it is long enough
for that to be no accident. Every other element is a leaf.
-/
import TlsKeystore.Asn1.Der

namespace TlsKeystore

/-- An encoding as a tree of elements. -/
inductive Outline where
  | leaf (tag : UInt8) (content : Bytes)
  | branch (tag : UInt8) (children : List Outline)
deriving Repr

namespace Outline

/-- The least length of an octet string that is looked into. -/
def nestedLength : Nat := 64

/-- The elements inside an element that branches. -/
def inside? (e : Element) : Option (List Element) :=
  if e.tag &&& 0x20 != 0 then Der.readAll? e.content
  else if e.tag = Tag.octetString ∧ nestedLength ≤ e.content.length then do
    let inner ← Der.readOne? e.content
    if inner.tag = Tag.sequence then some [inner] else none
  else none

/-- The outline of an element. Nesting takes up octets, so as many steps as an
element has are enough. -/
def ofElement : (steps : Nat) → Element → Outline
  | 0, e => .leaf e.tag e.content
  | steps + 1, e =>
    match inside? e with
    | some inner => .branch e.tag (inner.map (ofElement steps))
    | none => .leaf e.tag e.content

/-- The outlines of the elements that octets consist of. -/
def ofBytes? (b : Bytes) : Option (List Outline) :=
  (Der.readAll? b).map fun es => es.map (ofElement (b.length + 1))

end Outline
end TlsKeystore
