/-
Elements as certificates in the field hold them.

The tolerant reader takes any definite length, shortest form or not, and
tags of any class and number. It tells what was read and what follows;
whether a class or a constructed form matters is for the field that asks.
`readOpen?` also takes an element that has no length and ends with a mark.
-/
import TlsKeystore.Asn1.Oid

namespace TlsKeystore.Ber

/-- An element with its tag taken apart: class (0 to 3), form, number. -/
structure Element where
  tagClass : Nat
  constructed : Bool
  number : Nat
  content : Bytes
deriving DecidableEq, Repr

/-- Tag numbers of the universal class. -/
inductive Universal where
  | boolean | integer | bitString | octetString | oid | enumerated | sequence | set
  | utcTime | generalizedTime
deriving DecidableEq, Repr

def Universal.number : Universal → Nat
  | .boolean => 1
  | .integer => 2
  | .bitString => 3
  | .octetString => 4
  | .oid => 6
  | .enumerated => 10
  | .sequence => 16
  | .set => 17
  | .utcTime => 23
  | .generalizedTime => 24

-- ================================================================ headers

/-- A tag number in groups of seven bits, five octets at most and within 32
bits, and the octets behind it. -/
def readNumber? : (room : Nat) → (n : Nat) → Bytes → Option (Nat × Bytes)
  | 0, _, _ => none
  | _ + 1, _, [] => none
  | room + 1, n, x :: rest =>
    let n := (n * 128 + x.toNat % 128) % 0x100000000
    if x < 128 then some (n, rest) else readNumber? room n rest

/-- A definite length within 64 bits, and the octets behind it. -/
def readLength? : Bytes → Option (Nat × Bytes)
  | [] => none
  | x :: rest =>
    if x < 0x80 then some (x.toNat, rest)
    else if x = 0x80 ∨ x = 0xFF then none
    else
      let count := x.toNat - 0x80
      let octets := rest.take count
      let n := Bytes.toNat octets
      if octets.length = count ∧ n < 0x10000000000000000 then some (n, rest.drop count) else none

/-- A tag, as an element without content, and the octets behind it. -/
def readTag? : Bytes → Option (Element × Bytes)
  | [] => none
  | x :: rest => do
    let low := x.toNat % 32
    let (number, rest) ← if low = 31 then readNumber? 5 0 rest else some (low, rest)
    some (⟨x.toNat / 64, x.toNat / 32 % 2 == 1, number, []⟩, rest)

/-- A tag and the length that its content shall have, and the octets behind them. -/
def readHeader? (b : Bytes) : Option ((Element × Nat) × Bytes) := do
  let (e, rest) ← readTag? b
  let (length, rest) ← readLength? rest
  some ((e, length), rest)

/-- The element at the front, and the octets behind it. -/
def read? (b : Bytes) : Option (Element × Bytes) := do
  let ((e, length), rest) ← readHeader? b
  let content := rest.take length
  if content.length = length then some ({ e with content }, rest.drop length) else none

-- ======================================================== open elements

/-- How deep elements without a length may nest. -/
def maxNesting : Nat := 49

/-- Skips the members of an element without a length, and the end mark behind them: an
empty element of tag number 0. Every member takes up octets, so as many steps as there
are octets are enough. -/
def skipMembers? : (steps depth : Nat) → Bytes → Option Bytes
  | 0, _, _ => none
  | _, 0, _ => none
  | steps + 1, depth + 1, b => do
    let (e, rest) ← readTag? b
    match rest with
    | 0x80 :: inner =>
      if e.constructed then
        skipMembers? steps (depth + 1) (← skipMembers? steps depth inner)
      else none
    | _ =>
      let (length, rest) ← readLength? rest
      if length = 0 ∧ e.number = 0 then some rest
      else if rest.length < length then none
      else skipMembers? steps (depth + 1) (rest.drop length)

/-- The element at the front, with or without a length, and the octets behind it. The
end mark is not part of the content. -/
def readOpen? (b : Bytes) : Option (Element × Bytes) := do
  let (e, rest) ← readTag? b
  match rest with
  | 0x80 :: inner =>
    if e.constructed then
      let rest ← skipMembers? inner.length maxNesting inner
      some ({ e with content := inner.take (inner.length - rest.length - 2) }, rest)
    else none
  | _ => read? b

-- ================================================== views of an element

namespace Element

/-- Whether the tag number is that of a universal type, whatever the class. -/
def isOf (e : Element) (u : Universal) : Bool := e.number == u.number

/-- Whether the element is of a universal type, by class and number. -/
def isUniversal (e : Element) (u : Universal) : Bool := e.tagClass == 0 && e.isOf u

/-- The content of a SEQUENCE, of whatever class. -/
def sequence? (e : Element) : Option Bytes :=
  if e.constructed && e.isOf .sequence then some e.content else none

/-- The content of an OCTET STRING, of whatever class. -/
def octets? (e : Element) : Option Bytes :=
  if !e.constructed && e.isOf .octetString then some e.content else none

/-- The octets of a BIT STRING, of whatever class. The first content octet counts
the bits that are not used; those are zero. -/
def bits? (e : Element) : Option Bytes :=
  if e.constructed || !e.isOf .bitString then none
  else match e.content with
    | [] => none
    | unused :: octets =>
      let last := (octets.getLast?.getD 0).toNat
      if octets = [] ∧ unused ≠ 0 then none
      else if 8 ≤ unused then none
      else if last % Nat.pow 2 unused.toNat ≠ 0 then none
      else some octets

end Element

/-- The content of the SEQUENCE at the front, and the octets behind it. -/
def readSequence? (b : Bytes) : Option (Bytes × Bytes) := do
  let (e, rest) ← read? b
  let content ← e.sequence?
  some (content, rest)

end TlsKeystore.Ber
