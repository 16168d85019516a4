/-
Object identifiers.

An identifier is kept as its content octets, since foreign data holds
octets that no list of arcs would give. `Oid.ofArcs` is the encoding,
`Oid.dotted` the text that is shown, and `Oid.wellFormed` the test that
strict readers put first.
-/
import TlsKeystore.Bytes

namespace TlsKeystore

/-- An object identifier, by its content octets. -/
structure Oid where
  content : Bytes
deriving DecidableEq, Repr

namespace Oid

-- ============================================================ writing arcs

/-- The groups of seven bits of `n`, each marked as continued, in front of
`tail`. -/
def continuedOnto (n : Nat) (tail : Bytes) : Bytes :=
  if h : n = 0 then tail
  else continuedOnto (n / 128) (UInt8.ofNat (n % 128 + 128) :: tail)
termination_by n
decreasing_by omega

/-- An arc in base 128, the last octet alone without the continuation bit. -/
def arcOctets (n : Nat) : Bytes :=
  continuedOnto (n / 128) [UInt8.ofNat (n % 128)]

/-- The identifier of a list of arcs; the first two share an octet. -/
def ofArcs : List Nat → Oid
  | a :: b :: rest => ⟨UInt8.ofNat (a * 40 + b) :: rest.flatMap arcOctets⟩
  | _ => ⟨[]⟩

-- ============================================================ reading arcs

/-- Splits octets after each one without the continuation bit; what follows the
last such octet is a group of its own. -/
def groups : Bytes → List Bytes
  | [] => []
  | x :: rest =>
    if x < 128 then [x] :: groups rest
    else match groups rest with
      | [] => [[x]]
      | g :: gs => (x :: g) :: gs

/-- The number of a group of seven-bit octets, within 64 bits. -/
def groupValue (g : Bytes) : Nat :=
  g.foldl (fun n x => n * 128 + x.toNat % 128) 0 % 0x10000000000000000

/-- A finished group that may not fit 64 bits. -/
def overlong (g : Bytes) : Bool :=
  9 < g.length && g.getLast?.any (· < 128)

/-- The arcs that are shown: the first octet counts as two, alone and zero as
one. -/
def arcs : Bytes → List Nat
  | [] => []
  | [0] => [0]
  | x :: rest => x.toNat / 40 :: x.toNat % 40 :: (groups rest).map groupValue

/-- Decimal arcs with dots between them; octets in hexadecimal when an arc may
not fit 64 bits. -/
def dotted (oid : Oid) : String :=
  if (groups (oid.content.drop 1)).any overlong then
    " ".intercalate (oid.content.map fun x => Bytes.toHex [x])
  else
    ".".intercalate ((arcs oid.content).map toString)

-- ======================================================== strict encoding

/-- Whether octets are finished groups, none past 32 bits. Only the octets after
the fourth of a group can carry it past. -/
def arcsFit : (read : Nat) → Bytes → Bool
  | read, [] => read == 0
  | read, x :: rest =>
    if 4 ≤ read && x &&& 0xF0 != 0 then false
    else arcsFit (if x < 128 then 0 else read + 1) rest

/-- Strict readers take identifiers of 3 to 39 octets, the first two arcs in
range and the rest finished and within 32 bits. -/
def wellFormed (oid : Oid) : Bool :=
  match oid.content with
  | [] => false
  | x :: rest => x ≤ 119 && 2 ≤ rest.length && rest.length ≤ 38 && arcsFit 0 rest

end Oid
end TlsKeystore
