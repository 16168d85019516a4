/-
AES with keys of 128, 192 and 256 bits.

A block is four columns of four octets. A round substitutes every octet,
shifts the rows, mixes each column and adds a round key; the last round
does not mix. Decryption undoes the steps in the opposite order.
-/
import TlsKeystore.Bytes

namespace TlsKeystore.Aes

/-- A column of four octets. -/
structure Column where
  a : UInt8
  b : UInt8
  c : UInt8
  d : UInt8
deriving DecidableEq, Repr, Inhabited

/-- A block of four columns. -/
structure Block where
  c0 : Column
  c1 : Column
  c2 : Column
  c3 : Column
deriving DecidableEq, Repr, Inhabited

-- ============================================================ substitution

/-- Inverse in the field of 256 elements, then an affine map. -/
def substitutes : Array UInt8 := #[
    0x63, 0x7C, 0x77, 0x7B, 0xF2, 0x6B, 0x6F, 0xC5, 0x30, 0x01, 0x67, 0x2B, 0xFE, 0xD7, 0xAB, 0x76,
    0xCA, 0x82, 0xC9, 0x7D, 0xFA, 0x59, 0x47, 0xF0, 0xAD, 0xD4, 0xA2, 0xAF, 0x9C, 0xA4, 0x72, 0xC0,
    0xB7, 0xFD, 0x93, 0x26, 0x36, 0x3F, 0xF7, 0xCC, 0x34, 0xA5, 0xE5, 0xF1, 0x71, 0xD8, 0x31, 0x15,
    0x04, 0xC7, 0x23, 0xC3, 0x18, 0x96, 0x05, 0x9A, 0x07, 0x12, 0x80, 0xE2, 0xEB, 0x27, 0xB2, 0x75,
    0x09, 0x83, 0x2C, 0x1A, 0x1B, 0x6E, 0x5A, 0xA0, 0x52, 0x3B, 0xD6, 0xB3, 0x29, 0xE3, 0x2F, 0x84,
    0x53, 0xD1, 0x00, 0xED, 0x20, 0xFC, 0xB1, 0x5B, 0x6A, 0xCB, 0xBE, 0x39, 0x4A, 0x4C, 0x58, 0xCF,
    0xD0, 0xEF, 0xAA, 0xFB, 0x43, 0x4D, 0x33, 0x85, 0x45, 0xF9, 0x02, 0x7F, 0x50, 0x3C, 0x9F, 0xA8,
    0x51, 0xA3, 0x40, 0x8F, 0x92, 0x9D, 0x38, 0xF5, 0xBC, 0xB6, 0xDA, 0x21, 0x10, 0xFF, 0xF3, 0xD2,
    0xCD, 0x0C, 0x13, 0xEC, 0x5F, 0x97, 0x44, 0x17, 0xC4, 0xA7, 0x7E, 0x3D, 0x64, 0x5D, 0x19, 0x73,
    0x60, 0x81, 0x4F, 0xDC, 0x22, 0x2A, 0x90, 0x88, 0x46, 0xEE, 0xB8, 0x14, 0xDE, 0x5E, 0x0B, 0xDB,
    0xE0, 0x32, 0x3A, 0x0A, 0x49, 0x06, 0x24, 0x5C, 0xC2, 0xD3, 0xAC, 0x62, 0x91, 0x95, 0xE4, 0x79,
    0xE7, 0xC8, 0x37, 0x6D, 0x8D, 0xD5, 0x4E, 0xA9, 0x6C, 0x56, 0xF4, 0xEA, 0x65, 0x7A, 0xAE, 0x08,
    0xBA, 0x78, 0x25, 0x2E, 0x1C, 0xA6, 0xB4, 0xC6, 0xE8, 0xDD, 0x74, 0x1F, 0x4B, 0xBD, 0x8B, 0x8A,
    0x70, 0x3E, 0xB5, 0x66, 0x48, 0x03, 0xF6, 0x0E, 0x61, 0x35, 0x57, 0xB9, 0x86, 0xC1, 0x1D, 0x9E,
    0xE1, 0xF8, 0x98, 0x11, 0x69, 0xD9, 0x8E, 0x94, 0x9B, 0x1E, 0x87, 0xE9, 0xCE, 0x55, 0x28, 0xDF,
    0x8C, 0xA1, 0x89, 0x0D, 0xBF, 0xE6, 0x42, 0x68, 0x41, 0x99, 0x2D, 0x0F, 0xB0, 0x54, 0xBB, 0x16]

/-- The table read backwards. -/
def inverseSubstitutes : Array UInt8 := #[
    0x52, 0x09, 0x6A, 0xD5, 0x30, 0x36, 0xA5, 0x38, 0xBF, 0x40, 0xA3, 0x9E, 0x81, 0xF3, 0xD7, 0xFB,
    0x7C, 0xE3, 0x39, 0x82, 0x9B, 0x2F, 0xFF, 0x87, 0x34, 0x8E, 0x43, 0x44, 0xC4, 0xDE, 0xE9, 0xCB,
    0x54, 0x7B, 0x94, 0x32, 0xA6, 0xC2, 0x23, 0x3D, 0xEE, 0x4C, 0x95, 0x0B, 0x42, 0xFA, 0xC3, 0x4E,
    0x08, 0x2E, 0xA1, 0x66, 0x28, 0xD9, 0x24, 0xB2, 0x76, 0x5B, 0xA2, 0x49, 0x6D, 0x8B, 0xD1, 0x25,
    0x72, 0xF8, 0xF6, 0x64, 0x86, 0x68, 0x98, 0x16, 0xD4, 0xA4, 0x5C, 0xCC, 0x5D, 0x65, 0xB6, 0x92,
    0x6C, 0x70, 0x48, 0x50, 0xFD, 0xED, 0xB9, 0xDA, 0x5E, 0x15, 0x46, 0x57, 0xA7, 0x8D, 0x9D, 0x84,
    0x90, 0xD8, 0xAB, 0x00, 0x8C, 0xBC, 0xD3, 0x0A, 0xF7, 0xE4, 0x58, 0x05, 0xB8, 0xB3, 0x45, 0x06,
    0xD0, 0x2C, 0x1E, 0x8F, 0xCA, 0x3F, 0x0F, 0x02, 0xC1, 0xAF, 0xBD, 0x03, 0x01, 0x13, 0x8A, 0x6B,
    0x3A, 0x91, 0x11, 0x41, 0x4F, 0x67, 0xDC, 0xEA, 0x97, 0xF2, 0xCF, 0xCE, 0xF0, 0xB4, 0xE6, 0x73,
    0x96, 0xAC, 0x74, 0x22, 0xE7, 0xAD, 0x35, 0x85, 0xE2, 0xF9, 0x37, 0xE8, 0x1C, 0x75, 0xDF, 0x6E,
    0x47, 0xF1, 0x1A, 0x71, 0x1D, 0x29, 0xC5, 0x89, 0x6F, 0xB7, 0x62, 0x0E, 0xAA, 0x18, 0xBE, 0x1B,
    0xFC, 0x56, 0x3E, 0x4B, 0xC6, 0xD2, 0x79, 0x20, 0x9A, 0xDB, 0xC0, 0xFE, 0x78, 0xCD, 0x5A, 0xF4,
    0x1F, 0xDD, 0xA8, 0x33, 0x88, 0x07, 0xC7, 0x31, 0xB1, 0x12, 0x10, 0x59, 0x27, 0x80, 0xEC, 0x5F,
    0x60, 0x51, 0x7F, 0xA9, 0x19, 0xB5, 0x4A, 0x0D, 0x2D, 0xE5, 0x7A, 0x9F, 0x93, 0xC9, 0x9C, 0xEF,
    0xA0, 0xE0, 0x3B, 0x4D, 0xAE, 0x2A, 0xF5, 0xB0, 0xC8, 0xEB, 0xBB, 0x3C, 0x83, 0x53, 0x99, 0x61,
    0x17, 0x2B, 0x04, 0x7E, 0xBA, 0x77, 0xD6, 0x26, 0xE1, 0x69, 0x14, 0x63, 0x55, 0x21, 0x0C, 0x7D]

def substitute (x : UInt8) : UInt8 := substitutes.getD x.toNat 0

def unsubstitute (x : UInt8) : UInt8 := inverseSubstitutes.getD x.toNat 0

-- ================================================================= columns

namespace Column

def map (f : UInt8 → UInt8) (x : Column) : Column := ⟨f x.a, f x.b, f x.c, f x.d⟩

def add (x y : Column) : Column := ⟨x.a ^^^ y.a, x.b ^^^ y.b, x.c ^^^ y.c, x.d ^^^ y.d⟩

/-- The octets moved up by one. -/
def rotate (x : Column) : Column := ⟨x.b, x.c, x.d, x.a⟩

end Column

/-- Twice an element of the field. -/
def double (x : UInt8) : UInt8 := (x <<< 1) ^^^ (if x &&& 0x80 = 0 then 0 else 0x1B)

/-- A multiple of an element, by the bits of the factor. -/
def times (n : UInt8) (x : UInt8) : UInt8 :=
  let x2 := double x
  let x4 := double x2
  let x8 := double x4
  (if n &&& 1 = 0 then 0 else x) ^^^ (if n &&& 2 = 0 then 0 else x2)
    ^^^ (if n &&& 4 = 0 then 0 else x4) ^^^ (if n &&& 8 = 0 then 0 else x8)

namespace Column

/-- Each octet replaced by a sum of multiples of all four; the factors go round. -/
def combine (p q r s : UInt8) (x : Column) : Column :=
  ⟨times p x.a ^^^ times q x.b ^^^ times r x.c ^^^ times s x.d,
    times s x.a ^^^ times p x.b ^^^ times q x.c ^^^ times r x.d,
    times r x.a ^^^ times s x.b ^^^ times p x.c ^^^ times q x.d,
    times q x.a ^^^ times r x.b ^^^ times s x.c ^^^ times p x.d⟩

def mix (x : Column) : Column := combine 2 3 1 1 x

def unmix (x : Column) : Column := combine 14 11 13 9 x

end Column

-- ================================================================== blocks

namespace Block

def map (f : Column → Column) (x : Block) : Block := ⟨f x.c0, f x.c1, f x.c2, f x.c3⟩

def add (x y : Block) : Block := ⟨x.c0.add y.c0, x.c1.add y.c1, x.c2.add y.c2, x.c3.add y.c3⟩

/-- Row `n` moved `n` columns to the left. -/
def shiftRows (x : Block) : Block :=
  ⟨⟨x.c0.a, x.c1.b, x.c2.c, x.c3.d⟩, ⟨x.c1.a, x.c2.b, x.c3.c, x.c0.d⟩,
    ⟨x.c2.a, x.c3.b, x.c0.c, x.c1.d⟩, ⟨x.c3.a, x.c0.b, x.c1.c, x.c2.d⟩⟩

/-- Row `n` moved `n` columns to the right. -/
def unshiftRows (x : Block) : Block :=
  ⟨⟨x.c0.a, x.c3.b, x.c2.c, x.c1.d⟩, ⟨x.c1.a, x.c0.b, x.c3.c, x.c2.d⟩,
    ⟨x.c2.a, x.c1.b, x.c0.c, x.c3.d⟩, ⟨x.c3.a, x.c2.b, x.c1.c, x.c0.d⟩⟩

/-- Sixteen octets as a block, column by column. -/
def ofBytes (b : Bytes) : Block :=
  match b with
  | [a0, a1, a2, a3, a4, a5, a6, a7, a8, a9, a10, a11, a12, a13, a14, a15] =>
    ⟨⟨a0, a1, a2, a3⟩, ⟨a4, a5, a6, a7⟩, ⟨a8, a9, a10, a11⟩, ⟨a12, a13, a14, a15⟩⟩
  | _ => default

def toBytes (x : Block) : Bytes :=
  [x.c0.a, x.c0.b, x.c0.c, x.c0.d, x.c1.a, x.c1.b, x.c1.c, x.c1.d,
    x.c2.a, x.c2.b, x.c2.c, x.c2.d, x.c3.a, x.c3.b, x.c3.c, x.c3.d]

/-- A round but for its key. -/
def round (x : Block) : Block := ((x.map (·.map substitute)).shiftRows).map Column.mix

/-- The last round but for its key. -/
def lastRound (x : Block) : Block := (x.map (·.map substitute)).shiftRows

def unround (x : Block) : Block := ((x.map Column.unmix).unshiftRows).map (·.map unsubstitute)

def unlastRound (x : Block) : Block := (x.unshiftRows).map (·.map unsubstitute)

end Block

-- ============================================================== round keys

/-- Octets as columns. -/
def columns : Bytes → List Column
  | a :: b :: c :: d :: rest => ⟨a, b, c, d⟩ :: columns rest
  | _ => []

/-- Columns of the key schedule. `recent` are as many as the key has, oldest first;
`place` counts columns within a run of that many, and `constant` belongs to the
run. -/
def schedule (length : Nat) :
    (count place : Nat) → (constant : UInt8) → (recent : List Column) → List Column
  | 0, _, _, _ => []
  | count + 1, place, constant, recent =>
    let last := recent.getLast?.getD default
    let change :=
      if place = 0 then (last.rotate.map substitute).add ⟨constant, 0, 0, 0⟩
      else if 6 < length ∧ place = 4 then last.map substitute
      else last
    let next := (recent.headD default).add change
    let (place, constant) :=
      if place + 1 = length then (0, double constant)
      else (place + 1, constant)
    next :: schedule length count place constant (recent.drop 1 ++ [next])

/-- Columns in fours. -/
def blocks : List Column → List Block
  | a :: b :: c :: d :: rest => ⟨a, b, c, d⟩ :: blocks rest
  | _ => []

/-- The round keys of a key of 16, 24 or 32 octets: one more than there are
rounds. -/
def roundKeys (key : Bytes) : List Block :=
  let own := columns key
  let length := own.length
  blocks (own ++ schedule length (4 * (length + 7) - length) 0 1 own)

-- ============================================================== the cipher

/-- The rounds under the remaining round keys. -/
def encryptRounds : List Block → Block → Block
  | [], x => x
  | [k], x => x.lastRound.add k
  | k :: k' :: ks, x => encryptRounds (k' :: ks) (x.round.add k)

/-- Undoes the rounds under the remaining round keys, the last one first. -/
def decryptRounds : List Block → Block → Block
  | [], x => x
  | [k], x => (x.add k).unlastRound
  | k :: k' :: ks, x => ((decryptRounds (k' :: ks) x).add k).unround

/-- Encrypts a block under round keys. -/
def encryptBlock (keys : List Block) (x : Block) : Block :=
  match keys with
  | [] => x
  | k :: ks => encryptRounds ks (x.add k)

/-- Decrypts a block under round keys. -/
def decryptBlock (keys : List Block) (x : Block) : Block :=
  match keys with
  | [] => x
  | k :: ks => (decryptRounds ks x).add k

/-- Encrypts sixteen octets. -/
def encrypt (keys : List Block) (b : Bytes) : Bytes :=
  (encryptBlock keys (.ofBytes b)).toBytes

/-- A block under the key of the octets from 0 to 31. -/
example : Bytes.toHex (encrypt (roundKeys ((List.range 32).map UInt8.ofNat))
      [0x00, 0x11, 0x22, 0x33, 0x44, 0x55, 0x66, 0x77,
        0x88, 0x99, 0xAA, 0xBB, 0xCC, 0xDD, 0xEE, 0xFF])
    = "8ea2b7ca516745bfeafc49904b496089" := by
  decide +kernel

/-- Decrypts sixteen octets. -/
def decrypt (keys : List Block) (b : Bytes) : Bytes :=
  (decryptBlock keys (.ofBytes b)).toBytes

end TlsKeystore.Aes
