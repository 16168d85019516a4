/-
RC2 with keys of 40 bits, for reading older bundles.

A block is four words of 16 bits, least significant octet first. A mixing
round adds to each word a key word and a choice between two other words,
and turns it; a mashing round adds a key word that another word picks.
Decryption undoes 5 mixing rounds, a mashing round, 6 mixing rounds, a
mashing round and 5 mixing rounds.
-/
import TlsKeystore.Bytes

namespace TlsKeystore.Rc2

/-- A permutation of the octets. -/
def table : Array UInt8 := #[
    0xD9, 0x78, 0xF9, 0xC4, 0x19, 0xDD, 0xB5, 0xED, 0x28, 0xE9, 0xFD, 0x79, 0x4A, 0xA0, 0xD8, 0x9D,
    0xC6, 0x7E, 0x37, 0x83, 0x2B, 0x76, 0x53, 0x8E, 0x62, 0x4C, 0x64, 0x88, 0x44, 0x8B, 0xFB, 0xA2,
    0x17, 0x9A, 0x59, 0xF5, 0x87, 0xB3, 0x4F, 0x13, 0x61, 0x45, 0x6D, 0x8D, 0x09, 0x81, 0x7D, 0x32,
    0xBD, 0x8F, 0x40, 0xEB, 0x86, 0xB7, 0x7B, 0x0B, 0xF0, 0x95, 0x21, 0x22, 0x5C, 0x6B, 0x4E, 0x82,
    0x54, 0xD6, 0x65, 0x93, 0xCE, 0x60, 0xB2, 0x1C, 0x73, 0x56, 0xC0, 0x14, 0xA7, 0x8C, 0xF1, 0xDC,
    0x12, 0x75, 0xCA, 0x1F, 0x3B, 0xBE, 0xE4, 0xD1, 0x42, 0x3D, 0xD4, 0x30, 0xA3, 0x3C, 0xB6, 0x26,
    0x6F, 0xBF, 0x0E, 0xDA, 0x46, 0x69, 0x07, 0x57, 0x27, 0xF2, 0x1D, 0x9B, 0xBC, 0x94, 0x43, 0x03,
    0xF8, 0x11, 0xC7, 0xF6, 0x90, 0xEF, 0x3E, 0xE7, 0x06, 0xC3, 0xD5, 0x2F, 0xC8, 0x66, 0x1E, 0xD7,
    0x08, 0xE8, 0xEA, 0xDE, 0x80, 0x52, 0xEE, 0xF7, 0x84, 0xAA, 0x72, 0xAC, 0x35, 0x4D, 0x6A, 0x2A,
    0x96, 0x1A, 0xD2, 0x71, 0x5A, 0x15, 0x49, 0x74, 0x4B, 0x9F, 0xD0, 0x5E, 0x04, 0x18, 0xA4, 0xEC,
    0xC2, 0xE0, 0x41, 0x6E, 0x0F, 0x51, 0xCB, 0xCC, 0x24, 0x91, 0xAF, 0x50, 0xA1, 0xF4, 0x70, 0x39,
    0x99, 0x7C, 0x3A, 0x85, 0x23, 0xB8, 0xB4, 0x7A, 0xFC, 0x02, 0x36, 0x5B, 0x25, 0x55, 0x97, 0x31,
    0x2D, 0x5D, 0xFA, 0x98, 0xE3, 0x8A, 0x92, 0xAE, 0x05, 0xDF, 0x29, 0x10, 0x67, 0x6C, 0xBA, 0xC9,
    0xD3, 0x00, 0xE6, 0xCF, 0xE1, 0x9E, 0xA8, 0x2C, 0x63, 0x16, 0x01, 0x3F, 0x58, 0xE2, 0x89, 0xA9,
    0x0D, 0x38, 0x34, 0x1B, 0xAB, 0x33, 0xFF, 0xB0, 0xBB, 0x48, 0x0C, 0x5F, 0xB9, 0xB1, 0xCD, 0x2E,
    0xC5, 0xF3, 0xDB, 0x47, 0xE5, 0xA5, 0x9C, 0x77, 0x0A, 0xA6, 0x20, 0x68, 0xFE, 0x7F, 0xC1, 0xAD]

def look (x : UInt8) : UInt8 := table.getD x.toNat 0

/-- A block of four words. -/
structure Block where
  r0 : UInt16
  r1 : UInt16
  r2 : UInt16
  r3 : UInt16
deriving DecidableEq, Repr

-- ============================================================ key schedule

/-- Lengthens a row of octets by `count`, each from the last one and the one
`length` before the end. -/
def lengthen (length : Nat) : (count : Nat) → Array UInt8 → Array UInt8
  | 0, row => row
  | count + 1, row =>
    let n := row.size
    lengthen length count (row.push (look (row.getD (n - 1) 0 + row.getD (n - length) 0)))

/-- Replaces the first `count` octets, the last of them first, each from the one
after it and the one `length` after it. -/
def replace (length : Nat) : (count : Nat) → Array UInt8 → Array UInt8
  | 0, row => row
  | count + 1, row =>
    let x := look (row.getD (count + 1) 0 ^^^ row.getD (count + length) 0)
    replace length count (row.setIfInBounds count x)

/-- The 64 key words of a key that is as long as it is strong. -/
def keyWords (key : Bytes) : Array UInt16 :=
  let length := key.length
  let row := lengthen length (128 - length) key.toArray
  let turn := 128 - length
  let row := replace length turn (row.setIfInBounds turn (look (row.getD turn 0)))
  ((List.range 64).map fun i =>
    (row.getD (2 * i) 0).toUInt16 + (row.getD (2 * i + 1) 0).toUInt16 * 256).toArray

-- ================================================================== rounds

@[inline] def turnRight (x : UInt16) (n : UInt16) : UInt16 := (x >>> n) ||| (x <<< (16 - n))

@[inline] def choose (a b c : UInt16) : UInt16 := (a &&& b) + (~~~a &&& c)

/-- Undoes the mixing round that used the four key words from `i` on. -/
def unmix (keys : Array UInt16) (i : Nat) (x : Block) : Block :=
  let r3 := turnRight x.r3 5 - keys.getD (i + 3) 0 - choose x.r2 x.r1 x.r0
  let r2 := turnRight x.r2 3 - keys.getD (i + 2) 0 - choose x.r1 x.r0 r3
  let r1 := turnRight x.r1 2 - keys.getD (i + 1) 0 - choose x.r0 r3 r2
  let r0 := turnRight x.r0 1 - keys.getD i 0 - choose r3 r2 r1
  ⟨r0, r1, r2, r3⟩

/-- Undoes a mashing round. -/
def unmash (keys : Array UInt16) (x : Block) : Block :=
  let pick (w : UInt16) : UInt16 := keys.getD (w &&& 63).toNat 0
  let r3 := x.r3 - pick x.r2
  let r2 := x.r2 - pick x.r1
  let r1 := x.r1 - pick x.r0
  let r0 := x.r0 - pick r3
  ⟨r0, r1, r2, r3⟩

/-- Undoes `count` mixing rounds, the last of which began at key word
`4 * (first + count - 1)`. -/
def unmixMany (keys : Array UInt16) (first : Nat) : (count : Nat) → Block → Block
  | 0, x => x
  | count + 1, x => unmixMany keys first count (unmix keys (4 * (first + count)) x)

/-- Decrypts a block. -/
def decryptBlock (keys : Array UInt16) (x : Block) : Block :=
  let x := unmash keys (unmixMany keys 11 5 x)
  let x := unmash keys (unmixMany keys 5 6 x)
  unmixMany keys 0 5 x

-- ================================================================== octets

def word (low high : UInt8) : UInt16 := low.toUInt16 + high.toUInt16 * 256

def octets (w : UInt16) : Bytes := [w.toUInt8, (w >>> 8).toUInt8]

/-- Decrypts eight octets. -/
def decrypt (keys : Array UInt16) (b : Bytes) : Bytes :=
  match b with
  | [b0, b1, b2, b3, b4, b5, b6, b7] =>
    let x := decryptBlock keys ⟨word b0 b1, word b2 b3, word b4 b5, word b6 b7⟩
    octets x.r0 ++ octets x.r1 ++ octets x.r2 ++ octets x.r3
  | _ => b

/-- A block under a key of 64 bits, all but two of them zero. -/
example : decrypt (keyWords [0x30, 0, 0, 0, 0, 0, 0, 0])
      [0x30, 0x64, 0x9E, 0xDF, 0x9B, 0xE7, 0xD2, 0xC2]
    = [0x10, 0, 0, 0, 0, 0, 0, 1] := by
  decide +kernel

end TlsKeystore.Rc2
