/-
DES three times over, with three keys, for reading older bundles.

Bits are counted from the most significant, from 1. A permutation is the
list of the bits that it takes, in order. A round replaces the right half
by the left half added to a function of the right half and a round key,
and swaps them; decryption is encryption with the round keys in opposite
order.
-/
import TlsKeystore.Bytes

namespace TlsKeystore.TripleDes

-- ================================================================== tables

/-- The order of the bits in front of the rounds. -/
def initialOrder : List UInt64 :=
  [
    58, 50, 42, 34, 26, 18, 10, 2, 60, 52, 44, 36, 28, 20, 12, 4,
    62, 54, 46, 38, 30, 22, 14, 6, 64, 56, 48, 40, 32, 24, 16, 8,
    57, 49, 41, 33, 25, 17, 9, 1, 59, 51, 43, 35, 27, 19, 11, 3,
    61, 53, 45, 37, 29, 21, 13, 5, 63, 55, 47, 39, 31, 23, 15, 7]

/-- The order of the bits behind the rounds: the first order undone. -/
def finalOrder : List UInt64 :=
  [
    40, 8, 48, 16, 56, 24, 64, 32, 39, 7, 47, 15, 55, 23, 63, 31,
    38, 6, 46, 14, 54, 22, 62, 30, 37, 5, 45, 13, 53, 21, 61, 29,
    36, 4, 44, 12, 52, 20, 60, 28, 35, 3, 43, 11, 51, 19, 59, 27,
    34, 2, 42, 10, 50, 18, 58, 26, 33, 1, 41, 9, 49, 17, 57, 25]

/-- A half widened to the size of a round key. -/
def widened : List UInt64 :=
  [
    32, 1, 2, 3, 4, 5, 4, 5, 6, 7, 8, 9, 8, 9, 10, 11,
    12, 13, 12, 13, 14, 15, 16, 17, 16, 17, 18, 19, 20, 21, 20, 21,
    22, 23, 24, 25, 24, 25, 26, 27, 28, 29, 28, 29, 30, 31, 32, 1]

/-- The order of the bits behind the substitution. -/
def spread : List UInt64 :=
  [
    16, 7, 20, 21, 29, 12, 28, 17, 1, 15, 23, 26, 5, 18, 31, 10,
    2, 8, 24, 14, 32, 27, 3, 9, 19, 13, 30, 6, 22, 11, 4, 25]

/-- The bits of a key that count, in two halves. -/
def keyBits : List UInt64 :=
  [
    57, 49, 41, 33, 25, 17, 9, 1, 58, 50, 42, 34, 26, 18, 10, 2,
    59, 51, 43, 35, 27, 19, 11, 3, 60, 52, 44, 36, 63, 55, 47, 39,
    31, 23, 15, 7, 62, 54, 46, 38, 30, 22, 14, 6, 61, 53, 45, 37,
    29, 21, 13, 5, 28, 20, 12, 4]

/-- The bits of both halves that make a round key. -/
def roundKeyBits : List UInt64 :=
  [
    14, 17, 11, 24, 1, 5, 3, 28, 15, 6, 21, 10, 23, 19, 12, 4,
    26, 8, 16, 7, 27, 20, 13, 2, 41, 52, 31, 37, 47, 55, 30, 40,
    51, 45, 33, 48, 44, 49, 39, 56, 34, 53, 46, 42, 50, 36, 29, 32]

/-- How far the key halves turn before each round. -/
def turns : List UInt64 := [1, 1, 2, 2, 2, 2, 2, 2, 1, 2, 2, 2, 2, 2, 2, 1]

/-- The substitutions of six bits by four, in rows of sixteen. -/
def boxes : List (Array UInt64) :=
  [
    #[14, 4, 13, 1, 2, 15, 11, 8, 3, 10, 6, 12, 5, 9, 0, 7,
      0, 15, 7, 4, 14, 2, 13, 1, 10, 6, 12, 11, 9, 5, 3, 8,
      4, 1, 14, 8, 13, 6, 2, 11, 15, 12, 9, 7, 3, 10, 5, 0,
      15, 12, 8, 2, 4, 9, 1, 7, 5, 11, 3, 14, 10, 0, 6, 13],
    #[15, 1, 8, 14, 6, 11, 3, 4, 9, 7, 2, 13, 12, 0, 5, 10,
      3, 13, 4, 7, 15, 2, 8, 14, 12, 0, 1, 10, 6, 9, 11, 5,
      0, 14, 7, 11, 10, 4, 13, 1, 5, 8, 12, 6, 9, 3, 2, 15,
      13, 8, 10, 1, 3, 15, 4, 2, 11, 6, 7, 12, 0, 5, 14, 9],
    #[10, 0, 9, 14, 6, 3, 15, 5, 1, 13, 12, 7, 11, 4, 2, 8,
      13, 7, 0, 9, 3, 4, 6, 10, 2, 8, 5, 14, 12, 11, 15, 1,
      13, 6, 4, 9, 8, 15, 3, 0, 11, 1, 2, 12, 5, 10, 14, 7,
      1, 10, 13, 0, 6, 9, 8, 7, 4, 15, 14, 3, 11, 5, 2, 12],
    #[7, 13, 14, 3, 0, 6, 9, 10, 1, 2, 8, 5, 11, 12, 4, 15,
      13, 8, 11, 5, 6, 15, 0, 3, 4, 7, 2, 12, 1, 10, 14, 9,
      10, 6, 9, 0, 12, 11, 7, 13, 15, 1, 3, 14, 5, 2, 8, 4,
      3, 15, 0, 6, 10, 1, 13, 8, 9, 4, 5, 11, 12, 7, 2, 14],
    #[2, 12, 4, 1, 7, 10, 11, 6, 8, 5, 3, 15, 13, 0, 14, 9,
      14, 11, 2, 12, 4, 7, 13, 1, 5, 0, 15, 10, 3, 9, 8, 6,
      4, 2, 1, 11, 10, 13, 7, 8, 15, 9, 12, 5, 6, 3, 0, 14,
      11, 8, 12, 7, 1, 14, 2, 13, 6, 15, 0, 9, 10, 4, 5, 3],
    #[12, 1, 10, 15, 9, 2, 6, 8, 0, 13, 3, 4, 14, 7, 5, 11,
      10, 15, 4, 2, 7, 12, 9, 5, 6, 1, 13, 14, 0, 11, 3, 8,
      9, 14, 15, 5, 2, 8, 12, 3, 7, 0, 4, 10, 1, 13, 11, 6,
      4, 3, 2, 12, 9, 5, 15, 10, 11, 14, 1, 7, 6, 0, 8, 13],
    #[4, 11, 2, 14, 15, 0, 8, 13, 3, 12, 9, 7, 5, 10, 6, 1,
      13, 0, 11, 7, 4, 9, 1, 10, 14, 3, 5, 12, 2, 15, 8, 6,
      1, 4, 11, 13, 12, 3, 7, 14, 10, 15, 6, 8, 0, 5, 9, 2,
      6, 11, 13, 8, 1, 4, 10, 7, 9, 5, 0, 15, 14, 2, 3, 12],
    #[13, 2, 8, 4, 6, 15, 11, 1, 10, 9, 3, 14, 5, 0, 12, 7,
      1, 15, 13, 8, 10, 3, 7, 4, 12, 5, 6, 11, 0, 14, 9, 2,
      7, 11, 4, 1, 9, 12, 14, 2, 0, 6, 10, 13, 15, 3, 5, 8,
      2, 1, 14, 7, 4, 10, 8, 13, 15, 12, 9, 0, 3, 5, 6, 11]]

-- ==================================================================== bits

/-- The bits of a word of `width` bits that a list names. -/
def select (width : UInt64) (bits : List UInt64) (x : UInt64) : UInt64 :=
  bits.foldl (fun r i => (r <<< 1) ||| ((x >>> (width - i)) &&& 1)) 0

/-- A word of 28 bits turned to the left. -/
def turn (x n : UInt64) : UInt64 := ((x <<< n) ||| (x >>> (28 - n))) &&& 0xFFFFFFF

/-- The round keys of the remaining turns. -/
def roundKeysFrom : (turns : List UInt64) → (c d : UInt64) → List UInt64
  | [], _, _ => []
  | n :: ns, c, d =>
    let c := turn c n
    let d := turn d n
    select 56 roundKeyBits ((c <<< 28) ||| d) :: roundKeysFrom ns c d

/-- The sixteen round keys of a key of eight octets. -/
def roundKeys (key : Bytes) : List UInt64 :=
  let bits := select 64 keyBits (UInt64.ofNat (Bytes.toNat key))
  roundKeysFrom turns (bits >>> 28) (bits &&& 0xFFFFFFF)

/-- Substitutes groups of six bits, the group of the remaining boxes' first one
topmost. -/
def substitute : (boxes : List (Array UInt64)) → (x : UInt64) → UInt64
  | [], _ => 0
  | box :: rest, x =>
    let shift : UInt64 := 6 * UInt64.ofNat rest.length
    let six := (x >>> shift) &&& 0x3F
    let row := ((six >>> 4) &&& 2) ||| (six &&& 1)
    let column := (six >>> 1) &&& 0xF
    let four := box.getD (row * 16 + column).toNat 0
    (four <<< (4 * UInt64.ofNat rest.length)) ||| substitute rest x

/-- What a round adds to the other half. -/
def mixed (half key : UInt64) : UInt64 :=
  select 32 spread (substitute boxes (select 32 widened half ^^^ key))

/-- The rounds over the remaining keys. -/
def rounds : List UInt64 → (left right : UInt64) → UInt64
  | [], left, right => (right <<< 32) ||| left
  | k :: ks, left, right => rounds ks right (left ^^^ mixed right k)

/-- One pass with round keys in the order given. -/
def pass (keys : List UInt64) (x : UInt64) : UInt64 :=
  let x := select 64 initialOrder x
  select 64 finalOrder (rounds keys (x >>> 32) (x &&& 0xFFFFFFFF))

-- ============================================================== the cipher

/-- The round keys of three passes of decryption, in the order of their use. -/
structure Keys where
  first : List UInt64
  second : List UInt64
  third : List UInt64

/-- The keys for decryption from 24 octets: encryption went through the first,
backwards through the second, and through the third. -/
def keys (key : Bytes) : Keys :=
  ⟨(roundKeys (key.drop 16)).reverse, roundKeys ((key.drop 8).take 8),
    (roundKeys (key.take 8)).reverse⟩

/-- Decrypts eight octets. -/
def decrypt (k : Keys) (b : Bytes) : Bytes :=
  let x := UInt64.ofNat (Bytes.toNat b)
  Bytes.padded 8 (pass k.third (pass k.second (pass k.first x))).toNat

/-- The octets of `The qufc` under three keys. -/
example : decrypt (keys
      [0x01, 0x23, 0x45, 0x67, 0x89, 0xAB, 0xCD, 0xEF,
        0x23, 0x45, 0x67, 0x89, 0xAB, 0xCD, 0xEF, 0x01,
        0x45, 0x67, 0x89, 0xAB, 0xCD, 0xEF, 0x01, 0x23])
      [0xA8, 0x26, 0xFD, 0x8C, 0xE5, 0x3B, 0x85, 0x5F]
    = [0x54, 0x68, 0x65, 0x20, 0x71, 0x75, 0x66, 0x63] := by
  decide +kernel

end TlsKeystore.TripleDes
