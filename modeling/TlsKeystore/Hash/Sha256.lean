/-
SHA-256 and SHA-224, on words of 32 bits.
-/
import TlsKeystore.Hash.Basic

namespace TlsKeystore.Sha256

/-- The chained words. -/
structure State where
  a : UInt32
  b : UInt32
  c : UInt32
  d : UInt32
  e : UInt32
  f : UInt32
  g : UInt32
  h : UInt32
deriving DecidableEq, Repr

/-- The constants of the rounds: the first 32 bits of the fractional parts of the
cube roots of the first 64 primes. -/
def constants : List UInt32 :=
  [
    0x428A2F98, 0x71374491, 0xB5C0FBCF, 0xE9B5DBA5, 0x3956C25B, 0x59F111F1,
    0x923F82A4, 0xAB1C5ED5, 0xD807AA98, 0x12835B01, 0x243185BE, 0x550C7DC3,
    0x72BE5D74, 0x80DEB1FE, 0x9BDC06A7, 0xC19BF174, 0xE49B69C1, 0xEFBE4786,
    0x0FC19DC6, 0x240CA1CC, 0x2DE92C6F, 0x4A7484AA, 0x5CB0A9DC, 0x76F988DA,
    0x983E5152, 0xA831C66D, 0xB00327C8, 0xBF597FC7, 0xC6E00BF3, 0xD5A79147,
    0x06CA6351, 0x14292967, 0x27B70A85, 0x2E1B2138, 0x4D2C6DFC, 0x53380D13,
    0x650A7354, 0x766A0ABB, 0x81C2C92E, 0x92722C85, 0xA2BFE8A1, 0xA81A664B,
    0xC24B8B70, 0xC76C51A3, 0xD192E819, 0xD6990624, 0xF40E3585, 0x106AA070,
    0x19A4C116, 0x1E376C08, 0x2748774C, 0x34B0BCB5, 0x391C0CB3, 0x4ED8AA4A,
    0x5B9CCA4F, 0x682E6FF3, 0x748F82EE, 0x78A5636F, 0x84C87814, 0x8CC70208,
    0x90BEFFFA, 0xA4506CEB, 0xBEF9A3F7, 0xC67178F2]

@[inline] def rotate (x : UInt32) (n : UInt32) : UInt32 := (x >>> n) ||| (x <<< (32 - n))

/-- The rounds over the remaining constants. `w0` is the schedule word of the next
round, and the sixteen words at hand give the one that comes after them. -/
def rounds : List UInt32 →
    (a b c d e f g h : UInt32) →
    (w0 w1 w2 w3 w4 w5 w6 w7 w8 w9 w10 w11 w12 w13 w14 w15 : UInt32) → State
  | [], a, b, c, d, e, f, g, h, _, _, _, _, _, _, _, _, _, _, _, _, _, _, _, _ =>
    ⟨a, b, c, d, e, f, g, h⟩
  | k :: ks, a, b, c, d, e, f, g, h,
      w0, w1, w2, w3, w4, w5, w6, w7, w8, w9, w10, w11, w12, w13, w14, w15 =>
    let sum1 := rotate e 6 ^^^ rotate e 11 ^^^ rotate e 25
    let choice := (e &&& f) ^^^ (~~~e &&& g)
    let t1 := h + sum1 + choice + k + w0
    let sum0 := rotate a 2 ^^^ rotate a 13 ^^^ rotate a 22
    let majority := (a &&& b) ^^^ (a &&& c) ^^^ (b &&& c)
    let small0 := rotate w1 7 ^^^ rotate w1 18 ^^^ (w1 >>> 3)
    let small1 := rotate w14 17 ^^^ rotate w14 19 ^^^ (w14 >>> 10)
    rounds ks (t1 + sum0 + majority) a b c (d + t1) e f g
      w1 w2 w3 w4 w5 w6 w7 w8 w9 w10 w11 w12 w13 w14 w15 (small1 + w9 + small0 + w0)

/-- Octets as words, most significant octet first. -/
def words : Bytes → List UInt32
  | a :: b :: c :: d :: rest =>
    ((a.toUInt32 <<< 24) ||| (b.toUInt32 <<< 16) ||| (c.toUInt32 <<< 8) ||| d.toUInt32)
      :: words rest
  | _ => []

/-- Works one block into the state. -/
def compress (s : State) (block : Bytes) : State :=
  match words block with
  | [w0, w1, w2, w3, w4, w5, w6, w7, w8, w9, w10, w11, w12, w13, w14, w15] =>
    let r := rounds constants s.a s.b s.c s.d s.e s.f s.g s.h
      w0 w1 w2 w3 w4 w5 w6 w7 w8 w9 w10 w11 w12 w13 w14 w15
    ⟨s.a + r.a, s.b + r.b, s.c + r.c, s.d + r.d, s.e + r.e, s.f + r.f, s.g + r.g, s.h + r.h⟩
  | _ => s

/-- The octets of a word in front of others. -/
@[inline] def wordOnto (x : UInt32) (tail : Bytes) : Bytes :=
  (x >>> 24).toUInt8 :: (x >>> 16).toUInt8 :: (x >>> 8).toUInt8 :: x.toUInt8 :: tail

/-- All words of the state as octets. -/
def State.octets (s : State) : Bytes :=
  wordOnto s.a <| wordOnto s.b <| wordOnto s.c <| wordOnto s.d <|
  wordOnto s.e <| wordOnto s.f <| wordOnto s.g <| wordOnto s.h []

/-- SHA-256. -/
def sha256 : HashFunction where
  State := State
  blockLength := 64
  lengthOctets := 8
  digestLength := 32
  initial := ⟨
    0x6A09E667, 0xBB67AE85, 0x3C6EF372, 0xA54FF53A,
    0x510E527F, 0x9B05688C, 0x1F83D9AB, 0x5BE0CD19⟩
  compress := compress
  output := fun s => s.octets.take 32

@[simp] theorem length_finish (s : State) (done : Nat) (b : Bytes) :
    (sha256.finish s done b).length = 32 := rfl

@[simp] theorem length_digest (b : Bytes) : (sha256.digest b).length = 32 := rfl

/-- The digest of the octets of `abc`. -/
example : Bytes.toHex (sha256.digest [0x61, 0x62, 0x63])
    = "ba7816bf8f01cfea414140de5dae2223b00361a396177a9cb410ff61f20015ad" := by
  decide +kernel

/-- SHA-224: other starting words, and a shorter digest. -/
def sha224 : HashFunction where
  State := State
  blockLength := 64
  lengthOctets := 8
  digestLength := 28
  initial := ⟨
    0xC1059ED8, 0x367CD507, 0x3070DD17, 0xF70E5939,
    0xFFC00B31, 0x68581511, 0x64F98FA7, 0xBEFA4FA4⟩
  compress := compress
  output := fun s => s.octets.take 28

end TlsKeystore.Sha256
