/-
SHA-512 and SHA-384, on words of 64 bits.
-/
import TlsKeystore.Hash.Basic

namespace TlsKeystore.Sha512

/-- The chained words. -/
structure State where
  a : UInt64
  b : UInt64
  c : UInt64
  d : UInt64
  e : UInt64
  f : UInt64
  g : UInt64
  h : UInt64
deriving DecidableEq, Repr

/-- The constants of the rounds: the first 64 bits of the fractional parts of the
cube roots of the first 80 primes. -/
def constants : List UInt64 :=
  [
    0x428A2F98D728AE22, 0x7137449123EF65CD, 0xB5C0FBCFEC4D3B2F,
    0xE9B5DBA58189DBBC, 0x3956C25BF348B538, 0x59F111F1B605D019,
    0x923F82A4AF194F9B, 0xAB1C5ED5DA6D8118, 0xD807AA98A3030242,
    0x12835B0145706FBE, 0x243185BE4EE4B28C, 0x550C7DC3D5FFB4E2,
    0x72BE5D74F27B896F, 0x80DEB1FE3B1696B1, 0x9BDC06A725C71235,
    0xC19BF174CF692694, 0xE49B69C19EF14AD2, 0xEFBE4786384F25E3,
    0x0FC19DC68B8CD5B5, 0x240CA1CC77AC9C65, 0x2DE92C6F592B0275,
    0x4A7484AA6EA6E483, 0x5CB0A9DCBD41FBD4, 0x76F988DA831153B5,
    0x983E5152EE66DFAB, 0xA831C66D2DB43210, 0xB00327C898FB213F,
    0xBF597FC7BEEF0EE4, 0xC6E00BF33DA88FC2, 0xD5A79147930AA725,
    0x06CA6351E003826F, 0x142929670A0E6E70, 0x27B70A8546D22FFC,
    0x2E1B21385C26C926, 0x4D2C6DFC5AC42AED, 0x53380D139D95B3DF,
    0x650A73548BAF63DE, 0x766A0ABB3C77B2A8, 0x81C2C92E47EDAEE6,
    0x92722C851482353B, 0xA2BFE8A14CF10364, 0xA81A664BBC423001,
    0xC24B8B70D0F89791, 0xC76C51A30654BE30, 0xD192E819D6EF5218,
    0xD69906245565A910, 0xF40E35855771202A, 0x106AA07032BBD1B8,
    0x19A4C116B8D2D0C8, 0x1E376C085141AB53, 0x2748774CDF8EEB99,
    0x34B0BCB5E19B48A8, 0x391C0CB3C5C95A63, 0x4ED8AA4AE3418ACB,
    0x5B9CCA4F7763E373, 0x682E6FF3D6B2B8A3, 0x748F82EE5DEFB2FC,
    0x78A5636F43172F60, 0x84C87814A1F0AB72, 0x8CC702081A6439EC,
    0x90BEFFFA23631E28, 0xA4506CEBDE82BDE9, 0xBEF9A3F7B2C67915,
    0xC67178F2E372532B, 0xCA273ECEEA26619C, 0xD186B8C721C0C207,
    0xEADA7DD6CDE0EB1E, 0xF57D4F7FEE6ED178, 0x06F067AA72176FBA,
    0x0A637DC5A2C898A6, 0x113F9804BEF90DAE, 0x1B710B35131C471B,
    0x28DB77F523047D84, 0x32CAAB7B40C72493, 0x3C9EBE0A15C9BEBC,
    0x431D67C49C100D4C, 0x4CC5D4BECB3E42B6, 0x597F299CFC657E2A,
    0x5FCB6FAB3AD6FAEC, 0x6C44198C4A475817]

@[inline] def rotate (x : UInt64) (n : UInt64) : UInt64 := (x >>> n) ||| (x <<< (64 - n))

/-- The rounds over the remaining constants. `w0` is the schedule word of the next
round, and the sixteen words at hand give the one that comes after them. -/
def rounds : List UInt64 →
    (a b c d e f g h : UInt64) →
    (w0 w1 w2 w3 w4 w5 w6 w7 w8 w9 w10 w11 w12 w13 w14 w15 : UInt64) → State
  | [], a, b, c, d, e, f, g, h, _, _, _, _, _, _, _, _, _, _, _, _, _, _, _, _ =>
    ⟨a, b, c, d, e, f, g, h⟩
  | k :: ks, a, b, c, d, e, f, g, h,
      w0, w1, w2, w3, w4, w5, w6, w7, w8, w9, w10, w11, w12, w13, w14, w15 =>
    let sum1 := rotate e 14 ^^^ rotate e 18 ^^^ rotate e 41
    let choice := (e &&& f) ^^^ (~~~e &&& g)
    let t1 := h + sum1 + choice + k + w0
    let sum0 := rotate a 28 ^^^ rotate a 34 ^^^ rotate a 39
    let majority := (a &&& b) ^^^ (a &&& c) ^^^ (b &&& c)
    let small0 := rotate w1 1 ^^^ rotate w1 8 ^^^ (w1 >>> 7)
    let small1 := rotate w14 19 ^^^ rotate w14 61 ^^^ (w14 >>> 6)
    rounds ks (t1 + sum0 + majority) a b c (d + t1) e f g
      w1 w2 w3 w4 w5 w6 w7 w8 w9 w10 w11 w12 w13 w14 w15 (small1 + w9 + small0 + w0)

/-- Octets as words, most significant octet first. -/
def words : Bytes → List UInt64
  | a :: b :: c :: d :: e :: f :: g :: h :: rest =>
    ((a.toUInt64 <<< 56) ||| (b.toUInt64 <<< 48) ||| (c.toUInt64 <<< 40) ||| (d.toUInt64 <<< 32)
        ||| (e.toUInt64 <<< 24) ||| (f.toUInt64 <<< 16) ||| (g.toUInt64 <<< 8) ||| h.toUInt64)
      :: words rest
  | _ => []

/-- Works one block into the state. -/
def compress (s : State) (block : Bytes) : State :=
  match words block with
  | [w0, w1, w2, w3, w4, w5, w6, w7, w8, w9, w10, w11, w12, w13, w14, w15] =>
    let r := rounds constants s.a s.b s.c s.d s.e s.f s.g s.h
      w0 w1 w2 w3 w4 w5 w6 w7 w8 w9 w10 w11 w12 w13 w14 w15
    ⟨s.a + r.a, s.b + r.b, s.c + r.c, s.d + r.d, s.e + r.e, s.f + r.f, s.g + r.g, s.h + r.h⟩
  | _ => s

/-- The octets of a word in front of others. -/
@[inline] def wordOnto (x : UInt64) (tail : Bytes) : Bytes :=
  (x >>> 56).toUInt8 :: (x >>> 48).toUInt8 :: (x >>> 40).toUInt8 :: (x >>> 32).toUInt8
    :: (x >>> 24).toUInt8 :: (x >>> 16).toUInt8 :: (x >>> 8).toUInt8 :: x.toUInt8 :: tail

/-- All words of the state as octets. -/
def State.octets (s : State) : Bytes :=
  wordOnto s.a <| wordOnto s.b <| wordOnto s.c <| wordOnto s.d <|
  wordOnto s.e <| wordOnto s.f <| wordOnto s.g <| wordOnto s.h []

/-- SHA-512. -/
def sha512 : HashFunction where
  State := State
  blockLength := 128
  lengthOctets := 16
  digestLength := 64
  initial := ⟨
    0x6A09E667F3BCC908, 0xBB67AE8584CAA73B,
    0x3C6EF372FE94F82B, 0xA54FF53A5F1D36F1,
    0x510E527FADE682D1, 0x9B05688C2B3E6C1F,
    0x1F83D9ABFB41BD6B, 0x5BE0CD19137E2179⟩
  compress := compress
  output := fun s => s.octets.take 64

/-- The first half of the digest of the octets of `abc`. -/
example : Bytes.toHex ((sha512.digest [0x61, 0x62, 0x63]).take 32)
    = "ddaf35a193617abacc417349ae20413112e6fa4e89a97ea20a9eeee64b55d39a" := by
  decide +kernel

/-- SHA-384: other starting words, and a shorter digest. -/
def sha384 : HashFunction where
  State := State
  blockLength := 128
  lengthOctets := 16
  digestLength := 48
  initial := ⟨
    0xCBBB9D5DC1059ED8, 0x629A292A367CD507,
    0x9159015A3070DD17, 0x152FECD8F70E5939,
    0x67332667FFC00B31, 0x8EB44A8768581511,
    0xDB0C2E0D64F98FA7, 0x47B5481DBEFA4FA4⟩
  compress := compress
  output := fun s => s.octets.take 48

end TlsKeystore.Sha512
