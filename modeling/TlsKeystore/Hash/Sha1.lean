/-
SHA-1. It names certificates inside a bundle and serves the older
encryption schemes; nothing here relies on it against forgery.
-/
import TlsKeystore.Hash.Sha256

namespace TlsKeystore.Sha1

/-- The chained words. -/
structure State where
  a : UInt32
  b : UInt32
  c : UInt32
  d : UInt32
  e : UInt32
deriving DecidableEq, Repr

/-- How a round mixes three of the words. -/
inductive Mix where
  | choice
  | parity
  | majority
deriving DecidableEq, Repr

@[inline] def Mix.apply (m : Mix) (b c d : UInt32) : UInt32 :=
  match m with
  | .choice => (b &&& c) ||| (~~~b &&& d)
  | .parity => b ^^^ c ^^^ d
  | .majority => (b &&& c) ||| (b &&& d) ||| (c &&& d)

/-- What differs from round to round. -/
structure Round where
  mix : Mix
  constant : UInt32
deriving DecidableEq, Repr

/-- Four times twenty rounds. -/
def schedule : List Round :=
  List.replicate 20 ⟨.choice, 0x5A827999⟩ ++ List.replicate 20 ⟨.parity, 0x6ED9EBA1⟩
    ++ List.replicate 20 ⟨.majority, 0x8F1BBCDC⟩ ++ List.replicate 20 ⟨.parity, 0xCA62C1D6⟩

@[inline] def rotate (x : UInt32) (n : UInt32) : UInt32 := (x <<< n) ||| (x >>> (32 - n))

/-- The remaining rounds. `w0` is the schedule word of the next one. -/
def rounds : List Round →
    (a b c d e : UInt32) →
    (w0 w1 w2 w3 w4 w5 w6 w7 w8 w9 w10 w11 w12 w13 w14 w15 : UInt32) → State
  | [], a, b, c, d, e, _, _, _, _, _, _, _, _, _, _, _, _, _, _, _, _ => ⟨a, b, c, d, e⟩
  | r :: rs, a, b, c, d, e,
      w0, w1, w2, w3, w4, w5, w6, w7, w8, w9, w10, w11, w12, w13, w14, w15 =>
    rounds rs (rotate a 5 + r.mix.apply b c d + e + r.constant + w0) a (rotate b 30) c d
      w1 w2 w3 w4 w5 w6 w7 w8 w9 w10 w11 w12 w13 w14 w15 (rotate (w13 ^^^ w8 ^^^ w2 ^^^ w0) 1)

/-- Works one block into the state. -/
def compress (s : State) (block : Bytes) : State :=
  match Sha256.words block with
  | [w0, w1, w2, w3, w4, w5, w6, w7, w8, w9, w10, w11, w12, w13, w14, w15] =>
    let r := rounds schedule s.a s.b s.c s.d s.e
      w0 w1 w2 w3 w4 w5 w6 w7 w8 w9 w10 w11 w12 w13 w14 w15
    ⟨s.a + r.a, s.b + r.b, s.c + r.c, s.d + r.d, s.e + r.e⟩
  | _ => s

/-- All words of the state as octets. -/
def State.octets (s : State) : Bytes :=
  Sha256.wordOnto s.a <| Sha256.wordOnto s.b <| Sha256.wordOnto s.c <|
  Sha256.wordOnto s.d <| Sha256.wordOnto s.e []

/-- SHA-1. -/
def sha1 : HashFunction where
  State := State
  blockLength := 64
  lengthOctets := 8
  digestLength := 20
  initial := ⟨0x67452301, 0xEFCDAB89, 0x98BADCFE, 0x10325476, 0xC3D2E1F0⟩
  compress := compress
  output := State.octets

@[simp] theorem length_digest (b : Bytes) : (sha1.digest b).length = 20 := rfl

/-- The digest of the octets of `abc`. -/
example : Bytes.toHex (sha1.digest [0x61, 0x62, 0x63])
    = "a9993e364706816aba3e25717850c26c9cd0d89d" := by
  decide +kernel

end TlsKeystore.Sha1
