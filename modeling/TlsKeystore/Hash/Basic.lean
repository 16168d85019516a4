/-
Hash functions that take their input in blocks.

A hash function of this kind keeps a state, works one block after the
other into it, and shows the state at the end. The input is filled up to
whole blocks: a one bit, zeros, and the length of the input in bits.
`HashFunction.finish` takes up the work from a state into which some blocks
have gone already, which is what keyed hashing needs.
-/
import TlsKeystore.Bytes

namespace TlsKeystore

/-- A hash function by its parts. The length of the input takes `lengthOctets`
octets of the last block. -/
structure HashFunction where
  State : Type
  blockLength : Nat
  lengthOctets : Nat
  digestLength : Nat
  initial : State
  compress : State → Bytes → State
  output : State → Bytes

namespace HashFunction

/-- What goes behind an input of `n` octets, to fill the last block. -/
def filling (h : HashFunction) (n : Nat) : Bytes :=
  let used := (n + 1 + h.lengthOctets) % h.blockLength
  let zeros := if used = 0 then 0 else h.blockLength - used
  0x80 :: (List.replicate zeros 0 ++ Bytes.padded h.lengthOctets (8 * n))

/-- Works `count` blocks into the state. -/
def absorb (h : HashFunction) : (count : Nat) → h.State → Bytes → h.State
  | 0, s, _ => s
  | count + 1, s, b =>
    h.absorb count (h.compress s (b.take h.blockLength)) (b.drop h.blockLength)

/-- The digest of an input of which `done` octets, whole blocks, are in the state
already and `b` is the rest. -/
def finish (h : HashFunction) (s : h.State) (done : Nat) (b : Bytes) : Bytes :=
  let filled := b ++ h.filling (done + b.length)
  h.output (h.absorb (filled.length / h.blockLength) s filled)

/-- The digest of an input. -/
def digest (h : HashFunction) (b : Bytes) : Bytes := h.finish h.initial 0 b

end HashFunction
end TlsKeystore
