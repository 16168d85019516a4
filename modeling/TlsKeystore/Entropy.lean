/-
Where random octets come from.

Entropy is an endless stream of octets and a place in it. A `Draw` takes
octets from the place on and moves it, so that no octet is used twice;
everything random here is a function of the stream. A stream can be had
from a seed, as the digests of the seed and a number, for 0, 1, 2 and so
on: whoever does not know the seed cannot tell it from a random one.
-/
import TlsKeystore.Hash.Sha256

namespace TlsKeystore

/-- A stream of octets, of which the first `used` have been taken. -/
structure Entropy where
  octet : Nat → UInt8
  used : Nat

/-- A computation that may take octets from a stream. -/
abbrev Draw (α : Type) := StateM Entropy α

/-- The next `n` octets. -/
def Draw.octets (n : Nat) : Draw Bytes := fun e =>
  ((List.range n).map fun i => e.octet (e.used + i), { e with used := e.used + n })

namespace Entropy

/-- The octets that one digest gives. -/
def blockLength : Nat := 32

/-- The stream of a seed. -/
def ofSeed (seed : Bytes) : Entropy where
  octet := fun i =>
    ((Sha256.sha256.digest (seed ++ Bytes.padded 8 (i / blockLength)))[i % blockLength]?).getD 0
  used := 0

end Entropy
end TlsKeystore
