/-
Keyed hashing.

HMAC hashes the input behind one block made from the key, and the digest of
that behind another. A key longer than a block stands for its digest, a
shorter one is filled up with zeros. `Hmac.Keyed` is a key after both
blocks have been worked in, so that many inputs can be hashed under it.
-/
import TlsKeystore.Hash.Basic

namespace TlsKeystore

/-- The states of a hash function after the inner and the outer key block. -/
structure Hmac.Keyed (h : HashFunction) where
  inner : h.State
  outer : h.State

namespace Hmac

/-- The key as one block. -/
def keyBlock (h : HashFunction) (key : Bytes) : Bytes :=
  let short := if key.length ≤ h.blockLength then key else h.digest key
  short ++ List.replicate (h.blockLength - short.length) 0

/-- Works a key in. -/
def Keyed.ofKey (h : HashFunction) (key : Bytes) : Keyed h :=
  let block := keyBlock h key
  ⟨h.compress h.initial (block.map (· ^^^ 0x36)), h.compress h.initial (block.map (· ^^^ 0x5C))⟩

/-- The keyed digest of an input. -/
def Keyed.digest {h : HashFunction} (k : Keyed h) (b : Bytes) : Bytes :=
  h.finish k.outer h.blockLength (h.finish k.inner h.blockLength b)

end Hmac

/-- The keyed digest of an input under a key. -/
def hmac (h : HashFunction) (key b : Bytes) : Bytes := (Hmac.Keyed.ofKey h key).digest b

end TlsKeystore
