/-
PBKDF2: keys from passwords, by repeated keyed hashing.

Each block of the output is the sum of a chain of keyed digests: the first
of the salt and the number of the block, every further one of the digest
before it. The length of the chain makes guessing slow.
-/
import TlsKeystore.Hash.Hmac

namespace TlsKeystore.Pbkdf2

/-- Sum without carry, octet by octet. -/
def xor (a b : Bytes) : Bytes := List.zipWith (· ^^^ ·) a b

/-- Goes on with a chain for `count` more digests; `last` is the latest, `sum` the
sum so far. -/
def chain {h : HashFunction} (k : Hmac.Keyed h) : (count : Nat) → (last sum : Bytes) → Bytes
  | 0, _, sum => sum
  | count + 1, last, sum =>
    let next := k.digest last
    chain k count next (xor sum next)

/-- The block of a number, counted from 1. A chain has at least one digest. -/
def block {h : HashFunction} (k : Hmac.Keyed h) (salt : Bytes) (rounds number : Nat) : Bytes :=
  let first := k.digest (salt ++ Bytes.padded 4 number)
  chain k (rounds - 1) first first

/-- `length` octets of key. -/
def derive (h : HashFunction) (password salt : Bytes) (rounds length : Nat) : Bytes :=
  let k := Hmac.Keyed.ofKey h password
  let blocks := (length + h.digestLength - 1) / h.digestLength
  ((List.range blocks).flatMap fun i => block k salt rounds (i + 1)).take length

end TlsKeystore.Pbkdf2
