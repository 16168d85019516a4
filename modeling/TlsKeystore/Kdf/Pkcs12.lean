/-
The key derivation of PKCS#12.

The input of the hash is a block that says what the key is for, then the
salt and the password, each repeated to whole blocks. After every digest
the salt and password blocks are raised by the digest, so that the next
one differs.
-/
import TlsKeystore.Hash.Basic

namespace TlsKeystore.Pkcs12Kdf

/-- What a key is for. -/
inductive Purpose where
  | encryption
  | initialVector
  | integrity
deriving DecidableEq, Repr

/-- The octet that stands for a purpose. -/
def Purpose.code : Purpose → UInt8
  | .encryption => 1
  | .initialVector => 2
  | .integrity => 3

/-- The first `length` octets of the endless repetition of `b`; none of it where `b`
is empty. -/
def repeated (length : Nat) (b : Bytes) : Bytes :=
  if b.isEmpty then []
  else (List.replicate ((length + b.length - 1) / b.length) b).flatten.take length

/-- Repeated to whole blocks. -/
def wholeBlocks (blockLength : Nat) (b : Bytes) : Bytes :=
  repeated ((b.length + blockLength - 1) / blockLength * blockLength) b

/-- Hashes `count` times, each time the digest before. -/
def iterate (h : HashFunction) : (count : Nat) → Bytes → Bytes
  | 0, b => b
  | count + 1, b => iterate h count (h.digest b)

/-- Every block raised by a number, modulo its size. -/
def raise (blockLength n : Nat) (blocks : Nat) (b : Bytes) : Bytes :=
  (List.range blocks).flatMap fun i =>
    Bytes.padded blockLength (Bytes.toNat ((b.drop (i * blockLength)).take blockLength) + n)

/-- `count` digests in a row. -/
def digests (h : HashFunction) (mark : Bytes) (rounds : Nat) : (count : Nat) → Bytes → Bytes
  | 0, _ => []
  | count + 1, input =>
    let a := iterate h rounds (mark ++ input)
    let n := Bytes.toNat (repeated h.blockLength a) + 1
    a ++ digests h mark rounds count
      (raise h.blockLength n (input.length / h.blockLength) input)

/-- `length` octets of key. Less than one round counts as one. -/
def derive (h : HashFunction) (purpose : Purpose) (password salt : Bytes) (rounds length : Nat) :
    Bytes :=
  let mark := List.replicate h.blockLength purpose.code
  let input := wholeBlocks h.blockLength salt ++ wholeBlocks h.blockLength password
  let count := (length + h.digestLength - 1) / h.digestLength
  (digests h mark (max rounds 1) count input).take length

end TlsKeystore.Pkcs12Kdf
