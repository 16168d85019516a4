/-
Signatures of RSA with SHA-256.

The digest stands at the end of a block as long as the modulus, behind a
name for the hash function and a filling of one bits. `Signature.encode`
is that block as a number's octets; a signature is the number whose power
to the public exponent it is.
-/
import TlsKeystore.Hash.Sha256
import TlsKeystore.Rsa.PrivateKey

namespace TlsKeystore.Signature

def sha256 : Oid := .ofArcs [2, 16, 840, 1, 101, 3, 4, 2, 1]
def sha256WithRsa : Oid := .ofArcs [1, 2, 840, 113549, 1, 1, 11]

/-- A digest under the name of its hash function. -/
def digestInfo (message : Bytes) : Bytes :=
  Der.sequence [Der.sequence [Der.oid sha256, Der.null],
    Der.octetString (Sha256.sha256.digest message)]

/-- The block of `length` octets for a message. -/
def encode (length : Nat) (message : Bytes) : Bytes :=
  let info := digestInfo message
  [0, 1] ++ List.replicate (length - 3 - info.length) 0xFF ++ 0 :: info

/-- The power of a number to the private exponent, by way of both primes. -/
def privatePower (k : PrivateKey) (m : Nat) : Nat :=
  let m1 := Modular.pow m k.exponent1 k.prime1
  let m2 := Modular.pow m k.exponent2 k.prime2
  let h := k.coefficient * ((m1 : Int) - m2) % k.prime1
  (m2 + h.toNat * k.prime2) % k.modulus

/-- The octets of a modulus. -/
def modulusLength (k : PrivateKey) : Nat := Bytes.byteLength k.modulus

/-- Whether a signature is one of a message under public numbers. -/
def verifies (modulus exponent : Nat) (message signature : Bytes) : Bool :=
  Modular.pow (Bytes.toNat signature) exponent modulus
    == Bytes.toNat (encode (Bytes.byteLength modulus) message)

/-- The signature of a message; none where the key's numbers do not give one that
verifies. -/
def sign? (k : PrivateKey) (message : Bytes) : Option Bytes :=
  let length := modulusLength k
  let s := Bytes.padded length (privatePower k (Bytes.toNat (encode length message)))
  if verifies k.modulus k.publicExponent message s then some s else none

end TlsKeystore.Signature
