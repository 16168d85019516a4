/-
RSA private keys and their PKCS#8 form.

A key of two primes carries what makes private operations fast: the
private exponent modulo each prime less one, and the inverse of the second
prime modulo the first. `PrivateKey.encode` writes the key. Two readers
take it back, with different demands. `PrivateKey.decode?` is for telling
which certificate a key belongs to: it wants the numbers to fit together.
`PrivateKey.load?` is for signing: it wants a key of 2048 to 4096 bits in
the plainest form, and looks at the sizes that signing relies on.
-/
import TlsKeystore.Asn1.Der
import TlsKeystore.Rsa.Arithmetic

namespace TlsKeystore

/-- An RSA private key of two primes. -/
structure PrivateKey where
  modulus : Nat
  publicExponent : Nat
  privateExponent : Nat
  prime1 : Nat
  prime2 : Nat
  exponent1 : Nat
  exponent2 : Nat
  coefficient : Nat
deriving DecidableEq, Repr

namespace PrivateKey

def rsaEncryption : Oid := .ofArcs [1, 2, 840, 113549, 1, 1, 1]

/-- The numbers in the order in which they are written. -/
def numbers (k : PrivateKey) : List Nat :=
  [k.modulus, k.publicExponent, k.privateExponent, k.prime1, k.prime2, k.exponent1, k.exponent2,
    k.coefficient]

-- ================================================================ writing

/-- The key alone, without a word on its algorithm. -/
def encodeNumbers (k : PrivateKey) : Bytes :=
  Der.sequence (Der.natural 0 :: k.numbers.map Der.natural)

/-- The PKCS#8 form. -/
def encode (k : PrivateKey) : Bytes :=
  Der.sequence [Der.natural 0, Der.sequence [Der.oid rsaEncryption, Der.null],
    Der.octetString k.encodeNumbers]

-- ================================================================ reading

/-- The numbers of a key of two primes, and nothing else. -/
def ofNumbers? (b : Bytes) : Option PrivateKey := do
  let e ← Der.readOne? b
  let items ← e.items? Tag.sequence
  match ← items.mapM Element.natural? with
  | [0, n, e, d, p, q, dp, dq, qi] => some ⟨n, e, d, p, q, dp, dq, qi⟩
  | _ => none

/-- Whether an element says RSA, with the NULL that belongs to it. -/
def saysRsa (e : Element) : Bool :=
  match e.items? Tag.sequence with
  | some [kind, parameters] => kind.oid? == some rsaEncryption && parameters.isNull
  | _ => false

/-- Whether what follows the key is in order: fields below [1] hold anything, a
public key under [1] in whole octets stands in the second version and only
there, and every further field holds one element. -/
def fieldsFit (version : Nat) (fields : List Element) : Bool :=
  let others (rest : List Element) : Bool :=
    rest.all fun e => e.isExplicit && (Der.readOne? e.content).isSome
  match fields.dropWhile fun e => e.tag == 0x80 || e.tag == 0xA0 with
  | ⟨0x81, 0 :: _⟩ :: rest => version == 1 && others rest
  | ⟨0xA1, _⟩ :: _ => false
  | rest => version == 0 && others rest

/-- The largest modulus, in bits. -/
def maxBits : Nat := 4096

/-- The largest public exponent. -/
def maxPublicExponent : Nat := 0x1FFFFFFFF

/-- Whether the numbers fit together: the modulus is the product of the primes,
and the exponents undo each other modulo each prime. -/
def consistent (k : PrivateKey) : Bool :=
  Bytes.bitLength k.modulus ≤ maxBits && k.publicExponent < k.modulus
    && k.modulus % 2 == 1 && k.publicExponent % 2 == 1
    && 2 ≤ k.publicExponent && k.publicExponent ≤ maxPublicExponent
    && 1 < k.prime1 && 1 < k.prime2 && k.prime1 * k.prime2 == k.modulus
    && k.privateExponent * k.publicExponent % (k.prime1 - 1) == 1 % (k.prime1 - 1)
    && k.privateExponent * k.publicExponent % (k.prime2 - 1) == 1 % (k.prime2 - 1)

/-- A key whose numbers fit together, from its PKCS#8 form. -/
def decode? (b : Bytes) : Option PrivateKey := do
  let e ← Der.readOne? b
  match ← e.items? Tag.sequence with
  | version :: algorithm :: key :: fields =>
    let version ← version.natural?
    let octets ← key.octets?
    let key ← ofNumbers? octets
    if saysRsa algorithm && fieldsFit version fields && key.consistent then some key else none
  | _ => none

-- =============================================================== signing keys

/-- The longest content that a signing key's form may have. -/
def maxFormLength : Nat := 0xFFFF

/-- Whether the sizes are such that the key can be used for signing. -/
def signs (k : PrivateKey) : Bool :=
  let bits := Bytes.bitLength k.modulus
  let half := (bits + 1) / 2
  let isHalf (p : Nat) : Bool := p % 2 == 1 && Bytes.bitLength p == half
  k.modulus % 2 == 1 && 2048 ≤ (bits + 7) / 8 * 8 && bits ≤ maxBits
    && 65537 ≤ k.publicExponent && k.publicExponent ≤ maxPublicExponent
    && k.publicExponent % 2 == 1
    && isHalf k.prime1 && isHalf k.prime2 && half % 512 == 0
    && k.prime1 * k.prime2 % k.modulus == 0
    && half < Bytes.bitLength k.privateExponent && k.privateExponent < k.modulus
    && k.privateExponent % 2 == 1
    && k.exponent1 % 2 == 1 && k.exponent1 < k.prime1
    && k.exponent2 % 2 == 1 && k.exponent2 < k.prime2
    && k.coefficient < k.prime1 && k.coefficient * k.prime2 % k.prime1 == 1

/-- A key for signing, from a PKCS#8 form of the first version, in which nothing but
attributes may follow the key. -/
def load? (b : Bytes) : Option PrivateKey := do
  let e ← Der.readOne? b
  let items ← e.items? Tag.sequence
  let (version, algorithm, key) ← match items with
    | [version, algorithm, key] => some (version, algorithm, key)
    | [version, algorithm, key, ⟨0xA0, _⟩] => some (version, algorithm, key)
    | _ => none
  let version ← version.natural?
  let octets ← key.octets?
  let key ← ofNumbers? octets
  if e.content.length ≤ maxFormLength ∧ version = 0 ∧ saysRsa algorithm ∧ key.signs then some key
  else none

end PrivateKey
end TlsKeystore
