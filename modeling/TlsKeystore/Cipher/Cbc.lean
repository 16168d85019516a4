/-
Cipher block chaining.

Every block of plain text is added to the cipher block before it, the
first to an initial vector. The plain text is filled up to whole blocks
with octets that say how many they are, one whole block of them at most.
-/
import TlsKeystore.Kdf.Pbkdf2

namespace TlsKeystore.Cbc

/-- Octets cut into `count` pieces of one length. -/
def pieces (length : Nat) : (count : Nat) → Bytes → List Bytes
  | 0, _ => []
  | count + 1, b => b.take length :: pieces length count (b.drop length)

-- ================================================================= filling

/-- The octets that fill up a text. -/
def filling (length n : Nat) : Bytes :=
  let missing := length - n % length
  List.replicate missing (UInt8.ofNat missing)

/-- A text without its filling; none where no filling stands at its end. -/
def unfilled? (length : Nat) (b : Bytes) : Option Bytes :=
  match b.getLast? with
  | none => none
  | some x =>
    let n := x.toNat
    let kept := b.length - n
    if 1 ≤ n ∧ n ≤ length ∧ n ≤ b.length ∧ (b.drop kept).all (· == x) then some (b.take kept)
    else none

-- ================================================================ chaining

/-- Encrypts blocks in a row. -/
def encryptBlocks (encrypt : Bytes → Bytes) : (last : Bytes) → List Bytes → List Bytes
  | _, [] => []
  | last, p :: rest =>
    let c := encrypt (Pbkdf2.xor p last)
    c :: encryptBlocks encrypt c rest

/-- Decrypts blocks in a row. -/
def decryptBlocks (decrypt : Bytes → Bytes) : (last : Bytes) → List Bytes → List Bytes
  | _, [] => []
  | last, c :: rest => Pbkdf2.xor (decrypt c) last :: decryptBlocks decrypt c rest

/-- The cipher text of a text of any length. -/
def encrypt (length : Nat) (block : Bytes → Bytes) (iv text : Bytes) : Bytes :=
  let filled := text ++ filling length text.length
  (encryptBlocks block iv (pieces length (filled.length / length) filled)).flatten

/-- The text of a cipher text; none where that is not whole blocks, or no filling
comes out. -/
def decrypt? (length : Nat) (block : Bytes → Bytes) (iv cipher : Bytes) : Option Bytes :=
  if cipher.length % length ≠ 0 then none
  else
    let texts := decryptBlocks block iv (pieces length (cipher.length / length) cipher)
    unfilled? length texts.flatten

end TlsKeystore.Cbc
