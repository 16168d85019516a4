/-
scrypt: keys from passwords, by mixing in much memory.

PBKDF2 fills `p` rows of `2 r` blocks; each row is mixed on its own, and
PBKDF2 makes the key of the mixed rows. Mixing a row remembers `n` stages
of it and then goes through `n` more, each time adding a remembered stage
that the row itself picks.
-/
import TlsKeystore.Kdf.Pbkdf2
import TlsKeystore.Hash.Sha256

namespace TlsKeystore.Scrypt

/-- A block of sixteen words. -/
structure Block where
  w0 : UInt32
  w1 : UInt32
  w2 : UInt32
  w3 : UInt32
  w4 : UInt32
  w5 : UInt32
  w6 : UInt32
  w7 : UInt32
  w8 : UInt32
  w9 : UInt32
  w10 : UInt32
  w11 : UInt32
  w12 : UInt32
  w13 : UInt32
  w14 : UInt32
  w15 : UInt32
deriving DecidableEq, Repr, Inhabited

@[inline] def rotate (x : UInt32) (n : UInt32) : UInt32 := (x <<< n) ||| (x >>> (32 - n))

/-- Word by word, by whatever operation. -/
@[inline] def Block.combine (f : UInt32 → UInt32 → UInt32) (a b : Block) : Block :=
  ⟨f a.w0 b.w0, f a.w1 b.w1, f a.w2 b.w2, f a.w3 b.w3, f a.w4 b.w4, f a.w5 b.w5, f a.w6 b.w6,
    f a.w7 b.w7, f a.w8 b.w8, f a.w9 b.w9, f a.w10 b.w10, f a.w11 b.w11, f a.w12 b.w12,
    f a.w13 b.w13, f a.w14 b.w14, f a.w15 b.w15⟩

/-- Four words, each changed by the two before it in turn. -/
@[inline] def quarter (a b c d : UInt32) : UInt32 × UInt32 × UInt32 × UInt32 :=
  let b := b ^^^ rotate (a + d) 7
  let c := c ^^^ rotate (b + a) 9
  let d := d ^^^ rotate (c + b) 13
  let a := a ^^^ rotate (d + c) 18
  (a, b, c, d)

/-- The columns and then the rows of a block. -/
def doubleRound (x : Block) : Block :=
  let (w0, w4, w8, w12) := quarter x.w0 x.w4 x.w8 x.w12
  let (w5, w9, w13, w1) := quarter x.w5 x.w9 x.w13 x.w1
  let (w10, w14, w2, w6) := quarter x.w10 x.w14 x.w2 x.w6
  let (w15, w3, w7, w11) := quarter x.w15 x.w3 x.w7 x.w11
  let (w0, w1, w2, w3) := quarter w0 w1 w2 w3
  let (w5, w6, w7, w4) := quarter w5 w6 w7 w4
  let (w10, w11, w8, w9) := quarter w10 w11 w8 w9
  let (w15, w12, w13, w14) := quarter w15 w12 w13 w14
  ⟨w0, w1, w2, w3, w4, w5, w6, w7, w8, w9, w10, w11, w12, w13, w14, w15⟩

/-- Salsa20/8. -/
def salsa (x : Block) : Block :=
  let y := doubleRound (doubleRound (doubleRound (doubleRound x)))
  Block.combine (· + ·) x y

/-- Runs through the blocks, each added to the mix of those before it. -/
def runThrough : (last : Block) → List Block → List Block
  | _, [] => []
  | last, b :: bs =>
    let next := salsa (Block.combine (· ^^^ ·) last b)
    next :: runThrough next bs

/-- Every second element, from the first. -/
def alternate {α : Type} : List α → List α
  | [] => []
  | [a] => [a]
  | a :: _ :: rest => a :: alternate rest

/-- One stage of a row: mixed blocks, those of even number first. -/
def stage (row : List Block) : List Block :=
  let mixed := runThrough (row.getLast?.getD default) row
  alternate mixed ++ alternate (mixed.drop 1)

/-- The stages of a row from the first on, and the row after them. -/
def remember : (count : Nat) → List Block → Array (List Block) → Array (List Block) × List Block
  | 0, row, stages => (stages, row)
  | count + 1, row, stages => remember count (stage row) (stages.push row)

/-- The number that a row picks: the first two words of its last block. -/
def pick (row : List Block) : Nat :=
  let b := row.getLast?.getD default
  b.w0.toNat + b.w1.toNat * 0x100000000

/-- Goes through `count` more stages, adding a remembered one each time. -/
def revisit (stages : Array (List Block)) : (count : Nat) → List Block → List Block
  | 0, row => row
  | count + 1, row =>
    let other := stages.getD (pick row % stages.size) []
    revisit stages count (stage (List.zipWith (Block.combine (· ^^^ ·)) row other))

-- ================================================================== octets

/-- A word of four octets, least significant octet first. -/
def word (b : Bytes) : UInt32 := UInt32.ofNat (Bytes.toNat b.reverse)

/-- Octets as blocks. -/
def blocks : (count : Nat) → Bytes → List Block
  | 0, _ => []
  | count + 1, b =>
    let w (i : Nat) : UInt32 := word ((b.drop (4 * i)).take 4)
    ⟨w 0, w 1, w 2, w 3, w 4, w 5, w 6, w 7, w 8, w 9, w 10, w 11, w 12, w 13, w 14, w 15⟩
      :: blocks count (b.drop 64)

/-- The octets of a block. -/
def Block.octets (b : Block) : Bytes :=
  [b.w0, b.w1, b.w2, b.w3, b.w4, b.w5, b.w6, b.w7, b.w8, b.w9, b.w10, b.w11, b.w12, b.w13, b.w14,
    b.w15].flatMap fun w => (Bytes.padded 4 w.toNat).reverse

/-- A row after `n` stages there and `n` back. -/
def mixRow (n r : Nat) (row : Bytes) : Bytes :=
  let (stages, last) := remember n (blocks (2 * r) row) #[]
  (revisit stages n last).flatMap Block.octets

/-- `length` octets of key. -/
def derive (password salt : Bytes) (n r p length : Nat) : Bytes :=
  let rows := Pbkdf2.derive Sha256.sha256 password salt 1 (p * 128 * r)
  let mixed := (List.range p).flatMap fun i => mixRow n r ((rows.drop (i * 128 * r)).take (128 * r))
  Pbkdf2.derive Sha256.sha256 password mixed 1 length

/-- Whether the parameters are in range: `n` a power of two and small enough for `r`,
all rows within 64 bits of memory, and no more of them than the key derivation can
fill. -/
def admissible (n r p length : Nat) : Bool :=
  n == Nat.pow 2 n.log2 && 0 < r && 0 < p && n.log2 < 16 * r
    && 128 * r * n < 0x10000000000000000 && p * r < 0x40000000
    && 0 < length && length ≤ 0xFFFFFFFF * 32

end TlsKeystore.Scrypt
