/-
RC2 forwards, and that decryption undoes it.

Only decryption is there for reading; encryption is stated here as it goes:
a mixing round raises each word and turns it, a mashing round raises each
word, and a word is raised by what the other words and the key words give.
A round is undone word by word, the last one first, at a time when the
other words are as they were when it was raised (`unmix_mix`,
`unmash_mash`). Nothing is asked of the key words.

Turning is a matter of bits: a word turned to the right has at each place
the bit that stood so many places further up, around the end
(`testBit_turnRight`).
-/
import Mathlib
import TlsKeystore.Cipher.Rc2

namespace TlsKeystore.Rc2

-- ================================================================= turning

/-- A word turned to the left. -/
def turnLeft (x : UInt16) (n : UInt16) : UInt16 := (x <<< n) ||| (x >>> (16 - n))

private theorem toNat_sixteen_sub {n : UInt16} (hn : n.toNat < 16) :
    (16 - n).toNat = 16 - n.toNat := by
  have hle : n ≤ 16 := UInt16.le_iff_toNat_le.mpr hn.le
  rw [UInt16.toNat_sub_of_le _ _ hle]
  rfl

private theorem testBit_of_le {x : UInt16} {k : Nat} (hk : 16 ≤ k) :
    x.toNat.testBit k = false :=
  Nat.testBit_lt_two_pow (x.toNat_lt.trans_le
    (Nat.pow_le_pow_right (by decide) hk))

theorem testBit_turnRight (x : UInt16) {n : UInt16} (hpos : 0 < n.toNat)
    (hn : n.toNat < 16) {k : Nat} (hk : k < 16) :
    (turnRight x n).toNat.testBit k
      = x.toNat.testBit ((k + n.toNat) % 16) := by
  have hback : (16 - n).toNat % 16 = 16 - n.toNat := by
    rw [toNat_sixteen_sub hn, Nat.mod_eq_of_lt (by omega)]
  unfold turnRight
  rw [UInt16.toNat_or, UInt16.toNat_shiftRight, UInt16.toNat_shiftLeft, hback,
    Nat.mod_eq_of_lt hn, Nat.testBit_or, Nat.testBit_shiftRight,
    Nat.testBit_mod_two_pow, Nat.testBit_shiftLeft, decide_eq_true hk,
    Bool.true_and]
  by_cases hlow : k + n.toNat < 16
  · rw [decide_eq_false (by omega), Bool.false_and, Bool.or_false,
      Nat.mod_eq_of_lt hlow, Nat.add_comm]
  · have hplace : (k + n.toNat) % 16 = k - (16 - n.toNat) := by omega
    rw [testBit_of_le (by omega), decide_eq_true (by omega), Bool.true_and,
      Bool.false_or, hplace]

/-- To the left is the other way round to the right. -/
theorem turnLeft_eq (x n : UInt16) : turnLeft x n = turnRight x (16 - n) := by
  unfold turnLeft turnRight
  rw [sub_sub_self, UInt16.or_comm]

theorem turnRight_turnLeft (x : UInt16) {n : UInt16} (hpos : 0 < n.toNat)
    (hn : n.toNat < 16) : turnRight (turnLeft x n) n = x := by
  have hback := toNat_sixteen_sub hn
  rw [turnLeft_eq, ← UInt16.toNat_inj]
  refine Nat.eq_of_testBit_eq fun k => ?_
  by_cases hk : k < 16
  · have hmod := Nat.mod_lt (k + n.toNat) (show 16 > 0 by decide)
    rw [testBit_turnRight _ hpos hn hk,
      testBit_turnRight _ (by omega) (by omega) hmod, hback]
    congr 1
    omega
  · rw [testBit_of_le (by omega), testBit_of_le (by omega)]

-- ================================================================== rounds

/-- A mixing round with the four key words from `i` on. -/
def mix (keys : Array UInt16) (i : Nat) (x : Block) : Block :=
  let r0 := turnLeft (x.r0 + keys.getD i 0 + choose x.r3 x.r2 x.r1) 1
  let r1 := turnLeft (x.r1 + keys.getD (i + 1) 0 + choose r0 x.r3 x.r2) 2
  let r2 := turnLeft (x.r2 + keys.getD (i + 2) 0 + choose r1 r0 x.r3) 3
  let r3 := turnLeft (x.r3 + keys.getD (i + 3) 0 + choose r2 r1 r0) 5
  ⟨r0, r1, r2, r3⟩

/-- A mashing round. -/
def mash (keys : Array UInt16) (x : Block) : Block :=
  let pick (w : UInt16) : UInt16 := keys.getD (w &&& 63).toNat 0
  let r0 := x.r0 + pick x.r3
  let r1 := x.r1 + pick r0
  let r2 := x.r2 + pick r1
  let r3 := x.r3 + pick r2
  ⟨r0, r1, r2, r3⟩

/-- `count` mixing rounds, the first of which begins at key word `4 * first`. -/
def mixMany (keys : Array UInt16) (first : Nat) : (count : Nat) → Block → Block
  | 0, x => x
  | count + 1, x => mix keys (4 * (first + count)) (mixMany keys first count x)

/-- Encrypts a block. -/
def encryptBlock (keys : Array UInt16) (x : Block) : Block :=
  let x := mash keys (mixMany keys 0 5 x)
  let x := mash keys (mixMany keys 5 6 x)
  mixMany keys 11 5 x

/-- A word that was raised twice is lowered twice. -/
private theorem add_add_sub_sub (x y z : UInt16) : x + y + z - y - z = x := by
  rw [UInt16.add_assoc, UInt16.add_comm y z, ← UInt16.add_assoc,
    UInt16.add_sub_cancel, UInt16.add_sub_cancel]

theorem unmix_mix (keys : Array UInt16) (i : Nat) (x : Block) :
    unmix keys i (mix keys i x) = x := by
  obtain ⟨r0, r1, r2, r3⟩ := x
  have h1 (y : UInt16) := turnRight_turnLeft y (n := 1) (by decide) (by decide)
  have h2 (y : UInt16) := turnRight_turnLeft y (n := 2) (by decide) (by decide)
  have h3 (y : UInt16) := turnRight_turnLeft y (n := 3) (by decide) (by decide)
  have h5 (y : UInt16) := turnRight_turnLeft y (n := 5) (by decide) (by decide)
  simp only [mix, unmix, h1, h2, h3, h5, add_add_sub_sub]

theorem unmash_mash (keys : Array UInt16) (x : Block) :
    unmash keys (mash keys x) = x := by
  obtain ⟨r0, r1, r2, r3⟩ := x
  simp only [mash, unmash, UInt16.add_sub_cancel]

theorem unmixMany_mixMany (keys : Array UInt16) (first count : Nat)
    (x : Block) : unmixMany keys first count (mixMany keys first count x) = x := by
  induction count with
  | zero => rfl
  | succ count ih => rw [mixMany, unmixMany, unmix_mix, ih]

theorem decryptBlock_encryptBlock (keys : Array UInt16) (x : Block) :
    decryptBlock keys (encryptBlock keys x) = x := by
  simp only [encryptBlock, decryptBlock, unmixMany_mixMany, unmash_mash]

-- ================================================================== octets

/-- Eight octets as a block. -/
def Block.ofBytes (b : Bytes) : Block :=
  match b with
  | [b0, b1, b2, b3, b4, b5, b6, b7] =>
    ⟨word b0 b1, word b2 b3, word b4 b5, word b6 b7⟩
  | _ => ⟨0, 0, 0, 0⟩

def Block.toBytes (x : Block) : Bytes :=
  octets x.r0 ++ octets x.r1 ++ octets x.r2 ++ octets x.r3

/-- Encrypts eight octets. -/
def encrypt (keys : Array UInt16) (b : Bytes) : Bytes :=
  (encryptBlock keys (.ofBytes b)).toBytes

theorem octets_word (low high : UInt8) : octets (word low high) = [low, high] := by
  have hlow := low.toNat_lt
  have hhigh := high.toNat_lt
  simp only [octets, word, List.cons.injEq, and_true, ← UInt8.toNat_inj]
  constructor
  · simp
  · simp
    omega

theorem word_octets (w : UInt16) :
    word w.toUInt8 (w >>> 8).toUInt8 = w := by
  have hw := w.toNat_lt
  rw [← UInt16.toNat_inj]
  simp [word, UInt16.toNat_shiftRight, Nat.shiftRight_eq_div_pow]
  omega

theorem decrypt_toBytes (keys : Array UInt16) (x : Block) :
    decrypt keys x.toBytes = (decryptBlock keys x).toBytes := by
  obtain ⟨r0, r1, r2, r3⟩ := x
  simp only [Block.toBytes, octets, List.cons_append, List.nil_append, decrypt,
    word_octets]

theorem toBytes_ofBytes {b : Bytes} (hb : b.length = 8) :
    (Block.ofBytes b).toBytes = b := by
  match b, hb with
  | [_, _, _, _, _, _, _, _], _ =>
      simp [Block.ofBytes, Block.toBytes, octets_word]

@[simp] theorem length_encrypt (keys : Array UInt16) (b : Bytes) :
    (encrypt keys b).length = 8 := rfl

theorem decrypt_encrypt (keys : Array UInt16) {b : Bytes} (hb : b.length = 8) :
    decrypt keys (encrypt keys b) = b := by
  rw [encrypt, decrypt_toBytes, decryptBlock_encryptBlock, toBytes_ofBytes hb]

end TlsKeystore.Rc2
