/-
DES undoes itself under its round keys in opposite order.

# Bits

A permutation takes every bit of a word from a bit of another (`source`,
`bit_select`). The order behind the rounds brings each bit back to where the
order in front of them has taken it from, and the other way round, which is
checked bit by bit.

# Rounds

A round adds to one half what depends on the other and swaps them. So the
same round, with the halves swapped, takes off again what it has added
(`feistel_reverse`, by induction on the round keys), whatever it is that it
adds. With the two orders around it, a pass is undone by the pass with the
round keys in opposite order (`pass_reverse`), and three passes by three
passes in opposite order (`decrypt_encrypt`).
-/
import Mathlib
import TlsKeystore.Cipher.TripleDes
import TlsKeystore.Proofs.Bytes

namespace TlsKeystore.TripleDes

-- ==================================================================== bits

/-- A bit of a word, counted from the least significant, from 0. -/
def bit (x : UInt64) (k : Nat) : Bool := x.toNat.testBit k

theorem bit_of_le {x : UInt64} {k : Nat} (hk : 64 ≤ k) : bit x k = false :=
  Nat.testBit_lt_two_pow (x.toNat_lt.trans_le
    (Nat.pow_le_pow_right (by decide) hk))

/-- Words with the same bits are the same. -/
theorem bit_ext {x y : UInt64} (h : ∀ k < 64, bit x k = bit y k) : x = y := by
  rw [← UInt64.toNat_inj]
  refine Nat.eq_of_testBit_eq fun k => ?_
  by_cases hk : k < 64
  · exact h k hk
  · have hx : bit x k = false := bit_of_le (Nat.not_lt.mp hk)
    have hy : bit y k = false := bit_of_le (Nat.not_lt.mp hk)
    exact hx.trans hy.symm

theorem bit_zero (k : Nat) : bit 0 k = false := by
  simp [bit]

theorem bit_or (x y : UInt64) (k : Nat) :
    bit (x ||| y) k = (bit x k || bit y k) := by
  unfold bit
  rw [UInt64.toNat_or, Nat.testBit_or]

theorem bit_and (x y : UInt64) (k : Nat) :
    bit (x &&& y) k = (bit x k && bit y k) := by
  unfold bit
  rw [UInt64.toNat_and, Nat.testBit_and]

theorem bit_xor (x y : UInt64) (k : Nat) :
    bit (x ^^^ y) k = (bit x k ^^ bit y k) := by
  unfold bit
  rw [UInt64.toNat_xor, Nat.testBit_xor]

theorem bit_shiftRight (x n : UInt64) (k : Nat) :
    bit (x >>> n) k = bit x (n.toNat % 64 + k) := by
  unfold bit
  rw [UInt64.toNat_shiftRight, Nat.testBit_shiftRight]

theorem bit_shiftLeft (x n : UInt64) {k : Nat} (hk : k < 64) :
    bit (x <<< n) k
      = (decide (n.toNat % 64 ≤ k) && bit x (k - n.toNat % 64)) := by
  unfold bit
  rw [UInt64.toNat_shiftLeft, Nat.testBit_mod_two_pow, Nat.testBit_shiftLeft]
  simp [hk]

theorem bit_one (k : Nat) : bit 1 k = decide (k < 1) :=
  Nat.testBit_two_pow_sub_one 1 k

/-- The mask of the low half. -/
theorem bit_lowHalf (k : Nat) : bit 0xFFFFFFFF k = decide (k < 32) :=
  Nat.testBit_two_pow_sub_one 32 k

-- ============================================================ permutations

/-- The bit that a list of bits takes for bit `k` of its word. -/
def source (width : UInt64) (bits : List UInt64) (k : Nat) : Option Nat :=
  bits.reverse[k]?.map fun i => (width - i).toNat % 64

theorem bit_select (width : UInt64) (bits : List UInt64) (x : UInt64) {k : Nat}
    (hk : k < 64) :
    bit (select width bits x) k = (source width bits k).any (bit x) := by
  induction bits using List.reverseRecOn generalizing k with
  | nil => exact bit_zero k
  | append_singleton bits i ih =>
      -- the last bit that is named comes to stand lowest
      have hlast : select width (bits ++ [i]) x
          = (select width bits x <<< 1) ||| ((x >>> (width - i)) &&& 1) := by
        unfold select
        rw [List.foldl_concat]
      rw [hlast, bit_or, bit_shiftLeft _ _ hk, bit_and, bit_shiftRight, bit_one]
      unfold source
      rw [List.reverse_concat]
      cases k with
      | zero => simp
      | succ k =>
          have hbefore := ih (k := k) (by omega)
          unfold source at hbefore
          simp [hbefore]

/-- Two orders of all bits, of which the second brings back what the first
has moved. -/
def Undoes (after before : List UInt64) : Prop :=
  ∀ k : Fin 64, (source 64 after k).bind (source 64 before) = some k.val

theorem select_select {after before : List UInt64}
    (hundoes : Undoes after before) (x : UInt64) :
    select 64 after (select 64 before x) = x := by
  refine bit_ext fun k hk => ?_
  obtain ⟨i, hi, hk'⟩ := Option.bind_eq_some_iff.mp (hundoes ⟨k, hk⟩)
  have hlt : i < 64 := by
    obtain ⟨j, -, rfl⟩ := Option.map_eq_some_iff.mp hi
    exact Nat.mod_lt _ (by decide)
  rw [bit_select 64 after _ hk, hi, Option.any_some,
    bit_select 64 before _ hlt, hk', Option.any_some]

theorem finalOrder_undoes : Undoes finalOrder initialOrder := by
  unfold Undoes
  decide +kernel

theorem initialOrder_undoes : Undoes initialOrder finalOrder := by
  unfold Undoes
  decide +kernel

-- ================================================================== halves

/-- A word that needs no more than its low 32 bits. -/
def IsHalf (x : UInt64) : Prop := ∀ k, 32 ≤ k → bit x k = false

/-- Two halves as one word, swapped. -/
def joined (halves : UInt64 × UInt64) : UInt64 :=
  (halves.2 <<< 32) ||| halves.1

theorem isHalf_shiftRight (x : UInt64) : IsHalf (x >>> 32) := by
  intro k hk
  rw [bit_shiftRight]
  exact bit_of_le (by simp; omega)

theorem isHalf_and (x : UInt64) : IsHalf (x &&& 0xFFFFFFFF) := by
  intro k hk
  rw [bit_and, bit_lowHalf, decide_eq_false (by omega), Bool.and_false]

theorem IsHalf.xor {x y : UInt64} (hx : IsHalf x) (hy : IsHalf y) :
    IsHalf (x ^^^ y) := by
  intro k hk
  rw [bit_xor, hx k hk, hy k hk]
  rfl

/-- What a round adds is a half. -/
theorem isHalf_mixed (half key : UInt64) : IsHalf (mixed half key) := by
  intro k hk
  by_cases hlt : k < 64
  · unfold mixed
    have hnone : source 32 spread k = none := by
      unfold source
      rw [List.getElem?_eq_none (by simpa [spread] using hk), Option.map_none]
    rw [bit_select 32 spread _ hlt, hnone]
    rfl
  · exact bit_of_le (Nat.not_lt.mp hlt)

theorem bit_joined {halves : UInt64 × UInt64} (h1 : IsHalf halves.1) {k : Nat}
    (hk : k < 64) :
    bit (joined halves) k
      = if k < 32 then bit halves.1 k else bit halves.2 (k - 32) := by
  have h32 : (32 : UInt64).toNat % 64 = 32 := by decide
  unfold joined
  rw [bit_or, bit_shiftLeft _ _ hk, h32]
  by_cases hlow : k < 32
  · rw [if_pos hlow, decide_eq_false (by omega), Bool.false_and, Bool.false_or]
  · rw [if_neg hlow, decide_eq_true (by omega), h1 k (by omega), Bool.true_and,
      Bool.or_false]

theorem joined_shiftRight {halves : UInt64 × UInt64} (h1 : IsHalf halves.1)
    (h2 : IsHalf halves.2) : joined halves >>> 32 = halves.2 := by
  have h32 : (32 : UInt64).toNat % 64 = 32 := by decide
  refine bit_ext fun k _ => ?_
  rw [bit_shiftRight, h32]
  by_cases hlow : k < 32
  · rw [bit_joined h1 (by omega), if_neg (by omega), Nat.add_sub_cancel_left]
  · rw [bit_of_le (by omega), h2 k (by omega)]

theorem joined_and {halves : UInt64 × UInt64} (h1 : IsHalf halves.1) :
    joined halves &&& 0xFFFFFFFF = halves.1 := by
  refine bit_ext fun k hk => ?_
  rw [bit_and, bit_lowHalf, bit_joined h1 hk]
  by_cases hlow : k < 32
  · rw [if_pos hlow, decide_eq_true hlow, Bool.and_true]
  · rw [decide_eq_false hlow, Bool.and_false, h1 k (by omega)]

/-- A word is made up of its halves. -/
theorem joined_halves (x : UInt64) :
    joined (x &&& 0xFFFFFFFF, x >>> 32) = x := by
  have h32 : (32 : UInt64).toNat % 64 = 32 := by decide
  refine bit_ext fun k hk => ?_
  rw [bit_joined (isHalf_and x) hk]
  by_cases hlow : k < 32
  · rw [if_pos hlow, bit_and, bit_lowHalf, decide_eq_true hlow, Bool.and_true]
  · rw [if_neg hlow, bit_shiftRight, h32, Nat.add_sub_cancel' (by omega)]

-- ================================================================== rounds

/-- The halves after the rounds over the remaining keys. -/
def feistel : List UInt64 → UInt64 × UInt64 → UInt64 × UInt64
  | [], halves => halves
  | k :: ks, (left, right) => feistel ks (right, left ^^^ mixed right k)

theorem rounds_eq (ks : List UInt64) (left right : UInt64) :
    rounds ks left right = joined (feistel ks (left, right)) := by
  induction ks generalizing left right with
  | nil => rfl
  | cons k ks ih =>
      rw [rounds, ih]
      rfl

theorem feistel_concat (ks : List UInt64) (k : UInt64)
    (halves : UInt64 × UInt64) :
    feistel (ks ++ [k]) halves = feistel [k] (feistel ks halves) := by
  induction ks generalizing halves with
  | nil => rfl
  | cons k' ks ih => exact ih _

theorem isHalf_feistel (ks : List UInt64) {left right : UInt64}
    (hleft : IsHalf left) (hright : IsHalf right) :
    IsHalf (feistel ks (left, right)).1
      ∧ IsHalf (feistel ks (left, right)).2 := by
  induction ks generalizing left right with
  | nil => exact ⟨hleft, hright⟩
  | cons k ks ih => exact ih hright (hleft.xor (isHalf_mixed _ k))

theorem xor_xor_cancel (x y : UInt64) : x ^^^ y ^^^ y = x := by
  rw [UInt64.xor_assoc, UInt64.xor_self, UInt64.xor_zero]

/-- The rounds over the keys in opposite order undo the rounds, with the
halves swapped in between. -/
theorem feistel_reverse (ks : List UInt64) (halves : UInt64 × UInt64) :
    feistel ks.reverse (feistel ks halves).swap = halves.swap := by
  induction ks generalizing halves with
  | nil => rfl
  | cons k ks ih =>
      obtain ⟨left, right⟩ := halves
      have hrest := ih (right, left ^^^ mixed right k)
      rw [List.reverse_cons, feistel_concat]
      change feistel [k] (feistel ks.reverse
        (feistel ks (right, left ^^^ mixed right k)).swap) = (right, left)
      rw [hrest]
      -- the last round adds once more what the first has added
      show (right, left ^^^ mixed right k ^^^ mixed right k) = (right, left)
      rw [xor_xor_cancel]

/-- A pass is undone by the pass with its keys in opposite order. -/
theorem pass_reverse (ks : List UInt64) (x : UInt64) :
    pass ks.reverse (pass ks x) = x := by
  have hhalves := isHalf_feistel ks
    (isHalf_shiftRight (select 64 initialOrder x))
    (isHalf_and (select 64 initialOrder x))
  have hback := feistel_reverse ks (select 64 initialOrder x >>> 32,
    select 64 initialOrder x &&& 0xFFFFFFFF)
  unfold pass
  simp only [rounds_eq]
  rw [select_select initialOrder_undoes, joined_shiftRight hhalves.1 hhalves.2,
    joined_and hhalves.1, ← Prod.swap, hback, Prod.swap, joined_halves,
    select_select finalOrder_undoes]

-- ================================================================== cipher

/-- The keys of the opposite direction: opposite passes, the last one first. -/
def Keys.opposite (k : Keys) : Keys :=
  ⟨k.third.reverse, k.second.reverse, k.first.reverse⟩

/-- Encrypts eight octets, under the keys that they are decrypted with. -/
def encrypt (k : Keys) (b : Bytes) : Bytes := decrypt k.opposite b

@[simp] theorem length_encrypt (k : Keys) (b : Bytes) :
    (encrypt k b).length = 8 := Bytes.length_padded 8 _

theorem decrypt_encrypt (k : Keys) {b : Bytes} (hb : b.length = 8) :
    decrypt k (encrypt k b) = b := by
  have hlt : Bytes.toNat b < 2 ^ 64 := by
    have := Bytes.toNat_lt b
    rwa [hb] at this
  have hword (x : UInt64) :
      UInt64.ofNat (Bytes.toNat (Bytes.padded 8 x.toNat)) = x := by
    have hx : x.toNat < 256 ^ 8 := x.toNat_lt
    rw [Bytes.toNat_padded, Nat.mod_eq_of_lt hx, UInt64.ofNat_toNat]
  have hundo (ks : List UInt64) (x : UInt64) :
      pass ks (pass ks.reverse x) = x := by
    have := pass_reverse ks.reverse x
    rwa [List.reverse_reverse] at this
  unfold encrypt decrypt
  simp only [hword, Keys.opposite, hundo]
  rw [UInt64.toNat_ofNat_of_lt' hlt, ← hb, Bytes.padded_toNat]

end TlsKeystore.TripleDes
