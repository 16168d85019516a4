/-
Octets and the numbers they denote.

# The two views

An octet string denotes a number (`Bytes.toNat`), and a number has one
octet string of every length that is long enough for it (`Bytes.padded`).
The two are inverse on strings of one length, `padded_toNat` and
`toNat_padded`; everything about the shortest form follows, because
`Bytes.ofNat` is `padded` at the least length.

# The shortest form

`Bytes.ofNat n` has no leading zero (`head?_ofNat`), and a string without
one is the shortest form of its number (`ofNat_toNat`). Hence taking the
zeros off a string gives the shortest form of its number
(`stripZeros_eq_ofNat`), whichever way the zeros came to stand there.
-/
import Mathlib
import TlsKeystore.Bytes

namespace TlsKeystore.Bytes

-- ================================================ octets to a number

@[simp] theorem toNat_nil : toNat [] = 0 := rfl

/-- The fold over the octets with a number in front of them. -/
private theorem foldl_octets (b : Bytes) (n : Nat) :
    b.foldl (fun n x => n * 256 + x.toNat) n
      = n * 256 ^ b.length + toNat b := by
  unfold toNat
  induction b generalizing n with
  | nil => simp
  | cons x b ih =>
      rw [List.foldl_cons, List.foldl_cons, ih, ih (0 * 256 + x.toNat),
        List.length_cons, pow_succ]
      ring

theorem toNat_cons (x : UInt8) (b : Bytes) :
    toNat (x :: b) = x.toNat * 256 ^ b.length + toNat b := by
  have h := foldl_octets b (0 * 256 + x.toNat)
  rw [Nat.zero_mul, Nat.zero_add] at h
  rw [← h, toNat, List.foldl_cons, Nat.zero_mul, Nat.zero_add]

theorem toNat_append (a b : Bytes) :
    toNat (a ++ b) = toNat a * 256 ^ b.length + toNat b := by
  have h := foldl_octets b (toNat a)
  rw [← h]
  unfold toNat
  rw [List.foldl_append]

/-- A number needs no more octets than it was read from. -/
theorem toNat_lt (b : Bytes) : toNat b < 256 ^ b.length := by
  induction b with
  | nil => simp
  | cons x b ih =>
      rw [toNat_cons, List.length_cons, pow_succ]
      have hx := x.toNat_lt
      nlinarith

/-- An octet is a digit of the number. -/
theorem toNat_getD {b : Bytes} {i : Nat} (hi : i < b.length) :
    (b.getD i 0).toNat = toNat b / 256 ^ (b.length - 1 - i) % 256 := by
  induction b generalizing i with
  | nil => cases hi
  | cons x b ih =>
      rw [toNat_cons, List.length_cons, Nat.add_sub_cancel]
      cases i with
      | zero =>
          have hx := x.toNat_lt
          rw [Nat.sub_zero, Nat.mul_comm, Nat.mul_add_div (by positivity),
            Nat.div_eq_of_lt (toNat_lt b), Nat.add_zero, Nat.mod_eq_of_lt hx]
          rfl
      | succ i =>
          have hi' : i < b.length := by simpa using hi
          have hpow : 256 ^ b.length
              = 256 ^ (b.length - 1 - i) * (256 ^ i * 256) := by
            rw [← pow_succ, ← pow_add]
            congr 1
            omega
          have hexp : b.length - (i + 1) = b.length - 1 - i := by omega
          have hsum : x.toNat * 256 ^ b.length + toNat b
              = 256 ^ (b.length - 1 - i) * (256 * (x.toNat * 256 ^ i))
                + toNat b := by
            rw [hpow]
            ring
          rw [hexp, hsum, Nat.mul_add_div (by positivity),
            Nat.mul_add_mod, ← ih hi']
          rfl

/-- The low bits of a number stand in the last octet. -/
theorem toNat_mod_two_pow (b : Bytes) {k : Nat} (hk : k ≤ 8) :
    toNat b % 2 ^ k = (b.getLast?.getD 0).toNat % 2 ^ k := by
  induction b using List.reverseRecOn with
  | nil => rfl
  | append_singleton b x =>
      have hdvd : 2 ^ k ∣ 256 := pow_dvd_pow 2 hk
      have hval : toNat (b ++ [x]) = toNat b * 256 + x.toNat := by
        rw [toNat_append, toNat_cons]
        simp
      rw [hval, Nat.add_mod, Nat.mod_eq_zero_of_dvd (hdvd.mul_left _),
        Nat.zero_add, Nat.mod_mod]
      simp

-- ================================================ a number to octets

theorem paddedOnto_eq (len n : Nat) (tail : Bytes) :
    paddedOnto len n tail = padded len n ++ tail := by
  unfold padded
  induction len generalizing n tail with
  | zero => rfl
  | succ len ih =>
      rw [paddedOnto, paddedOnto, ih, ih (n / 256) [_]]
      simp

/-- One more octet: the last one holds the remainder. -/
theorem padded_succ (len n : Nat) :
    padded (len + 1) n = padded len (n / 256) ++ [UInt8.ofNat (n % 256)] := by
  rw [padded, paddedOnto, paddedOnto_eq]

@[simp] theorem length_padded (len n : Nat) : (padded len n).length = len := by
  induction len generalizing n with
  | zero => rfl
  | succ len ih => rw [padded_succ, List.length_append, ih]; rfl

theorem toNat_padded (len n : Nat) : toNat (padded len n) = n % 256 ^ len := by
  induction len generalizing n with
  | zero => simp [padded, paddedOnto, Nat.mod_one]
  | succ len ih =>
      rw [padded_succ, toNat_append, ih, toNat_cons]
      have hlast : (UInt8.ofNat (n % 256)).toNat = n % 256 := by
        simp
      rw [hlast, pow_succ, Nat.mul_comm (256 ^ len) 256, Nat.mod_mul]
      simp
      ring

/-- Octets are the digits of the number that they denote. -/
theorem padded_toNat (b : Bytes) : padded b.length (toNat b) = b := by
  induction b using List.reverseRecOn with
  | nil => rfl
  | append_singleton b x ih =>
      have hx := x.toNat_lt
      have hval : toNat (b ++ [x]) = toNat b * 256 + x.toNat := by
        rw [toNat_append, toNat_cons]
        simp
      rw [List.length_append, List.length_singleton, padded_succ, hval]
      have hdiv : (toNat b * 256 + x.toNat) / 256 = toNat b := by omega
      have hmod : (toNat b * 256 + x.toNat) % 256 = x.toNat := by omega
      rw [hdiv, hmod, ih, UInt8.ofNat_toNat]

/-- Two strings of one length that denote the same number are the same. -/
theorem toNat_injective {a b : Bytes} (hlen : a.length = b.length)
    (h : toNat a = toNat b) : a = b := by
  rw [← padded_toNat a, ← padded_toNat b, hlen, h]

-- =================================================== the shortest form

theorem bitLength_eq_size (n : Nat) : bitLength n = n.size := by
  unfold bitLength
  split
  · simp [*]
  · rename_i hn
    rw [Nat.log2_eq_log_two]
    refine le_antisymm ?_ ?_
    · exact Nat.lt_size.mpr (Nat.pow_log_le_self 2 hn)
    · exact Nat.size_le.mpr (Nat.lt_pow_succ_log_self (by decide) n)

/-- The least length is long enough. -/
theorem lt_pow_byteLength (n : Nat) : n < 256 ^ byteLength n := by
  have hbits : n < 2 ^ bitLength n := by
    rw [bitLength_eq_size]
    exact Nat.lt_size_self n
  have hle : 2 ^ bitLength n ≤ 2 ^ (8 * byteLength n) := by
    refine Nat.pow_le_pow_right (by decide) ?_
    unfold byteLength
    omega
  calc n < 2 ^ bitLength n := hbits
    _ ≤ 2 ^ (8 * byteLength n) := hle
    _ = 256 ^ byteLength n := by rw [Nat.pow_mul]

/-- No length below the least is long enough. -/
theorem byteLength_le_iff {n k : Nat} : byteLength n ≤ k ↔ n < 256 ^ k := by
  constructor
  · intro h
    exact (lt_pow_byteLength n).trans_le
      (Nat.pow_le_pow_right (by decide) h)
  · intro h
    have hpow : (256 : Nat) ^ k = 2 ^ (8 * k) := by rw [Nat.pow_mul]
    rw [hpow, ← Nat.size_le, ← bitLength_eq_size] at h
    unfold byteLength
    omega

@[simp] theorem length_ofNat (n : Nat) : (ofNat n).length = byteLength n :=
  length_padded ..

@[simp] theorem toNat_ofNat (n : Nat) : toNat (ofNat n) = n := by
  rw [ofNat, toNat_padded, Nat.mod_eq_of_lt (lt_pow_byteLength n)]

theorem ofNat_inj {m n : Nat} : ofNat m = ofNat n ↔ m = n := by
  constructor
  · intro h
    rw [← toNat_ofNat m, h, toNat_ofNat]
  · exact congrArg ofNat

/-- Octets without a leading zero are as short as their number allows. -/
theorem byteLength_toNat_cons {x : UInt8} (hx : x ≠ 0) (b : Bytes) :
    byteLength (toNat (x :: b)) = b.length + 1 := by
  refine le_antisymm (byteLength_le_iff.mpr (toNat_lt (x :: b))) ?_
  by_contra hlt
  have hsmall : toNat (x :: b) < 256 ^ b.length :=
    byteLength_le_iff.mp (by omega)
  have hpos : 1 ≤ x.toNat := by
    have : x.toNat ≠ 0 := fun h => hx (UInt8.toNat_inj.mp h)
    omega
  rw [toNat_cons] at hsmall
  nlinarith [Nat.pos_of_ne_zero
    (pow_ne_zero b.length (by decide : (256 : Nat) ≠ 0))]

/-- Octets without a leading zero are the shortest form of their number. -/
theorem ofNat_toNat {b : Bytes} (hb : b.head? ≠ some 0) :
    ofNat (toNat b) = b := by
  cases b with
  | nil => rfl
  | cons x b =>
      have hx : x ≠ 0 := fun h => hb (by simp [h])
      rw [ofNat, byteLength_toNat_cons hx, ← List.length_cons, padded_toNat]

/-- The shortest form begins with no zero. -/
theorem head?_ofNat (n : Nat) : (ofNat n).head? ≠ some 0 := by
  intro h
  cases hb : ofNat n with
  | nil => rw [hb] at h; cases h
  | cons x b =>
      rw [hb] at h
      have hx : x = 0 := by simpa using h
      have hval : n = toNat b := by
        have h0 := toNat_ofNat n
        rw [hb, hx, toNat_cons] at h0
        simpa using h0.symm
      -- the octets behind the zero would be enough
      have hlen : byteLength n ≤ b.length :=
        byteLength_le_iff.mpr (hval ▸ toNat_lt b)
      have hlen' := length_ofNat n
      rw [hb, List.length_cons] at hlen'
      omega

/-- A number that fills whole octets has the top bit set in the first. -/
theorem exists_cons_of_bitLength {n count : Nat}
    (h : bitLength n = 8 * (count + 1)) :
    ∃ x rest, ofNat n = x :: rest ∧ 128 ≤ x ∧ rest.length = count := by
  have hlength : (ofNat n).length = count + 1 := by
    rw [length_ofNat, byteLength, h]
    omega
  cases hb : ofNat n with
  | nil =>
      rw [hb] at hlength
      cases hlength
  | cons x rest =>
      rw [hb] at hlength
      have hrest : rest.length = count := Nat.succ.inj hlength
      refine ⟨x, rest, rfl, ?_, hrest⟩
      by_contra hx
      have hx : x.toNat + 1 ≤ 128 := by
        have := UInt8.lt_iff_toNat_lt.mp (UInt8.not_le.mp hx)
        simpa using this
      have hvalue : n = x.toNat * 256 ^ count + toNat rest := by
        rw [← toNat_ofNat n, hb, toNat_cons, hrest]
      have hlt : n < 2 ^ (8 * count + 7) := by
        have hsmall : toNat rest < 256 ^ count := hrest ▸ toNat_lt rest
        calc n < (x.toNat + 1) * 256 ^ count := by
              rw [hvalue, Nat.add_mul, Nat.one_mul]
              omega
          _ ≤ 128 * 256 ^ count := Nat.mul_le_mul_right _ hx
          _ = 2 ^ (8 * count + 7) := by
              rw [pow_add, pow_mul, Nat.mul_comm]
              rfl
      rw [← Nat.size_le, ← bitLength_eq_size] at hlt
      omega

/-- Without its leading zeros, a string is the shortest form of its
number. -/
theorem stripZeros_eq_ofNat (b : Bytes) : stripZeros b = ofNat (toNat b) := by
  unfold stripZeros
  induction b with
  | nil => rfl
  | cons x b ih =>
      by_cases hx : x = 0
      · subst hx
        rw [List.dropWhile_cons_of_pos (by decide), ih, toNat_cons]
        simp
      · rw [List.dropWhile_cons_of_neg (by simpa using hx),
          ofNat_toNat (by simpa using hx)]

/-- A number below a power of 256 takes up that many octets at most. -/
theorem length_ofNat_le {n k : Nat} (h : n < 256 ^ k) :
    (ofNat n).length ≤ k := by
  rw [length_ofNat]
  exact byteLength_le_iff.mpr h

end TlsKeystore.Bytes
