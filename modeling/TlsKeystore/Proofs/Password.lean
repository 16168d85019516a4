/-
Which passwords come to the same.

# Two encodings

A password has a part in a bundle twice. For the MAC it is a BMPString with
two zero octets behind it, repeated to whole blocks; for the encryption it
is UTF-8, filled up with zeros to one block. Passwords that give the same
blocks both times are `Interchangeable`: whatever is locked under one is,
octet by octet, locked under the other (`lock_of_interchangeable`).

# Where they are the same

Zeros behind a short password do not show in its UTF-8 block, so that
passwords of at most one block can only differ in the NULs at their ends
(`keyBlock_eq_iff`). In the repeated BMPString such NULs push everything
that follows to other places. The repetition survives this only if there
is room for them in the last block, and nothing but NULs stands in those
places (`repeated_append_eq_iff`). `interchangeable_iff` says so exactly:
the empty password and NULs, or NULs behind a password that begins with
NULs. No password with another first character has any but itself.
-/
import TlsKeystore.Proofs.Bundle

namespace TlsKeystore

-- ============================================================ repetition

namespace Pkcs12Kdf

/-- At each place of a repeated word stands what stands at the remainder of
the place. -/
private theorem getElem?_flatten_replicate {b : Bytes} {count i : Nat}
    (hi : i < count * b.length) :
    (List.replicate count b).flatten[i]? = b[i % b.length]? := by
  induction count generalizing i with
  | zero => simp at hi
  | succ count ih =>
      rw [List.replicate_succ, List.flatten_cons]
      rw [Nat.succ_mul] at hi
      by_cases hfirst : i < b.length
      · rw [List.getElem?_append_left hfirst, Nat.mod_eq_of_lt hfirst]
      · have hle := Nat.not_lt.mp hfirst
        rw [List.getElem?_append_right hle, ih (by omega),
          ← Nat.mod_eq_sub_mod hle]

/-- Enough repetitions are long enough. -/
private theorem le_repetitions {n k : Nat} (hk : 0 < k) :
    n ≤ (n + k - 1) / k * k := by
  have hdiv := Nat.div_add_mod (n + k - 1) k
  have hmod := Nat.mod_lt (n + k - 1) hk
  rw [Nat.mul_comm] at hdiv
  omega

theorem length_repeated {b : Bytes} (hb : b ≠ []) (n : Nat) :
    (repeated n b).length = n := by
  have hlength := le_repetitions (n := n) (List.length_pos_iff.mpr hb)
  rw [repeated, if_neg (by simpa using hb)]
  simpa using hlength

theorem getD_repeated {b : Bytes} (hb : b ≠ []) {n i : Nat} (hi : i < n) :
    (repeated n b).getD i 0 = b.getD (i % b.length) 0 := by
  have hlength := le_repetitions (n := n) (List.length_pos_iff.mpr hb)
  rw [repeated, if_neg (by simpa using hb), List.getD_eq_getElem?_getD,
    List.getElem?_take_of_lt hi, getElem?_flatten_replicate (by omega),
    List.getD_eq_getElem?_getD]

/-- Strings of one length are the same if they are so octet by octet. -/
private theorem ext_getD {a b : Bytes} (hlength : a.length = b.length)
    (h : ∀ i < a.length, a.getD i 0 = b.getD i 0) : a = b := by
  refine List.ext_getElem hlength fun i ha hb => ?_
  have hi := h i ha
  rwa [List.getD_eq_getElem _ _ ha, List.getD_eq_getElem _ _ hb] at hi

private theorem getD_append_zeros (b : Bytes) (s i : Nat) :
    (b ++ List.replicate s 0).getD i 0 = b.getD i 0 := by
  rw [List.getD_eq_getElem?_getD, List.getD_eq_getElem?_getD]
  by_cases hi : i < b.length
  · rw [List.getElem?_append_left hi]
  · have hle := Nat.not_lt.mp hi
    rw [List.getElem?_append_right hle, List.getElem?_eq_none hle,
      List.getElem?_replicate]
    split <;> rfl

/-- Two periods show the same values where what comes after one of the
shorter is all zeros. Behind `values` both periods have nothing but
zeros. -/
private theorem periods_agree_iff {f : Nat → UInt8} {values s t n : Nat}
    (hf : ∀ j, values ≤ j → f j = 0) (hs : 0 < s) (ht : 0 < t) :
    (∀ i < n, f (i % (values + s)) = f (i % (values + s + t)))
      ↔ ∀ j < n - (values + s), f j = 0 := by
  constructor
  · intro h j
    induction j using Nat.strong_induction_on with
    | _ j ih =>
        intro hj
        by_cases hvalues : values ≤ j
        · exact hf j hvalues
        · -- the value at `j` comes again one period later, where the longer
          -- period is still in its zeros, or `t` values behind
          have hagain := h (values + s + j) (by omega)
          rw [Nat.add_mod_left, Nat.mod_eq_of_lt (by omega)] at hagain
          rw [hagain]
          by_cases hzeros : j < t
          · rw [Nat.mod_eq_of_lt (by omega)]
            exact hf _ (by omega)
          · rw [Nat.mod_eq_sub_mod (by omega), Nat.mod_eq_of_lt (by omega)]
            exact (congrArg f (by omega)).trans
              (ih (j - t) (by omega) (by omega))
  · intro h i hi
    by_cases hfirst : i < values + s
    · rw [Nat.mod_eq_of_lt hfirst, Nat.mod_eq_of_lt (by omega)]
    · have hleft : i % (values + s) ≤ i - (values + s) := by
        rw [Nat.mod_eq_sub_mod (by omega)]
        exact Nat.mod_le _ _
      have hright : f (i % (values + s + t)) = 0 := by
        by_cases hinside : i < values + s + t
        · rw [Nat.mod_eq_of_lt hinside]
          exact hf i (by omega)
        · have hle : i % (values + s + t) ≤ i - (values + s + t) := by
            rw [Nat.mod_eq_sub_mod (by omega)]
            exact Nat.mod_le _ _
          exact h _ (by omega)
      rw [h _ (by omega), hright]

/-- Zeros more at the end of a repeated word do not show exactly where all
that the word has in the places behind its first repetition are zeros. -/
theorem repeated_append_eq_iff {b : Bytes} {s t n : Nat} (hs : 0 < s)
    (ht : 0 < t) :
    repeated n (b ++ List.replicate s 0)
        = repeated n (b ++ List.replicate (s + t) 0)
      ↔ ∀ j < n - (b.length + s), b.getD j 0 = 0 := by
  have hword (k : Nat) (hk : 0 < k) : b ++ List.replicate k 0 ≠ [] := by
    simp
    omega
  have hperiod (k : Nat) : (b ++ List.replicate k (0 : UInt8)).length
      = b.length + k := by simp
  have hshort := hword s hs
  have hlong := hword (s + t) (by omega)
  have hbehind (j : Nat) (hj : b.length ≤ j) : b.getD j 0 = 0 :=
    List.getD_eq_default _ _ hj
  rw [← periods_agree_iff hbehind hs ht]
  constructor
  · intro h i hi
    have hat := congrArg (fun l : Bytes => l.getD i 0) h
    simp only [getD_repeated hshort hi, getD_repeated hlong hi,
      getD_append_zeros, hperiod] at hat
    rwa [← Nat.add_assoc] at hat
  · intro h
    refine ext_getD ?_ fun i hi => ?_
    · rw [length_repeated hshort, length_repeated hlong]
    · rw [length_repeated hshort] at hi
      rw [getD_repeated hshort hi, getD_repeated hlong hi,
        getD_append_zeros, getD_append_zeros, hperiod, hperiod,
        ← Nat.add_assoc]
      exact h i hi

end Pkcs12Kdf

-- ============================================================ one block

namespace Hmac

/-- Keys of at most one block make the same block exactly if one is the
other with zeros behind it. -/
theorem keyBlock_eq_iff {h : HashFunction} {u v : Bytes}
    (hu : u.length ≤ h.blockLength) (hv : v.length ≤ h.blockLength) :
    keyBlock h u = keyBlock h v
      ↔ (∃ k, v = u ++ List.replicate k 0)
        ∨ ∃ k, u = v ++ List.replicate k 0 := by
  have hblock (w : Bytes) (hw : w.length ≤ h.blockLength) : keyBlock h w
      = w ++ List.replicate (h.blockLength - w.length) 0 := by
    rw [keyBlock, if_pos hw]
  have hfilled (a : Bytes) (k : Nat)
      (hlength : (a ++ List.replicate k 0).length ≤ h.blockLength) :
      keyBlock h (a ++ List.replicate k 0) = keyBlock h a := by
    rw [List.length_append, List.length_replicate] at hlength
    rw [hblock a (by omega), hblock _ (by simpa using hlength),
      List.append_assoc, List.replicate_append_replicate]
    congr 2
    simp
    omega
  -- the longer one is the shorter one and zeros
  have hlonger (a b : Bytes) (ha : a.length ≤ b.length)
      (hb : b.length ≤ h.blockLength)
      (hsame : keyBlock h a = keyBlock h b) :
      ∃ k, b = a ++ List.replicate k 0 := by
    refine ⟨b.length - a.length, ?_⟩
    have hfront := congrArg (List.take b.length) hsame
    rw [hblock a (by omega), hblock b hb, List.take_left,
      List.take_append, List.take_of_length_le ha, List.take_replicate]
      at hfront
    have hroom : min (b.length - a.length) (h.blockLength - a.length)
        = b.length - a.length := by omega
    rw [← hroom]
    exact hfront.symm
  constructor
  · intro hsame
    rcases Nat.le_total u.length v.length with hle | hle
    · exact Or.inl (hlonger u v hle hv hsame)
    · exact Or.inr (hlonger v u hle hu hsame.symm)
  · rintro (⟨k, rfl⟩ | ⟨k, rfl⟩)
    · exact (hfilled u k hv).symm
    · exact hfilled v k hu

end Hmac

-- =========================================================== both at once

/-- So many NULs. -/
def nuls (k : Nat) : String := String.ofList (List.replicate k '\x00')

@[simp] theorem toList_nuls (k : Nat) :
    (nuls k).toList = List.replicate k '\x00' := by
  simp [nuls]

theorem append_nuls_zero (s : String) : s ++ nuls 0 = s := by
  simp [nuls]

namespace Utf8

/-- A NUL is a zero octet. -/
theorem encode_append_nuls (s : String) (k : Nat) :
    encode (s ++ nuls k) = encode s ++ List.replicate k 0 := by
  have hnuls : encode (nuls k) = List.replicate k 0 := by
    have hflat : (List.replicate k '\x00').flatMap String.utf8EncodeChar
        = List.replicate k 0 := by
      induction k with
      | zero => rfl
      | succ k ih =>
          rw [List.replicate_succ, List.flatMap_cons, ih]
          rfl
    rw [← hflat]
    simp [encode, nuls, List.utf8Encode]
  rw [← hnuls]
  simp [encode]

end Utf8

namespace Bmp

theorem password?_eq_some_iff {s : String} {b : Bytes} :
    password? s = some b
      ↔ s.toList.all admits = true
        ∧ b = s.toList.flatMap unit ++ List.replicate 2 0 := by
  rw [password?, Option.map_eq_some_iff]
  simp only [encode?_eq_some_iff]
  constructor
  · rintro ⟨_, ⟨hall, rfl⟩, rfl⟩
    exact ⟨hall, rfl⟩
  · rintro ⟨hall, rfl⟩
    exact ⟨_, ⟨hall, rfl⟩, rfl⟩

/-- A NUL is two zero octets, and no other character of the plane is. -/
theorem unit_eq_zeros_iff {c : Char} (hc : admits c = true) :
    unit c = [0, 0] ↔ c = '\x00' := by
  constructor
  · intro h
    have hvalue := unit_value hc
    rw [unit] at h
    obtain ⟨hhigh, hlow⟩ := List.cons.inj h
    rw [hhigh, (List.cons.inj hlow).1] at hvalue
    exact Char.toNat_inj.mp hvalue.symm
  · rintro rfl
    rfl

theorem flatMap_unit_nuls (k : Nat) :
    (List.replicate k '\x00').flatMap unit = List.replicate (2 * k) 0 := by
  induction k with
  | zero => rfl
  | succ k ih =>
      rw [List.replicate_succ, List.flatMap_cons, ih]
      rfl

theorem length_flatMap_unit (cs : List Char) :
    (cs.flatMap unit).length = 2 * cs.length := by
  simp [unit, List.length_flatMap, Nat.mul_comm]

/-- Zeros in front are NULs in front. -/
theorem zeros_flatMap_unit_iff {cs : List Char} (hcs : cs.all admits = true)
    (r : Nat) :
    (∀ j < 2 * r, (cs.flatMap unit).getD j 0 = 0)
      ↔ ∀ c ∈ cs.take r, c = '\x00' := by
  induction cs generalizing r with
  | nil => simp
  | cons c cs ih =>
      rw [List.all_cons, Bool.and_eq_true] at hcs
      cases r with
      | zero => simp
      | succ r =>
          rw [List.take_succ_cons, List.forall_mem_cons, ← ih hcs.2,
            ← unit_eq_zeros_iff hcs.1]
          constructor
          · intro h
            have hhigh := h 0 (by omega)
            have hlow := h 1 (by omega)
            refine ⟨by simpa [unit] using ⟨hhigh, hlow⟩, fun j hj => ?_⟩
            simpa [unit] using h (j + 2) (by omega)
          · rintro ⟨hc, hrest⟩ j hj
            rw [List.flatMap_cons, hc]
            rcases j with _ | _ | j
            · rfl
            · rfl
            · exact hrest j (by omega)

end Bmp

/-- How many characters more the last block of a repeated password has room
for, beside those of the password and the NUL behind them. -/
def room (s : String) : Nat := 31 - s.length % 32

/-- `q` is `p` with NULs behind it, for which the last block has room, and
what would come to stand behind them for `p` are NULs too. -/
def Twin (p q : String) : Prop :=
  ∃ k ≤ room p, q = p ++ nuls k ∧ ∀ c ∈ p.toList.take (room p), c = '\x00'

/-- Both passwords stand in the plane, and give the same blocks to the
derivation of keys for the MAC and to the keyed hash under the encryption. -/
structure Interchangeable (p q : String) : Prop where
  derivation : ∃ b b', Bmp.password? p = some b ∧ Bmp.password? q = some b'
    ∧ Pkcs12Kdf.wholeBlocks Sha256.sha256.blockLength b
      = Pkcs12Kdf.wholeBlocks Sha256.sha256.blockLength b'
  keyedHash : Hmac.keyBlock Sha256.sha256 (Utf8.encode p)
    = Hmac.keyBlock Sha256.sha256 (Utf8.encode q)

namespace Interchangeable

variable {p q : String}

theorem refl {b : Bytes} (hp : Bmp.password? p = some b) :
    Interchangeable p p :=
  ⟨⟨b, b, hp, hp, rfl⟩, rfl⟩

theorem symm (h : Interchangeable p q) : Interchangeable q p := by
  obtain ⟨⟨b, b', hp, hq, hblocks⟩, hkeyed⟩ := h
  exact ⟨⟨b', b, hq, hp, hblocks.symm⟩, hkeyed.symm⟩

end Interchangeable

/-- The blocks of a password and of the same with NULs behind it. -/
private theorem wholeBlocks_append_nuls_iff {cs : List Char}
    (hcs : cs.all Bmp.admits = true) {k : Nat} (hk : 0 < k) :
    Pkcs12Kdf.wholeBlocks Sha256.sha256.blockLength
          (cs.flatMap Bmp.unit ++ List.replicate 2 0)
        = Pkcs12Kdf.wholeBlocks Sha256.sha256.blockLength
          (cs.flatMap Bmp.unit ++ List.replicate (2 + 2 * k) 0)
      ↔ k ≤ 31 - cs.length % 32
        ∧ ∀ c ∈ cs.take (31 - cs.length % 32), c = '\x00' := by
  have hblock : Sha256.sha256.blockLength = 64 := rfl
  have hfirst : (2 * cs.length + 2 + 64 - 1) / 64 * 64
      = 64 * (cs.length / 32 + 1) := by omega
  have hcount : (2 * cs.length + (2 + 2 * k) + 64 - 1) / 64 * 64
      = 64 * ((cs.length + k) / 32 + 1) := by omega
  unfold Pkcs12Kdf.wholeBlocks
  rw [hblock, List.length_append, List.length_append, List.length_replicate,
    List.length_replicate, Bmp.length_flatMap_unit, hfirst, hcount]
  by_cases hroom : k ≤ 31 - cs.length % 32
  · have hsame : (cs.length + k) / 32 = cs.length / 32 := by omega
    have hplaces : 64 * (cs.length / 32 + 1) - (2 * cs.length + 2)
        = 2 * (31 - cs.length % 32) := by omega
    rw [hsame, Pkcs12Kdf.repeated_append_eq_iff (by omega) (by omega),
      Bmp.length_flatMap_unit, hplaces, Bmp.zeros_flatMap_unit_iff hcs]
    simp [hroom]
  · refine iff_of_false (fun h => ?_) fun h => hroom h.1
    have hlength := congrArg List.length h
    rw [Pkcs12Kdf.length_repeated (by simp),
      Pkcs12Kdf.length_repeated (by simp)] at hlength
    omega

/-- NULs behind a password come to the same exactly where it has a twin
with them. -/
private theorem interchangeable_append_nuls_iff {p : String} {k : Nat}
    (hk : 0 < k) (hplane : p.toList.all Bmp.admits = true)
    (hlength : (Utf8.encode (p ++ nuls k)).length ≤ 64) :
    Interchangeable p (p ++ nuls k)
      ↔ k ≤ room p ∧ ∀ c ∈ p.toList.take (room p), c = '\x00' := by
  have hnuls : (List.replicate k '\x00').all Bmp.admits = true := by
    simp [Bmp.admits]
  have hp : Bmp.password? p
      = some (p.toList.flatMap Bmp.unit ++ List.replicate 2 0) :=
    Bmp.password?_eq_some_iff.mpr ⟨hplane, rfl⟩
  have hq : Bmp.password? (p ++ nuls k)
      = some (p.toList.flatMap Bmp.unit ++ List.replicate (2 + 2 * k) 0) := by
    refine Bmp.password?_eq_some_iff.mpr ⟨?_, ?_⟩
    · rw [String.toList_append, toList_nuls, List.all_append, hplane, hnuls]
      rfl
    · rw [String.toList_append, toList_nuls, List.flatMap_append,
        Bmp.flatMap_unit_nuls, List.append_assoc,
        List.replicate_append_replicate, Nat.add_comm]
  have hkeyed : Hmac.keyBlock Sha256.sha256 (Utf8.encode p)
      = Hmac.keyBlock Sha256.sha256 (Utf8.encode (p ++ nuls k)) := by
    rw [Utf8.encode_append_nuls] at hlength ⊢
    have hshort : (Utf8.encode p).length ≤ 64 := by
      rw [List.length_append] at hlength
      omega
    exact (Hmac.keyBlock_eq_iff hshort hlength).mpr (Or.inl ⟨k, rfl⟩)
  have hblocks := wholeBlocks_append_nuls_iff hplane hk
  rw [String.length_toList] at hblocks
  rw [room, ← hblocks]
  constructor
  · rintro ⟨⟨b, b', hb, hb', hsame⟩, -⟩
    rw [hp] at hb
    rw [hq] at hb'
    cases hb
    cases hb'
    exact hsame
  · intro hsame
    exact ⟨⟨_, _, hp, hq, hsame⟩, hkeyed⟩

/-- What goes for a twin of at most one block, in both directions. -/
private theorem interchangeable_of_twin {p q : String} (h : Twin p q)
    (hplane : p.toList.all Bmp.admits = true)
    (hlength : (Utf8.encode q).length ≤ 64) : Interchangeable p q := by
  obtain ⟨k, hk, rfl, hfront⟩ := h
  rcases Nat.eq_zero_or_pos k with rfl | hpos
  · rw [append_nuls_zero]
    exact Interchangeable.refl
      (Bmp.password?_eq_some_iff.mpr ⟨hplane, rfl⟩)
  · exact (interchangeable_append_nuls_iff hpos hplane hlength).mpr
      ⟨hk, hfront⟩

/-- Whoever has NULs behind a password of the plane that come to the same
has a twin, or no NULs. -/
private theorem twin_of_interchangeable {p q : String}
    (hplane : p.toList.all Bmp.admits = true)
    (hlength : (Utf8.encode q).length ≤ 64) {k : Nat}
    (hq : Utf8.encode q = Utf8.encode p ++ List.replicate k 0)
    (h : Interchangeable p q) : p = q ∨ Twin p q := by
  rw [← Utf8.encode_append_nuls] at hq
  have hq := Utf8.encode_injective hq
  subst hq
  rcases Nat.eq_zero_or_pos k with rfl | hpos
  · exact Or.inl (append_nuls_zero p).symm
  · obtain ⟨hk, hfront⟩ :=
      (interchangeable_append_nuls_iff hpos hplane hlength).mp h
    exact Or.inr ⟨k, hk, rfl, hfront⟩

/-- A password of the plane and any other, both of at most one block of
UTF-8, come to the same exactly where they are the same, or one is a twin
of the other. -/
theorem interchangeable_iff {p q : String} {b : Bytes}
    (hp : Bmp.password? p = some b) (hplength : (Utf8.encode p).length ≤ 64)
    (hqlength : (Utf8.encode q).length ≤ 64) :
    Interchangeable p q ↔ p = q ∨ Twin p q ∨ Twin q p := by
  obtain ⟨hplane, -⟩ := Bmp.password?_eq_some_iff.mp hp
  constructor
  · intro h
    obtain ⟨-, b', -, hq, -⟩ := h.derivation
    obtain ⟨hqplane, -⟩ := Bmp.password?_eq_some_iff.mp hq
    rcases (Hmac.keyBlock_eq_iff hplength hqlength).mp h.keyedHash with
      ⟨k, hk⟩ | ⟨k, hk⟩
    · exact (twin_of_interchangeable hplane hqlength hk h).imp_right Or.inl
    · exact (twin_of_interchangeable hqplane hplength hk h.symm).imp
        Eq.symm Or.inr
  · rintro (rfl | htwin | htwin)
    · exact Interchangeable.refl hp
    · exact interchangeable_of_twin htwin hplane hqlength
    · -- `p` is `q` and more, so that `q` stands in the plane as `p` does
      have hqplane : q.toList.all Bmp.admits = true := by
        obtain ⟨k, -, rfl, -⟩ := htwin
        rw [String.toList_append, List.all_append, Bool.and_eq_true]
          at hplane
        exact hplane.1
      exact (interchangeable_of_twin htwin hqplane hplength).symm

-- ================================================================ bundles

namespace Bundle

open Pkcs12

variable {p q : String}

theorem encrypt_of_interchangeable (h : Interchangeable p q)
    (salt iv text : Bytes) :
    Writer.encrypt salt iv p text = Writer.encrypt salt iv q text := by
  have hkeyed : Hmac.Keyed.ofKey Sha256.sha256 (Utf8.encode p)
      = Hmac.Keyed.ofKey Sha256.sha256 (Utf8.encode q) := by
    unfold Hmac.Keyed.ofKey
    rw [h.keyedHash]
  unfold Writer.encrypt Pbkdf2.derive
  rw [hkeyed]

theorem writtenDigest_of_interchangeable (h : Interchangeable p q)
    {b b' : Bytes} (hp : Bmp.password? p = some b)
    (hq : Bmp.password? q = some b') (salt content : Bytes) :
    writtenDigest b salt content = writtenDigest b' salt content := by
  obtain ⟨c, c', hc, hc', hblocks⟩ := h.derivation
  rw [hp] at hc
  rw [hq] at hc'
  cases hc
  cases hc'
  unfold writtenDigest Mac.compute Pkcs12Kdf.derive
  rw [hblocks]

/-- What is locked under a password is, octet by octet, locked under every
other that comes to the same. -/
theorem lock_of_interchangeable (h : Interchangeable p q)
    {identity : Identity} {name : String} {salts : Salts} {der : Bytes}
    (hlock : lock identity name p salts = .ok der) :
    lock identity name q salts = .ok der := by
  obtain ⟨cert, subject, bmpName, macPassword, content, hcert, hsubject,
    hname, hpassword, hcontent, hder, hlength⟩ :=
    write_eq_ok_iff.mp (lock_eq_ok_iff.mp hlock)
  obtain ⟨-, b', -, hq, -⟩ := h.derivation
  refine lock_eq_ok_iff.mpr (write_eq_ok_iff.mpr ⟨cert, subject, bmpName, b',
    content, hcert, hsubject, hname, hq, ?_, ?_, hlength⟩)
  · rw [← hcontent]
    simp only [contentElement, certificateSafeElement, keySafeElement,
      encrypt_of_interchangeable h]
  · rw [← writtenDigest_of_interchangeable h hpassword hq]
    exact hder

/-- What was locked opens under every password that comes to the same, with
its own among them. -/
theorem unlock_of_interchangeable (h : Interchangeable p q)
    {identity : Identity} {name : String} {salts : Salts}
    (hsalts : salts.Sized) {der : Bytes}
    (hlock : lock identity name p salts = .ok der) :
    unlock der q = .ok ⟨name, identity.key, identity.certificate⟩ := by
  have hwrite := lock_eq_ok_iff.mp (lock_of_interchangeable h hlock)
  obtain ⟨pfx, cert, hread, hder, hbags⟩ := bags_of_write
    hsalts.certificateIv hsalts.keyIv hwrite
  have hall : bags der q = .ok [
      .certificate cert ⟨some cert.subject,
        some (Sha1.sha1.digest identity.certificate), false⟩,
      .key identity.key ⟨some name,
        some (Sha1.sha1.digest identity.certificate), false⟩] := by
    rw [bags, hread]
    exact hbags
  rw [unlock, hall]
  show walk none (entries _) = _
  rw [entries_of_linked, hder]
  rfl

end Bundle
end TlsKeystore
