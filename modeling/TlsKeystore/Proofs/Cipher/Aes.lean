/-
AES decryption inverts AES encryption, for every list of round keys.

# Step by step

A round is substitution, row shift, column mix and key addition, and each
of them has an inverse of its own: substitution by the table read
backwards (checked for all 256 octets), the row shift by the opposite
shift, key addition by itself. The column mix is the one step with an
argument in it: a column is a sum of multiples of four octets, multiples
distribute over sums (`times_xor`), and the products of the two tables of
factors are the identity (`unmix_mix`).

Nothing is said of the round keys, so nothing depends on how they come
about: `decrypt_encrypt` holds for every list of them.
-/
import Mathlib
import TlsKeystore.Cipher.Aes
import TlsKeystore.Proofs.Bytes

namespace TlsKeystore.Aes

-- ================================================================ octets

/-- A fact of all octets is one of 256 numbers. -/
private theorem forall_octet {p : UInt8 → Prop}
    (h : ∀ i : Fin 256, p (UInt8.ofFin i)) (x : UInt8) : p x := by
  have := h x.toFin
  rwa [UInt8.ofFin_toFin] at this

/-- A table of all octets is looked up in one division of its number. -/
private theorem toNat_getD_table {table : Array UInt8}
    (hsize : table.toList.length = 256) (x : UInt8) :
    (table.getD x.toNat 0).toNat
      = Bytes.toNat table.toList / 256 ^ (255 - x.toNat) % 256 := by
  have hlist : table.getD x.toNat 0 = table.toList.getD x.toNat 0 := by
    simp [Array.getD_eq_getD_getElem?, List.getD_eq_getElem?_getD]
  rw [hlist, Bytes.toNat_getD (by rw [hsize]; exact x.toNat_lt), hsize]

theorem unsubstitute_substitute (x : UInt8) :
    unsubstitute (substitute x) = x := by
  rw [← UInt8.toNat_inj, unsubstitute, toNat_getD_table (by decide +kernel),
    substitute, toNat_getD_table (by decide +kernel)]
  revert x
  refine forall_octet ?_
  decide +kernel

theorem xor_xor_cancel (x y : UInt8) : x ^^^ y ^^^ y = x := by
  rw [UInt8.xor_assoc, UInt8.xor_self, UInt8.xor_zero]

private theorem xor_cancel_left (x y : UInt8) : x ^^^ (x ^^^ y) = y := by
  rw [← UInt8.xor_assoc, UInt8.xor_self, UInt8.zero_xor]

private theorem xor_left_comm (x y z : UInt8) :
    x ^^^ (y ^^^ z) = y ^^^ (x ^^^ z) := by
  rw [← UInt8.xor_assoc, UInt8.xor_comm x y, UInt8.xor_assoc]

-- ============================================================= multiples

/-- What doubling adds when the top bit leaves the octet. -/
private def overflow (x : UInt8) : UInt8 := if x &&& 0x80 = 0 then 0 else 0x1B

private theorem top_bit (x : UInt8) : x &&& 0x80 = 0 ∨ x &&& 0x80 = 0x80 := by
  revert x
  refine forall_octet ?_
  decide +kernel

private theorem overflow_xor (x y : UInt8) :
    overflow (x ^^^ y) = overflow x ^^^ overflow y := by
  have hand : (x ^^^ y) &&& 0x80 = (x &&& 0x80) ^^^ (y &&& 0x80) := by
    rw [← UInt8.toBitVec_inj]
    ext i hi
    simp [Bool.and_xor_distrib_right]
  unfold overflow
  rw [hand]
  rcases top_bit x with hx | hx <;> rcases top_bit y with hy | hy <;>
    rw [hx, hy] <;> decide

theorem double_xor (x y : UInt8) :
    double (x ^^^ y) = double x ^^^ double y := by
  have hshift : (x ^^^ y) <<< 1 = (x <<< 1) ^^^ (y <<< 1) :=
    UInt8.shiftLeft_xor
  show (x ^^^ y) <<< 1 ^^^ overflow (x ^^^ y)
    = (x <<< 1 ^^^ overflow x) ^^^ (y <<< 1 ^^^ overflow y)
  rw [hshift, overflow_xor]
  ac_rfl

/-- One summand of a multiple, present if the factor has the bit. -/
private def summand (n bit x : UInt8) : UInt8 := if n &&& bit = 0 then 0 else x

private theorem summand_xor (n bit x y : UInt8) :
    summand n bit (x ^^^ y) = summand n bit x ^^^ summand n bit y := by
  unfold summand
  split
  · rfl
  · rfl

private theorem times_eq (n x : UInt8) :
    times n x = summand n 1 x ^^^ summand n 2 (double x)
      ^^^ summand n 4 (double (double x))
      ^^^ summand n 8 (double (double (double x))) := rfl

/-- Multiples distribute over sums. -/
theorem times_xor (n x y : UInt8) :
    times n (x ^^^ y) = times n x ^^^ times n y := by
  simp only [times_eq, double_xor, summand_xor]
  ac_rfl

namespace Column

theorem add_cancel (x k : Column) : (x.add k).add k = x := by
  simp only [add, xor_xor_cancel]

theorem map_unsubstitute_substitute (x : Column) :
    (x.map substitute).map unsubstitute = x := by
  simp only [map, unsubstitute_substitute]

/-- Two tables of factors undo each other when their products, along a
diagonal each, sum up to one and to zero three times. -/
private theorem combine_combine {p q r s p' q' r' s' : UInt8}
    (h0 : ∀ x, times p (times p' x) ^^^ times q (times s' x)
      ^^^ times r (times r' x) ^^^ times s (times q' x) = x)
    (h1 : ∀ x, times p (times q' x) ^^^ times q (times p' x)
      ^^^ times r (times s' x) ^^^ times s (times r' x) = 0)
    (h2 : ∀ x, times p (times r' x) ^^^ times q (times q' x)
      ^^^ times r (times p' x) ^^^ times s (times s' x) = 0)
    (h3 : ∀ x, times p (times s' x) ^^^ times q (times r' x)
      ^^^ times r (times q' x) ^^^ times s (times p' x) = 0)
    (x : Column) :
    combine p q r s (combine p' q' r' s' x) = x := by
  obtain ⟨a, b, c, d⟩ := x
  -- gathered by octet, each row is one of the four sums for each of them
  have row (w x y z : UInt8) :
      (times p (times p' w) ^^^ times q (times s' w)
          ^^^ times r (times r' w) ^^^ times s (times q' w))
        ^^^ (times p (times q' x) ^^^ times q (times p' x)
          ^^^ times r (times s' x) ^^^ times s (times r' x))
        ^^^ (times p (times r' y) ^^^ times q (times q' y)
          ^^^ times r (times p' y) ^^^ times s (times s' y))
        ^^^ (times p (times s' z) ^^^ times q (times r' z)
          ^^^ times r (times q' z) ^^^ times s (times p' z)) = w := by
    rw [h0, h1, h2, h3]
    simp only [UInt8.xor_zero]
  simp only [combine, times_xor, Column.mk.injEq]
  refine ⟨?_, ?_, ?_, ?_⟩
  · refine Eq.trans ?_ (row a b c d)
    ac_rfl
  · refine Eq.trans ?_ (row b c d a)
    ac_rfl
  · refine Eq.trans ?_ (row c d a b)
    ac_rfl
  · refine Eq.trans ?_ (row d a b c)
    ac_rfl

theorem unmix_mix (x : Column) : x.mix.unmix = x := by
  -- sums of doublings, in which all but one `y` stand twice
  refine combine_combine ?_ ?_ ?_ ?_ x
  all_goals
    intro y
    simp +decide only [times_eq, summand, if_true, if_false, double_xor,
      UInt8.xor_assoc, UInt8.xor_comm, xor_left_comm, xor_cancel_left,
      UInt8.xor_self, UInt8.xor_zero, UInt8.zero_xor]

end Column

-- ================================================================ blocks

namespace Block

theorem add_cancel (x k : Block) : (x.add k).add k = x := by
  simp only [add, Column.add_cancel]

theorem unshiftRows_shiftRows (x : Block) : x.shiftRows.unshiftRows = x := rfl

theorem map_unsubstitute_substitute (x : Block) :
    (x.map (·.map substitute)).map (·.map unsubstitute) = x := by
  simp only [map, Column.map_unsubstitute_substitute]

theorem map_unmix_mix (x : Block) :
    (x.map Column.mix).map Column.unmix = x := by
  simp only [map, Column.unmix_mix]

theorem unround_round (x : Block) : x.round.unround = x := by
  rw [round, unround, map_unmix_mix, unshiftRows_shiftRows,
    map_unsubstitute_substitute]

theorem unlastRound_lastRound (x : Block) : x.lastRound.unlastRound = x := by
  rw [lastRound, unlastRound, unshiftRows_shiftRows,
    map_unsubstitute_substitute]

theorem ofBytes_toBytes (x : Block) : ofBytes x.toBytes = x := rfl

theorem toBytes_ofBytes {b : Bytes} (hb : b.length = 16) :
    (ofBytes b).toBytes = b := by
  match b, hb with
  | [_, _, _, _, _, _, _, _, _, _, _, _, _, _, _, _], _ => rfl

@[simp] theorem length_toBytes (x : Block) : x.toBytes.length = 16 := rfl

end Block

-- ============================================================ the cipher

/-- The rounds are undone under the same round keys. -/
theorem decryptRounds_encryptRounds (keys : List Block) (x : Block) :
    decryptRounds keys (encryptRounds keys x) = x := by
  induction keys generalizing x with
  | nil => rfl
  | cons k keys ih =>
      cases keys with
      | nil =>
          rw [encryptRounds, decryptRounds, Block.add_cancel,
            Block.unlastRound_lastRound]
      | cons k' keys =>
          rw [encryptRounds, decryptRounds, ih, Block.add_cancel,
            Block.unround_round]

theorem decryptBlock_encryptBlock (keys : List Block) (x : Block) :
    decryptBlock keys (encryptBlock keys x) = x := by
  cases keys with
  | nil => rfl
  | cons k keys =>
      rw [encryptBlock, decryptBlock, decryptRounds_encryptRounds,
        Block.add_cancel]

@[simp] theorem length_encrypt (keys : List Block) (b : Bytes) :
    (encrypt keys b).length = 16 := rfl

theorem decrypt_encrypt (keys : List Block) {b : Bytes} (hb : b.length = 16) :
    decrypt keys (encrypt keys b) = b := by
  rw [encrypt, decrypt, Block.ofBytes_toBytes, decryptBlock_encryptBlock,
    Block.toBytes_ofBytes hb]

end TlsKeystore.Aes
