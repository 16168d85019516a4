/-
Text as octets and back, in both encodings.

UTF-8 gives back every text (`Utf8.decode?_encode`), and keeps their order
(`Utf8.encode_lt_encode`): of two characters the lesser one has the lesser
octet where theirs first differ. The two-octet encoding gives back every
text that it takes, `Bmp.decode?_of_encode?`: a character of the plane is
two octets, and the two octets are that character again, since what the
encoder admits is what the decoder does.
-/
import Mathlib
import TlsKeystore.Text.Encoding

namespace TlsKeystore

-- ================================================================= UTF-8

namespace Utf8

theorem decode?_encode (s : String) : decode? (encode s) = some s := by
  unfold decode? encode String.fromUTF8?
  rw [String.toUTF8_eq_toByteArray, Array.toArray_toList]
  exact dif_pos s.isValidUTF8

/-- Different texts have different octets. -/
theorem encode_injective : Function.Injective encode := by
  intro s t h
  have hs := decode?_encode s
  rw [h, decode?_encode] at hs
  exact (Option.some.inj hs).symm

theorem encode_eq_flatMap (s : String) :
    encode s = s.toList.flatMap String.utf8EncodeChar := by
  have hbytes : s.toByteArray = s.toList.utf8Encode := by
    rw [← String.toByteArray_ofList, String.ofList_toList]
  rw [encode, String.toUTF8_eq_toByteArray, hbytes, List.utf8Encode]
  exact List.data_toByteArray ▸ rfl

/-- The octets of characters are in order, whatever stands behind them. -/
theorem utf8EncodeChar_append_lt {c d : Char} (h : c < d) (x y : Bytes) :
    String.utf8EncodeChar c ++ x < String.utf8EncodeChar d ++ y := by
  have hlt : c.val.toNat < d.val.toNat := h
  have hd : d.val.toNat < 0x110000 := by
    rcases d.valid with hvalid | hvalid <;> omega
  unfold String.utf8EncodeChar
  generalize c.val.toNat = m at *
  generalize d.val.toNat = n at *
  have hshift (k : Nat) : k / 4096 = k / 64 / 64
      ∧ k / 262144 = k / 64 / 64 / 64 := by omega
  simp only [hshift]
  -- one case for each pair of lengths, the longer first ones cannot be
  split_ifs
  all_goals try omega
  all_goals
    simp only [List.cons_append, List.nil_append, List.cons_lt_cons_iff,
      UInt8.lt_iff_toNat_lt, ← UInt8.toNat_inj, UInt8.toNat_ofNat']
    omega

/-- Texts in order have their octets in order. -/
theorem encode_lt_encode {s t : String} (h : s < t) : encode s < encode t := by
  rw [encode_eq_flatMap, encode_eq_flatMap]
  have hlex : s.toList < t.toList := String.lt_iff_toList_lt.mp h
  generalize s.toList = cs at hlex ⊢
  generalize t.toList = ds at hlex ⊢
  induction hlex with
  | @nil d ds =>
      obtain ⟨x, rest, hx⟩ := List.exists_cons_of_ne_nil
        (String.utf8EncodeChar_ne_nil (c := d))
      rw [List.flatMap_nil, List.flatMap_cons, hx]
      exact List.Lex.nil
  | rel hcd =>
      rw [List.flatMap_cons, List.flatMap_cons]
      exact utf8EncodeChar_append_lt hcd _ _
  | cons _ ih =>
      rw [List.flatMap_cons, List.flatMap_cons]
      exact List.append_left_lt ih

end Utf8

-- =========================================================== two octets

namespace Bmp

/-- The octets of a character of the plane denote it. -/
theorem unit_value {c : Char} (hc : admits c = true) :
    (UInt8.ofNat (c.toNat / 256)).toNat * 256
      + (UInt8.ofNat (c.toNat % 256)).toNat = c.toNat := by
  have hlt : c.toNat < 0xFFFF := by simpa [admits] using hc
  rw [UInt8.toNat_ofNat', UInt8.toNat_ofNat', Nat.mod_eq_of_lt (by omega),
    Nat.mod_eq_of_lt (by omega)]
  omega

/-- A character is made from its number. -/
theorem ofNatAux_toNat (c : Char) (h : c.toNat.isValidChar) :
    Char.ofNatAux c.toNat h = c := by
  apply Char.ext
  apply UInt32.toNat_inj.mp
  rfl

theorem decodeChars?_flatMap_unit {cs : List Char}
    (hcs : cs.all admits = true) :
    decodeChars? (cs.flatMap unit) = some cs := by
  induction cs with
  | nil => rfl
  | cons c cs ih =>
      rw [List.all_cons, Bool.and_eq_true] at hcs
      have hvalue := unit_value hcs.1
      have hvalid : c.toNat.isValidChar := c.valid
      rw [List.flatMap_cons, unit, List.cons_append, List.cons_append,
        List.nil_append, decodeChars?]
      simp only [hvalue]
      rw [dif_pos hvalid, ofNatAux_toNat, if_pos hcs.1, ih hcs.2]
      rfl

theorem decode?_of_encode? {s : String} {b : Bytes}
    (h : encode? s = some b) : decode? b = some s := by
  unfold encode? at h
  split at h
  · next hall =>
      rw [← Option.some.inj h, decode?, decodeChars?_flatMap_unit hall]
      simp
  · cases h

/-- A text is encoded exactly when all of its characters are of the
plane, and takes two octets for each. -/
theorem encode?_eq_some_iff {s : String} {b : Bytes} :
    encode? s = some b
      ↔ s.toList.all admits = true ∧ b = s.toList.flatMap unit := by
  unfold encode?
  split
  · next hall => simp [hall, eq_comm]
  · next hall => simp [hall]

end Bmp
end TlsKeystore
