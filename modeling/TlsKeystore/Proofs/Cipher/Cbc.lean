/-
Block chaining inverts, whatever the block cipher.

# What is asked of the cipher

`decrypt?_encrypt` holds for any two functions on octets of which one
undoes the other on blocks of the length and keeps that length. The text
is filled up to whole blocks, the blocks are chained, and the way back
takes both apart in the opposite order: `decryptBlocks_encryptBlocks` is
an induction on the blocks that carries the cipher block before,
`unfilled?_filling` takes the filling off again.

The length of a cipher text is that of the text, brought up to the next
multiple of the block length (`length_encrypt`); neither cipher nor
initial vector has a say in it.

# No other cipher texts

There are as many cipher blocks as blocks, so a block cipher that can be
undone leaves none of them out (`enc_dec`). Hence what decrypts to a text is
the cipher text of that text, and there is one for each
(`decrypt?_eq_some_iff`).
-/
import TlsKeystore.Cipher.Cbc
import TlsKeystore.Proofs.Cipher.Aes

namespace TlsKeystore

namespace Pbkdf2

theorem length_xor (a b : Bytes) : (xor a b).length = min a.length b.length := by
  simp [xor]

/-- Adding the same octets twice changes nothing. -/
theorem xor_xor_cancel {a b : Bytes} (h : a.length = b.length) :
    xor (xor a b) b = a := by
  induction a generalizing b with
  | nil => rfl
  | cons x a ih =>
      cases b with
      | nil => simp at h
      | cons y b =>
          show (x ^^^ y ^^^ y) :: xor (xor a b) b = x :: a
          rw [Aes.xor_xor_cancel, ih (by simpa using h)]

end Pbkdf2

namespace Cbc

open Pbkdf2 (xor xor_xor_cancel length_xor)

-- ================================================================= pieces

@[simp] theorem length_pieces (length count : Nat) (b : Bytes) :
    (pieces length count b).length = count := by
  induction count generalizing b with
  | zero => rfl
  | succ count ih => rw [pieces, List.length_cons, ih]

/-- Pieces of octets that are long enough have the full length. -/
theorem length_of_mem_pieces {length count : Nat} {b : Bytes}
    (hb : count * length ≤ b.length) :
    ∀ p ∈ pieces length count b, p.length = length := by
  induction count generalizing b with
  | zero => intro p hp; cases hp
  | succ count ih =>
      intro p hp
      rw [Nat.succ_mul] at hb
      rw [pieces, List.mem_cons] at hp
      rcases hp with rfl | hp
      · rw [List.length_take]
        omega
      · refine ih ?_ p hp
        rw [List.length_drop]
        omega

/-- Pieces put together again. -/
theorem flatten_pieces {length count : Nat} {b : Bytes}
    (hb : b.length = count * length) : (pieces length count b).flatten = b := by
  induction count generalizing b with
  | zero =>
      have : b = [] := List.eq_nil_of_length_eq_zero (by omega)
      rw [this]
      rfl
  | succ count ih =>
      rw [Nat.succ_mul] at hb
      rw [pieces, List.flatten_cons, ih (by rw [List.length_drop]; omega),
        List.take_append_drop]

/-- Blocks of one length come apart into these blocks. -/
theorem pieces_flatten {length : Nat} {blocks : List Bytes}
    (hlen : ∀ p ∈ blocks, p.length = length) :
    pieces length blocks.length blocks.flatten = blocks := by
  induction blocks with
  | nil => rfl
  | cons p blocks ih =>
      have hp := hlen p (List.mem_cons_self ..)
      rw [List.length_cons, pieces, List.flatten_cons, List.take_left' hp,
        List.drop_left' hp, ih fun q hq => hlen q (List.mem_cons_of_mem _ hq)]

theorem length_flatten {length : Nat} {blocks : List Bytes}
    (hlen : ∀ p ∈ blocks, p.length = length) :
    blocks.flatten.length = blocks.length * length := by
  rw [List.length_flatten, List.map_congr_left hlen, List.map_const',
    List.sum_replicate, smul_eq_mul]

-- ================================================================ filling

/-- With its filling, a text is whole blocks: one more than it had. -/
theorem length_filled {length : Nat} (hpos : 0 < length) (text : Bytes) :
    (text ++ filling length text.length).length
      = (text.length / length + 1) * length := by
  have hlt := Nat.mod_lt text.length hpos
  have hdiv := Nat.div_add_mod' text.length length
  rw [List.length_append, filling, List.length_replicate, Nat.succ_mul]
  omega

theorem unfilled?_filling {length : Nat} (hpos : 0 < length)
    (hoctet : length < 256) (text : Bytes) :
    unfilled? length (text ++ filling length text.length) = some text := by
  have hlt := Nat.mod_lt text.length hpos
  obtain ⟨missing, hmissing⟩ :
      ∃ k, length - text.length % length = k + 1 :=
    ⟨length - text.length % length - 1, by omega⟩
  have hfill : filling length text.length
      = List.replicate (missing + 1) (UInt8.ofNat (missing + 1)) := by
    rw [filling, hmissing]
  have hoct : (UInt8.ofNat (missing + 1)).toNat = missing + 1 := by
    rw [UInt8.toNat_ofNat', Nat.mod_eq_of_lt (by omega)]
  have hlast : (text ++ filling length text.length).getLast?
      = some (UInt8.ofNat (missing + 1)) := by
    rw [hfill, List.getLast?_append, List.getLast?_replicate]
    simp
  have hkept : (text ++ filling length text.length).length - (missing + 1)
      = text.length := by
    rw [hfill, List.length_append, List.length_replicate]
    omega
  rw [unfilled?, hlast]
  simp only [hoct, hkept, List.take_left, List.drop_left]
  rw [if_pos]
  rw [hfill]
  simp only [List.length_append, List.length_replicate, List.all_replicate]
  refine ⟨by omega, by omega, by omega, by simp⟩

-- =============================================================== chaining

variable {length : Nat} {enc dec : Bytes → Bytes}

@[simp] theorem length_encryptBlocks (iv : Bytes) (blocks : List Bytes) :
    (encryptBlocks enc iv blocks).length = blocks.length := by
  induction blocks generalizing iv with
  | nil => rfl
  | cons p blocks ih => rw [encryptBlocks, List.length_cons, ih]; rfl

/-- Cipher blocks have the length that the cipher gives them. -/
theorem length_of_mem_encryptBlocks (henc : ∀ b, (enc b).length = length)
    (iv : Bytes) (blocks : List Bytes) :
    ∀ c ∈ encryptBlocks enc iv blocks, c.length = length := by
  induction blocks generalizing iv with
  | nil => intro c hc; cases hc
  | cons p blocks ih =>
      intro c hc
      rw [encryptBlocks, List.mem_cons] at hc
      rcases hc with rfl | hc
      · exact henc _
      · exact ih _ c hc

/-- Each cipher block gives back the sum of its text and the cipher block
before, which the way back adds once more. -/
theorem decryptBlocks_encryptBlocks (henc : ∀ b, (enc b).length = length)
    (hinv : ∀ b, b.length = length → dec (enc b) = b)
    {iv : Bytes} (hiv : iv.length = length) {blocks : List Bytes}
    (hblocks : ∀ p ∈ blocks, p.length = length) :
    decryptBlocks dec iv (encryptBlocks enc iv blocks) = blocks := by
  induction blocks generalizing iv with
  | nil => rfl
  | cons p blocks ih =>
      have hp := hblocks p (List.mem_cons_self ..)
      have hsum : (xor p iv).length = length := by
        rw [length_xor, hp, hiv, Nat.min_self]
      show xor (dec (enc (xor p iv))) iv
          :: decryptBlocks dec (enc (xor p iv))
            (encryptBlocks enc (enc (xor p iv)) blocks) = p :: blocks
      rw [hinv _ hsum, xor_xor_cancel (hp.trans hiv.symm),
        ih (henc _) fun q hq => hblocks q (List.mem_cons_of_mem _ hq)]

/-- The blocks of a text with its filling. -/
private theorem filled_blocks (hpos : 0 < length) (text : Bytes) :
    (text ++ filling length text.length).length / length
      = text.length / length + 1 := by
  rw [length_filled hpos, Nat.mul_div_cancel _ hpos]

/-- A cipher text is as long as its text, brought up to whole blocks. -/
theorem length_encrypt (hpos : 0 < length)
    (henc : ∀ b, (enc b).length = length) (iv text : Bytes) :
    (encrypt length enc iv text).length
      = (text.length / length + 1) * length := by
  rw [encrypt, length_flatten (length_of_mem_encryptBlocks henc _ _),
    length_encryptBlocks, length_pieces, filled_blocks hpos]

/-- A text comes back from its cipher text under the inverse of the block
cipher and the same initial vector. -/
theorem decrypt?_encrypt (hpos : 0 < length) (hoctet : length < 256)
    (henc : ∀ b, (enc b).length = length)
    (hinv : ∀ b, b.length = length → dec (enc b) = b)
    {iv : Bytes} (hiv : iv.length = length) (text : Bytes) :
    decrypt? length dec iv (encrypt length enc iv text) = some text := by
  have hlen := length_encrypt hpos henc iv text
  have hblocks : ∀ p ∈ pieces length (text.length / length + 1)
      (text ++ filling length text.length), p.length = length :=
    length_of_mem_pieces (by rw [length_filled hpos])
  have hcipher : pieces length (text.length / length + 1)
        (encrypt length enc iv text)
      = encryptBlocks enc iv (pieces length (text.length / length + 1)
          (text ++ filling length text.length)) := by
    have := pieces_flatten (length_of_mem_encryptBlocks henc iv
      (pieces length (text.length / length + 1)
        (text ++ filling length text.length)))
    rw [length_encryptBlocks, length_pieces] at this
    rw [encrypt, filled_blocks hpos]
    exact this
  rw [decrypt?, hlen, Nat.mul_mod_left, if_neg (by simp)]
  simp only [Nat.mul_div_cancel _ hpos, hcipher]
  rw [decryptBlocks_encryptBlocks henc hinv hiv hblocks,
    flatten_pieces (length_filled hpos text), unfilled?_filling hpos hoctet]

-- ======================================================== no other texts

/-- A block cipher that can be undone leaves no block out: each is the cipher
block of what it decrypts to. -/
theorem enc_dec (henc : ∀ b, (enc b).length = length)
    (hinv : ∀ b, b.length = length → dec (enc b) = b) {c : Bytes}
    (hc : c.length = length) : (dec c).length = length ∧ enc (dec c) = c := by
  let encrypted (b : List.Vector UInt8 length) : List.Vector UInt8 length :=
    ⟨enc b.1, henc b.1⟩
  have hinjective : Function.Injective encrypted := by
    intro a b h
    have hsame : enc a.1 = enc b.1 := congrArg Subtype.val h
    apply Subtype.ext
    rw [← hinv a.1 a.2, hsame, hinv b.1 b.2]
  obtain ⟨b, hb⟩ := Finite.surjective_of_injective hinjective ⟨c, hc⟩
  have hb : enc b.1 = c := congrArg Subtype.val hb
  rw [← hb, hinv b.1 b.2]
  exact ⟨b.2, rfl⟩

theorem encryptBlocks_decryptBlocks (henc : ∀ b, (enc b).length = length)
    (hinv : ∀ b, b.length = length → dec (enc b) = b)
    {iv : Bytes} (hiv : iv.length = length) {blocks : List Bytes}
    (hblocks : ∀ c ∈ blocks, c.length = length) :
    encryptBlocks enc iv (decryptBlocks dec iv blocks) = blocks := by
  induction blocks generalizing iv with
  | nil => rfl
  | cons c blocks ih =>
      have hc := hblocks c (List.mem_cons_self ..)
      obtain ⟨hlength, hback⟩ := enc_dec henc hinv hc
      show enc (xor (xor (dec c) iv) iv)
          :: encryptBlocks enc (enc (xor (xor (dec c) iv) iv))
            (decryptBlocks dec c blocks) = c :: blocks
      rw [xor_xor_cancel (hlength.trans hiv.symm), hback,
        ih hc fun q hq => hblocks q (List.mem_cons_of_mem _ hq)]

@[simp] theorem length_decryptBlocks (iv : Bytes) (blocks : List Bytes) :
    (decryptBlocks dec iv blocks).length = blocks.length := by
  induction blocks generalizing iv with
  | nil => rfl
  | cons c blocks ih => rw [decryptBlocks, List.length_cons, ih]; rfl

theorem length_of_mem_decryptBlocks
    (hdec : ∀ c, c.length = length → (dec c).length = length)
    {iv : Bytes} (hiv : iv.length = length) {blocks : List Bytes}
    (hblocks : ∀ c ∈ blocks, c.length = length) :
    ∀ p ∈ decryptBlocks dec iv blocks, p.length = length := by
  induction blocks generalizing iv with
  | nil => intro p hp; cases hp
  | cons c blocks ih =>
      have hc := hblocks c (List.mem_cons_self ..)
      intro p hp
      rw [decryptBlocks, List.mem_cons] at hp
      rcases hp with rfl | hp
      · rw [length_xor, hdec c hc, hiv, Nat.min_self]
      · exact ih hc (fun q hq => hblocks q (List.mem_cons_of_mem _ hq)) p hp

/-- Whole blocks from which a filling was taken are the text with its
filling. -/
theorem eq_of_unfilled? {b text : Bytes} (hwhole : b.length % length = 0)
    (h : unfilled? length b = some text) :
    b = text ++ filling length text.length := by
  unfold unfilled? at h
  split at h
  · cases h
  · next x _ =>
      dsimp only at h
      split at h
      · next hfilled =>
          obtain ⟨hpos, hle, hlen, hall⟩ := hfilled
          obtain rfl := Option.some.inj h
          have hkept : (b.take (b.length - x.toNat)).length + x.toNat
              = b.length := by
            rw [List.length_take]
            omega
          have hdrop : b.drop (b.length - x.toNat)
              = List.replicate x.toNat x := by
            rw [List.eq_replicate_iff, List.length_drop]
            refine ⟨by omega, fun y hy => ?_⟩
            simpa using List.all_eq_true.mp hall y hy
          -- what is missing to whole blocks is what was taken
          have hlt := Nat.mod_lt (b.take (b.length - x.toNat)).length
            (show length > 0 by omega)
          have hdvd : length
              ∣ (b.take (b.length - x.toNat)).length % length + x.toNat := by
            rw [Nat.dvd_iff_mod_eq_zero, Nat.mod_add_mod, hkept, hwhole]
          have hsum := Nat.eq_of_dvd_of_lt_two_mul (by omega) hdvd (by omega)
          have hmissing : length
              - (b.take (b.length - x.toNat)).length % length = x.toNat := by
            omega
          rw [filling, hmissing, UInt8.ofNat_toNat, ← hdrop,
            List.take_append_drop]
      · cases h

/-- What decrypts to a text is its cipher text, and nothing else is. -/
theorem decrypt?_eq_some_iff (hpos : 0 < length) (hoctet : length < 256)
    (henc : ∀ b, (enc b).length = length)
    (hinv : ∀ b, b.length = length → dec (enc b) = b)
    {iv : Bytes} (hiv : iv.length = length) {cipher text : Bytes} :
    decrypt? length dec iv cipher = some text
      ↔ encrypt length enc iv text = cipher := by
  constructor
  · intro h
    unfold decrypt? at h
    split at h
    · cases h
    · next hwhole =>
        have hdvd := Nat.dvd_of_mod_eq_zero (not_not.mp hwhole)
        have hcount := Nat.div_mul_cancel hdvd
        have hblocks : ∀ c ∈ pieces length (cipher.length / length) cipher,
            c.length = length := length_of_mem_pieces hcount.le
        have htexts := length_of_mem_decryptBlocks
          (fun c hc => (enc_dec henc hinv hc).1) hiv hblocks
        have hlength := length_flatten htexts
        rw [length_decryptBlocks, length_pieces] at hlength
        have htext := eq_of_unfilled?
          (by rw [hlength, Nat.mul_mod_left]) h
        have hpieces := pieces_flatten htexts
        rw [length_decryptBlocks, length_pieces] at hpieces
        rw [encrypt, ← htext, hlength, Nat.mul_div_cancel _ hpos, hpieces,
          encryptBlocks_decryptBlocks henc hinv hiv hblocks,
          flatten_pieces hcount.symm]
  · rintro rfl
    exact decrypt?_encrypt hpos hoctet henc hinv hiv text

end Cbc
end TlsKeystore
