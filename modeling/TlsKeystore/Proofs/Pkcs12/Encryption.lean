/-
Encryption under every scheme that can be read.

This library writes one scheme and reads many. What others have written is
stated by encryption (`Scheme.encrypt?`): the key comes from the password as
it does for reading, the text is chained under the cipher of the scheme, and
where a password has no form that the scheme can take, there is no cipher
text. Reading undoes exactly this: a cipher text decrypts to a text if and
only if it is the one of that text (`Scheme.decrypt_eq_ok_iff`).

All that this needs to know of a scheme is the length of its initial vector.
A newer one states it, and is not read with another; an older one takes it
from the key derivation, which gives as many octets as it is asked for.
-/
import TlsKeystore.Proofs.Cipher.Rc2
import TlsKeystore.Proofs.Cipher.TripleDes
import TlsKeystore.Proofs.Pkcs12.Pfx
import TlsKeystore.Proofs.Results

namespace TlsKeystore

-- ============================================================ key derivation

namespace Pkcs12Kdf

variable {h : HashFunction}

/-- After a first round there is a digest. -/
theorem length_iterate (hdigest : ∀ b, (h.digest b).length = h.digestLength)
    {count : Nat} (hcount : 0 < count) (b : Bytes) :
    (iterate h count b).length = h.digestLength := by
  induction count generalizing b with
  | zero => cases hcount
  | succ count ih =>
      rw [iterate]
      cases count with
      | zero => exact hdigest b
      | succ count => exact ih (Nat.succ_pos count) _

theorem length_digests (hdigest : ∀ b, (h.digest b).length = h.digestLength)
    {rounds : Nat} (hrounds : 0 < rounds) (mark : Bytes) (count : Nat)
    (input : Bytes) :
    (digests h mark rounds count input).length = count * h.digestLength := by
  induction count generalizing input with
  | zero => rw [digests, List.length_nil, Nat.zero_mul]
  | succ count ih =>
      rw [digests, List.length_append, length_iterate hdigest hrounds, ih,
        Nat.succ_mul, Nat.add_comm]

/-- As many octets come out of the derivation as it is asked for. -/
theorem length_derive (hdigest : ∀ b, (h.digest b).length = h.digestLength)
    (hpos : 0 < h.digestLength) (purpose : Purpose) (password salt : Bytes)
    (rounds length : Nat) :
    (derive h purpose password salt rounds length).length = length := by
  have henough : length
      ≤ (length + h.digestLength - 1) / h.digestLength * h.digestLength := by
    have hdiv := Nat.div_add_mod' (length + h.digestLength - 1) h.digestLength
    have hmod := Nat.mod_lt (length + h.digestLength - 1) hpos
    omega
  unfold derive
  rw [List.length_take, length_digests hdigest (by omega)]
  exact Nat.min_eq_left henough

end Pkcs12Kdf

namespace Pkcs12

-- ================================================================ encryption

/-- The cipher text under a scheme and a password; none where the scheme has
no key for the password. -/
def Scheme.encrypt? (s : Scheme) (password : String) (text : Bytes) :
    Option Bytes :=
  match s with
  | .pbes2 derivation keyLength iv => do
    let key ← derivation.derive? password keyLength
    some (Cbc.encrypt 16 (Aes.encrypt (Aes.roundKeys key)) iv text)
  | .pbes1 kind salt rounds => do
    let password ← Bmp.password? password
    let derive (purpose : Pkcs12Kdf.Purpose) (length : Nat) : Bytes :=
      Pkcs12Kdf.derive Sha1.sha1 purpose password salt rounds length
    let iv := derive .initialVector 8
    match kind with
    | .tripleDes =>
      let keys := TripleDes.keys (derive .encryption 24)
      some (Cbc.encrypt 8 (TripleDes.encrypt keys) iv text)
    | .rc2 =>
      let keys := Rc2.keyWords (derive .encryption 5)
      some (Cbc.encrypt 8 (Rc2.encrypt keys) iv text)

namespace Scheme

/-- A scheme whose initial vector is one block. -/
def WholeIv : Scheme → Prop
  | .pbes2 _ _ iv => iv.length = 16
  | .pbes1 _ _ _ => True

theorem length_of_cipher? {e : Element} {keyLength : Nat} {iv : Bytes}
    (h : cipher? e = some (keyLength, iv)) : iv.length = 16 := by
  unfold cipher? at h
  simp only [Option.bind_eq_bind, Option.bind_eq_some_iff,
    Option.ite_none_right_eq_some, Option.some.injEq, Prod.mk.injEq] at h
  obtain ⟨-, -, -, -, iv', -, -, -, hlength, -, rfl⟩ := h
  exact hlength

theorem wholeIv_of_ofParameters? {e : Element} {s : Scheme}
    (h : ofParameters? e = some s) : s.WholeIv := by
  unfold ofParameters? at h
  obtain ⟨items, -, h⟩ := Option.bind_eq_some_iff.mp h
  split at h
  · obtain ⟨derivation, -, h⟩ := Option.bind_eq_some_iff.mp h
    obtain ⟨⟨keyLength, iv⟩, hcipher, h⟩ := Option.bind_eq_some_iff.mp h
    obtain rfl := Option.some.inj h
    exact length_of_cipher? hcipher
  · cases h

theorem wholeIv_of_ofOldParameters? {cipher : OldCipher} {e : Element}
    {s : Scheme} (h : ofOldParameters? cipher e = some s) : s.WholeIv := by
  unfold ofOldParameters? at h
  obtain ⟨items, -, h⟩ := Option.bind_eq_some_iff.mp h
  split at h
  · obtain ⟨salt, -, h⟩ := Option.bind_eq_some_iff.mp h
    obtain ⟨count, -, h⟩ := Option.bind_eq_some_iff.mp h
    obtain rfl := Option.some.inj h
    exact trivial
  · cases h

/-- No scheme is read with another initial vector. -/
theorem wholeIv_of_ofAlgorithm {a : Algorithm} {s : Scheme}
    (h : ofAlgorithm a = .ok s) : s.WholeIv := by
  obtain ⟨kind, parameters⟩ := a
  unfold ofAlgorithm at h
  cases parameters with
  | none =>
      dsimp only at h
      split_ifs at h
  | some e =>
      dsimp only at h
      split_ifs at h
      · exact wholeIv_of_ofParameters? (orDefect_eq_ok_iff.mp h)
      · exact wholeIv_of_ofOldParameters? (orDefect_eq_ok_iff.mp h)
      · exact wholeIv_of_ofOldParameters? (orDefect_eq_ok_iff.mp h)

/-- What decrypts to a text is its cipher text, and nothing else is. -/
theorem decrypt_eq_ok_iff {s : Scheme} (hs : s.WholeIv) {password : String}
    {cipher text : Bytes} :
    s.decrypt password cipher = .ok text
      ↔ s.encrypt? password text = some cipher := by
  cases s with
  | pbes2 derivation keyLength iv =>
      simp only [decrypt, encrypt?, orDefect_eq_ok_iff, Option.bind_eq_bind,
        Option.bind_eq_some_iff, Option.some.injEq]
      refine exists_congr fun key => and_congr_right fun _ => ?_
      exact Cbc.decrypt?_eq_some_iff (by decide) (by decide)
        (fun b => Aes.length_encrypt _ b)
        (fun b hb => Aes.decrypt_encrypt _ hb) hs
  | pbes1 kind salt rounds =>
      simp only [decrypt, encrypt?, bind_eq_ok_iff, orDefect_eq_ok_iff,
        Option.bind_eq_bind, Option.bind_eq_some_iff]
      refine exists_congr fun bmp => and_congr_right fun _ => ?_
      have hiv := Pkcs12Kdf.length_derive (h := Sha1.sha1)
        Sha1.length_digest (by decide) .initialVector bmp salt rounds 8
      cases kind with
      | tripleDes =>
          simp only [orDefect_eq_ok_iff, Option.some.injEq]
          exact Cbc.decrypt?_eq_some_iff (by decide) (by decide)
            (fun b => TripleDes.length_encrypt _ b)
            (fun b hb => TripleDes.decrypt_encrypt _ hb) hiv
      | rc2 =>
          simp only [orDefect_eq_ok_iff, Option.some.injEq]
          exact Cbc.decrypt?_eq_some_iff (by decide) (by decide)
            (fun b => Rc2.length_encrypt _ b)
            (fun b hb => Rc2.decrypt_encrypt _ hb) hiv

end Scheme
end Pkcs12
end TlsKeystore
