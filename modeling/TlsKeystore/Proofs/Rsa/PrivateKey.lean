/-
A private key and its PKCS#8 form.

`formElement` is the element that `PrivateKey.encode` encodes. It is taken
apart again with every number in its place, and the demands of a signing
key keep it far below the length that the reader allows: no number has
more octets than the largest modulus (`length_form_le`). So a key that can
be used for signing is loaded from its own form (`load?_encode`), and where
its numbers fit together it is read from there too (`decode?_encode`).
-/
import TlsKeystore.Proofs.Asn1.Der
import TlsKeystore.Proofs.Asn1.Oid
import TlsKeystore.Rsa.PrivateKey

namespace TlsKeystore.PrivateKey

open Element (around ofOid ofNatural ofOctets ofNull)

-- =============================================================== the tree

/-- The numbers of a key, behind the number of their version. -/
def numbersForm (k : PrivateKey) : Element :=
  around Tag.sequence ((0 :: k.numbers).map ofNatural)

/-- The algorithm of a key. -/
def algorithmForm : Element :=
  around Tag.sequence [ofOid rsaEncryption, ofNull]

/-- The whole form. -/
def formElement (k : PrivateKey) : Element :=
  around Tag.sequence [ofNatural 0, algorithmForm,
    ofOctets k.numbersForm.encode]

theorem encode_eq (k : PrivateKey) : k.encode = k.formElement.encode := by
  have hnumbers : k.encodeNumbers = k.numbersForm.encode :=
    Der.sequence_eq_encode ((0 :: k.numbers).map ofNatural)
  rw [encode, hnumbers]
  exact Der.sequence_eq_encode [ofNatural 0, algorithmForm,
    ofOctets k.numbersForm.encode]

-- ================================================================ reading

theorem ofNumbers?_numbersForm {k : PrivateKey} (hfits : k.numbersForm.Fits) :
    ofNumbers? k.numbersForm.encode = some k := by
  have hone : Der.readOne? k.numbersForm.encode = some k.numbersForm :=
    Der.readOne?_encode (by simp [numbersForm]) hfits
  have hitems : k.numbersForm.items? Tag.sequence
      = some ((0 :: k.numbers).map ofNatural) := by
    refine Element.items?_around ?_ hfits
    intro e he
    obtain ⟨n, -, rfl⟩ := List.mem_map.mp he
    simp
  simp [ofNumbers?, hone, hitems, numbers]

theorem saysRsa_algorithmForm : saysRsa algorithmForm = true := by
  have hkind : rsaEncryption.wellFormed = true :=
    Oid.wellFormed_ofArcs (by decide)
  have hfits : algorithmForm.Fits := by
    show algorithmForm.content.length ≤ Der.maxLength
    decide +kernel
  have hitems : algorithmForm.items? Tag.sequence
      = some [ofOid rsaEncryption, ofNull] :=
    Element.items?_around (by simp) hfits
  simp [saysRsa, hitems, Element.oid?_ofOid hkind]

/-- A form that is short enough gives a key that signs back. -/
theorem load?_of_length {k : PrivateKey} (hsigns : k.signs = true)
    (hlength : k.formElement.content.length ≤ maxFormLength) :
    load? k.encode = some k := by
  have hfits : k.formElement.Fits := by
    refine hlength.trans ?_
    decide
  have hone : Der.readOne? k.formElement.encode = some k.formElement :=
    Der.readOne?_encode (by simp [formElement]) hfits
  have hitems : k.formElement.items? Tag.sequence
      = some [ofNatural 0, algorithmForm, ofOctets k.numbersForm.encode] :=
    Element.items?_around (by simp [algorithmForm]) hfits
  have hoctets : (ofOctets k.numbersForm.encode).Fits := hfits.of_mem (by simp)
  have hnumbers : k.numbersForm.Fits := Element.Within.of_encode hoctets
  rw [encode_eq]
  simp [load?, hone, hitems, ofNumbers?_numbersForm hnumbers, hlength,
    saysRsa_algorithmForm, hsigns]

/-- Where a form holds the numbers of its key, whoever reads them. -/
def keyOctets? (b : Bytes) : Option Bytes := do
  let e ← Der.readOne? b
  let items ← e.items? Tag.sequence
  let key ← items[2]?
  key.octets?

theorem keyOctets?_eq {b : Bytes} {e version algorithm key : Element}
    {fields : List Element} (hone : Der.readOne? b = some e)
    (hitems : e.items? Tag.sequence
      = some (version :: algorithm :: key :: fields)) :
    keyOctets? b = key.octets? := by
  simp [keyOctets?, hone, hitems]

/-- A loaded key has the numbers of its form, and meets the demands on a
signing key. -/
theorem numbers_of_load? {b : Bytes} {k : PrivateKey}
    (h : load? b = some k) :
    (keyOctets? b).bind ofNumbers? = some k ∧ k.signs = true := by
  unfold load? at h
  simp only [Option.bind_eq_bind, Option.bind_eq_some_iff] at h
  obtain ⟨e, hone, items, hitems, h⟩ := h
  have hnumbers {number : Nat} {algorithm : Element} {octets : Bytes}
      {key : PrivateKey} (hkey : ofNumbers? octets = some key)
      (h : (if e.content.length ≤ maxFormLength ∧ number = 0
        ∧ saysRsa algorithm = true ∧ key.signs = true then some key
        else none) = some k) :
      ofNumbers? octets = some k ∧ k.signs = true := by
    obtain ⟨hall, h⟩ := Option.ite_none_right_eq_some.mp h
    obtain rfl := Option.some.inj h
    exact ⟨hkey, hall.2.2.2⟩
  -- without attributes behind the key, and with them
  split at h
  · simp only [Option.bind_some, Option.bind_eq_some_iff] at h
    obtain ⟨number, -, octets, hoctets, key, hkey, h⟩ := h
    rw [keyOctets?_eq hone hitems, hoctets]
    exact hnumbers hkey h
  · simp only [Option.bind_some, Option.bind_eq_some_iff] at h
    obtain ⟨number, -, octets, hoctets, key, hkey, h⟩ := h
    rw [keyOctets?_eq hone hitems, hoctets]
    exact hnumbers hkey h
  · cases h

theorem signs_of_load? {b : Bytes} {k : PrivateKey}
    (h : load? b = some k) : k.signs = true :=
  (numbers_of_load? h).2

/-- A key that is read has the numbers of its form, and they fit
together. -/
theorem numbers_of_decode? {b : Bytes} {k : PrivateKey}
    (h : decode? b = some k) :
    (keyOctets? b).bind ofNumbers? = some k ∧ k.consistent = true := by
  unfold decode? at h
  simp only [Option.bind_eq_bind, Option.bind_eq_some_iff] at h
  obtain ⟨e, hone, items, hitems, h⟩ := h
  split at h
  · simp only [Option.bind_eq_some_iff] at h
    obtain ⟨number, -, octets, hoctets, key, hkey, h⟩ := h
    obtain ⟨hall, h⟩ := Option.ite_none_right_eq_some.mp h
    obtain rfl := Option.some.inj h
    rw [Bool.and_eq_true] at hall
    rw [keyOctets?_eq hone hitems, hoctets]
    exact ⟨hkey, hall.2⟩
  · cases h

/-- Both readers take the same key from a form, where both take one. -/
theorem eq_of_load?_of_decode? {b : Bytes} {own k : PrivateKey}
    (hload : load? b = some own) (hdecode : decode? b = some k) :
    own = k := by
  have hown := (numbers_of_load? hload).1
  rw [(numbers_of_decode? hdecode).1] at hown
  exact (Option.some.inj hown).symm

/-- Numbers that fit together are not zero where they are public. -/
theorem public_pos_of_consistent {k : PrivateKey}
    (h : k.consistent = true) : 0 < k.modulus ∧ 0 < k.publicExponent := by
  simp only [consistent, Bool.and_eq_true, decide_eq_true_eq,
    beq_iff_eq] at h
  omega

-- ================================================================ lengths

private theorem length_ofNatural_le {n : Nat}
    (hn : Bytes.bitLength n ≤ maxBits) :
    (ofNatural n).encode.length ≤ 519 := by
  have hbytes : Bytes.byteLength n ≤ 512 := by
    unfold Bytes.byteLength
    unfold maxBits at hn
    omega
  refine Element.length_encode_le (n := 513) ?_ (by decide)
  exact (Der.length_naturalOctets_le n).trans (by omega)

/-- A smaller number takes no more bits. -/
private theorem bitLength_le_of_le {m n : Nat} (h : m ≤ n) :
    Bytes.bitLength m ≤ Bytes.bitLength n := by
  rw [Bytes.bitLength_eq_size, Bytes.bitLength_eq_size]
  exact Nat.size_le_size h

/-- No number of a signing key is longer than the largest modulus. -/
private theorem bitLength_le_of_signs {k : PrivateKey}
    (hsigns : k.signs = true) :
    ∀ n ∈ 0 :: k.numbers, Bytes.bitLength n ≤ maxBits := by
  simp only [signs, Bool.and_eq_true, decide_eq_true_eq, beq_iff_eq] at hsigns
  have hmodulus : Bytes.bitLength k.modulus ≤ maxBits := by omega
  have hprime1 : Bytes.bitLength k.prime1 ≤ maxBits := by omega
  have hprime2 : Bytes.bitLength k.prime2 ≤ maxBits := by omega
  have hpublic : Bytes.bitLength maxPublicExponent ≤ maxBits := by
    decide
  have hzero : Bytes.bitLength 0 ≤ maxBits := by decide
  have hbelow {m n : Nat} (h : m ≤ n) (hn : Bytes.bitLength n ≤ maxBits) :
      Bytes.bitLength m ≤ maxBits := (bitLength_le_of_le h).trans hn
  intro n hn
  simp only [numbers, List.mem_cons, List.not_mem_nil, or_false] at hn
  rcases hn with rfl | rfl | rfl | rfl | rfl | rfl | rfl | rfl | rfl
  · exact hzero
  · exact hmodulus
  · exact hbelow (by omega) hpublic
  · exact hbelow (n := k.modulus) (by omega) hmodulus
  · exact hprime1
  · exact hprime2
  · exact hbelow (n := k.prime1) (by omega) hprime1
  · exact hbelow (n := k.prime2) (by omega) hprime2
  · exact hbelow (n := k.prime1) (by omega) hprime1

/-- The modulus of a signing key has 512 octets at most. -/
theorem byteLength_modulus_le {k : PrivateKey} (hsigns : k.signs = true) :
    Bytes.byteLength k.modulus ≤ 512 := by
  have hbits := bitLength_le_of_signs hsigns k.modulus (by simp [numbers])
  unfold maxBits at hbits
  unfold Bytes.byteLength
  omega

/-- The form of a signing key stays far below what a reader allows. -/
private theorem length_form_le {k : PrivateKey} (hsigns : k.signs = true) :
    k.formElement.content.length ≤ maxFormLength := by
  have hnumbers : k.numbersForm.encode.length ≤ 4671 + 6 := by
    refine Element.length_around_le ?_ (by decide)
    have hsum := List.sum_le_card_nsmul
      (((0 :: k.numbers).map ofNatural).map fun e => e.encode.length) 519 ?_
    · simpa [numbers] using hsum
    · intro n hn
      rw [List.map_map] at hn
      obtain ⟨m, hm, rfl⟩ := List.mem_map.mp hn
      exact length_ofNatural_le (bitLength_le_of_signs hsigns m hm)
  have hversion : (ofNatural 0).encode.length = 3 := by decide
  have halgorithm : algorithmForm.encode.length = 15 := by decide +kernel
  have hkey : (ofOctets k.numbersForm.encode).encode.length ≤ 4677 + 6 :=
    Element.length_encode_le hnumbers (by decide)
  simp only [formElement, Element.around_content, List.flatMap_cons,
    List.flatMap_nil, List.length_append, List.length_nil, hversion,
    halgorithm]
  unfold maxFormLength
  omega

/-- A key that can be used for signing is loaded from its own form. -/
theorem load?_encode {k : PrivateKey} (hsigns : k.signs = true) :
    load? k.encode = some k :=
  load?_of_length hsigns (length_form_le hsigns)

/-- A key that can be used for signing, and whose numbers fit together, is
read from its own form. -/
theorem decode?_encode {k : PrivateKey} (hsigns : k.signs = true)
    (hconsistent : k.consistent = true) : decode? k.encode = some k := by
  have hfits : k.formElement.Fits := by
    refine (length_form_le hsigns).trans ?_
    decide
  have hone : Der.readOne? k.formElement.encode = some k.formElement :=
    Der.readOne?_encode (by simp [formElement]) hfits
  have hitems : k.formElement.items? Tag.sequence
      = some [ofNatural 0, algorithmForm, ofOctets k.numbersForm.encode] :=
    Element.items?_around (by simp [algorithmForm]) hfits
  have hoctets : (ofOctets k.numbersForm.encode).Fits := hfits.of_mem (by simp)
  have hnumbers : k.numbersForm.Fits := Element.Within.of_encode hoctets
  have hfields : fieldsFit 0 [] = true := rfl
  rw [encode_eq]
  simp [decode?, hone, hitems, ofNumbers?_numbersForm hnumbers,
    saysRsa_algorithmForm, hfields, hconsistent]

end TlsKeystore.PrivateKey
