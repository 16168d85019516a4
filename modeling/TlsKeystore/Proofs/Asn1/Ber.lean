/-
The tolerant reader takes back what the writer writes.

Every element that is written has a short tag and a definite length, so
the tolerant reader sees it with its tag taken apart (`Element.view`), and
nothing of what follows it (`read?_encode`). It does so up to the lengths
of a machine word, which is where its own bound is; every octet string
that there is room for is far below.
-/
import TlsKeystore.Asn1.Ber
import TlsKeystore.Proofs.Asn1.Der

namespace TlsKeystore

-- =================================================================== view

/-- An element as the tolerant reader sees it. -/
def Element.view (e : Element) : Ber.Element :=
  ⟨e.tag.toNat / 64, e.tag.toNat / 32 % 2 == 1, e.tag.toNat % 32, e.content⟩

/-- Whether there can be room for the content. -/
abbrev Element.HasRoom (e : Element) : Prop := e.Within Bytes.maxLength

namespace Element

@[simp] theorem view_boolean (content : Bytes) :
    view ⟨Tag.boolean, content⟩ = ⟨0, false, 1, content⟩ := by
  simp [view, Tag.boolean]

@[simp] theorem view_ofNatural (n : Nat) :
    (ofNatural n).view = ⟨0, false, 2, Der.naturalOctets n⟩ := by
  simp [view, ofNatural, Tag.integer]

@[simp] theorem view_bitString (content : Bytes) :
    view ⟨Tag.bitString, content⟩ = ⟨0, false, 3, content⟩ := by
  simp [view, Tag.bitString]

@[simp] theorem view_ofOctets (content : Bytes) :
    (ofOctets content).view = ⟨0, false, 4, content⟩ := by
  simp [view, ofOctets, Tag.octetString]

@[simp] theorem view_ofNull : ofNull.view = ⟨0, false, 5, []⟩ := by
  simp [view, ofNull, Tag.null]

@[simp] theorem view_ofOid (id : Oid) :
    (ofOid id).view = ⟨0, false, 6, id.content⟩ := by
  simp [view, ofOid, Tag.oid]

@[simp] theorem view_utf8String (content : Bytes) :
    view ⟨Tag.utf8String, content⟩ = ⟨0, false, 12, content⟩ := by
  simp [view, Tag.utf8String]

@[simp] theorem view_sequence (es : List Element) :
    (around Tag.sequence es).view = ⟨0, true, 16, es.flatMap encode⟩ := by
  simp [view, Tag.sequence]

@[simp] theorem view_set (es : List Element) :
    (around Tag.set es).view = ⟨0, true, 17, es.flatMap encode⟩ := by
  simp [view, Tag.set]

@[simp] theorem view_explicit_zero (es : List Element) :
    (around (Tag.explicit 0) es).view = ⟨2, true, 0, es.flatMap encode⟩ := by
  simp [view, Tag.explicit]

@[simp] theorem view_explicit_three (es : List Element) :
    (around (Tag.explicit 3) es).view = ⟨2, true, 3, es.flatMap encode⟩ := by
  simp [view, Tag.explicit]

end Element

namespace Ber

/-- The tag octet of a number that needs no octets of its own. -/
def shortTag (t : UInt8) : Bool := t.toNat % 32 != 31

/-- The tags that certificates are written with are short. -/
@[simp] theorem shortTag_of_mem : ∀ t ∈ [Tag.boolean, Tag.integer,
    Tag.bitString, Tag.octetString, Tag.null, Tag.oid, Tag.utf8String,
    Tag.utcTime, Tag.generalizedTime, Tag.sequence, Tag.set, Tag.explicit 0,
    Tag.explicit 3], shortTag t = true := by decide +kernel

-- ================================================================ lengths

theorem readLength?_lengthOctets {n : Nat} (hn : n ≤ Bytes.maxLength)
    (rest : Bytes) :
    readLength? (Der.lengthOctets n ++ rest) = some (n, rest) := by
  unfold Bytes.maxLength at hn
  by_cases hshort : n < 128
  · have hx : (UInt8.ofNat n).toNat = n := by
      rw [UInt8.toNat_ofNat', Nat.mod_eq_of_lt (by omega)]
    have hlt : UInt8.ofNat n < 0x80 := by
      rw [UInt8.lt_iff_toNat_lt, hx]
      exact hshort
    rw [Der.lengthOctets, if_pos hshort, List.singleton_append, readLength?,
      if_pos hlt, hx]
  · have hle : (Bytes.ofNat n).length ≤ 8 :=
      Bytes.length_ofNat_le (by omega)
    have hpos : 0 < (Bytes.ofNat n).length := by
      rw [List.length_pos_iff]
      intro hnil
      have := Bytes.toNat_ofNat n
      rw [hnil, Bytes.toNat_nil] at this
      omega
    have hx : (UInt8.ofNat (0x80 + (Bytes.ofNat n).length)).toNat
        = 0x80 + (Bytes.ofNat n).length := by
      rw [UInt8.toNat_ofNat', Nat.mod_eq_of_lt (by omega)]
    have hge : ¬ UInt8.ofNat (0x80 + (Bytes.ofNat n).length) < 0x80 := by
      rw [UInt8.lt_iff_toNat_lt, hx]
      simp
    have hmark : ¬ (UInt8.ofNat (0x80 + (Bytes.ofNat n).length) = 0x80
        ∨ UInt8.ofNat (0x80 + (Bytes.ofNat n).length) = 0xFF) := by
      simp only [← UInt8.toNat_inj, hx]
      simp only [UInt8.reduceToNat]
      omega
    have hbound : n < 0x10000000000000000 := by omega
    rw [Der.lengthOctets, if_neg hshort]
    simp only [List.cons_append, readLength?, if_neg hge, if_neg hmark, hx,
      Nat.add_sub_cancel_left, List.take_left, List.drop_left,
      Bytes.toNat_ofNat]
    simp [hbound]

/-- A definite length does not start with the mark of an open one. -/
theorem head?_lengthOctets {n : Nat} (hn : n ≤ Bytes.maxLength)
    (rest : Bytes) : (Der.lengthOctets n ++ rest).head? ≠ some 0x80 := by
  have h := readLength?_lengthOctets hn rest
  intro hhead
  cases hoctets : Der.lengthOctets n ++ rest with
  | nil => rw [hoctets] at hhead; cases hhead
  | cons x tail =>
      rw [hoctets] at hhead h
      cases hhead
      simp [readLength?] at h

-- =============================================================== elements

theorem readHeader?_encode {e : TlsKeystore.Element} (htag : shortTag e.tag = true)
    (hroom : e.HasRoom) (rest : Bytes) :
    readHeader? (e.encode ++ rest)
      = some (({ e.view with content := [] }, e.content.length),
          e.content ++ rest) := by
  have hnumber : ¬ e.tag.toNat % 32 = 31 := by simpa [shortTag] using htag
  simp [readHeader?, readTag?, TlsKeystore.Element.encode, hnumber,
    TlsKeystore.Element.view, readLength?_lengthOctets hroom]

/-- A written element at the front is read, and what follows is left. -/
theorem read?_encode {e : TlsKeystore.Element} (htag : shortTag e.tag = true)
    (hroom : e.HasRoom) (rest : Bytes) :
    read? (e.encode ++ rest) = some (e.view, rest) := by
  simp [read?, readHeader?_encode htag hroom,
    TlsKeystore.Element.view]

/-- It is not taken for an element without a length. -/
theorem readOpen?_encode {e : TlsKeystore.Element} (htag : shortTag e.tag = true)
    (hroom : e.HasRoom) (rest : Bytes) :
    readOpen? (e.encode ++ rest) = some (e.view, rest) := by
  have hhead := head?_lengthOctets hroom (e.content ++ rest)
  have hread := read?_encode htag hroom rest
  have hnumber : ¬ e.tag.toNat % 32 = 31 := by simpa [shortTag] using htag
  rw [← hread]
  unfold readOpen?
  simp only [TlsKeystore.Element.encode, List.cons_append, List.append_assoc, readTag?,
    if_neg hnumber, Option.bind_eq_bind, Option.bind_some]
  cases hoctets : Der.lengthOctets e.content.length ++ (e.content ++ rest) with
  | nil => rfl
  | cons x tail =>
      rw [hoctets] at hhead
      have hx : x ≠ 0x80 := by simpa using hhead
      split
      · next heq => simp_all
      · rfl

/-- The content of a written sequence at the front. -/
theorem readSequence?_around {es : List TlsKeystore.Element}
    (hroom : (TlsKeystore.Element.around Tag.sequence es).HasRoom)
    (rest : Bytes) :
    readSequence? ((TlsKeystore.Element.around Tag.sequence es).encode ++ rest)
      = some (es.flatMap TlsKeystore.Element.encode, rest) := by
  rw [readSequence?, read?_encode (by simp) hroom]
  simp [Element.sequence?, Element.isOf, Universal.number]

-- ============================================================== in a row

/-- Octets that begin with these elements, one behind the other, and go on
with `rest`. -/
inductive Begins : Bytes → List Element → Bytes → Prop
  | nil (b : Bytes) : Begins b [] b
  | cons {b mid rest : Bytes} {e : Element} {es : List Element}
      (front : read? b = some (e, mid)) (behind : Begins mid es rest) :
      Begins b (e :: es) rest

theorem begins_nil_iff {b rest : Bytes} : Begins b [] rest ↔ b = rest := by
  constructor
  · intro h
    cases h
    rfl
  · intro h
    rw [h]
    exact Begins.nil rest

theorem begins_cons_iff {b rest : Bytes} {e : Element} {es : List Element} :
    Begins b (e :: es) rest
      ↔ ∃ mid, read? b = some (e, mid) ∧ Begins mid es rest := by
  constructor
  · intro h
    cases h with
    | cons front behind => exact ⟨_, front, behind⟩
  · rintro ⟨mid, front, behind⟩
    exact Begins.cons front behind

/-- Where an element is read there are octets. -/
theorem ne_nil_of_read? {b rest : Bytes} {e : Element}
    (h : read? b = some (e, rest)) : b ≠ [] := by
  intro hempty
  rw [hempty] at h
  cases h

theorem begins_singleton_iff {b rest : Bytes} {e : Element} :
    Begins b [e] rest ↔ b ≠ [] ∧ read? b = some (e, rest) := by
  rw [begins_cons_iff]
  simp only [begins_nil_iff, exists_eq_right]
  exact ⟨fun h => ⟨ne_nil_of_read? h, h⟩, fun h => h.2⟩

/-- Written elements are read in the order in which they were written. -/
theorem begins_flatMap_encode {es : List TlsKeystore.Element}
    (hes : ∀ e ∈ es, shortTag e.tag = true ∧ e.HasRoom) :
    Begins (es.flatMap TlsKeystore.Element.encode)
      (es.map TlsKeystore.Element.view) [] := by
  induction es with
  | nil => exact Begins.nil []
  | cons e es ih =>
      obtain ⟨htag, hroom⟩ := hes e List.mem_cons_self
      exact Begins.cons (read?_encode htag hroom _)
        (ih fun f hf => hes f (List.mem_cons_of_mem _ hf))

end Ber
end TlsKeystore
