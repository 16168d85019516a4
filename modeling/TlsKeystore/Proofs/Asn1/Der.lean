/-
The strict reader takes back what the writer writes.

# Elements around elements

`Element.around tag es` is the element whose content is the encodings of
`es`, and every structured octet string here is its encoding: the writers
are all `Der.wrap` over parts that are encodings (`wrap_eq_encode`). The
reader's side is three facts, one for each way to take octets apart:

- `read?_encode`: the front element, with anything behind it;
- `readOne?_encode`: an element and nothing behind it;
- `items?_around`, `only?_around`: the elements inside.

# What it takes

An element is taken back when its tag is known and its content is no
longer than the strict reader allows (`Element.Fits`). The length is asked
for only at the outermost element: what is inside a fitting element fits
(`Within.of_mem`), so a bound on a whole encoding serves for all of it.
-/
import TlsKeystore.Asn1.Der
import TlsKeystore.Proofs.Bytes

namespace TlsKeystore

-- =============================================================== lengths

namespace Der

/-- A length takes up four octets at most. -/
theorem length_ofNat_le_four {n : Nat} (hn : n ≤ maxLength) :
    (Bytes.ofNat n).length ≤ 4 := by
  refine Bytes.length_ofNat_le ?_
  unfold maxLength at hn
  omega

/-- The count octet of a long length gives the count back. -/
theorem count_octet {k : Nat} (hk : k < 128) :
    (UInt8.ofNat (0x80 + k)).toNat - 0x80 = k := by
  rw [UInt8.toNat_ofNat', Nat.mod_eq_of_lt (by omega)]
  omega

theorem readLength?_lengthOctets {n : Nat} (hn : n ≤ maxLength)
    (rest : Bytes) :
    readLength? (lengthOctets n ++ rest) = some (n, rest) := by
  by_cases hshort : n < 128
  · have hx : (UInt8.ofNat n).toNat = n := by
      rw [UInt8.toNat_ofNat', Nat.mod_eq_of_lt (by omega)]
    have hlt : UInt8.ofNat n < 0x80 := by
      rw [UInt8.lt_iff_toNat_lt, hx]
      exact hshort
    rw [lengthOctets, if_pos hshort, List.singleton_append, readLength?,
      if_pos hlt, hx]
  · have hlen := length_ofNat_le_four hn
    have hcount := count_octet (k := (Bytes.ofNat n).length) (by omega)
    have hge : ¬ UInt8.ofNat (0x80 + (Bytes.ofNat n).length) < 0x80 := by
      rw [UInt8.lt_iff_toNat_lt, UInt8.toNat_ofNat',
        Nat.mod_eq_of_lt (by omega)]
      simp
    have hocts : lengthOctets n
        = UInt8.ofNat (0x80 + (Bytes.ofNat n).length) :: Bytes.ofNat n := by
      rw [lengthOctets, if_neg hshort]
    rw [hocts, List.cons_append, readLength?, if_neg hge]
    simp only [hcount, List.take_left, List.drop_left, Bytes.toNat_ofNat]
    rw [if_pos ⟨hlen, hocts, hn⟩]

end Der

-- ============================================================== elements

namespace Element

/-- The element around other elements. -/
def around (tag : UInt8) (es : List Element) : Element :=
  ⟨tag, es.flatMap encode⟩

/-- A content of so many octets at most. -/
def Within (bound : Nat) (e : Element) : Prop := e.content.length ≤ bound

/-- Whether the strict reader takes a content of this length. -/
abbrev Fits (e : Element) : Prop := e.Within Der.maxLength

@[simp] theorem around_tag (tag : UInt8) (es : List Element) :
    (around tag es).tag = tag := rfl

@[simp] theorem around_content (tag : UInt8) (es : List Element) :
    (around tag es).content = es.flatMap encode := rfl

theorem encode_ne_nil (e : Element) : e.encode ≠ [] := by
  simp [encode]

theorem content_length_lt (e : Element) :
    e.content.length < e.encode.length := by
  simp only [encode, List.length_cons, List.length_append]
  omega

/-- The encoding of an element inside is part of the content. -/
theorem encode_length_le_of_mem {tag : UInt8} {es : List Element}
    {e : Element} (he : e ∈ es) :
    e.encode.length ≤ (around tag es).content.length := by
  rw [around_content, List.length_flatMap]
  exact List.single_le_sum (fun _ _ => Nat.zero_le _) _
    (List.mem_map_of_mem he)

/-- What is inside an element is no longer than the element. -/
theorem Within.of_mem {bound : Nat} {tag : UInt8} {es : List Element}
    {e : Element} (h : (around tag es).Within bound) (he : e ∈ es) :
    e.Within bound := by
  unfold Within at h ⊢
  have := e.content_length_lt
  have : e.encode.length ≤ (around tag es).content.length :=
    encode_length_le_of_mem he
  omega

/-- A bound on a whole encoding is one on the content. -/
theorem Within.of_encode {bound : Nat} {e : Element}
    (h : e.encode.length ≤ bound) : e.Within bound := by
  unfold Within
  have := e.content_length_lt
  omega

/-- Tag and length take two octets and those of the number that the length
is. -/
theorem length_encode_le_of_lt {e : Element} {n k : Nat}
    (h : e.content.length ≤ n) (hn : n < 256 ^ k) :
    e.encode.length ≤ n + k + 2 := by
  have hlength : (Der.lengthOctets e.content.length).length ≤ k + 1 := by
    unfold Der.lengthOctets
    split
    · simp
    · have := Bytes.length_ofNat_le (h.trans_lt hn)
      simp only [List.length_cons]
      omega
  simp only [Element.encode, List.length_cons, List.length_append]
  omega

/-- For an element that fits these are six octets at most. -/
theorem length_encode_le {e : Element} {n : Nat}
    (h : e.content.length ≤ n) (hn : n ≤ Der.maxLength) :
    e.encode.length ≤ n + 6 :=
  length_encode_le_of_lt (k := 4) h (by unfold Der.maxLength at hn; omega)

/-- The same for an element around others. -/
theorem length_around_le {tag : UInt8} {es : List Element} {n : Nat}
    (h : (es.map fun e => e.encode.length).sum ≤ n)
    (hn : n ≤ Der.maxLength) : (around tag es).encode.length ≤ n + 6 := by
  refine length_encode_le ?_ hn
  rwa [around_content, List.length_flatMap]

end Element

namespace Der

/-- Tag and length take ten octets at most, if there is room for what they
stand in front of. -/
theorem length_element_le {e : Element} {n : Nat}
    (h : e.content.length ≤ n) (hn : n ≤ Bytes.maxLength) :
    e.encode.length ≤ n + 10 :=
  Element.length_encode_le_of_lt (k := 8) h
    (by unfold Bytes.maxLength at hn; omega)

theorem length_wrap_le {tag : UInt8} {parts : List Bytes} {n : Nat}
    (h : parts.flatten.length ≤ n) (hn : n ≤ Bytes.maxLength) :
    (wrap tag parts).length ≤ n + 10 :=
  length_element_le h hn

-- ================================================================== tags

/-- The tags that are written are known to the strict reader. -/
@[simp] theorem knownTag_of_mem : ∀ t ∈ [Tag.integer, Tag.octetString, Tag.null,
    Tag.oid, Tag.bmpString, Tag.sequence, Tag.set, Tag.explicit 0, 0x80],
    knownTag t = true := by decide +kernel

-- ================================================================ writing

/-- Parts that are encodings make up the encoding of an element. -/
theorem wrap_eq_encode (tag : UInt8) (es : List Element) :
    wrap tag (es.map Element.encode) = (Element.around tag es).encode := by
  rw [wrap, Element.around, List.flatMap_def]

theorem sequence_eq_encode (es : List Element) :
    sequence (es.map Element.encode)
      = (Element.around Tag.sequence es).encode :=
  wrap_eq_encode ..

-- ================================================================ reading

theorem read?_encode {e : Element} (hknown : knownTag e.tag = true)
    (hfits : e.Fits) (rest : Bytes) :
    read? (e.encode ++ rest) = some (e, rest) := by
  rw [Element.encode, List.cons_append, List.append_assoc, read?,
    readLength?_lengthOctets hfits]
  simp [hknown]

theorem readOne?_encode {e : Element} (hknown : knownTag e.tag = true)
    (hfits : e.Fits) : readOne? e.encode = some e := by
  have h := read?_encode hknown hfits []
  rw [List.append_nil] at h
  rw [readOne?, h]

/-- One step of taking octets apart. -/
theorem readAll?_of_read? {b rest : Bytes} {e : Element}
    (h : read? b = some (e, rest)) :
    readAll? b = (readAll? rest).map (e :: ·) := by
  cases b with
  | nil => simp [read?] at h
  | cons x tail =>
      rw [readAll?]
      split
      · next hnone => rw [h] at hnone; cases hnone
      · next e' rest' hsome =>
          rw [h] at hsome
          simp only [Option.some.injEq, Prod.mk.injEq] at hsome
          rw [hsome.1, hsome.2]

theorem readAll?_nil : readAll? [] = some [] := by
  rw [readAll?]

/-- Octets that are encodings in a row come apart into these elements. -/
theorem readAll?_flatMap_encode {es : List Element}
    (hknown : ∀ e ∈ es, knownTag e.tag = true)
    (hfits : ∀ e ∈ es, e.Fits) :
    readAll? (es.flatMap Element.encode) = some es := by
  induction es with
  | nil => exact readAll?_nil
  | cons e es ih =>
      have hfront := read?_encode (hknown e (List.mem_cons_self ..))
        (hfits e (List.mem_cons_self ..)) (es.flatMap Element.encode)
      rw [List.flatMap_cons, readAll?_of_read? hfront,
        ih (fun e' he' => hknown e' (List.mem_cons_of_mem _ he'))
          (fun e' he' => hfits e' (List.mem_cons_of_mem _ he'))]
      rfl

end Der

namespace Element

/-- The elements inside, taken back. -/
theorem items?_around {tag : UInt8} {es : List Element}
    (hknown : ∀ e ∈ es, Der.knownTag e.tag = true)
    (hfits : (around tag es).Fits) :
    (around tag es).items? tag = some es := by
  rw [items?, around_tag, if_pos rfl, around_content,
    Der.readAll?_flatMap_encode hknown fun _ he => hfits.of_mem he]

/-- The one element inside, taken back. -/
theorem only?_around {tag : UInt8} {e : Element}
    (hknown : Der.knownTag e.tag = true)
    (hfits : (around tag [e]).Fits) :
    (around tag [e]).only? tag = some e := by
  rw [only?, around_tag, if_pos rfl, around_content, List.flatMap_singleton,
    Der.readOne?_encode hknown (hfits.of_mem (List.mem_singleton.mpr rfl))]

end Element

-- ================================================================ leaves

namespace Element

/-- An identifier as an element. -/
def ofOid (id : Oid) : Element := ⟨Tag.oid, id.content⟩

/-- A non-negative number as an element. -/
def ofNatural (n : Nat) : Element := ⟨Tag.integer, Der.naturalOctets n⟩

/-- Octets as an element. -/
def ofOctets (b : Bytes) : Element := ⟨Tag.octetString, b⟩

/-- The element that says nothing. -/
def ofNull : Element := ⟨Tag.null, []⟩

@[simp] theorem ofOid_tag (id : Oid) : (ofOid id).tag = Tag.oid := rfl

@[simp] theorem ofNatural_tag (n : Nat) :
    (ofNatural n).tag = Tag.integer := rfl

@[simp] theorem ofOctets_tag (b : Bytes) :
    (ofOctets b).tag = Tag.octetString := rfl

@[simp] theorem ofNull_tag : ofNull.tag = Tag.null := rfl

end Element

namespace Der

/-- The content octets of a non-negative number: its shortest form, with a
zero in front where the first bit is set, and one zero for zero. -/
theorem naturalOctets_cases (n : Nat) :
    (n = 0 ∧ naturalOctets n = [0])
      ∨ ∃ x rest, Bytes.ofNat n = x :: rest
        ∧ ((x < 128 ∧ naturalOctets n = x :: rest)
          ∨ (¬ x < 128 ∧ naturalOctets n = 0 :: x :: rest)) := by
  unfold naturalOctets
  cases hn : Bytes.ofNat n with
  | nil =>
      have hzero := Bytes.toNat_ofNat n
      rw [hn, Bytes.toNat_nil] at hzero
      exact Or.inl ⟨hzero.symm, rfl⟩
  | cons x rest =>
      refine Or.inr ⟨x, rest, rfl, ?_⟩
      by_cases hx : x < 128
      · exact Or.inl ⟨hx, if_pos hx⟩
      · exact Or.inr ⟨hx, if_neg hx⟩

/-- Such a form has one octet more than the number at most. -/
theorem length_naturalOctets_le (n : Nat) :
    (naturalOctets n).length ≤ Bytes.byteLength n + 1 := by
  rcases naturalOctets_cases n with ⟨-, h⟩ | ⟨x, rest, hn, h⟩
  · simp [h]
  · rw [← Bytes.length_ofNat, hn]
    rcases h with ⟨-, h⟩ | ⟨-, h⟩ <;> simp [h]

@[simp] theorem toNat_naturalOctets (n : Nat) :
    Bytes.toNat (naturalOctets n) = n := by
  have hval := Bytes.toNat_ofNat n
  rcases naturalOctets_cases n with ⟨h0, h⟩ | ⟨x, rest, hn, h⟩
  · rw [h, h0]
    rfl
  · rw [hn] at hval
    rcases h with ⟨-, h⟩ | ⟨-, h⟩
    · rw [h, hval]
    · rw [h, Bytes.toNat_cons, hval]
      simp

end Der

namespace Element

theorem oid?_ofOid {id : Oid} (h : id.wellFormed = true) :
    (ofOid id).oid? = some id := by
  rw [oid?, if_pos ⟨rfl, h⟩]
  rfl

@[simp] theorem natural?_ofNatural (n : Nat) :
    (ofNatural n).natural? = some n := by
  simp [natural?, ofNatural]

@[simp] theorem octets?_ofOctets (b : Bytes) :
    (ofOctets b).octets? = some b := by
  simp [octets?, ofOctets]

@[simp] theorem isNull_ofNull : ofNull.isNull = true := rfl

end Element
end TlsKeystore
