/-
A name that is written is the name that is read.

A written name holds one attribute in each relative name, with a UTF-8
value. The reader goes through both levels with the same loop, which stops
at the first octets that are no member; over octets that are members in a
row it gives all of them and leaves nothing (`readMany_flatMap`). So the
attributes come back in order, and the octets that a name is compared by
are those that were written (`read?_nameElement`).
-/
import TlsKeystore.Proofs.Asn1.Ber
import TlsKeystore.Proofs.Text
import TlsKeystore.X509.Name

namespace TlsKeystore.Name

open Element (around ofOid)

-- =============================================================== the tree

/-- An attribute with a UTF-8 value. -/
def attributeElement (kind : Oid) (value : String) : Element :=
  around Tag.sequence [ofOid kind, ⟨Tag.utf8String, Utf8.encode value⟩]

/-- A relative name of one attribute. -/
def relativeElement (kind : Oid) (value : String) : Element :=
  around Tag.set [attributeElement kind value]

/-- A name of one attribute in each relative name. -/
def nameElement (attributes : List (Oid × String)) : Element :=
  around Tag.sequence (attributes.map fun a => relativeElement a.1 a.2)

theorem encodeRelative_eq (kind : Oid) (value : String) :
    encodeRelative kind value = (relativeElement kind value).encode :=
  Der.wrap_eq_encode Tag.set [attributeElement kind value]

theorem encode_eq (attributes : List (Oid × String)) :
    encode attributes = (nameElement attributes).encode := by
  rw [nameElement, ← Der.sequence_eq_encode, List.map_map]
  simp only [encode, encodeRelative_eq]
  rfl

-- ================================================================ reading

/-- Members in a row are read to the end. -/
theorem readMany_flatMap {α β : Type} {one : Bytes → Option (α × Bytes)}
    {make : β → Bytes} {value : β → α} {members : List β}
    (hone : ∀ m ∈ members, ∀ rest,
      one (make m ++ rest) = some (value m, rest))
    (hempty : one [] = none) {steps : Nat} (hsteps : members.length ≤ steps) :
    readMany one steps (members.flatMap make) = (members.map value, []) := by
  induction members generalizing steps with
  | nil =>
      cases steps with
      | zero => rfl
      | succ steps => simp [readMany, hempty]
  | cons m members ih =>
      cases steps with
      | zero => cases hsteps
      | succ steps =>
          have hfront := hone m (List.mem_cons_self ..)
            (members.flatMap make)
          have hrest := ih (fun m' hm' => hone m' (List.mem_cons_of_mem _ hm'))
            (Nat.le_of_succ_le_succ hsteps)
          rw [List.flatMap_cons, readMany, hfront]
          simp only [hrest]
          rfl

/-- There are no more members than octets. -/
theorem length_le_flatMap_encode (es : List Element) :
    es.length ≤ (es.flatMap Element.encode).length := by
  induction es with
  | nil => exact Nat.le_refl 0
  | cons e es ih =>
      have hpos : 0 < e.encode.length :=
        List.length_pos_iff.mpr e.encode_ne_nil
      rw [List.flatMap_cons, List.length_append, List.length_cons]
      omega

/-- What a written attribute is read as. -/
def writtenAttribute (kind : Oid) (value : String) : NameAttribute :=
  ⟨kind, 0x0C, Utf8.encode value⟩

theorem readAttribute?_attributeElement {kind : Oid} {value : String}
    (hroom : (attributeElement kind value).HasRoom) (rest : Bytes) :
    readAttribute? ((attributeElement kind value).encode ++ rest)
      = some (writtenAttribute kind value, rest) := by
  have hsequence := Ber.readSequence?_around hroom rest
  have hkindRoom : (ofOid kind).HasRoom := hroom.of_mem (by simp)
  have hvalueRoom : Element.HasRoom ⟨Tag.utf8String, Utf8.encode value⟩ :=
    hroom.of_mem (by simp)
  have hkind := Ber.read?_encode (by simp) hkindRoom
    (Element.encode ⟨Tag.utf8String, Utf8.encode value⟩)
  have hvalue := Ber.read?_encode (by simp) hvalueRoom []
  rw [List.append_nil] at hvalue
  rw [readAttribute?, attributeElement, hsequence]
  simp [hkind, hvalue, writtenAttribute]

/-- A member that stands alone is all there is. -/
private theorem readMany_encode {α : Type} {one : Bytes → Option (α × Bytes)}
    {e : Element} {value : α}
    (hone : ∀ rest, one (e.encode ++ rest) = some (value, rest))
    (hempty : one [] = none) :
    readMany one e.encode.length e.encode = ([value], []) := by
  have hmany : readMany one ([e].flatMap Element.encode).length
      ([e].flatMap Element.encode) = ([e].map fun _ => value, []) := by
    refine readMany_flatMap ?_ hempty (length_le_flatMap_encode [e])
    intro m hm rest
    rw [List.mem_singleton.mp hm]
    exact hone rest
  rwa [List.flatMap_singleton] at hmany

theorem readRelative?_relativeElement {kind : Oid} {value : String}
    (hroom : (relativeElement kind value).HasRoom) (rest : Bytes) :
    readRelative? ((relativeElement kind value).encode ++ rest)
      = some ([writtenAttribute kind value], rest) := by
  have hset := Ber.read?_encode (by simp [relativeElement]) hroom rest
  have hattribute : (attributeElement kind value).HasRoom :=
    hroom.of_mem (by simp)
  have hmany := readMany_encode
    (readAttribute?_attributeElement hattribute) rfl
  rw [relativeElement] at hset
  rw [readRelative?, relativeElement, hset]
  simp [hmany, Ber.Element.isOf, Ber.Universal.number]

/-- What a written name is read as. -/
def writtenName (attributes : List (Oid × String)) : Name :=
  ⟨encode attributes, attributes.map fun a => [writtenAttribute a.1 a.2]⟩

/-- The one-line form of a written name. -/
theorem text_writtenName (attributes : List (Oid × String)) :
    (writtenName attributes).text = ", ".intercalate
      (attributes.map fun a => NameAttribute.label a.1 ++ "=" ++ a.2) := by
  have hattribute (a : Oid × String) :
      (writtenAttribute a.1 a.2).text?
        = some (NameAttribute.label a.1 ++ "=" ++ a.2) := by
    have htag : (0x0C : Nat) ∈ NameAttribute.textTags := by decide
    simp [NameAttribute.text?, NameAttribute.valueText?, writtenAttribute,
      htag, Utf8.decode?_encode]
  have hall : (attributes.mapM fun a =>
        some (NameAttribute.label a.1 ++ "=" ++ a.2))
      = some (attributes.map fun a =>
          NameAttribute.label a.1 ++ "=" ++ a.2) := List.mapM_pure
  simp [text, text?, writtenName, List.mapM_map, Function.comp_def,
    hattribute, hall]

/-- A written name at the front is read with its own octets. -/
theorem read?_nameElement {attributes : List (Oid × String)}
    (hroom : (nameElement attributes).HasRoom) (rest : Bytes) :
    read? ((nameElement attributes).encode ++ rest)
      = some (writtenName attributes, rest) := by
  have hsequence := Ber.readSequence?_around hroom rest
  generalize hcontent : (attributes.map fun a =>
    relativeElement a.1 a.2).flatMap Element.encode = content at hsequence
  have hmany : readMany readRelative? content.length content
      = (attributes.map fun a => [writtenAttribute a.1 a.2], []) := by
    have hsteps := length_le_flatMap_encode (attributes.map fun a =>
      relativeElement a.1 a.2)
    rw [hcontent, List.length_map] at hsteps
    rw [← hcontent, List.flatMap_map]
    rw [← hcontent, List.flatMap_map] at hsteps
    refine readMany_flatMap ?_ rfl hsteps
    intro a ha rest
    exact readRelative?_relativeElement
      (hroom.of_mem (List.mem_map_of_mem ha)) rest
  have hraw : ((nameElement attributes).encode ++ rest).take
      (((nameElement attributes).encode ++ rest).length - rest.length - 0)
      = encode attributes := by
    rw [List.length_append, Nat.add_sub_cancel, Nat.sub_zero, List.take_left,
      encode_eq]
  rw [nameElement] at hraw ⊢
  rw [read?, hsequence]
  simp only [Option.bind_eq_bind, Option.bind_some, hmany, List.length_nil,
    hraw]
  rfl

end TlsKeystore.Name
