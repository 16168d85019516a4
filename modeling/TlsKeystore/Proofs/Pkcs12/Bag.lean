/-
Bags, read back from the elements that a writer makes of them.

# Sets

The attributes of a bag are a set: the writer sorts them by their
encodings, and the reader sorts what it finds, refusing equal members. In
which order two attributes stand depends on the lengths of their values,
so nothing here asks for it. `ordered?_perm` says that members with
different encodings come back as some arrangement of themselves, and what
a bag is called only depends on which attributes there are
(`Labels.ofAttributes_perm`).

# Elements

`Attribute.element` and `bagElement` are the elements that `Writer.bag`
encodes; `RawBag.ofElement?_bagElement` takes one apart again.
-/
import TlsKeystore.Pkcs12.Bag
import TlsKeystore.Proofs.Asn1.Der
import TlsKeystore.Proofs.Text

namespace TlsKeystore

-- ================================================================== lists

/-- Reading what was made of each member, one after the other. -/
theorem mapM_map_eq_some {α β : Type} {make : α → β} {read : β → Option α}
    {l : List α} (h : ∀ a ∈ l, read (make a) = some a) :
    (l.map make).mapM read = some l := by
  induction l with
  | nil => rfl
  | cons a l ih =>
      rw [List.map_cons, List.mapM_cons, h a (List.mem_cons_self ..),
        ih fun b hb => h b (List.mem_cons_of_mem _ hb)]
      rfl

/-- The only member with a property is the one that is found. -/
theorem find?_eq_some_of_unique {α : Type} {p : α → Bool} {l : List α}
    {a : α} (ha : a ∈ l) (hp : p a = true)
    (hunique : ∀ b ∈ l, p b = true → b = a) : l.find? p = some a := by
  cases hfound : l.find? p with
  | none =>
      have := List.find?_eq_none.mp hfound a ha
      exact absurd hp this
  | some b =>
      rw [hunique b (List.mem_of_find?_eq_some hfound)
        (List.find?_some hfound)]

/-- Neighbours in a list are a pair of its members in their order. -/
private theorem rel_of_mem_zip_drop_one {α : Type} {R : α → α → Prop}
    {l : List α} (hl : l.Pairwise R) {x : α × α}
    (hx : x ∈ l.zip (l.drop 1)) : R x.1 x.2 := by
  induction l with
  | nil => simp at hx
  | cons a l ih =>
      cases l with
      | nil => simp at hx
      | cons b l =>
          rw [List.drop_one, List.tail_cons, List.zip_cons_cons,
            List.mem_cons] at hx
          rcases hx with rfl | hx
          · exact (List.pairwise_cons.mp hl).1 b (List.mem_cons_self ..)
          · exact ih (List.pairwise_cons.mp hl).2 (by simpa using hx)

-- =================================================================== sets

namespace Element

/-- Elements in the order in which a set holds them. -/
def sorted (es : List Element) : List Element :=
  es.mergeSort fun a b => Der.precedes a.encode b.encode

theorem mem_sorted {es : List Element} {e : Element} :
    e ∈ sorted es ↔ e ∈ es :=
  List.mem_mergeSort

theorem sorted_singleton (e : Element) : sorted [e] = [e] :=
  List.mergeSort_singleton e

end Element

theorem Der.setOf_eq_encode (es : List Element) :
    Der.setOf (es.map Element.encode)
      = (Element.around Tag.set (Element.sorted es)).encode := by
  rw [Der.setOf, ← Der.wrap_eq_encode, Element.sorted,
    List.map_mergeSort (s := Der.precedes) fun _ _ _ _ => rfl]

namespace Pkcs12

/-- Members with different encodings are a set, in some order. -/
theorem ordered?_perm {α : Type} {f : α → Bytes} {l : List α}
    (hnodup : (l.map f).Nodup) :
    ∃ sorted, ordered? f l = some sorted ∧ sorted.Perm l := by
  unfold ordered?
  generalize hkeyed : ((l.map fun a => (f a, a)).mergeSort
    fun a b => Der.precedes a.1 b.1) = keyed
  have hperm : keyed.Perm (l.map fun a => (f a, a)) := by
    rw [← hkeyed]
    exact List.mergeSort_perm ..
  have hkeys : (keyed.map Prod.fst).Nodup := by
    rw [(hperm.map Prod.fst).nodup_iff, List.map_map]
    exact hnodup
  have hpair : keyed.Pairwise fun a b => a.1 ≠ b.1 :=
    List.pairwise_map.mp hkeys
  have hfalse : ((keyed.zip (keyed.drop 1)).any fun x => x.1.1 == x.2.1)
      = false := by
    rw [List.any_eq_false]
    intro x hx
    have hne := rel_of_mem_zip_drop_one hpair hx
    simpa using hne
  refine ⟨keyed.map Prod.snd, ?_, ?_⟩
  · exact if_neg (ne_true_of_eq_false hfalse)
  · have := hperm.map Prod.snd
    rwa [List.map_map, show (Prod.snd ∘ fun a => (f a, a)) = id from rfl,
      List.map_id] at this

-- ============================================================= attributes

namespace Attribute

/-- An attribute as an element. -/
def element (a : Attribute) : Element :=
  .around Tag.sequence [.ofOid a.kind, .around Tag.set a.values]

@[simp] theorem element_tag (a : Attribute) :
    a.element.tag = Tag.sequence := rfl

theorem encode_eq (a : Attribute) : a.encode = a.element.encode := by
  rw [encode, Der.wrap_eq_encode]
  exact Der.sequence_eq_encode [.ofOid a.kind, .around Tag.set a.values]

/-- An attribute with one value is read back. -/
theorem ofElement?_element {kind : Oid} {value : Element}
    (hkind : kind.wellFormed = true)
    (hknown : Der.knownTag value.tag = true)
    (hfits : (element ⟨kind, [value]⟩).Fits) :
    ofElement? (element ⟨kind, [value]⟩) = some ⟨kind, [value]⟩ := by
  have hitems : (element ⟨kind, [value]⟩).items? Tag.sequence
      = some [.ofOid kind, .around Tag.set [value]] := by
    refine Element.items?_around ?_ hfits
    simp
  have hvalues : (Element.around Tag.set [value]).items? Tag.set
      = some [value] := by
    refine Element.items?_around (by simpa using hknown) ?_
    exact hfits.of_mem (by simp)
  obtain ⟨sorted, hsorted, hperm⟩ :=
    ordered?_perm (f := Element.encode) (l := [value]) (by simp)
  rw [List.perm_singleton.mp hperm] at hsorted
  simp [ofElement?, hitems, hvalues, hsorted, Element.oid?_ofOid hkind]

end Attribute

/-- What the attributes say does not hang on their order, where no type
occurs twice. -/
theorem Labels.ofAttributes_perm {l l' : List Attribute}
    (hperm : l'.Perm l) (hkinds : (l.map Attribute.kind).Nodup) :
    Labels.ofAttributes l' = Labels.ofAttributes l := by
  have hfirst : ∀ kind, Attribute.first? kind l' = Attribute.first? kind l := by
    intro kind
    unfold Attribute.first?
    cases hfound : l.find? (·.kind = kind) with
    | none =>
        have hnone : l'.find? (·.kind = kind) = none := by
          rw [List.find?_eq_none] at hfound ⊢
          intro a ha
          exact hfound a (hperm.mem_iff.mp ha)
        rw [hnone]
    | some a =>
        have ha := List.mem_of_find?_eq_some hfound
        have hkind : a.kind = kind := by simpa using List.find?_some hfound
        rw [find?_eq_some_of_unique (hperm.mem_iff.mpr ha)
          (List.find?_some hfound)]
        intro b hb hbkind
        have hbkind : b.kind = kind := by simpa using hbkind
        exact List.inj_on_of_nodup_map hkinds (hperm.mem_iff.mp hb) ha
          (hbkind.trans hkind.symm)
  unfold Labels.ofAttributes
  simp only [hfirst]

-- =================================================================== bags

/-- The set of the attributes of a bag. -/
def attributesElement (attributes : List Attribute) : Element :=
  .around Tag.set (Element.sorted (attributes.map Attribute.element))

/-- A bag of a value and attributes. -/
def bagElement (kind : Oid) (value : Element) (attributes : List Attribute) :
    Element :=
  .around Tag.sequence [.ofOid kind, .around (Tag.explicit 0) [value],
    attributesElement attributes]

@[simp] theorem bagElement_tag (kind : Oid) (value : Element)
    (attributes : List Attribute) :
    (bagElement kind value attributes).tag = Tag.sequence := rfl

/-- The elements of a sorted set are those of the sorted attributes. -/
theorem sorted_map_element (attributes : List Attribute) :
    Element.sorted (attributes.map Attribute.element)
      = (attributes.mergeSort fun a b =>
          Der.precedes a.element.encode b.element.encode).map
            Attribute.element := by
  symm
  refine List.map_mergeSort ?_
  intro a _ b _
  rfl

/-- A bag is read back with what its attributes say, where each of them
reads back and no two have one type. -/
theorem RawBag.ofElement?_bagElement {kind : Oid} {value : Element}
    {attributes : List Attribute} (hkind : kind.wellFormed = true)
    (hread : ∀ a ∈ attributes, a.element.Fits →
      Attribute.ofElement? a.element = some a)
    (hkinds : (attributes.map Attribute.kind).Nodup)
    (hfits : (bagElement kind value attributes).Fits) :
    RawBag.ofElement? (bagElement kind value attributes)
      = some ⟨kind, .around (Tag.explicit 0) [value],
          .ofAttributes attributes⟩ := by
  have hitems : (bagElement kind value attributes).items? Tag.sequence
      = some [.ofOid kind, .around (Tag.explicit 0) [value],
          attributesElement attributes] := by
    refine Element.items?_around ?_ hfits
    simp [attributesElement]
  have hset : (attributesElement attributes).Fits := hfits.of_mem (by simp)
  have hmembers : (attributesElement attributes).items? Tag.set
      = some (Element.sorted (attributes.map Attribute.element)) := by
    refine Element.items?_around ?_ hset
    intro e he
    obtain ⟨a, -, rfl⟩ := List.mem_map.mp (Element.mem_sorted.mp he)
    simp
  -- the attributes in the order in which the set holds them
  generalize hl : (attributes.mergeSort fun a b =>
    Der.precedes a.element.encode b.element.encode) = l
  have hperm : l.Perm attributes := by
    rw [← hl]
    exact List.mergeSort_perm ..
  have hmapM : (l.map Attribute.element).mapM Attribute.ofElement?
      = some l := by
    refine mapM_map_eq_some fun a ha => hread a (hperm.mem_iff.mp ha) ?_
    refine hset.of_mem ?_
    rw [sorted_map_element, hl]
    exact List.mem_map_of_mem ha
  -- different types make for different encodings
  have hnodup : (l.map Attribute.encode).Nodup := by
    refine List.Nodup.map_on ?_ (List.Nodup.of_map _
      ((hperm.map Attribute.kind).nodup_iff.mpr hkinds))
    intro a ha b hb hab
    rw [Attribute.encode_eq, Attribute.encode_eq] at hab
    have hfit : ∀ c ∈ l, c.element.Fits := by
      intro c hc
      refine hset.of_mem ?_
      rw [sorted_map_element, hl]
      exact List.mem_map_of_mem hc
    have hsame : a.element = b.element := by
      have h := Der.readOne?_encode (e := a.element) (by simp) (hfit a ha)
      rw [hab, Der.readOne?_encode (e := b.element) (by simp) (hfit b hb)] at h
      exact (Option.some.inj h).symm
    have hreada := hread a (hperm.mem_iff.mp ha) (hfit a ha)
    rw [hsame, hread b (hperm.mem_iff.mp hb) (hfit b hb)] at hreada
    exact (Option.some.inj hreada).symm
  obtain ⟨sorted, hsorted, hsortedPerm⟩ := ordered?_perm hnodup
  have hsetOf : Attribute.setOf? (Element.sorted
      (attributes.map Attribute.element)) = some sorted := by
    rw [Attribute.setOf?, sorted_map_element, hl, hmapM]
    exact hsorted
  have hlabels := Labels.ofAttributes_perm (hsortedPerm.trans hperm) hkinds
  simp [RawBag.ofElement?, hitems, hmembers, hsetOf, hlabels,
    Element.oid?_ofOid hkind]

/-- The elements of the sequence that a bag's value holds, taken back. -/
theorem valueItems?_around {es : List Element}
    (hknown : ∀ e ∈ es, Der.knownTag e.tag = true)
    (hfits : (Element.around (Tag.explicit 0)
      [.around Tag.sequence es]).Fits) :
    valueItems? (.around (Tag.explicit 0) [.around Tag.sequence es])
      = some es := by
  have hone := Element.only?_around (e := .around Tag.sequence es)
    (by simp) hfits
  have hread : Der.readOne? (Element.around (Tag.explicit 0)
      [.around Tag.sequence es]).content = some (.around Tag.sequence es) := by
    rw [Element.only?, Element.around_tag, if_pos rfl] at hone
    exact hone
  have hitems := Element.items?_around hknown
    (hfits.of_mem (List.mem_singleton.mpr rfl))
  have hexplicit : (Element.around (Tag.explicit 0)
      [.around Tag.sequence es]).isExplicit = true := by
    show (Tag.explicit 0 &&& 0xE0 == 0xA0) = true
    decide
  rw [valueItems?, hexplicit, hread]
  exact hitems

end Pkcs12
end TlsKeystore
