/-
The strict reader takes nothing but what the writer writes.

One half of what makes the rules distinguished is that what is written is
read back (`readOne?_encode`). This is the other half. Octets that the strict
reader takes are the encoding of what it has read: the length it accepts is
the one that would be written (`readLength?_eq_some_iff`), hence a front
element is its own encoding (`read?_eq_some_iff`), and octets that come
apart into elements are their encodings in a row (`flatMap_of_readAll?`).
Hence also no element is the beginning of a longer one
(`eq_of_isPrefix_of_readOne?`).

The views of an element follow suit. Whoever has read a structure from an
element knows the element (`eq_around_of_items?`, `eq_ofOid_of_oid?` and
so on), down to the last octet.
-/
import TlsKeystore.Proofs.Asn1.Der

namespace TlsKeystore

-- ================================================================ octets

namespace Der

/-- A length is read from the very octets that are written for it. -/
theorem readLength?_eq_some_iff {b rest : Bytes} {n : Nat} :
    readLength? b = some (n, rest)
      ↔ n ≤ maxLength ∧ b = lengthOctets n ++ rest := by
  constructor
  · intro h
    cases b with
    | nil => cases h
    | cons x tail =>
        rw [readLength?] at h
        split at h
        · next hshort =>
            obtain ⟨rfl, rfl⟩ := Prod.mk.inj (Option.some.inj h)
            have hx : x.toNat < 128 := UInt8.lt_iff_toNat_lt.mp hshort
            have hle : x.toNat ≤ maxLength := by
              unfold maxLength
              omega
            refine ⟨hle, ?_⟩
            rw [lengthOctets, if_pos hx, UInt8.ofNat_toNat,
              List.singleton_append]
        · dsimp only at h
          split at h
          · next hall =>
              obtain ⟨rfl, rfl⟩ := Prod.mk.inj (Option.some.inj h)
              refine ⟨hall.2.2, ?_⟩
              rw [hall.2.1, List.cons_append, List.take_append_drop]
          · cases h
  · rintro ⟨hn, rfl⟩
    exact readLength?_lengthOctets hn rest

/-- A front element is its own encoding. -/
theorem read?_eq_some_iff {b rest : Bytes} {e : Element} :
    read? b = some (e, rest)
      ↔ knownTag e.tag = true ∧ e.Fits ∧ b = e.encode ++ rest := by
  constructor
  · intro h
    cases b with
    | nil => cases h
    | cons tag tail =>
        rw [read?] at h
        split at h
        · cases h
        · next n mid hlength =>
            dsimp only at h
            split at h
            · next hall =>
                obtain ⟨rfl, rfl⟩ := Prod.mk.inj (Option.some.inj h)
                obtain ⟨hn, rfl⟩ := readLength?_eq_some_iff.mp hlength
                refine ⟨hall.1, hall.2.trans_le hn, ?_⟩
                rw [Element.encode, hall.2, List.cons_append,
                  List.append_assoc, List.take_append_drop]
            · cases h
  · rintro ⟨hknown, hfits, rfl⟩
    exact read?_encode hknown hfits rest

/-- Octets that are one element are its encoding. -/
theorem readOne?_eq_some_iff {b : Bytes} {e : Element} :
    readOne? b = some e
      ↔ knownTag e.tag = true ∧ e.Fits ∧ b = e.encode := by
  constructor
  · intro h
    unfold readOne? at h
    split at h
    · next e' hread =>
        cases h
        simpa using read?_eq_some_iff.mp hread
    · cases h
  · rintro ⟨hknown, hfits, rfl⟩
    exact readOne?_encode hknown hfits

/-- No element begins another: an encoding says itself where it ends. -/
theorem eq_of_isPrefix_of_readOne? {b b' : Bytes} {e e' : Element}
    (h : readOne? b = some e) (h' : readOne? b' = some e')
    (hfront : b <+: b') : b = b' := by
  obtain ⟨hknown, hfits, rfl⟩ := readOne?_eq_some_iff.mp h
  obtain ⟨hknown', hfits', rfl⟩ := readOne?_eq_some_iff.mp h'
  obtain ⟨rest, hrest⟩ := hfront
  have hread : read? (e'.encode ++ []) = some (e, rest) := by
    rw [List.append_nil, ← hrest]
    exact read?_encode hknown hfits rest
  rw [read?_encode hknown' hfits'] at hread
  obtain ⟨rfl, -⟩ := Prod.mk.inj (Option.some.inj hread)
  rfl

/-- Octets that come apart into elements are their encodings in a row. -/
theorem flatMap_of_readAll? {b : Bytes} {es : List Element}
    (h : readAll? b = some es) : b = es.flatMap Element.encode := by
  induction es generalizing b with
  | nil =>
      cases b with
      | nil => rfl
      | cons x tail =>
          rw [readAll?] at h
          split at h
          · cases h
          · simp at h
  | cons e es ih =>
      cases b with
      | nil => rw [readAll?_nil] at h; cases h
      | cons x tail =>
          rw [readAll?] at h
          split at h
          · cases h
          · next e' rest hread =>
              obtain ⟨es', hrest, hcons⟩ := Option.map_eq_some_iff.mp h
              obtain ⟨rfl, rfl⟩ := List.cons.inj hcons
              rw [(read?_eq_some_iff.mp hread).2.2, List.flatMap_cons,
                ih hrest]

end Der

-- ================================================================= views

namespace Element

variable {e : Element}

theorem eq_around_of_items? {tag : UInt8} {es : List Element}
    (h : e.items? tag = some es) : e = around tag es := by
  unfold items? at h
  split at h
  · next htag =>
      cases e
      rw [around, ← Der.flatMap_of_readAll? h, ← htag]
  · cases h

theorem eq_around_of_only? {tag : UInt8} {f : Element}
    (h : e.only? tag = some f) : e = around tag [f] := by
  unfold only? at h
  split at h
  · next htag =>
      cases e
      rw [around, List.flatMap_singleton, ← htag,
        ← (Der.readOne?_eq_some_iff.mp h).2.2]
  · cases h

theorem eq_ofOid_of_oid? {id : Oid} (h : e.oid? = some id) :
    e = ofOid id := by
  unfold oid? at h
  split at h
  · next hall =>
      cases e
      cases h
      rw [ofOid, ← hall.1]
  · cases h

theorem eq_ofOctets_of_octets? {b : Bytes} (h : e.octets? = some b) :
    e = ofOctets b := by
  unfold octets? at h
  split at h
  · next htag =>
      cases e
      cases h
      rw [ofOctets, ← htag]
  · cases h

theorem eq_ofNatural_of_natural? {n : Nat} (h : e.natural? = some n) :
    e = ofNatural n := by
  unfold natural? at h
  dsimp only at h
  split at h
  · next hall =>
      cases e
      cases h
      rw [ofNatural, hall.2, ← hall.1]
  · cases h

end Element
end TlsKeystore
