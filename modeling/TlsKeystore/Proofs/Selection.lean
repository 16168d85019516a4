/-
Which key and which certificate a bundle opens to.

A bundle may hold any number of keys and certificates. It opens where one
entry is left of them, a key with one certificate, and nothing asks how
many bags there were before. `Selects` says what this comes to: the key is
the last that has a partner among the certificates, all keys with partners
stand under one alias, nobody has issued the partner, and no certificate is
an entry by itself. Keys without partners, earlier keys under the alias and
further certificates go unseen (`unlock_eq_ok_iff_selects`).

# One entry

Entries are put under their aliases one after the other, and there are as
many in the end as there are aliases. So one is left exactly where all have
the same alias, and it is the last one (`foldl_insert_eq_singleton_iff`).
-/
import TlsKeystore.Proofs.Authentic

namespace TlsKeystore

namespace Pkcs12

-- ============================================================== insertion

theorem insert_ne_nil (label : String) (e : Entry)
    (entries : List (String × Entry)) : insert label e entries ≠ [] := by
  cases entries with
  | nil => simp [insert]
  | cons old rest =>
      rw [insert]
      split
      · simp
      · split <;> simp

/-- One entry is left after an insertion if there was none before, or one
under the same alias. -/
theorem insert_eq_singleton_iff {label a : String} {e v : Entry}
    {entries : List (String × Entry)} :
    insert label e entries = [(a, v)]
      ↔ (label, e) = (a, v) ∧ (entries = [] ∨ ∃ old, entries = [(a, old)]) := by
  cases entries with
  | nil => simp [insert]
  | cons first rest =>
      obtain ⟨b, old⟩ := first
      rw [insert]
      split
      · next hbefore =>
          have hne : label ≠ b := fun h => String.lt_irrefl b (h ▸ hbefore)
          refine iff_of_false (by simp) ?_
          rintro ⟨hnew, hnone | ⟨old', hone⟩⟩
          · cases hnone
          · cases hnew
            cases hone
            exact hne rfl
      · split
        · next hsame =>
            subst hsame
            constructor
            · intro h
              cases h
              exact ⟨rfl, Or.inr ⟨old, rfl⟩⟩
            · rintro ⟨hnew, hnone | ⟨old', hone⟩⟩
              · cases hnone
              · cases hnew
                cases hone
                rfl
        · next hne =>
            refine iff_of_false (by simp [insert_ne_nil]) ?_
            rintro ⟨hnew, hnone | ⟨old', hone⟩⟩
            · cases hnone
            · cases hnew
              cases hone
              exact hne rfl

/-- All entries come to one exactly where they share their alias, and then
the last one counts. -/
theorem foldl_insert_eq_singleton_iff {es : List (String × Entry)}
    {a : String} {v : Entry} :
    es.foldl (fun entries (label, e) => insert label e entries) [] = [(a, v)]
      ↔ es.getLast? = some (a, v) ∧ ∀ e ∈ es, e.1 = a := by
  induction es using List.reverseRecOn generalizing v with
  | nil => simp
  | append_singleton es e ih =>
      have hnone : es.foldl (fun entries (label, e) => insert label e entries)
          [] = [] ↔ es = [] := by
        cases es using List.reverseRecOn with
        | nil => simp
        | append_singleton es e => simp [insert_ne_nil]
      have hlast : (∃ old, es.getLast? = some (a, old) ∧ ∀ e ∈ es, e.1 = a)
          ↔ es ≠ [] ∧ ∀ e ∈ es, e.1 = a := by
        constructor
        · rintro ⟨old, hlast, hall⟩
          refine ⟨?_, hall⟩
          rintro rfl
          cases hlast
        · rintro ⟨hne, hall⟩
          have hlabel := hall _ (List.getLast_mem hne)
          exact ⟨(es.getLast hne).2, by
            rw [List.getLast?_eq_getLast_of_ne_nil hne, ← hlabel], hall⟩
      rw [List.foldl_concat, insert_eq_singleton_iff, hnone]
      simp only [ih, hlast, List.getLast?_concat, Option.some.injEq,
        List.forall_mem_append, List.forall_mem_singleton]
      constructor
      · rintro ⟨hnew, rfl | ⟨-, hall⟩⟩
        · exact ⟨hnew, by simp, congrArg Prod.fst hnew⟩
        · exact ⟨hnew, hall, congrArg Prod.fst hnew⟩
      · rintro ⟨hnew, hall, -⟩
        exact ⟨hnew, (em (es = [])).imp_right fun hne => ⟨hne, hall⟩⟩

-- ================================================================= chains

/-- Nobody stands above a leaf exactly where no certificate, unless it is
trusted, has the name of its issuer and another than its own. -/
theorem issuers_eq_nil_iff {all : List LabelledCertificate}
    {leaf issuer : String} {steps : Nat} (hsteps : 0 < steps) :
    issuers all leaf steps issuer = []
      ↔ ∀ c ∈ all, c.2.trusted = false → c.1.subject = issuer →
          c.1.subject = leaf := by
  cases steps with
  | zero => cases hsteps
  | succ steps =>
      rw [issuers]
      split
      · next hnone =>
          rw [List.find?_eq_none] at hnone
          refine iff_of_true rfl fun c hc htrusted hsubject => ?_
          subst hsubject
          by_contra hne
          exact hnone c hc (by simp [htrusted, hne])
      · next c labels hsome =>
          have hmem := List.mem_of_find?_eq_some hsome
          have hfound := List.find?_some hsome
          simp only [Bool.and_eq_true, Bool.not_eq_true', beq_iff_eq,
            bne_iff_ne] at hfound
          refine iff_of_false (by split <;> simp) fun h => ?_
          exact hfound.2 (h _ hmem hfound.1.1 hfound.1.2)

/-- The certificate that goes with a key: the first with its identifier. -/
def partner? (all : List LabelledCertificate) (k : LabelledKey) :
    Option BagCertificate := do
  let id ← k.2.keyId
  let (leaf, _) ← all.find? fun (_, l) => l.keyId = some id
  some leaf

/-- A partner is one of the certificates. -/
theorem mem_of_partner? {all : List LabelledCertificate} {k : LabelledKey}
    {leaf : BagCertificate} (h : partner? all k = some leaf) :
    ∃ labels, (leaf, labels) ∈ all := by
  simp only [partner?, Option.bind_eq_bind, Option.bind_eq_some_iff] at h
  obtain ⟨id, -, ⟨cert, labels⟩, hfind, hleaf⟩ := h
  obtain rfl := Option.some.inj hleaf
  exact ⟨labels, List.mem_of_find?_eq_some hfind⟩

theorem length_pos_of_partner? {all : List LabelledCertificate}
    {k : LabelledKey} {leaf : BagCertificate}
    (h : partner? all k = some leaf) : 0 < all.length := by
  obtain ⟨labels, hmem⟩ := mem_of_partner? h
  exact List.length_pos_of_mem hmem

/-- The alias of a key with its partner. -/
def aliasOf (k : LabelledKey) (leaf : BagCertificate) : String :=
  k.2.name.getD leaf.subject

/-- A key makes an entry where it has a partner. -/
theorem entryOfKey?_eq (all : List LabelledCertificate) (k : LabelledKey) :
    entryOfKey? all k = (partner? all k).map fun leaf =>
      (aliasOf k leaf, .keyChain k.1 (leaf.der ::
        (issuers all leaf.subject all.length leaf.issuer).map (·.der))) := by
  obtain ⟨der, name, keyId, trusted⟩ := k
  unfold entryOfKey? partner?
  cases keyId with
  | none => rfl
  | some id =>
      simp only [Option.bind_eq_bind, Option.bind_some]
      cases all.find? fun c => decide (c.2.keyId = some id) <;> rfl

theorem entryOfKey?_eq_none_iff {all : List LabelledCertificate}
    {k : LabelledKey} : entryOfKey? all k = none ↔ partner? all k = none := by
  rw [entryOfKey?_eq, Option.map_eq_none_iff]

/-- A key makes an entry with one certificate where nobody stands above its
partner. -/
theorem entryOfKey?_eq_some_iff {all : List LabelledCertificate}
    {k : LabelledKey} {a : String} {key certificate : Bytes} :
    entryOfKey? all k = some (a, .keyChain key [certificate])
      ↔ ∃ leaf, partner? all k = some leaf
        ∧ issuers all leaf.subject all.length leaf.issuer = []
        ∧ a = aliasOf k leaf ∧ key = k.1 ∧ certificate = leaf.der := by
  rw [entryOfKey?_eq, Option.map_eq_some_iff]
  refine exists_congr fun leaf => and_congr_right fun _ => ?_
  simp only [Prod.mk.injEq, Entry.keyChain.injEq, List.cons.injEq,
    List.map_eq_nil_iff]
  constructor
  · rintro ⟨rfl, rfl, rfl, habove⟩
    exact ⟨habove, rfl, rfl, rfl⟩
  · rintro ⟨habove, rfl, rfl, rfl⟩
    exact ⟨rfl, rfl, rfl, habove⟩

-- ============================================================ the selection

/-- The last value is that of the last member which has one. -/
private theorem getLast?_filterMap_eq_some_iff {α β : Type} {f : α → Option β}
    {l : List α} {y : β} :
    (l.filterMap f).getLast? = some y
      ↔ ∃ earlier x later, l = earlier ++ x :: later ∧ f x = some y
        ∧ ∀ x' ∈ later, f x' = none := by
  rw [List.getLast?_filterMap, List.findSome?_eq_some_iff]
  constructor
  · rintro ⟨later, x, earlier, hsplit, hx, hlater⟩
    refine ⟨earlier.reverse, x, later.reverse, ?_, hx, by simpa using hlater⟩
    rw [List.reverse_eq_iff.mp hsplit]
    simp
  · rintro ⟨earlier, x, later, rfl, hx, hlater⟩
    exact ⟨later.reverse, x, earlier.reverse, by simp, hx,
      by simpa using hlater⟩

/-- Among bags, a key and its partner are what everything comes to. -/
structure Selects (bs : List Bag) (earlier : List LabelledKey) (k : LabelledKey)
    (later : List LabelledKey) (leaf : BagCertificate) : Prop where
  stands : keys bs = earlier ++ k :: later
  partner : partner? (certificates bs) k = some leaf
  last : ∀ k' ∈ later, partner? (certificates bs) k' = none
  oneAlias : ∀ k' ∈ earlier, ∀ leaf',
    partner? (certificates bs) k' = some leaf' →
      aliasOf k' leaf' = aliasOf k leaf
  unissued : ∀ c ∈ certificates bs, c.2.trusted = false →
    c.1.subject = leaf.issuer → c.1.subject = leaf.subject
  noEntry : ∀ c ∈ certificates bs, c.2.keyId = none → c.2.trusted = false

/-- A certificate is no entry by itself unless it is trusted and belongs to
no key. -/
theorem filterMap_entryOfCertificate?_eq_nil_iff
    {all : List LabelledCertificate} :
    all.filterMap entryOfCertificate? = []
      ↔ ∀ c ∈ all, c.2.keyId = none → c.2.trusted = false := by
  rw [List.filterMap_eq_nil_iff]
  refine forall₂_congr fun c _ => ?_
  obtain ⟨cert, labels⟩ := c
  simp [entryOfCertificate?]

/-- Bags come to one key with one certificate exactly where these are
selected. -/
theorem entries_eq_singleton_iff {bs : List Bag} {a : String}
    {key certificate : Bytes} :
    entries bs = [(a, .keyChain key [certificate])]
      ↔ ∃ earlier k later leaf, Selects bs earlier k later leaf
        ∧ a = aliasOf k leaf ∧ key = k.1 ∧ certificate = leaf.der := by
  unfold entries entriesOf
  rw [foldl_insert_eq_singleton_iff]
  constructor
  · rintro ⟨hlast, hall⟩
    -- a certificate by itself would be the last entry
    have hnone : (certificates bs).filterMap entryOfCertificate? = [] := by
      by_contra hne
      rw [List.getLast?_append_of_ne_nil _ hne] at hlast
      obtain ⟨⟨cert, labels⟩, -, hentry⟩ :=
        List.mem_filterMap.mp (List.mem_of_getLast? hlast)
      simp [entryOfCertificate?] at hentry
    rw [hnone, List.append_nil] at hlast hall
    obtain ⟨earlier, k, later, hstands, hentry, hlater⟩ :=
      getLast?_filterMap_eq_some_iff.mp hlast
    obtain ⟨leaf, hpartner, habove, rfl, hkey, hcertificate⟩ :=
      entryOfKey?_eq_some_iff.mp hentry
    refine ⟨earlier, k, later, leaf, ⟨hstands, hpartner, ?_, ?_, ?_, ?_⟩, rfl,
      hkey, hcertificate⟩
    · exact fun k' hk' => entryOfKey?_eq_none_iff.mp (hlater k' hk')
    · intro k' hk' leaf' hleaf'
      have hmem : k' ∈ keys bs := by simp [hstands, hk']
      have hentry := entryOfKey?_eq (certificates bs) k'
      rw [hleaf', Option.map_some] at hentry
      exact hall _ (List.mem_filterMap.mpr ⟨k', hmem, hentry⟩)
    · exact (issuers_eq_nil_iff (length_pos_of_partner? hpartner)).mp habove
    · exact filterMap_entryOfCertificate?_eq_nil_iff.mp hnone
  · rintro ⟨earlier, k, later, leaf, hselects, rfl, rfl, rfl⟩
    have habove := (issuers_eq_nil_iff
      (length_pos_of_partner? hselects.partner)).mpr hselects.unissued
    rw [filterMap_entryOfCertificate?_eq_nil_iff.mpr hselects.noEntry,
      List.append_nil]
    constructor
    · exact getLast?_filterMap_eq_some_iff.mpr ⟨earlier, k, later,
        hselects.stands, entryOfKey?_eq_some_iff.mpr
          ⟨leaf, hselects.partner, habove, rfl, rfl, rfl⟩,
        fun k' hk' => entryOfKey?_eq_none_iff.mpr (hselects.last k' hk')⟩
    · intro e he
      obtain ⟨k', hk', hentry⟩ := List.mem_filterMap.mp he
      rw [entryOfKey?_eq, Option.map_eq_some_iff] at hentry
      obtain ⟨leaf', hleaf', rfl⟩ := hentry
      rw [hselects.stands, List.mem_append, List.mem_cons] at hk'
      rcases hk' with hearlier | rfl | hlater
      · exact hselects.oneAlias k' hearlier leaf' hleaf'
      · rw [hselects.partner] at hleaf'
        cases hleaf'
        rfl
      · rw [hselects.last k' hlater] at hleaf'
        cases hleaf'

end Pkcs12

-- ================================================================ opening

namespace Bundle

open Pkcs12

/-- The walk takes one entry, of a key with one certificate. -/
theorem walk_none_eq_ok_iff {es : List (String × Entry)} {b : OpenedBundle} :
    walk none es = .ok b
      ↔ es = [(b.label, .keyChain b.key [b.certificate])] := by
  constructor
  · intro h
    match es with
    | [] => cases h
    | (_, .certificate _) :: _ => cases h
    | (_, .keyChain _ []) :: _ => cases h
    | (_, .keyChain _ (_ :: _ :: _)) :: _ => cases h
    | [(_, .keyChain _ [_])] =>
        cases h
        rfl
    | (_, .keyChain _ [_]) :: (_, .certificate _) :: _ => cases h
    | (_, .keyChain _ [_]) :: (_, .keyChain _ _) :: _ => cases h
  · rintro rfl
    rfl

/-- A bundle opens exactly where its bags select a key and a certificate,
and to these two. -/
theorem unlock_eq_ok_iff_selects {der : Bytes} {password : String}
    {b : OpenedBundle} :
    unlock der password = .ok b
      ↔ ∃ bs earlier k later leaf, bags der password = .ok bs
        ∧ Selects bs earlier k later leaf
        ∧ b = ⟨aliasOf k leaf, k.1, leaf.der⟩ := by
  rw [unlock_eq_ok_iff_walk]
  simp only [walk_none_eq_ok_iff, entries_eq_singleton_iff]
  constructor
  · rintro ⟨bs, hbags, earlier, k, later, leaf, hselects, hlabel, hkey,
      hcertificate⟩
    obtain ⟨label, key, certificate⟩ := b
    cases hlabel
    cases hkey
    cases hcertificate
    exact ⟨bs, earlier, k, later, leaf, hbags, hselects, rfl⟩
  · rintro ⟨bs, earlier, k, later, leaf, hbags, hselects, rfl⟩
    exact ⟨bs, hbags, earlier, k, later, leaf, hselects, rfl, rfl, rfl⟩

end Bundle
end TlsKeystore
