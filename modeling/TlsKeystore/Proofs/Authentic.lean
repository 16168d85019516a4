/-
What a MAC is worth to whoever opens a bundle.

# With one

A bundle that carries a MAC is opened only if that is the keyed digest of
the very octets that hold the safes, under the key that comes from the
password, the salt and the rounds that it states (`Mac.Verifies`). The
check stands in front of everything else that the password is used for
(`Pfx.bags_eq_ok_iff`).

# Without one

Nothing asks a bundle to carry a MAC. What is left of a bundle when its MAC
is taken away is a bundle (`ofBytes?_withoutMac`), and it fits where the
bundle did, because what the strict reader takes is what the writer writes
(`fits_of_ofBytes?`). So whatever opens with a MAC opens without it, to the
same key and the same certificate (`unlock_eq_ok_iff_authentic`).
-/
import TlsKeystore.Proofs.Asn1.Canonical
import TlsKeystore.Proofs.Bundle

namespace TlsKeystore

namespace Pkcs12

open Element (around ofOid ofNatural ofOctets)

-- ==================================================================== MAC

/-- The digest is the keyed digest of the content. The key comes from the
password as a BMPString, the salt and the rounds, by the derivation that
PKCS#12 has for keys of integrity. -/
def Mac.Verifies (m : Mac) (password : String) (content : Bytes) : Prop :=
  ∃ h bmp, m.hash? = some h ∧ Bmp.password? password = some bmp
    ∧ m.digest = hmac h (Pkcs12Kdf.derive h .integrity bmp m.salt
        m.rounds.toNat h.digestLength) content

theorem Mac.check_eq_ok_iff {m : Mac} {password : String} {content : Bytes} :
    m.check password content = .ok () ↔ m.Verifies password content := by
  unfold check Verifies
  cases m.hash? with
  | none => simp [throw_ne_ok]
  | some h =>
      simp only [bind_eq_ok_iff, orDefect_eq_ok_iff, ite_throw_eq_ok_iff]
      constructor
      · rintro ⟨bmp, hbmp, hdigest, -⟩
        exact ⟨h, bmp, rfl, hbmp, hdigest.symm⟩
      · rintro ⟨_, bmp, hhash, hbmp, hdigest⟩
        cases hhash
        exact ⟨bmp, hbmp, hdigest.symm, rfl⟩

-- ======================================================= bundles without it

/-- Content alone, as a bundle is read that carries no MAC. -/
def Pfx.bare (content : Bytes) : Pfx := ⟨⟨dataContent, ofOctets content⟩, none⟩

/-- The bundle of content without a MAC, as an element. -/
def bareElement (content : Bytes) : Element :=
  around Tag.sequence [ofNatural pfxVersion, dataElement content]

/-- The octets of the bundle of content without a MAC. -/
def withoutMac (content : Bytes) : Bytes :=
  Der.sequence [Der.natural pfxVersion, Writer.dataInfo content]

theorem withoutMac_eq (content : Bytes) :
    withoutMac content = (bareElement content).encode := rfl

theorem ofBytes?_withoutMac {content : Bytes}
    (hfits : (bareElement content).Fits) :
    Pfx.ofBytes? (withoutMac content) = some (Pfx.bare content) := by
  have hone : Der.readOne? (bareElement content).encode
      = some (bareElement content) :=
    Der.readOne?_encode (by simp [bareElement]) hfits
  have hitems : (bareElement content).items? Tag.sequence
      = some [ofNatural pfxVersion, dataElement content] :=
    Element.items?_around (by simp) hfits
  have hinfo := ofElement?_dataElement
    (hfits.of_mem (e := dataElement content) (by simp))
  rw [withoutMac_eq]
  simp [Pfx.ofBytes?, hone, hitems, hinfo, Pfx.bare]

/-- Without a MAC, bags are read right away, safe by safe. -/
theorem Pfx.bags_bare (content : Bytes) (password : String) :
    (bare content).bags password = (do
      let safes ← orDefect .encoding (safes? content)
      return (← safes.mapM (·.bags password)).flatten) := by
  simp [bags, Pfx.content, bare, bind, Except.bind, pure, Except.pure]

/-- Bags are read once the MAC, if there is one, verifies, and it has no
further part in them. -/
theorem Pfx.bags_eq_ok_iff {p : Pfx} {password : String} {bs : List Bag} :
    p.bags password = .ok bs
      ↔ ∃ content, p.content = .ok content
        ∧ (∀ m, p.mac = some m → m.Verifies password content)
        ∧ (bare content).bags password = .ok bs := by
  rw [bags, bind_eq_ok_iff]
  refine exists_congr fun content => and_congr_right fun _ => ?_
  rw [bags_bare]
  cases p.mac with
  | none => simp
  | some m =>
      simp only [bind_unit_eq_ok_iff, Mac.check_eq_ok_iff,
        Option.some.injEq, forall_eq']

-- ============================================================ what is left

/-- Safes in plain content are that content under its type. -/
private theorem eq_dataElement_of_ofElement? {e : Element} {info : ContentInfo}
    {content : Bytes} (hinfo : ContentInfo.ofElement? e = some info)
    (hkind : info.kind = dataContent)
    (hcontent : info.content.octets? = some content) :
    e = dataElement content := by
  unfold ContentInfo.ofElement? at hinfo
  simp only [Option.bind_eq_bind, Option.bind_eq_some_iff] at hinfo
  obtain ⟨items, hitems, hinfo⟩ := hinfo
  split at hinfo
  · next kindElement value =>
      simp only [Option.bind_eq_some_iff] at hinfo
      obtain ⟨kind, hoid, inner, honly, hinfo⟩ := hinfo
      cases hinfo
      have hkind : kind = dataContent := hkind
      have hinner : inner = ofOctets content :=
        Element.eq_ofOctets_of_octets? hcontent
      rw [Element.eq_around_of_items? hitems,
        Element.eq_ofOid_of_oid? hoid, Element.eq_around_of_only? honly,
        hkind, hinner, dataElement]
  · cases hinfo

/-- What stands in front in a bundle, its version and its content, fits by
itself. -/
private theorem fits_of_fields {version safes : Element} {rest : List Element}
    {mac : Option Mac} {p : Pfx} {content : Bytes}
    (hfits : (around Tag.sequence (version :: safes :: rest)).Fits)
    (hread : (if version.natural? = some pfxVersion then
      (ContentInfo.ofElement? safes).bind fun info => some ⟨info, mac⟩
      else none) = some p)
    (hcontent : p.content = .ok content) : (bareElement content).Fits := by
  split at hread
  · next hversion =>
      obtain ⟨info, hinfo, hp⟩ := Option.bind_eq_some_iff.mp hread
      cases hp
      unfold Pfx.content at hcontent
      split at hcontent
      · next hkind =>
          have hsafes := eq_dataElement_of_ofElement? hinfo hkind
            (orDefect_eq_ok_iff.mp hcontent)
          rw [Element.eq_ofNatural_of_natural? hversion, hsafes] at hfits
          refine le_trans ?_ hfits
          simp only [bareElement, Element.around_content, List.flatMap_cons,
            List.flatMap_nil, List.length_append, List.length_nil]
          omega
      · cases hcontent
  · cases hread

/-- Without its MAC a bundle is no longer than with it. -/
theorem fits_of_ofBytes? {der : Bytes} {p : Pfx} {content : Bytes}
    (hread : Pfx.ofBytes? der = some p) (hcontent : p.content = .ok content) :
    (bareElement content).Fits := by
  unfold Pfx.ofBytes? at hread
  simp only [Option.bind_eq_bind, Option.bind_eq_some_iff] at hread
  obtain ⟨e, hone, items, hitems, hread⟩ := hread
  obtain ⟨-, hfits, -⟩ := Der.readOne?_eq_some_iff.mp hone
  rw [Element.eq_around_of_items? hitems] at hfits
  split at hread
  · exact fits_of_fields hfits hread hcontent
  · next macElement =>
      obtain ⟨fields, hfields, hread⟩ := Option.bind_eq_some_iff.mp hread
      obtain ⟨m, -, rfl⟩ := Option.map_eq_some_iff.mp hfields
      exact fits_of_fields hfits hread hcontent
  · cases hread

end Pkcs12

-- ================================================================ opening

namespace Bundle

open Pkcs12

variable {der : Bytes} {password : String}

theorem bags_eq_ok_iff {bs : List Bag} :
    bags der password = .ok bs
      ↔ ∃ p, Pfx.ofBytes? der = some p ∧ p.bags password = .ok bs := by
  rw [bags, bind_eq_ok_iff]
  simp only [orDefect_eq_ok_iff]

theorem unlock_eq_ok_iff_walk {b : OpenedBundle} :
    unlock der password = .ok b
      ↔ ∃ bs, bags der password = .ok bs ∧ walk none (entries bs) = .ok b := by
  rw [unlock, bind_eq_ok_iff]
  simp only [mapError_eq_ok_iff]

/-- The bags of content without a MAC. -/
theorem bags_withoutMac {content : Bytes} (hfits : (bareElement content).Fits) :
    bags (withoutMac content) password
      = (Pfx.bare content).bags password := by
  rw [bags, ofBytes?_withoutMac hfits]
  rfl

/-- A bundle opens exactly where its MAC, if it carries one, is the keyed
digest of its content under the password, and the same content opens without
any MAC. A MAC is never asked for. -/
theorem unlock_eq_ok_iff_authentic {b : OpenedBundle} :
    unlock der password = .ok b
      ↔ ∃ p content, Pfx.ofBytes? der = some p
        ∧ p.content = .ok content
        ∧ (∀ m, p.mac = some m → m.Verifies password content)
        ∧ unlock (withoutMac content) password = .ok b := by
  constructor
  · intro h
    obtain ⟨bs, hbags, hwalk⟩ := unlock_eq_ok_iff_walk.mp h
    obtain ⟨p, hread, hbags⟩ := bags_eq_ok_iff.mp hbags
    obtain ⟨content, hcontent, hverifies, hbare⟩ := Pfx.bags_eq_ok_iff.mp hbags
    have hfits := fits_of_ofBytes? hread hcontent
    refine ⟨p, content, hread, hcontent, hverifies, ?_⟩
    exact unlock_eq_ok_iff_walk.mpr
      ⟨bs, (bags_withoutMac hfits).trans hbare, hwalk⟩
  · rintro ⟨p, content, hread, hcontent, hverifies, hunlock⟩
    obtain ⟨bs, hbags, hwalk⟩ := unlock_eq_ok_iff_walk.mp hunlock
    have hfits := fits_of_ofBytes? hread hcontent
    rw [bags_withoutMac hfits] at hbags
    exact unlock_eq_ok_iff_walk.mpr ⟨bs, bags_eq_ok_iff.mpr
      ⟨p, hread, Pfx.bags_eq_ok_iff.mpr
        ⟨content, hcontent, hverifies, hbags⟩⟩, hwalk⟩

end Bundle
end TlsKeystore
