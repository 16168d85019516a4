/-
Bundles in layouts of one's own.

Nothing but custom says which bag of a bundle stands in which safe. A
layout says it: safe by safe, whether it is plain or encrypted
(`Wrapping`), and the bags in it. The bundle of a layout holds the bags of
all its safes in their order, whatever the layout, given that it fits
(`Bundle.holds_layout`). From the outside in, the MAC is made for its
content, the safes are found one by one, and each gives the octets back that
were put into it. The bundles of `Writer.write` have one of these layouts
(`Bundle.holds_of_write`).
-/
import TlsKeystore.Proofs.Pkcs12.Contents

namespace TlsKeystore

namespace Pkcs12

open Element (around)

variable {password : String}

-- =================================================================== safes

/-- How a safe keeps its octets. -/
inductive Wrapping where
  | plain
  | encrypted (salt iv : Bytes)

namespace Wrapping

/-- Salt and vector are of the lengths that are drawn. -/
def Sized : Wrapping → Prop
  | plain => True
  | encrypted salt iv =>
      salt.length = Writer.saltLength ∧ iv.length = Writer.ivLength

/-- The safe of octets. -/
def safe (password : String) (octets : Bytes) : Wrapping → Element
  | plain => dataElement octets
  | encrypted salt iv =>
      encryptedElement salt iv (Writer.encrypt salt iv password octets)

@[simp] theorem safe_tag (w : Wrapping) (octets : Bytes) :
    (w.safe password octets).tag = Tag.sequence := by
  cases w <;> rfl

/-- What a fitting safe holds fits. -/
theorem fits_of_safe {w : Wrapping} {e : Element}
    (hfits : (w.safe password e.encode).Fits) : e.Fits := by
  cases w with
  | plain => exact fits_of_dataElement hfits
  | encrypted salt iv => exact fits_of_encryptedElement hfits

/-- A safe carries its octets. -/
theorem carries_safe {w : Wrapping} {octets : Bytes} (hsized : w.Sized)
    (hfits : (w.safe password octets).Fits) :
    ∃ c, ContentInfo.ofElement? (w.safe password octets) = some c
      ∧ c.Carries password octets := by
  cases w with
  | plain =>
      exact ⟨_, ofElement?_dataElement hfits,
        .plain rfl (Element.octets?_ofOctets octets)⟩
  | encrypted salt iv =>
      obtain ⟨c, hread, hoctets⟩ := safeOctets_encryptedElement hsized.2 hfits
      exact ⟨c, hread, ContentInfo.safeOctets_eq_ok_iff.mp hoctets⟩

/-- Around its octets a safe has some two hundred more. -/
theorem length_safe_le {w : Wrapping} {octets : Bytes} {n : Nat}
    (hsized : w.Sized) (h : octets.length ≤ n) (hn : n ≤ 100000000) :
    (w.safe password octets).encode.length ≤ n + 217 := by
  cases w with
  | plain =>
      have h := length_data_le h (by omega)
      exact h.trans (by omega)
  | encrypted salt iv =>
      obtain ⟨hsalt, hiv⟩ := hsized
      have hcipher := Writer.length_encrypt salt iv password octets
      exact length_encrypted_le (n := n + 16) (length_scheme_le hsalt hiv)
        (by rw [hcipher]; omega) (by omega)

end Wrapping

-- ==================================================================== bags

/-- An element that is read as a bag, if it fits. -/
structure Spells (e : Element) (bag : RawBag) : Prop where
  tag : Der.knownTag e.tag = true
  read : e.Fits → RawBag.ofElement? e = some bag

/-- A bag as it is written, with an identifier and a name. -/
def writtenBag (kind : Oid) (value : Element) (keyId : Bytes)
    (name : String) : RawBag :=
  ⟨kind, around (Tag.explicit 0) [value], ⟨some name, some keyId, false⟩⟩

theorem spells_writtenBag {kind : Oid} {s : String} {name : Bytes}
    (hkind : kind.wellFormed = true) (hname : Bmp.encode? s = some name)
    (value : Element) (keyId : Bytes) :
    Spells (bagElement kind value (writtenAttributes keyId name))
      (writtenBag kind value keyId s) where
  tag := by simp
  read := ofElement?_written hkind hname

/-- A sequence of bags, read bag by bag. -/
theorem rawBags?_around {bags : List Element} {raw : List RawBag}
    (hspells : List.Forall₂ Spells bags raw)
    (hfits : (around Tag.sequence bags).Fits) :
    rawBags? (around Tag.sequence bags).encode = some raw := by
  have hknown : ∀ e ∈ bags, Der.knownTag e.tag = true :=
    ((List.forall₂_and_left bags raw).mp
      (hspells.imp fun _ _ h => ⟨h.tag, h⟩)).1
  have hread : List.Forall₂ (fun e bag => RawBag.ofElement? e = some bag)
      bags raw :=
    ((List.forall₂_and_left bags raw).mpr
      ⟨fun _ => hfits.of_mem, hspells⟩).imp fun _ _ h => h.2.read h.1
  have hone := Der.readOne?_encode (by simp) hfits
  have hitems := Element.items?_around hknown hfits
  simp [rawBags?, hone, hitems, mapM_eq_some_iff.mpr hread]

-- ================================================================= layouts

/-- A safe to be: how it is kept, and its bags. -/
structure Compartment where
  wrapping : Wrapping
  bags : List Element

namespace Compartment

/-- The safe with its bags. -/
def safe (password : String) (s : Compartment) : Element :=
  s.wrapping.safe password (around Tag.sequence s.bags).encode

/-- Elements that are read as these bags, in a safe that can be read. -/
structure Spells (s : Compartment) (raw : List RawBag) : Prop where
  bags : List.Forall₂ Pkcs12.Spells s.bags raw
  sized : s.wrapping.Sized

/-- A safe holds its bags. -/
theorem Spells.holds_safe {s : Compartment} {raw : List RawBag}
    (h : s.Spells raw) (hfits : (s.safe password).Fits) :
    ∃ c, ContentInfo.ofElement? (s.safe password) = some c
      ∧ c.Holds password raw := by
  obtain ⟨c, hread, hcarries⟩ := Wrapping.carries_safe h.sized hfits
  exact ⟨c, hread, _, hcarries,
    rawBags?_around h.bags (Wrapping.fits_of_safe hfits)⟩

/-- Safes hold their bags one by one. -/
theorem exists_forall₂_holds {layout : List Compartment}
    {groups : List (List RawBag)}
    (h : List.Forall₂ (fun s raw => (s.safe password).Fits ∧ s.Spells raw)
      layout groups) :
    ∃ safes, List.Forall₂ (fun e c => ContentInfo.ofElement? e = some c)
        (layout.map (·.safe password)) safes
      ∧ List.Forall₂ (ContentInfo.Holds password) safes groups := by
  induction h with
  | nil => exact ⟨[], .nil, .nil⟩
  | cons hsafe _ ih =>
      obtain ⟨safes, hread, hholds⟩ := ih
      obtain ⟨c, hc, hraw⟩ := hsafe.2.holds_safe hsafe.1
      exact ⟨c :: safes, .cons hc hread, .cons hraw hholds⟩

/-- How much room its bags take. -/
def room (s : Compartment) : Nat := (s.bags.map (·.encode.length)).sum

theorem length_safe_le {s : Compartment} {raw : List RawBag} {n : Nat}
    (h : s.Spells raw) (hroom : s.room ≤ n) (hn : n ≤ 90000000) :
    (s.safe password).encode.length ≤ n + 223 := by
  have hbags : (around Tag.sequence s.bags).encode.length ≤ n + 6 :=
    Element.length_around_le hroom (by unfold Der.maxLength; omega)
  exact Wrapping.length_safe_le h.sized hbags (by omega)

end Compartment

/-- All safes of a layout. -/
def layoutContent (password : String) (layout : List Compartment) : Element :=
  around Tag.sequence (layout.map (·.safe password))

/-- The safes of a layout are found one by one. -/
theorem safes?_layoutContent {layout : List Compartment}
    {groups : List (List RawBag)}
    (hspells : List.Forall₂ Compartment.Spells layout groups)
    (hfits : (layoutContent password layout).Fits) :
    ∃ safes, Pfx.safes? (layoutContent password layout).encode = some safes
      ∧ List.Forall₂ (ContentInfo.Holds password) safes groups := by
  have hone := Der.readOne?_encode (by simp [layoutContent]) hfits
  have hitems := Element.items?_around
    (by simp [Compartment.safe]) hfits
  have hall : List.Forall₂
      (fun s raw => (s.safe password).Fits ∧ s.Spells raw) layout groups :=
    (List.forall₂_and_left layout groups).mpr
      ⟨fun s hs => hfits.of_mem (List.mem_map_of_mem hs), hspells⟩
  obtain ⟨safes, hread, hholds⟩ := Compartment.exists_forall₂_holds hall
  refine ⟨safes, ?_, hholds⟩
  unfold layoutContent at hone ⊢
  simp [Pfx.safes?, hone, hitems, mapM_eq_some_iff.mpr hread]

/-- A bundle in a layout, under a MAC made for it. -/
def layoutBundle (password : String) (macPassword macSalt : Bytes)
    (layout : List Compartment) : Element :=
  let content := (layoutContent password layout).encode
  bundleElement content (writtenDigest macPassword macSalt content) macSalt

/-- Safes take little more room than their bags. -/
theorem sum_length_safe_le {layout : List Compartment}
    {groups : List (List RawBag)}
    (hspells : List.Forall₂ Compartment.Spells layout groups)
    (hroom : (layout.map fun s => s.room + 223).sum ≤ 80000000) :
    ((layout.map (·.safe password)).map (·.encode.length)).sum
      ≤ (layout.map fun s => s.room + 223).sum := by
  induction hspells with
  | nil => exact Nat.le_refl 0
  | @cons s raw layout groups hsafe _ ih =>
      simp only [List.map_cons, List.sum_cons] at hroom ⊢
      have hrest := ih (by omega)
      have hfirst : (s.safe password).encode.length ≤ s.room + 223 :=
        Compartment.length_safe_le hsafe (Nat.le_refl _) (by omega)
      omega

/-- A layout of not too many bags in not too many safes fits. -/
theorem fits_layoutBundle {macPassword macSalt : Bytes}
    {layout : List Compartment} {groups : List (List RawBag)}
    (hspells : List.Forall₂ Compartment.Spells layout groups)
    (hmacSalt : macSalt.length = Writer.saltLength)
    (hroom : (layout.map fun s => s.room + 223).sum ≤ 80000000) :
    (layoutBundle password macPassword macSalt layout).Fits := by
  have hsafes : ((layout.map (·.safe password)).map (·.encode.length)).sum
      ≤ 80000000 := (sum_length_safe_le hspells hroom).trans hroom
  have hcontent : (layoutContent password layout).encode.length
      ≤ 80000000 + 6 :=
    Element.length_around_le hsafes (by unfold Der.maxLength; omega)
  have hbundle : (layoutBundle password macPassword macSalt
      layout).encode.length ≤ 80000000 + 6 + 163 :=
    length_bundle_le hmacSalt hcontent (by omega)
  exact Element.Within.of_encode
    (hbundle.trans (by unfold Der.maxLength; omega))

/-- The layout of a written bundle. -/
def writtenLayout (key certificate subject name : Bytes) (password : String)
    (salts : Salts) : List Compartment :=
  let keyId := Sha1.sha1.digest certificate
  [⟨.encrypted salts.certificateSalt salts.certificateIv,
      [bagElement certificateBag (certificateValue certificate)
        (writtenAttributes keyId subject)]⟩,
    ⟨.plain, [bagElement shroudedKeyBag
      (keyValue salts.keySalt salts.keyIv
        (Writer.encrypt salts.keySalt salts.keyIv password key))
      (writtenAttributes keyId name)]⟩]

theorem layoutContent_writtenLayout {key certificate subject name : Bytes}
    {salts : Salts} :
    layoutContent password
        (writtenLayout key certificate subject name password salts)
      = contentElement key certificate subject name password salts := rfl

end Pkcs12

namespace Bundle

open Pkcs12

/-- A bundle in a layout holds the bags of its safes. -/
theorem holds_layout {password : String} {macPassword macSalt : Bytes}
    {layout : List Compartment} {groups : List (List RawBag)}
    (hpassword : Bmp.password? password = some macPassword)
    (hspells : List.Forall₂ Compartment.Spells layout groups)
    (hfits : (layoutBundle password macPassword macSalt layout).Fits) :
    Holds password
      (layoutBundle password macPassword macSalt layout).encode
      groups.flatten := by
  have hdata : (dataElement (layoutContent password layout).encode).Fits :=
    hfits.of_mem (by simp)
  obtain ⟨safes, hsafes, hholds⟩ :=
    safes?_layoutContent hspells (fits_of_dataElement hdata)
  refine ⟨_, (layoutContent password layout).encode, safes, groups,
    ofBytes?_bundleElement hfits, ?_, ?_, hsafes, hholds, rfl⟩
  · simp [Pfx.content]
  · intro m hm
    cases hm
    exact Mac.check_eq_ok_iff.mp (check_writtenMac hpassword rfl)

/-- A bundle that was written holds the certificate in one safe and the key
in the other. -/
theorem holds_of_write {key certificate der : Bytes} {name password : String}
    {salts : Salts} (hsalts : salts.Sized)
    (hwrite : Writer.write key certificate name password salts = .ok der) :
    ∃ cert, BagCertificate.ofDer? certificate = some cert
      ∧ Holds password der [
          writtenBag certificateBag (certificateValue certificate)
            (Sha1.sha1.digest certificate) cert.subject,
          writtenBag shroudedKeyBag
            (keyValue salts.keySalt salts.keyIv
              (Writer.encrypt salts.keySalt salts.keyIv password key))
            (Sha1.sha1.digest certificate) name] := by
  obtain ⟨cert, subject, bmpName, macPassword, _, hcert, hsubject, hname,
    hpassword, rfl, rfl, hlength⟩ := write_eq_ok_iff.mp hwrite
  rw [← layoutContent_writtenLayout] at hlength ⊢
  have hcertificate := spells_writtenBag wellFormed_certificateBag hsubject
    (certificateValue certificate) (Sha1.sha1.digest certificate)
  have hkey := spells_writtenBag wellFormed_shroudedKeyBag hname
    (keyValue salts.keySalt salts.keyIv
      (Writer.encrypt salts.keySalt salts.keyIv password key))
    (Sha1.sha1.digest certificate)
  have hspells : List.Forall₂ Compartment.Spells
      (writtenLayout key certificate subject bmpName password salts)
      [[_], [_]] :=
    .cons ⟨.cons hcertificate .nil, hsalts.certificateSalt,
        hsalts.certificateIv⟩
      (.cons ⟨.cons hkey .nil, trivial⟩ .nil)
  exact ⟨cert, hcert, holds_layout hpassword hspells
    (Element.Within.of_encode hlength)⟩

end Bundle
end TlsKeystore
