/-
What a bundle holds, and what becomes of it.

# Safes

A bundle is a row of safes. A safe carries octets, as they are or encrypted
under the password (`ContentInfo.Carries`), and these are a row of bags. A
bundle holds the bags of all its safes, one safe after the other
(`Bundle.Holds`). It is read if all of them open, and to what they open to
(`Bundle.bags_eq_ok_iff_holds`): in which safe a bag stands, and how that is
encrypted, has no further part in it.

# Bags

What bags come to is looked at kind by kind. The keys of a bundle are those
of its key bags, in their order, and the certificates those of its
certificate bags (`keys_filterMap_opened?`,
`certificates_filterMap_opened?`). Bags of other kinds always open, and to
nothing.
-/
import TlsKeystore.Proofs.Authentic
import TlsKeystore.Proofs.Pkcs12.Encryption

namespace TlsKeystore

namespace Pkcs12

variable {password : String}

-- ============================================================== single bags

namespace RawBag

/-- A bag that does not stand in the way of the others: it can be opened, or
passed over. -/
def Opens (password : String) (bag : RawBag) : Prop :=
  ∃ found, bag.toBag password = .ok found

/-- What a bag opens to, if it does and is not passed over. -/
def opened? (password : String) (bag : RawBag) : Option Bag :=
  (bag.toBag password).toOption.join

theorem opened?_of_toBag {bag : RawBag} {found : Option Bag}
    (h : bag.toBag password = .ok found) : bag.opened? password = found := by
  unfold opened?
  rw [h]
  cases found <;> rfl

theorem opened?_eq_some_iff {bag : RawBag} {found : Bag} :
    bag.opened? password = some found
      ↔ bag.toBag password = .ok (some found) := by
  unfold opened?
  cases bag.toBag password <;> simp [Except.toOption]

theorem toBag_of_key {bag : RawBag} (hkind : bag.kind = shroudedKeyBag) :
    bag.toBag password = some <$> bag.openKey password := by
  unfold toBag
  rw [if_pos hkind]
  rfl

theorem toBag_of_certificate {bag : RawBag}
    (hkind : bag.kind = certificateBag) :
    bag.toBag password = some <$> bag.openCertificate := by
  unfold toBag
  rw [if_neg (by rw [hkind]; exact certificateBag_ne), if_pos hkind]
  rfl

/-- Bags of other kinds are passed over. -/
theorem toBag_of_other {bag : RawBag} (hkey : bag.kind ≠ shroudedKeyBag)
    (hcertificate : bag.kind ≠ certificateBag) :
    bag.toBag password = .ok none := by
  unfold toBag
  rw [if_neg hkey, if_neg hcertificate]
  rfl

/-- A key bag opens to a key. -/
theorem openKey_eq_ok {bag : RawBag} {found : Bag}
    (h : bag.openKey password = .ok found) : ∃ der, found = .key der bag.labels := by
  unfold openKey at h
  obtain ⟨⟨algorithm, cipher⟩, -, h⟩ := bind_eq_ok_iff.mp h
  obtain ⟨scheme, -, h⟩ := bind_eq_ok_iff.mp h
  obtain ⟨der, -, h⟩ := bind_eq_ok_iff.mp h
  exact ⟨der, (pure_eq_ok_iff.mp h).symm⟩

/-- A certificate bag opens to a certificate that parses. -/
theorem openCertificate_eq_ok {bag : RawBag} {found : Bag}
    (h : bag.openCertificate = .ok found) :
    ∃ der cert, BagCertificate.ofDer? der = some cert
      ∧ found = .certificate cert bag.labels := by
  unfold openCertificate at h
  obtain ⟨⟨kind, der⟩, -, h⟩ := bind_eq_ok_iff.mp h
  dsimp only at h
  split at h
  · cases h
  · obtain ⟨cert, hcert, h⟩ := bind_eq_ok_iff.mp h
    exact ⟨der, cert, orDefect_eq_ok_iff.mp hcert,
      (pure_eq_ok_iff.mp h).symm⟩

/-- A bag that opens to a key is a key bag. -/
theorem kind_of_key {bag : RawBag} {der : Bytes} {labels : Labels}
    (h : bag.toBag password = .ok (some (.key der labels))) :
    bag.kind = shroudedKeyBag := by
  by_contra hkey
  by_cases hcertificate : bag.kind = certificateBag
  · rw [toBag_of_certificate hcertificate] at h
    obtain ⟨found, hfound, h⟩ := bind_eq_ok_iff.mp h
    obtain ⟨-, cert, -, rfl⟩ := openCertificate_eq_ok hfound
    cases h
  · rw [toBag_of_other hkey hcertificate] at h
    cases h

/-- A bag that opens to a certificate is a certificate bag, and what it holds
parses. -/
theorem kind_of_certificate {bag : RawBag} {cert : BagCertificate}
    {labels : Labels}
    (h : bag.toBag password = .ok (some (.certificate cert labels))) :
    bag.kind = certificateBag
      ∧ ∃ der, BagCertificate.ofDer? der = some cert := by
  by_cases hkey : bag.kind = shroudedKeyBag
  · rw [toBag_of_key hkey] at h
    obtain ⟨found, hfound, h⟩ := bind_eq_ok_iff.mp h
    obtain ⟨der, rfl⟩ := openKey_eq_ok hfound
    cases h
  · by_cases hcertificate : bag.kind = certificateBag
    · rw [toBag_of_certificate hcertificate] at h
      obtain ⟨found, hfound, h⟩ := bind_eq_ok_iff.mp h
      obtain ⟨der, cert', hcert, rfl⟩ := openCertificate_eq_ok hfound
      cases h
      exact ⟨hcertificate, der, hcert⟩
    · rw [toBag_of_other hkey hcertificate] at h
      cases h

end RawBag

-- ============================================================= kind by kind

/-- What comes from bags of one kind only is found among them alone. -/
private theorem filterMap_of_kind {α : Type} {part : Bag → Option α} {kind : Oid}
    (hkind : ∀ (bag : RawBag) found,
      bag.toBag password = .ok (some found) → part found ≠ none →
        bag.kind = kind) (raw : List RawBag) :
    (raw.filterMap (·.opened? password)).filterMap part
      = ((raw.filter (·.kind = kind)).filterMap
          (·.opened? password)).filterMap part := by
  rw [List.filterMap_filterMap, List.filterMap_filterMap, List.filterMap_filter]
  refine List.filterMap_congr fun bag _ => ?_
  by_cases hbag : bag.kind = kind
  · rw [if_pos (by simpa using hbag)]
  · rw [if_neg (by simpa using hbag)]
    cases hopened : bag.opened? password with
    | none => rfl
    | some found =>
        by_contra hpart
        exact hbag (hkind bag found
          (RawBag.opened?_eq_some_iff.mp hopened) hpart)

/-- The keys of bags come from the key bags among them, in their order. -/
theorem keys_filterMap_opened? (raw : List RawBag) :
    keys (raw.filterMap (·.opened? password))
      = keys ((raw.filter (·.kind = shroudedKeyBag)).filterMap
          (·.opened? password)) := by
  refine filterMap_of_kind (fun bag found hfound hpart => ?_) raw
  cases found with
  | key der labels => exact RawBag.kind_of_key hfound
  | certificate cert labels => exact absurd rfl hpart

/-- The certificates of bags come from the certificate bags among them, in
their order. -/
theorem certificates_filterMap_opened? (raw : List RawBag) :
    certificates (raw.filterMap (·.opened? password))
      = certificates ((raw.filter (·.kind = certificateBag)).filterMap
          (·.opened? password)) := by
  refine filterMap_of_kind (fun bag found hfound hpart => ?_) raw
  cases found with
  | key der labels => exact absurd rfl hpart
  | certificate cert labels => exact (RawBag.kind_of_certificate hfound).1

-- =============================================================== whole rows

/-- A row of bags is read where each of them opens, and to what they open
to. -/
theorem mapM_toBag_eq_ok_iff {raw : List RawBag} {bs : List Bag} :
    (do return (← raw.mapM (·.toBag password)).filterMap id) = Except.ok bs
      ↔ (∀ bag ∈ raw, bag.Opens password)
        ∧ bs = raw.filterMap (·.opened? password) := by
  simp only [bind_eq_ok_iff, mapM_eq_ok_iff, pure_eq_ok_iff]
  constructor
  · rintro ⟨found, hfound, rfl⟩
    induction hfound with
    | nil => exact ⟨by simp, rfl⟩
    | @cons bag result raw found hbag hfound ih =>
        obtain ⟨hopens, hbs⟩ := ih
        refine ⟨List.forall_mem_cons.mpr ⟨⟨result, hbag⟩, hopens⟩, ?_⟩
        rw [List.filterMap_cons, List.filterMap_cons, hbs,
          RawBag.opened?_of_toBag hbag]
        rfl
  · rintro ⟨hopens, rfl⟩
    induction raw with
    | nil => exact ⟨[], .nil, rfl⟩
    | cons bag raw ih =>
        obtain ⟨⟨result, hbag⟩, hopens⟩ := List.forall_mem_cons.mp hopens
        obtain ⟨found, hfound, hbs⟩ := ih hopens
        refine ⟨result :: found, .cons hbag hfound, ?_⟩
        rw [List.filterMap_cons, List.filterMap_cons, hbs,
          RawBag.opened?_of_toBag hbag]
        rfl

-- ================================================================== safes

theorem EncryptedSafe.decrypt_eq_ok_iff {s : EncryptedSafe} {octets : Bytes} :
    s.decrypt password = .ok octets
      ↔ ∃ cipher scheme, s.version = 0 ∧ s.cipher = some cipher
        ∧ Scheme.ofAlgorithm s.algorithm = .ok scheme
        ∧ scheme.encrypt? password octets = some cipher := by
  unfold decrypt
  by_cases hversion : s.version = 0
  · rw [if_neg (not_not.mpr hversion)]
    simp only [bind_eq_ok_iff, orDefect_eq_ok_iff]
    constructor
    · rintro ⟨cipher, hcipher, scheme, hscheme, htext⟩
      exact ⟨cipher, scheme, hversion, hcipher, hscheme,
        (Scheme.decrypt_eq_ok_iff
          (Scheme.wholeIv_of_ofAlgorithm hscheme)).mp htext⟩
    · rintro ⟨cipher, scheme, -, hcipher, hscheme, htext⟩
      exact ⟨cipher, hcipher, scheme, hscheme,
        (Scheme.decrypt_eq_ok_iff
          (Scheme.wholeIv_of_ofAlgorithm hscheme)).mpr htext⟩
  · rw [if_pos hversion]
    refine iff_of_false throw_ne_ok ?_
    rintro ⟨-, -, hzero, -⟩
    exact hversion hzero

/-- The octets that a safe carries: as they are, or encrypted under the
password with a scheme that it names. -/
inductive ContentInfo.Carries (password : String) :
    ContentInfo → Bytes → Prop where
  | plain {c : ContentInfo} {octets : Bytes} (kind : c.kind = dataContent)
      (content : c.content.octets? = some octets) : Carries password c octets
  | encrypted {c : ContentInfo} {octets : Bytes} {s : EncryptedSafe}
      {scheme : Scheme} {cipher : Bytes} (kind : c.kind = encryptedContent)
      (content : EncryptedSafe.ofElement? c.content = some s)
      (version : s.version = 0) (isCipher : s.cipher = some cipher)
      (algorithm : Scheme.ofAlgorithm s.algorithm = .ok scheme)
      (text : scheme.encrypt? password octets = some cipher) :
      Carries password c octets

/-- The octets of a safe are read as they are carried. -/
theorem ContentInfo.safeOctets_eq_ok_iff {c : ContentInfo} {octets : Bytes} :
    c.safeOctets password = .ok octets ↔ c.Carries password octets := by
  unfold safeOctets
  constructor
  · intro h
    by_cases hplain : c.kind = dataContent
    · rw [if_pos hplain] at h
      exact .plain hplain (orDefect_eq_ok_iff.mp h)
    · rw [if_neg hplain] at h
      by_cases hencrypted : c.kind = encryptedContent
      · rw [if_pos hencrypted] at h
        obtain ⟨s, hs, h⟩ := bind_eq_ok_iff.mp h
        obtain ⟨cipher, scheme, hversion, hcipher, hscheme, htext⟩ :=
          EncryptedSafe.decrypt_eq_ok_iff.mp h
        exact .encrypted hencrypted (orDefect_eq_ok_iff.mp hs) hversion hcipher
          hscheme htext
      · rw [if_neg hencrypted] at h
        cases h
  · intro h
    cases h with
    | plain hkind hcontent =>
        rw [if_pos hkind]
        exact orDefect_eq_ok_iff.mpr hcontent
    | @encrypted s scheme cipher hkind hcontent hversion hcipher hscheme
        htext =>
        rw [if_neg (by rw [hkind]; exact encryptedContent_ne), if_pos hkind]
        exact bind_eq_ok_iff.mpr ⟨s, orDefect_eq_ok_iff.mpr hcontent,
          EncryptedSafe.decrypt_eq_ok_iff.mpr
            ⟨cipher, scheme, hversion, hcipher, hscheme, htext⟩⟩

/-- A safe that holds a row of bags under a password. -/
def ContentInfo.Holds (password : String) (c : ContentInfo)
    (raw : List RawBag) : Prop :=
  ∃ octets, c.Carries password octets ∧ rawBags? octets = some raw

theorem ContentInfo.bags_eq_ok_iff {c : ContentInfo} {bs : List Bag} :
    c.bags password = .ok bs
      ↔ ∃ raw, c.Holds password raw ∧ (∀ bag ∈ raw, bag.Opens password)
        ∧ bs = raw.filterMap (·.opened? password) := by
  unfold ContentInfo.bags ContentInfo.Holds
  simp only [bind_eq_ok_iff (x := c.safeOctets password),
    safeOctets_eq_ok_iff]
  constructor
  · rintro ⟨octets, hoctets, h⟩
    obtain ⟨raw, hraw, h⟩ := bind_eq_ok_iff.mp h
    exact ⟨raw, ⟨octets, hoctets, orDefect_eq_ok_iff.mp hraw⟩,
      mapM_toBag_eq_ok_iff.mp h⟩
  · rintro ⟨raw, ⟨octets, hoctets, hraw⟩, h⟩
    exact ⟨octets, hoctets, bind_eq_ok_iff.mpr
      ⟨raw, orDefect_eq_ok_iff.mpr hraw, mapM_toBag_eq_ok_iff.mpr h⟩⟩

/-- Safes are read one by one. -/
theorem forall₂_bags_iff {safes : List ContentInfo} {found : List (List Bag)} :
    List.Forall₂ (fun c bs => c.bags password = .ok bs) safes found
      ↔ ∃ groups, List.Forall₂ (ContentInfo.Holds password) safes groups
        ∧ (∀ bag ∈ groups.flatten, bag.Opens password)
        ∧ found = groups.map (·.filterMap (·.opened? password)) := by
  constructor
  · intro h
    induction h with
    | nil => exact ⟨[], .nil, by simp, rfl⟩
    | cons hbags _ ih =>
        obtain ⟨groups, hholds, hopens, rfl⟩ := ih
        obtain ⟨raw, hraw, hopen, rfl⟩ := ContentInfo.bags_eq_ok_iff.mp hbags
        refine ⟨raw :: groups, .cons hraw hholds, fun bag hbag => ?_, rfl⟩
        rw [List.flatten_cons, List.mem_append] at hbag
        exact hbag.elim (hopen bag) (hopens bag)
  · rintro ⟨groups, hholds, hopens, rfl⟩
    induction hholds with
    | nil => exact .nil
    | @cons c raw safes groups hraw _ ih =>
        rw [List.flatten_cons] at hopens
        refine .cons (ContentInfo.bags_eq_ok_iff.mpr ⟨raw, hraw, ?_, rfl⟩)
          (ih ?_)
        · exact fun bag hbag => hopens bag (List.mem_append_left _ hbag)
        · exact fun bag hbag => hopens bag (List.mem_append_right _ hbag)

end Pkcs12

-- ================================================================ bundles

namespace Bundle

open Pkcs12

variable {der : Bytes} {password : String}

/-- A bundle that holds a row of bags under a password: its MAC, if it
carries one, is the keyed digest of its content, and its safes hold these
bags, one safe after the other. -/
def Holds (password : String) (der : Bytes) (raw : List RawBag) : Prop :=
  ∃ p content safes groups, Pfx.ofBytes? der = some p
    ∧ p.content = .ok content
    ∧ (∀ m, p.mac = some m → m.Verifies password content)
    ∧ Pfx.safes? content = some safes
    ∧ List.Forall₂ (ContentInfo.Holds password) safes groups
    ∧ raw = groups.flatten

/-- A bundle is read where it holds bags that all open, and to what these
open to. -/
theorem bags_eq_ok_iff_holds {bs : List Bag} :
    bags der password = .ok bs
      ↔ ∃ raw, Holds password der raw
        ∧ (∀ bag ∈ raw, bag.Opens password)
        ∧ bs = raw.filterMap (·.opened? password) := by
  rw [bags_eq_ok_iff]
  constructor
  · rintro ⟨p, hread, hbags⟩
    obtain ⟨content, hcontent, hverifies, hbags⟩ := Pfx.bags_eq_ok_iff.mp hbags
    rw [Pfx.bags_bare] at hbags
    obtain ⟨safes, hsafes, hbags⟩ := bind_eq_ok_iff.mp hbags
    obtain ⟨found, hfound, hbs⟩ := bind_eq_ok_iff.mp hbags
    obtain ⟨groups, hholds, hopens, rfl⟩ :=
      forall₂_bags_iff.mp (mapM_eq_ok_iff.mp hfound)
    refine ⟨groups.flatten, ⟨p, content, safes, groups, hread, hcontent,
      hverifies, orDefect_eq_ok_iff.mp hsafes, hholds, rfl⟩, hopens, ?_⟩
    rw [← pure_eq_ok_iff.mp hbs, List.filterMap_flatten]
  · rintro ⟨raw, ⟨p, content, safes, groups, hread, hcontent, hverifies,
      hsafes, hholds, rfl⟩, hopens, rfl⟩
    refine ⟨p, hread, Pfx.bags_eq_ok_iff.mpr
      ⟨content, hcontent, hverifies, ?_⟩⟩
    rw [Pfx.bags_bare]
    refine bind_eq_ok_iff.mpr ⟨safes, orDefect_eq_ok_iff.mpr hsafes,
      bind_eq_ok_iff.mpr ⟨_, mapM_eq_ok_iff.mpr
        (forall₂_bags_iff.mpr ⟨groups, hholds, hopens, rfl⟩), ?_⟩⟩
    rw [List.filterMap_flatten]
    rfl

end Bundle
end TlsKeystore
