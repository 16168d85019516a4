/-
Bundles that hold the same bags.

Whoever writes a bundle may divide its bags among safes as they like,
encrypt a safe as a whole or leave it plain, and put the keys in front or
behind. None of this is seen by those who open it. A bundle says itself,
under its password, which bags it holds (`Holds.unique`), and what these
come to depends on the row of its key bags and the row of its certificate
bags, not on how one stands among the other (`SameBags`): keys find their
partners, their aliases and the issuers above them in these rows alone.
-/
import TlsKeystore.Proofs.Pkcs12.Layout
import TlsKeystore.Proofs.Password

namespace TlsKeystore

namespace Pkcs12

variable {password : String} {raw raw' : List RawBag}

-- =================================================================== rows

/-- The same keys in the same order, and the same certificates in the same
order. How keys and certificates stand among each other, and what else there
is, is left open. -/
structure SameBags (raw raw' : List RawBag) : Prop where
  keyBags : raw'.filter (·.kind = shroudedKeyBag)
    = raw.filter (·.kind = shroudedKeyBag)
  certificateBags : raw'.filter (·.kind = certificateBag)
    = raw.filter (·.kind = certificateBag)

/-- What stands in one row under a kind stands in the other. -/
private theorem mem_of_filter_kind {kind : Oid}
    (h : raw'.filter (·.kind = kind) = raw.filter (·.kind = kind))
    {bag : RawBag} (hbag : bag ∈ raw') (hkind : bag.kind = kind) :
    bag ∈ raw := by
  have hmem : bag ∈ raw'.filter (·.kind = kind) := by simp [hbag, hkind]
  rw [h] at hmem
  exact List.mem_of_mem_filter hmem

/-- If all bags open, so do the same bags elsewhere. -/
theorem SameBags.opens (h : SameBags raw raw')
    (hopens : ∀ bag ∈ raw, bag.Opens password) :
    ∀ bag ∈ raw', bag.Opens password := by
  intro bag hbag
  by_cases hkey : bag.kind = shroudedKeyBag
  · exact hopens bag (mem_of_filter_kind h.keyBags hbag hkey)
  · by_cases hcertificate : bag.kind = certificateBag
    · exact hopens bag (mem_of_filter_kind h.certificateBags hbag hcertificate)
    · exact ⟨none, RawBag.toBag_of_other hkey hcertificate⟩

/-- The same bags make the same entries. -/
theorem SameBags.entries_eq (h : SameBags raw raw') :
    entries (raw'.filterMap (·.opened? password))
      = entries (raw.filterMap (·.opened? password)) := by
  have hkeys : keys (raw'.filterMap (·.opened? password))
      = keys (raw.filterMap (·.opened? password)) := by
    rw [keys_filterMap_opened?, h.keyBags, ← keys_filterMap_opened?]
  have hcertificates : certificates (raw'.filterMap (·.opened? password))
      = certificates (raw.filterMap (·.opened? password)) := by
    rw [certificates_filterMap_opened?, h.certificateBags,
      ← certificates_filterMap_opened?]
  unfold entries
  rw [hkeys, hcertificates]

-- ============================================================ what is held

/-- A safe holds one row of bags under a password. -/
theorem ContentInfo.rightUnique_holds :
    Relator.RightUnique (ContentInfo.Holds password) := by
  rintro c raw raw' ⟨octets, hcarries, hraw⟩ ⟨octets', hcarries', hraw'⟩
  have hoctets : octets = octets' := Except.ok.inj
    ((safeOctets_eq_ok_iff.mpr hcarries).symm.trans
      (safeOctets_eq_ok_iff.mpr hcarries'))
  rw [← hoctets] at hraw'
  exact Option.some.inj (hraw.symm.trans hraw')

end Pkcs12

namespace Bundle

open Pkcs12

variable {der : Bytes} {password : String} {raw raw' : List RawBag}

/-- And so does a bundle. -/
theorem Holds.unique (h : Holds password der raw)
    (h' : Holds password der raw') : raw' = raw := by
  obtain ⟨p, content, safes, groups, hread, hcontent, -, hsafes, hgroups,
    rfl⟩ := h
  obtain ⟨p', content', safes', groups', hread', hcontent', -, hsafes',
    hgroups', rfl⟩ := h'
  obtain rfl : p = p' := Option.some.inj (hread.symm.trans hread')
  obtain rfl : content = content' :=
    Except.ok.inj (hcontent.symm.trans hcontent')
  obtain rfl : safes = safes' := Option.some.inj (hsafes.symm.trans hsafes')
  rw [ContentInfo.rightUnique_holds.forall₂ hgroups hgroups']

/-- What opens holds some row of bags, and whatever holds the same bags opens
to the same key, certificate and alias: with the bags divided in any way
among safes that are plain or encrypted under the password, keys before or
after certificates, under a MAC of its own or none. -/
theorem unlock_regrouped {b : OpenedBundle}
    (hopen : unlock der password = .ok b) :
    ∃ raw, Holds password der raw
      ∧ (∀ raw', Holds password der raw' → raw' = raw)
      ∧ ∀ der' raw', Holds password der' raw' → SameBags raw raw' →
          unlock der' password = .ok b := by
  obtain ⟨bs, hbags, hwalk⟩ := unlock_eq_ok_iff_walk.mp hopen
  obtain ⟨raw, hholds, hopens, rfl⟩ := bags_eq_ok_iff_holds.mp hbags
  refine ⟨raw, hholds, fun raw' => hholds.unique, ?_⟩
  intro der' raw' hholds' hsame
  refine unlock_eq_ok_iff_walk.mpr
    ⟨raw'.filterMap (·.opened? password), ?_, ?_⟩
  · exact bags_eq_ok_iff_holds.mpr ⟨raw', hholds', hsame.opens hopens, rfl⟩
  · rw [hsame.entries_eq]
    exact hwalk

/-- A bundle as it is written, with a safe for the certificate and one for
the key, and one with both in a single plain safe, the key in front. -/
theorem unlock_regrouped_least :
    ∃ der der' certificate key, certificate.kind = certificateBag
      ∧ key.kind = shroudedKeyBag
      ∧ Holds "" der [certificate, key] ∧ Holds "" der' [key, certificate]
      ∧ unlock der "" = .ok ⟨"node", [1, 2, 3], leastCertificate⟩
      ∧ unlock der' "" = .ok ⟨"node", [1, 2, 3], leastCertificate⟩ := by
  have hname : Bmp.encode? "node" = some [0, 110, 0, 111, 0, 100, 0, 101] := by
    decide
  have hsubject : Bmp.encode? "" = some [] := by decide
  have hpassword : Bmp.password? "" = some [0, 0] := by decide
  have hcert : BagCertificate.ofDer? leastCertificate
      = some ⟨leastCertificate, "", ""⟩ := by decide
  obtain ⟨salts, hsalts, der, hlock⟩ : ∃ salts : Salts, salts.Sized
      ∧ ∃ der, lock ⟨⟨0, 0, 0, 0, 0, 0, 0, 0⟩, [1, 2, 3], leastCertificate⟩
        "node" "" salts = .ok der :=
    ⟨_, sized_drawSalts ⟨fun _ => 0, 0⟩,
      lock_leastCertificate hname hpassword (by decide) _⟩
  have hopen : unlock der "" = .ok ⟨"node", [1, 2, 3], leastCertificate⟩ :=
    unlock_of_interchangeable (Interchangeable.refl hpassword) hsalts hlock
  obtain ⟨cert, hcert', hholds⟩ := holds_of_write hsalts
    (lock_eq_ok_iff.mp hlock)
  obtain rfl := Option.some.inj (hcert.symm.trans hcert')
  obtain ⟨raw, -, hunique, hregrouped⟩ := unlock_regrouped hopen
  obtain rfl := hunique _ hholds
  -- the same two bags, the other way round in one plain safe
  have hcertificate := spells_writtenBag wellFormed_certificateBag hsubject
    (certificateValue leastCertificate) (Sha1.sha1.digest leastCertificate)
  have hkey := spells_writtenBag wellFormed_shroudedKeyBag hname
    (keyValue salts.keySalt salts.keyIv
      (Writer.encrypt salts.keySalt salts.keyIv "" [1, 2, 3]))
    (Sha1.sha1.digest leastCertificate)
  have hspells : List.Forall₂ Compartment.Spells [⟨.plain, [_, _]⟩] [[_, _]] :=
    .cons ⟨.cons hkey (.cons hcertificate .nil), trivial⟩ .nil
  have hkeyId := Sha1.length_digest leastCertificate
  have hcertificateValue : (certificateValue leastCertificate).encode.length
      ≤ 92 := length_certificateValue_le (by decide) (by omega)
  have hkeyValue : (keyValue salts.keySalt salts.keyIv (Writer.encrypt
      salts.keySalt salts.keyIv "" [1, 2, 3])).encode.length ≤ 177 :=
    length_keyValue_le hsalts.keySalt hsalts.keyIv (by simp) (by omega)
  have hcertificateRoom : (bagElement certificateBag
      (certificateValue leastCertificate) (writtenAttributes
        (Sha1.sha1.digest leastCertificate) [])).encode.length
      ≤ 92 + 0 + 109 :=
    length_bag_le (m := 92) (n := 0) (by simp) hcertificateValue hkeyId
      (by simp) (by omega)
  have hkeyRoom : (bagElement shroudedKeyBag
      (keyValue salts.keySalt salts.keyIv
        (Writer.encrypt salts.keySalt salts.keyIv "" [1, 2, 3]))
      (writtenAttributes (Sha1.sha1.digest leastCertificate)
        [0, 110, 0, 111, 0, 100, 0, 101])).encode.length
      ≤ 177 + 8 + 109 :=
    length_bag_le (m := 177) (n := 8) (by simp) hkeyValue hkeyId (by simp)
      (by omega)
  have hholds' := holds_layout hpassword hspells
    (fits_layoutBundle hspells hsalts.macSalt (by
      simp only [Compartment.room, List.map_cons, List.map_nil, List.sum_cons,
        List.sum_nil]
      omega))
  refine ⟨der, _, _, _, rfl, rfl, hholds, hholds', hopen,
    hregrouped _ _ hholds' ⟨?_, ?_⟩⟩
  · simp [writtenBag, certificateBag_ne]
  · simp [writtenBag, certificateBag_ne.symm]

end Bundle
end TlsKeystore
