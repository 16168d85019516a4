/-
What a locked bundle answers to other passwords.

A password is wrong where the bundle says so: at the MAC, which comes
before anything is decrypted. One that is no BMPString has no key for it,
and any other is turned away as soon as its digest is not the bundle's
(`unlock_of_check`). What is left are passwords under which content and
salt have the same digest. Those that are `Interchangeable` with the
bundle's own do, and they open it; among passwords of at most one block it
is known which they are, and none of them is a password that anybody would
take for another.
-/
import TlsKeystore.Proofs.Authentic
import TlsKeystore.Proofs.Password

namespace TlsKeystore

namespace Pkcs12

/-- What becomes of a digest that the writer has made, under a password. -/
theorem check_writtenMac_of_other {salt digest content : Bytes}
    {password : String} :
    (Bmp.password? password = none →
        (writtenMac digest salt).check password content = .error .encoding)
      ∧ ∀ bmp, Bmp.password? password = some bmp →
        writtenDigest bmp salt content ≠ digest →
        (writtenMac digest salt).check password content
          = .error .integrity := by
  unfold Mac.check
  rw [hash?_writtenMac]
  constructor
  · intro houtside
    rw [houtside]
    rfl
  · intro bmp hbmp hdigest
    have hcompute : Mac.compute Sha256.sha256 bmp
        (writtenMac digest salt).salt (writtenMac digest salt).rounds content
        ≠ (writtenMac digest salt).digest := hdigest
    rw [hbmp]
    simp only [orDefect_some, bind, Except.bind, if_neg hcompute]
    rfl

end Pkcs12

namespace Bundle

open Pkcs12

variable {der : Bytes} {p q : String}

/-- A MAC that does not agree is the end of it. -/
theorem unlock_of_check {pfx : Pfx} {m : Mac} {content : Bytes}
    {defect : Defect} (hread : Pfx.ofBytes? der = some pfx)
    (hcontent : pfx.content = .ok content) (hmac : pfx.mac = some m)
    (hcheck : m.check q content = .error defect) :
    unlock der q = .error (.unreadable defect) := by
  have hbags : bags der q = .error defect := by
    rw [bags, hread]
    show pfx.bags q = _
    rw [Pfx.bags, hcontent, hmac]
    show (do m.check q content; _) = _
    rw [hcheck]
    rfl
  rw [unlock, hbags]
  rfl

/-- What a locked bundle is read as: its content, and the MAC over it under
the password. -/
theorem read_of_lock {identity : Identity} {name : String} {salts : Salts}
    (hlock : lock identity name p salts = .ok der) :
    ∃ bmp content, Bmp.password? p = some bmp
      ∧ Pfx.ofBytes? der = some ⟨⟨dataContent, Element.ofOctets content⟩,
          some (writtenMac (writtenDigest bmp salts.macSalt content)
            salts.macSalt)⟩ := by
  obtain ⟨-, -, -, bmp, content, -, -, -, hpassword, -, hder, hlength⟩ :=
    write_eq_ok_iff.mp (lock_eq_ok_iff.mp hlock)
  rw [← hder] at hlength
  refine ⟨bmp, content, hpassword, ?_⟩
  rw [← hder]
  exact ofBytes?_bundleElement (Element.Within.of_encode hlength)

/-- What was locked under one password, before all others. Its MAC turns
away every password that is no BMPString, and every other one under which
the content has another digest. It opens, to the very same, under each that
is interchangeable with its own; and of passwords that are no longer than
one block these are the password itself and its twins. -/
theorem unlock_lock_of_other {identity : Identity} {name : String}
    {e : Entropy}
    (hlock : lock identity name p (Writer.drawSalts.run e).1 = .ok der) :
    ∃ bmp pfx content, Bmp.password? p = some bmp
      ∧ Pfx.ofBytes? der = some pfx ∧ pfx.content = .ok content
      ∧ ∀ q,
        (Bmp.password? q = none →
          unlock der q = .error (.unreadable .encoding))
        ∧ (∀ bmp', Bmp.password? q = some bmp' →
          writtenDigest bmp' (Writer.drawSalts.run e).1.macSalt content
            ≠ writtenDigest bmp (Writer.drawSalts.run e).1.macSalt content →
          unlock der q = .error (.unreadable .integrity))
        ∧ (Interchangeable p q →
          unlock der q = .ok ⟨name, identity.key, identity.certificate⟩)
        ∧ ((Utf8.encode p).length ≤ 64 → (Utf8.encode q).length ≤ 64 →
          (Interchangeable p q ↔ p = q ∨ Twin p q ∨ Twin q p)) := by
  obtain ⟨bmp, content, hpassword, hread⟩ := read_of_lock hlock
  have hcontent (mac : Option Mac) : Pfx.content
      ⟨⟨dataContent, Element.ofOctets content⟩, mac⟩ = .ok content := by
    rw [Pfx.content, if_pos rfl, Element.octets?_ofOctets]
    rfl
  refine ⟨bmp, _, content, hpassword, hread, hcontent _, fun q => ?_⟩
  refine ⟨fun houtside => ?_, fun bmp' hbmp' hdigest => ?_, fun h => ?_,
    interchangeable_iff hpassword⟩
  · exact unlock_of_check hread (hcontent _) rfl
      (check_writtenMac_of_other.1 houtside)
  · exact unlock_of_check hread (hcontent _) rfl
      (check_writtenMac_of_other.2 bmp' hbmp' hdigest)
  · exact unlock_of_interchangeable h (sized_drawSalts e) hlock

/-- The empty password has a NUL for its twin, which opens whatever is
locked under it. -/
theorem unlock_lock_nul :
    let identity : Identity := ⟨⟨0, 0, 0, 0, 0, 0, 0, 0⟩, [], leastCertificate⟩
    let salts := (Writer.drawSalts.run ⟨fun _ => 0, 0⟩).1
    ∃ der, lock identity "node" "" salts = .ok der
      ∧ unlock der "\x00" = .ok ⟨"node", [], leastCertificate⟩ := by
  intro identity salts
  have hcert : BagCertificate.ofDer? leastCertificate
      = some ⟨leastCertificate, "", ""⟩ := by decide
  have hsubject : Bmp.encode? "" = some [] := by decide
  have hname : Bmp.encode? "node" = some [0, 110, 0, 111, 0, 100, 0, 101] := by
    decide
  have hpassword : Bmp.password? "" = some [0, 0] := by decide
  have hlength : leastCertificate.length = 62 := by decide
  obtain ⟨der, hwrite⟩ : ∃ der, Writer.write identity.key
      identity.certificate "node" "" salts = .ok der :=
    write_isOk (sized_drawSalts _) hcert hsubject hname hpassword
      (by simp [identity, hlength])
  have hlock : lock identity "node" "" salts = .ok der :=
    lock_eq_ok_iff.mpr hwrite
  have htwin : Twin "" "\x00" := ⟨1, by decide, rfl, by simp⟩
  obtain ⟨_, _, _, -, -, -, hothers⟩ :=
    unlock_lock_of_other (e := ⟨fun _ => 0, 0⟩) hlock
  obtain ⟨-, -, hopens, hshort⟩ := hothers "\x00"
  exact ⟨der, hlock, hopens
    ((hshort (by decide) (by decide)).mpr (Or.inr (Or.inl htwin)))⟩

end Bundle
end TlsKeystore
