/-
What a bundle shows to somebody without its password.

# One bundle

Octets are shown, and these are a tree (`Element.HasOutline`). What stands
in it is of two kinds. The form of the bundle is the same whenever the
same certificate is locked under the same name: it is made of that name
and the digest of the certificate, and of nothing else. In the places of
the form stand salts and vectors, the digest of the MAC, and the cipher
texts of key and certificate. `Disclosed` puts together all that can be
said of one bundle in these terms.

# Two bundles

So the trees of two bundles of one identity agree outside the places. In
the places the contents are of the same lengths, since no password has a
part in how long anything is (`lock_discloses_form`).
-/
import TlsKeystore.Proofs.Bundle
import TlsKeystore.Proofs.Pkcs12.Form

namespace TlsKeystore.Bundle

open Pkcs12

-- ============================================================= one bundle

/-- At a place stands the cipher text of a text, under PBES2 by PBKDF2 over
HMAC-SHA-256 and AES with 256 bits, with salt and vector from places of
their own. -/
structure Sealed (contents : Blank → Bytes) (salt iv cipher : Blank)
    (password : String) (text : Bytes) : Prop where
  scheme : ∃ a, algorithm? ((schemeForm salt iv).fill contents) = some a
    ∧ Scheme.ofAlgorithm a = .ok (.pbes2
        (.pbkdf2 (contents salt) Writer.rounds none .sha256) 32 (contents iv))
  cipher : contents cipher
    = Writer.encrypt (contents salt) (contents iv) password text

/-- A bundle of an identity under a name and a password, with salts that
were drawn, read as a form with `contents` in its places. -/
structure Disclosed (identity : Identity) (name password : String)
    (salts : Salts) (form : Form Blank) (contents : Blank → Bytes)
    (der : Bytes) : Prop where
  drawn : salts = ⟨contents .certificateSalt, contents .certificateIv,
    contents .keySalt, contents .keyIv, contents .macSalt⟩
  tree : ∃ e, Der.readOne? der = some e
    ∧ e.HasOutline (form.outline contents)
  certificate : ∃ cert subject,
    BagCertificate.ofDer? identity.certificate = some cert
      ∧ Bmp.encode? cert.subject = some subject
      ∧ Sealed contents .certificateSalt .certificateIv .certificateCipher
          password (certificateText identity.certificate subject)
  key : Sealed contents .keySalt .keyIv .keyCipher password identity.key
  mac : ∃ pfx m, Pfx.ofBytes? der = some pfx ∧ pfx.mac = some m
    ∧ m.hash? = some Sha256.sha256
    ∧ m.digest = contents .digest ∧ m.salt = contents .macSalt
  bags : ∃ cert, cert.der = identity.certificate
    ∧ Bundle.bags der password = .ok [
        .certificate cert ⟨some cert.subject,
          some (Sha1.sha1.digest identity.certificate), false⟩,
        .key identity.key ⟨some name,
          some (Sha1.sha1.digest identity.certificate), false⟩]

/-- What stands under the written scheme is sealed. -/
private theorem sealed_of_eq {contents : Blank → Bytes}
    {salt iv cipher : Blank} {password : String} {text : Bytes}
    (hsalt : (contents salt).length = Writer.saltLength)
    (hiv : (contents iv).length = Writer.ivLength)
    (hcipher : contents cipher
      = Writer.encrypt (contents salt) (contents iv) password text) :
    Sealed contents salt iv cipher password text where
  scheme := by
    rw [fill_schemeForm]
    exact ofAlgorithm_schemeElement hiv (fits_schemeElement hsalt hiv)
  cipher := hcipher

/-- Whatever is locked is disclosed, with contents whose lengths are
those of both texts. -/
theorem disclosed_of_lock {identity : Identity} {name password : String}
    {salts : Salts} {der : Bytes} (hsalts : salts.Sized)
    (hlock : lock identity name password salts = .ok der) :
    ∃ cert subject bmpName contents,
      BagCertificate.ofDer? identity.certificate = some cert
      ∧ Bmp.encode? cert.subject = some subject
      ∧ Bmp.encode? name = some bmpName
      ∧ (∀ place, (contents place).length
          = place.length
              (certificateText identity.certificate subject).length
              identity.key.length)
      ∧ der.length = ((bundleForm (Sha1.sha1.digest identity.certificate)
          bmpName).size fun place => (contents place).length)
      ∧ Disclosed identity name password salts
          (bundleForm (Sha1.sha1.digest identity.certificate) bmpName)
          contents der := by
  have hwrite := lock_eq_ok_iff.mp hlock
  obtain ⟨cert, subject, bmpName, macPassword, hcert, hsubject, hname, -,
    rfl, hlength⟩ := write_eq_ok_iff_fill.mp hwrite
  obtain ⟨pfx, cert', hread, hder, hbags⟩ :=
    bags_of_write hsalts.certificateIv hsalts.keyIv hwrite
  have hfits := Element.Within.of_encode hlength
  refine ⟨cert, subject, bmpName, _, hcert, hsubject, hname,
    length_writtenContents hsalts, Form.length_fill .., ?_⟩
  constructor
  case drawn => rfl
  case tree =>
    exact ⟨_, Der.readOne?_encode (by simp) hfits,
      Form.hasOutline_fill (known_bundleForm ..) hfits⟩
  case certificate =>
    exact ⟨cert, subject, hcert, hsubject, sealed_of_eq
      hsalts.certificateSalt hsalts.certificateIv rfl⟩
  case key => exact sealed_of_eq hsalts.keySalt hsalts.keyIv rfl
  case mac =>
    rw [fill_writtenContents] at hfits ⊢
    exact ⟨_, _, ofBytes?_bundleElement hfits, rfl, hash?_writtenMac ..,
      rfl, rfl⟩
  case bags =>
    refine ⟨cert', hder, ?_⟩
    rw [Bundle.bags, hread]
    exact hbags

-- ============================================================ two bundles

/-- Two bundles of one identity under one name, with any two passwords and
any two draws of salts. They are equally long, and both are fillings of
the one form that is made of the name and the digest of the certificate,
with contents of equal lengths at each place. In that form every cipher
text stands beside its scheme, and no identifier is that of a certificate's
bag or one of an older scheme. -/
theorem lock_discloses_form {identity : Identity} {name p q : String}
    {e f : Entropy} {der der' : Bytes}
    (hlock : lock identity name p (Writer.drawSalts.run e).1 = .ok der)
    (hlock' : lock identity name q (Writer.drawSalts.run f).1 = .ok der') :
    ∃ bmpName contents contents',
      Bmp.encode? name = some bmpName
      ∧ der.length = der'.length
      ∧ (∀ place, (contents place).length = (contents' place).length)
      ∧ let form :=
          bundleForm (Sha1.sha1.digest identity.certificate) bmpName
        form.Guarded Blank.scheme?
        ∧ (∀ c, ∀ id ∈ (form.outline c).identifiers,
            id ∈ writtenKinds ∧ id ≠ certificateBag
              ∧ ¬ oldSchemes.content <+: id.content)
        ∧ Disclosed identity name p (Writer.drawSalts.run e).1 form contents
            der
        ∧ Disclosed identity name q (Writer.drawSalts.run f).1 form contents'
            der' := by
  obtain ⟨cert, subject, bmpName, contents, hcert, hsubject, hname, hlengths,
    hlength, hshown⟩ := disclosed_of_lock (sized_drawSalts e) hlock
  obtain ⟨cert', subject', bmpName', contents', hcert', hsubject', hname',
    hlengths', hlength', hshown'⟩ := disclosed_of_lock (sized_drawSalts f) hlock'
  obtain rfl : cert = cert' := Option.some.inj (hcert.symm.trans hcert')
  obtain rfl : subject = subject' :=
    Option.some.inj (hsubject.symm.trans hsubject')
  obtain rfl : bmpName = bmpName' := Option.some.inj (hname.symm.trans hname')
  refine ⟨bmpName, contents, contents', hname, ?_, fun place => ?_,
    guarded_bundleForm .., fun c id hid => ?_, hshown, hshown'⟩
  · simp only [hlength, hlength', hlengths, hlengths']
  · rw [hlengths, hlengths']
  · have hmem : id ∈ writtenKinds := identifiers_bundleForm c _ _ hid
    exact ⟨hmem, ne_of_mem_writtenKinds id hmem⟩

/-- An empty password and a long one, with different salts: nobody sees
which is which. -/
theorem lock_discloses_form_least :
    let identity : Identity :=
      ⟨⟨0, 0, 0, 0, 0, 0, 0, 0⟩, [1, 2, 3], leastCertificate⟩
    ∃ der der',
      lock identity "node" "" (Writer.drawSalts.run ⟨fun _ => 0, 0⟩).1
          = .ok der
        ∧ lock identity "node" "correct horse battery staple"
            (Writer.drawSalts.run ⟨fun n => .ofNat n, 7⟩).1 = .ok der'
        ∧ der.length = der'.length := by
  intro identity
  have hname : Bmp.encode? "node" = some [0, 110, 0, 111, 0, 100, 0, 101] := by
    decide
  have hempty : Bmp.password? "" = some [0, 0] := by decide
  obtain ⟨der, hlock⟩ : ∃ der, lock identity "node" ""
      (Writer.drawSalts.run ⟨fun _ => 0, 0⟩).1 = .ok der :=
    lock_leastCertificate hname hempty (by decide) _
  obtain ⟨_, hpassword⟩ : ∃ b, Bmp.password? "correct horse battery staple"
      = some b := Option.isSome_iff_exists.mp (by decide)
  obtain ⟨der', hlock'⟩ : ∃ der, lock identity "node"
      "correct horse battery staple"
      (Writer.drawSalts.run ⟨fun n => .ofNat n, 7⟩).1 = .ok der :=
    lock_leastCertificate hname hpassword (by decide) _
  obtain ⟨_, _, _, -, hlength, -⟩ := lock_discloses_form hlock hlock'
  exact ⟨der, der', hlock, hlock', hlength⟩

end TlsKeystore.Bundle
