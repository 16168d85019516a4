/-
The bags and safes of a bundle as trees of elements, and the way back.

# The tree

Every part that `Writer.write` puts together is the encoding of an element of
its own. Here are the bags with their labels (`bagElement`), and the safes
that they are put into, plain ones (`dataElement`) and those that are encrypted
as a whole (`encryptedElement`).

# The way back

Each part is read as what it was made from, given that it fits: a bag as its
kind, its value and its labels (`ofElement?_written`), a plain safe as its
octets (`ofElement?_dataElement`), and an encrypted one, under the password, as
the text that was encrypted (`safeOctets_encryptedElement`). What a safe that
fits holds is no longer than an element may be (`fits_of_dataElement`,
`length_le_of_encryptedElement`).
-/
import TlsKeystore.Proofs.Pkcs12.Bag
import TlsKeystore.Proofs.Pkcs12.Scheme

namespace TlsKeystore.Pkcs12

open Element (around ofOid ofNatural ofOctets)

/-- A value that is there is no defect. -/
@[simp] theorem orDefect_some {α : Type} (d : Defect) (a : α) :
    orDefect d (some a) = .ok a := rfl

-- ================================================================== kinds

theorem wellFormed_certificateBag : certificateBag.wellFormed = true :=
  Oid.wellFormed_ofArcs (by decide)

theorem wellFormed_shroudedKeyBag : shroudedKeyBag.wellFormed = true :=
  Oid.wellFormed_ofArcs (by decide)

theorem certificateBag_ne : certificateBag ≠ shroudedKeyBag := by
  simp [certificateBag, shroudedKeyBag, pkcs, Oid.ofArcs_inj]

theorem wellFormed_dataContent : dataContent.wellFormed = true :=
  Oid.wellFormed_ofArcs (by decide)

theorem wellFormed_encryptedContent : encryptedContent.wellFormed = true :=
  Oid.wellFormed_ofArcs (by decide)

theorem encryptedContent_ne : encryptedContent ≠ dataContent := by
  simp [encryptedContent, dataContent, pkcs, Oid.ofArcs_inj]

-- =================================================================== bags

/-- The attributes of a written bag: identifier and friendly name. -/
def writtenAttributes (keyId name : Bytes) : List Attribute :=
  [⟨localKeyId, [ofOctets keyId]⟩, ⟨friendlyName, [⟨Tag.bmpString, name⟩]⟩]

/-- A SET OF one member needs no sorting. -/
private theorem setOf_singleton (e : Element) :
    Der.setOf [e.encode] = (around Tag.set [e]).encode := by
  have h := Der.setOf_eq_encode [e]
  rwa [Element.sorted_singleton] at h

theorem Writer.attributes?_eq (keyId : Bytes) (name : String) :
    Writer.attributes? keyId name = (Bmp.encode? name).map fun name =>
      (attributesElement (writtenAttributes keyId name)).encode := by
  unfold Writer.attributes?
  cases Bmp.encode? name with
  | none => rfl
  | some bmp =>
      have hset := Der.setOf_eq_encode
        ((writtenAttributes keyId bmp).map Attribute.element)
      rw [Option.map_some, attributesElement, ← hset]
      show some (Der.setOf [
          Der.sequence [Der.oid localKeyId,
            Der.setOf [(ofOctets keyId).encode]],
          Der.sequence [Der.oid friendlyName,
            Der.setOf [Element.encode ⟨Tag.bmpString, bmp⟩]]])
        = _
      rw [setOf_singleton, setOf_singleton]
      rfl

/-- Both attributes of a written bag are read back. -/
private theorem ofElement?_writtenAttributes {keyId name : Bytes} :
    ∀ a ∈ writtenAttributes keyId name, a.element.Fits →
      Attribute.ofElement? a.element = some a := by
  intro a ha hfits
  simp only [writtenAttributes, List.mem_cons, List.not_mem_nil,
    or_false] at ha
  rcases ha with rfl | rfl
  · exact Attribute.ofElement?_element (Oid.wellFormed_ofArcs (by decide))
      (by simp) hfits
  · exact Attribute.ofElement?_element (Oid.wellFormed_ofArcs (by decide))
      (by simp) hfits

private theorem localKeyId_ne_friendlyName : localKeyId ≠ friendlyName := by
  simp [localKeyId, friendlyName, pkcs, Oid.ofArcs_inj]

private theorem nodup_kinds_writtenAttributes (keyId name : Bytes) :
    ((writtenAttributes keyId name).map Attribute.kind).Nodup := by
  simp [writtenAttributes, localKeyId_ne_friendlyName]

/-- What a written bag is called: its name, its identifier, not trusted. -/
theorem ofAttributes_writtenAttributes (keyId : Bytes) {s : String}
    {name : Bytes} (hname : Bmp.encode? s = some name) :
    Labels.ofAttributes (writtenAttributes keyId name)
      = ⟨some s, some keyId, false⟩ := by
  have htrusted : trustedUsage ≠ localKeyId ∧ trustedUsage ≠ friendlyName := by
    simp [trustedUsage, localKeyId, friendlyName, pkcs, Oid.ofArcs_inj]
  have hid : Attribute.first? localKeyId (writtenAttributes keyId name)
      = some (ofOctets keyId) := by
    simp [Attribute.first?, writtenAttributes]
  have hfriendly : Attribute.first? friendlyName
      (writtenAttributes keyId name) = some ⟨Tag.bmpString, name⟩ := by
    simp [Attribute.first?, writtenAttributes, localKeyId_ne_friendlyName]
  have hnone : Attribute.first? trustedUsage (writtenAttributes keyId name)
      = none := by
    simp [Attribute.first?, writtenAttributes, htrusted.1.symm,
      htrusted.2.symm]
  simp [Labels.ofAttributes, hid, hfriendly, hnone,
    Bmp.decode?_of_encode? hname]

/-- A written bag is read back with its labels. -/
theorem ofElement?_written {kind : Oid} {value : Element} {keyId : Bytes}
    {s : String} {name : Bytes} (hkind : kind.wellFormed = true)
    (hname : Bmp.encode? s = some name)
    (hfits : (bagElement kind value (writtenAttributes keyId name)).Fits) :
    RawBag.ofElement? (bagElement kind value (writtenAttributes keyId name))
      = some ⟨kind, around (Tag.explicit 0) [value],
          ⟨some s, some keyId, false⟩⟩ := by
  rw [RawBag.ofElement?_bagElement hkind ofElement?_writtenAttributes
    (nodup_kinds_writtenAttributes ..) hfits,
    ofAttributes_writtenAttributes keyId hname]

-- ================================================================== safes

/-- Content of the plain type. -/
def dataElement (content : Bytes) : Element :=
  around Tag.sequence [ofOid dataContent,
    around (Tag.explicit 0) [ofOctets content]]

/-- What is said of a cipher text, and the cipher text. -/
def encryptedInfo (salt iv cipher : Bytes) : Element :=
  around Tag.sequence [ofOid dataContent, schemeElement salt iv,
    ⟨0x80, cipher⟩]

/-- A version in front of it. -/
def encryptedFields (salt iv cipher : Bytes) : Element :=
  around Tag.sequence [ofNatural 0, encryptedInfo salt iv cipher]

/-- Content that is encrypted as a whole. -/
def encryptedElement (salt iv cipher : Bytes) : Element :=
  around Tag.sequence [ofOid encryptedContent,
    around (Tag.explicit 0) [encryptedFields salt iv cipher]]

/-- The value of the bag of a certificate. -/
def certificateValue (der : Bytes) : Element :=
  around Tag.sequence [ofOid x509Certificate,
    around (Tag.explicit 0) [ofOctets der]]

/-- The value of the bag of an encrypted key. -/
def keyValue (salt iv cipher : Bytes) : Element :=
  around Tag.sequence [schemeElement salt iv, ofOctets cipher]

/-- The bags of a safe of one bag. -/
def safeElement (kind : Oid) (value : Element) (keyId name : Bytes) :
    Element :=
  around Tag.sequence [bagElement kind value (writtenAttributes keyId name)]

@[simp] theorem dataElement_tag (content : Bytes) :
    (dataElement content).tag = Tag.sequence := rfl

@[simp] theorem encryptedElement_tag (salt iv cipher : Bytes) :
    (encryptedElement salt iv cipher).tag = Tag.sequence := rfl

@[simp] theorem safeElement_tag (kind : Oid) (value : Element)
    (keyId name : Bytes) :
    (safeElement kind value keyId name).tag = Tag.sequence := rfl

/-- A plain safe gives its octets back. -/
theorem ofElement?_dataElement {content : Bytes}
    (hfits : (dataElement content).Fits) :
    ContentInfo.ofElement? (dataElement content)
      = some ⟨dataContent, ofOctets content⟩ := by
  have hitems : (dataElement content).items? Tag.sequence
      = some [ofOid dataContent, around (Tag.explicit 0) [ofOctets content]] :=
    Element.items?_around (by simp) hfits
  have honly : (around (Tag.explicit 0) [ofOctets content]).only?
      (Tag.explicit 0) = some (ofOctets content) :=
    Element.only?_around (by simp) (hfits.of_mem (by simp))
  simp [ContentInfo.ofElement?, hitems, honly,
    Element.oid?_ofOid wellFormed_dataContent]

/-- The fields of an encrypted safe are read with their scheme. -/
private theorem ofElement?_encryptedFields {salt iv cipher : Bytes}
    (hiv : iv.length = 16) (hfits : (encryptedFields salt iv cipher).Fits) :
    ∃ a, EncryptedSafe.ofElement? (encryptedFields salt iv cipher)
        = some ⟨0, a, some cipher⟩
      ∧ Scheme.ofAlgorithm a = .ok (writtenScheme salt iv) := by
  have hfields : (encryptedFields salt iv cipher).items? Tag.sequence
      = some [ofNatural 0, encryptedInfo salt iv cipher] :=
    Element.items?_around (by simp [encryptedInfo]) hfits
  have hinfo : (encryptedInfo salt iv cipher).Fits := hfits.of_mem (by simp)
  have hparts : (encryptedInfo salt iv cipher).items? Tag.sequence
      = some [ofOid dataContent, schemeElement salt iv, ⟨0x80, cipher⟩] :=
    Element.items?_around (by simp) hinfo
  have hscheme : (schemeElement salt iv).Fits := hinfo.of_mem (by simp)
  obtain ⟨a, halgorithm, ha⟩ := ofAlgorithm_schemeElement hiv hscheme
  refine ⟨a, ?_, ha⟩
  simp [EncryptedSafe.ofElement?, hfields, hparts, halgorithm,
    Element.oid?_ofOid wellFormed_dataContent, EncryptedSafe.endFits]

/-- What a fitting plain safe holds fits. -/
theorem fits_of_dataElement {e : Element}
    (hfits : (dataElement e.encode).Fits) : e.Fits := by
  have hcontent : (around (Tag.explicit 0) [ofOctets e.encode]).Fits :=
    hfits.of_mem (by simp)
  have hoctets : (ofOctets e.encode).Fits := hcontent.of_mem (by simp)
  exact Element.Within.of_encode hoctets

/-- The cipher text of a fitting safe is no longer than an element may be. -/
theorem length_le_of_encryptedElement {salt iv cipher : Bytes}
    (hfits : (encryptedElement salt iv cipher).Fits) :
    cipher.length ≤ Der.maxLength := by
  have hcontent : (around (Tag.explicit 0)
      [encryptedFields salt iv cipher]).Fits := hfits.of_mem (by simp)
  have hfields : (encryptedFields salt iv cipher).Fits :=
    hcontent.of_mem (by simp)
  have hinfo : (encryptedInfo salt iv cipher).Fits :=
    hfields.of_mem (by simp)
  exact hinfo.of_mem (e := ⟨0x80, cipher⟩) (by simp)

/-- An encrypted safe decrypts to the text that was encrypted. -/
theorem safeOctets_encryptedElement {salt iv : Bytes} {password : String}
    {text : Bytes} (hiv : iv.length = 16)
    (hfits : (encryptedElement salt iv
      (Writer.encrypt salt iv password text)).Fits) :
    ∃ info, ContentInfo.ofElement? (encryptedElement salt iv
          (Writer.encrypt salt iv password text)) = some info
      ∧ info.safeOctets password = .ok text := by
  generalize hcipher : Writer.encrypt salt iv password text = cipher at *
  have hitems : (encryptedElement salt iv cipher).items? Tag.sequence
      = some [ofOid encryptedContent,
          around (Tag.explicit 0) [encryptedFields salt iv cipher]] :=
    Element.items?_around (by simp) hfits
  have hcontent : (around (Tag.explicit 0)
      [encryptedFields salt iv cipher]).Fits := hfits.of_mem (by simp)
  have honly : (around (Tag.explicit 0)
      [encryptedFields salt iv cipher]).only? (Tag.explicit 0)
      = some (encryptedFields salt iv cipher) :=
    Element.only?_around (by simp [encryptedFields]) hcontent
  have hfields : (encryptedFields salt iv cipher).Fits :=
    hcontent.of_mem (by simp)
  obtain ⟨a, hread, hscheme⟩ := ofElement?_encryptedFields hiv hfields
  refine ⟨⟨encryptedContent, encryptedFields salt iv cipher⟩, ?_, ?_⟩
  · simp [ContentInfo.ofElement?, hitems, honly,
      Element.oid?_ofOid wellFormed_encryptedContent]
  · rw [ContentInfo.safeOctets, if_neg encryptedContent_ne, if_pos rfl, hread]
    show (do (← Scheme.ofAlgorithm a).decrypt password cipher) = _
    rw [hscheme, ← hcipher]
    exact decrypt_encrypt hiv password text

end TlsKeystore.Pkcs12
