/-
Reading the fields of a certificate from written elements.

A reader takes its field from the front and hands on what follows, so that
a certificate is read in one chain of steps (`Reader.bind_eq`). There is a
fact for every field that a written certificate has: given the element at
the front, whatever follows it, the reader gives what the element says and
hands on what follows.
-/
import TlsKeystore.Proofs.X509.Name
import TlsKeystore.Proofs.X509.Time
import TlsKeystore.X509.Certificate

namespace TlsKeystore.Certificate

open Element (around ofOid ofNatural ofOctets ofNull)

-- ================================================================ readers

/-- One step of a chain of readers. -/
theorem Reader.bind_eq {α β : Type} {x : Reader α} {f : α → Reader β}
    {b rest : Bytes} {a : α} (h : x b = .ok (a, rest)) :
    (x >>= f) b = f a rest := by
  show (x b >>= fun p => f p.1 p.2) = f a rest
  rw [h]
  rfl

/-- A field that is there. -/
theorem field_eq {α : Type} {defect : Defect}
    {read : Bytes → Option (α × Bytes)} {b : Bytes} {r : α × Bytes}
    (h : read b = some r) : field defect read b = .ok r := by
  rw [field, h]

-- ============================================================= algorithms

/-- An algorithm with the parameters that say nothing. -/
def plainAlgorithm (kind : Oid) : Element :=
  around Tag.sequence [ofOid kind, ofNull]

/-- What such an algorithm is read as. -/
def readsAs (kind : Oid) : AlgorithmIdentifier :=
  ⟨kind, some ⟨0, false, 5, []⟩⟩

theorem readAlgorithm?_plainAlgorithm {kind : Oid}
    (hroom : (plainAlgorithm kind).HasRoom) (rest : Bytes) :
    readAlgorithm? ((plainAlgorithm kind).encode ++ rest)
      = some (readsAs kind, rest) := by
  have hsequence := Ber.readSequence?_around hroom rest
  have hkindRoom : (ofOid kind).HasRoom := hroom.of_mem (by simp)
  have hnullRoom : ofNull.HasRoom := hroom.of_mem (by simp)
  have hkind := Ber.read?_encode (by simp) hkindRoom ofNull.encode
  have hnull := Ber.read?_encode (by simp) hnullRoom []
  rw [List.append_nil] at hnull
  rw [readAlgorithm?, plainAlgorithm, hsequence]
  simp [hkind, hnull, Element.encode_ne_nil, readsAs]

-- ================================================================= fields

/-- The third version, under its tag. -/
def versionElement : Element := around (Tag.explicit 0) [ofNatural 2]

theorem readVersion_versionElement (rest : Bytes) :
    readVersion (versionElement.encode ++ rest) = .ok (2, rest) := by
  have hroom : versionElement.HasRoom := by
    show versionElement.content.length ≤ Bytes.maxLength
    decide
  have hread := Ber.read?_encode (by simp [versionElement]) hroom rest
  have hnumber : versionNumber? (ofNatural 2).encode = some 2 := by
    decide
  have hne : versionElement.encode ++ rest ≠ [] := by
    simp [Element.encode_ne_nil]
  rw [readVersion, if_neg hne, hread]
  simp [versionElement, hnumber]

theorem readSerial?_ofNatural {n : Nat} (hroom : (ofNatural n).HasRoom)
    (rest : Bytes) :
    readSerial? ((ofNatural n).encode ++ rest)
      = some (Der.naturalOctets n, rest) := by
  rw [readSerial?, Ber.readOpen?_encode (by simp) hroom]
  simp [Ber.Element.isOf, Ber.Universal.number]

theorem readValidity_around {first last : Element} {t u : Timestamp}
    (hroom : (around Tag.sequence [first, last]).HasRoom)
    (hfirst : ∀ rest, X509Time.read? (first.encode ++ rest) = some (t, rest))
    (hlast : ∀ rest, X509Time.read? (last.encode ++ rest) = some (u, rest))
    (rest : Bytes) :
    readValidity ((around Tag.sequence [first, last]).encode ++ rest)
      = .ok ((t, u), rest) := by
  have hend := hlast []
  rw [List.append_nil] at hend
  rw [readValidity, Ber.readSequence?_around hroom]
  simp [hfirst, hend]

-- ============================================================= public key

/-- A key of whole octets under its algorithm. -/
def publicKeyElement (kind : Oid) (key : Bytes) : Element :=
  around Tag.sequence [plainAlgorithm kind, ⟨Tag.bitString, 0 :: key⟩]

/-- Whole octets in a BIT STRING are these octets. -/
private theorem bits?_octets (key : Bytes) :
    Ber.Element.bits? ⟨0, false, 3, 0 :: key⟩ = some key := by
  simp [Ber.Element.bits?, Ber.Element.isOf, Ber.Universal.number,
    Nat.mod_one]

theorem readPublicKey_publicKeyElement {kind : Oid} {key : Bytes}
    (hroom : (publicKeyElement kind key).HasRoom) (rest : Bytes) :
    readPublicKey ((publicKeyElement kind key).encode ++ rest)
      = .ok (⟨readsAs kind, key⟩, rest) := by
  have hsequence := Ber.readSequence?_around hroom rest
  have halgorithmRoom : (plainAlgorithm kind).HasRoom :=
    hroom.of_mem (by simp)
  have hkeyRoom : Element.HasRoom ⟨Tag.bitString, 0 :: key⟩ :=
    hroom.of_mem (by simp)
  have halgorithm := readAlgorithm?_plainAlgorithm halgorithmRoom
    (Element.encode ⟨Tag.bitString, 0 :: key⟩)
  have hkey := Ber.read?_encode (by simp) hkeyRoom []
  rw [List.append_nil] at hkey
  rw [readPublicKey, publicKeyElement, hsequence]
  simp [halgorithm, hkey, bits?_octets]

/-- The signature, in whole octets. -/
theorem readSignature?_bitString {signature : Bytes}
    (hroom : Element.HasRoom ⟨Tag.bitString, 0 :: signature⟩)
    (rest : Bytes) :
    readSignature? (Element.encode ⟨Tag.bitString, 0 :: signature⟩ ++ rest)
      = some (signature, rest) := by
  rw [readSignature?, Ber.read?_encode (by simp) hroom]
  simp [bits?_octets]

-- ============================================================= extensions

/-- An extension that need not be understood. -/
def plainExtension (kind : Oid) (value : Bytes) : Element :=
  around Tag.sequence [ofOid kind, ofOctets value]

/-- An extension that must be understood. -/
def criticalExtension (kind : Oid) (value : Bytes) : Element :=
  around Tag.sequence [ofOid kind, ⟨Tag.boolean, [0xFF]⟩, ofOctets value]

theorem readExtension?_plainExtension {kind : Oid} {value : Bytes}
    (hroom : (plainExtension kind value).HasRoom) (rest : Bytes) :
    readExtension? ((plainExtension kind value).encode ++ rest)
      = some (⟨kind, false, value⟩, rest) := by
  have hsequence := Ber.readSequence?_around hroom rest
  have hkindRoom : (ofOid kind).HasRoom := hroom.of_mem (by simp)
  have hvalueRoom : (ofOctets value).HasRoom := hroom.of_mem (by simp)
  have hkind := Ber.read?_encode (by simp) hkindRoom (ofOctets value).encode
  have hvalue := Ber.read?_encode (by simp) hvalueRoom []
  rw [List.append_nil] at hvalue
  rw [readExtension?, plainExtension, hsequence]
  simp [hkind, hvalue, readCritical, Ber.Element.octets?, Ber.Element.isOf,
    Ber.Universal.number]

theorem readExtension?_criticalExtension {kind : Oid} {value : Bytes}
    (hroom : (criticalExtension kind value).HasRoom) (rest : Bytes) :
    readExtension? ((criticalExtension kind value).encode ++ rest)
      = some (⟨kind, true, value⟩, rest) := by
  have hsequence := Ber.readSequence?_around hroom rest
  have hkindRoom : (ofOid kind).HasRoom := hroom.of_mem (by simp)
  have hflagRoom : Element.HasRoom ⟨Tag.boolean, [0xFF]⟩ :=
    hroom.of_mem (by simp)
  have hvalueRoom : (ofOctets value).HasRoom := hroom.of_mem (by simp)
  have hkind := Ber.read?_encode (by simp) hkindRoom
    (Element.encode ⟨Tag.boolean, [0xFF]⟩ ++ (ofOctets value).encode)
  have hflag := Ber.read?_encode (by simp) hflagRoom (ofOctets value).encode
  have hvalue := Ber.read?_encode (by simp) hvalueRoom []
  rw [List.append_nil] at hvalue
  rw [readExtension?, criticalExtension, hsequence]
  simp [hkind, hflag, hvalue, readCritical, Ber.Element.octets?,
    Ber.Element.isOf, Ber.Universal.number]

/-- The extensions, under their tag. -/
def extensionsElement (extensions : List Element) : Element :=
  around (Tag.explicit 3) [around Tag.sequence extensions]

/-- Members that are read as extensions are read to the end. -/
theorem readExtensionList?_flatMap {members : List (Element × Extension)}
    (hmember : ∀ m ∈ members, ∀ rest,
      readExtension? (m.1.encode ++ rest) = some (m.2, rest))
    {steps : Nat} (hsteps : members.length ≤ steps) :
    readExtensionList? steps ((members.map Prod.fst).flatMap Element.encode)
      = some (members.map Prod.snd) := by
  induction members generalizing steps with
  | nil => cases steps <;> rfl
  | cons m members ih =>
      cases steps with
      | zero => cases hsteps
      | succ steps =>
          have hfront := hmember m (List.mem_cons_self ..)
            ((members.map Prod.fst).flatMap Element.encode)
          have hrest := ih (fun m' hm' => hmember m' (List.mem_cons_of_mem _ hm'))
            (Nat.le_of_succ_le_succ hsteps)
          rw [List.map_cons, List.flatMap_cons]
          cases hoctets : m.1.encode
              ++ (members.map Prod.fst).flatMap Element.encode with
          | nil =>
              have := m.1.encode_ne_nil
              simp_all
          | cons x tail =>
              rw [hoctets] at hfront
              rw [readExtensionList?, hfront]
              simp [hrest]

theorem readExtensions_extensionsElement
    {members : List (Element × Extension)}
    (hroom : (extensionsElement (members.map Prod.fst)).HasRoom)
    (hmember : ∀ m ∈ members, m.1.HasRoom → ∀ rest,
      readExtension? (m.1.encode ++ rest) = some (m.2, rest)) :
    readExtensions (extensionsElement (members.map Prod.fst)).encode
      = .ok (members.map Prod.snd, []) := by
  have hheader := Ber.readHeader?_encode (by simp [extensionsElement]) hroom []
  rw [List.append_nil, List.append_nil] at hheader
  have hinner : (around Tag.sequence (members.map Prod.fst)).HasRoom :=
    hroom.of_mem (by simp)
  have hsequence := Ber.readSequence?_around hinner []
  rw [List.append_nil] at hsequence
  have hsteps := Name.length_le_flatMap_encode (members.map Prod.fst)
  rw [List.length_map] at hsteps
  have hlist := readExtensionList?_flatMap (fun m hm =>
    hmember m hm (hinner.of_mem (List.mem_map_of_mem hm))) hsteps
  have hne := (extensionsElement (members.map Prod.fst)).encode_ne_nil
  rw [readExtensions, if_neg hne, hheader]
  simp only [extensionsElement, Element.view_explicit_three,
    Element.around_content, List.flatMap_singleton, hsequence, hlist]
  rfl

-- ===================================================== what is not written

/-- Extensions are no unique identifier. -/
theorem readUniqueId_extensionsElement {number : Nat} {defect : Defect}
    {extensions : List Element} (hnumber : number ≠ 3)
    (hroom : (extensionsElement extensions).HasRoom) :
    readUniqueId number defect (extensionsElement extensions).encode
      = .ok (none, (extensionsElement extensions).encode) := by
  have hheader := Ber.readHeader?_encode (by simp [extensionsElement]) hroom []
  rw [List.append_nil, List.append_nil] at hheader
  rw [readUniqueId, hheader]
  simp [extensionsElement, hnumber.symm]

end TlsKeystore.Certificate
