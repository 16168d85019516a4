/-
Encodings with places left open.

# Forms

A `Form` is an encoding as a tree in which some contents are not told: in
their stead stands the name of a place. Whoever says what stands at each
place fills the form, and gets an element (`Form.fill`) and the tree of
this element (`Form.outline`). Two fillings of one form are two encodings
that differ at its places and nowhere else.

# What is true of every filling

Both facts are by induction on the tree, one case for each kind of node.
The octets of a filling have a length that only asks how long the contents
of the places are (`length_fill`). And the tree is not only one to write
by: the strict reader takes the element apart into it, level by level
(`hasOutline_fill`).
-/
import TlsKeystore.Asn1.Outline
import TlsKeystore.Proofs.Asn1.Der

namespace TlsKeystore

-- ================================================================ lengths

/-- How many octets an element has whose content has `n`. -/
def Der.elementLength (n : Nat) : Nat := 1 + (lengthOctets n).length + n

theorem Element.length_encode (e : Element) :
    e.encode.length = Der.elementLength e.content.length := by
  simp only [Element.encode, Der.elementLength, List.length_cons,
    List.length_append]
  omega

-- =============================================================== outlines

/-- The strict reader takes an element apart into a tree: wherever the tree
branches, the content consists of the elements of the branches. -/
inductive Element.HasOutline : Element → Outline → Prop where
  | leaf (e : Element) : e.HasOutline (.leaf e.tag e.content)
  | branch {e : Element} {es : List Element} {os : List Outline} :
      Der.readAll? e.content = some es → List.Forall₂ Element.HasOutline es os →
      e.HasOutline (.branch e.tag os)

/-- The identifiers that stand in a tree. -/
def Outline.identifiers : Outline → List Oid
  | .leaf tag content => if tag = Tag.oid then [⟨content⟩] else []
  | .branch _ children => (children.map identifiers).flatten

namespace Outline

@[simp] theorem identifiers_oid (content : Bytes) :
    (leaf Tag.oid content).identifiers = [⟨content⟩] := by
  rw [identifiers, if_pos rfl]

theorem identifiers_leaf {tag : UInt8} (htag : tag ≠ Tag.oid)
    (content : Bytes) : (leaf tag content).identifiers = [] := by
  rw [identifiers, if_neg htag]

@[simp] theorem identifiers_branch (tag : UInt8) (children : List Outline) :
    (branch tag children).identifiers
      = (children.map identifiers).flatten := by
  rw [identifiers]

end Outline

-- ================================================================== forms

/-- An encoding as a tree, with places of `σ` where contents are left open. -/
inductive Form (σ : Type) where
  | leaf (e : Element)
  | slot (tag : UInt8) (place : σ)
  | branch (tag : UInt8) (parts : List (Form σ))

namespace Form

variable {σ : Type}

/-- The element of a form, with contents for its places. -/
def fill (contents : σ → Bytes) : Form σ → Element
  | leaf e => e
  | slot tag place => ⟨tag, contents place⟩
  | branch tag parts => .around tag (parts.map (fill contents))

/-- The tree of that element. -/
def outline (contents : σ → Bytes) : Form σ → Outline
  | leaf e => .leaf e.tag e.content
  | slot tag place => .leaf tag (contents place)
  | branch tag parts => .branch tag (parts.map (outline contents))

/-- How many octets a filling has, by the lengths of what stands at the
places. -/
def size (lengths : σ → Nat) : Form σ → Nat
  | leaf e => e.encode.length
  | slot _ place => Der.elementLength (lengths place)
  | branch _ parts => Der.elementLength (parts.map (size lengths)).sum

def tag : Form σ → UInt8
  | leaf e => e.tag
  | slot tag _ => tag
  | branch tag _ => tag

/-- Whether a strict reader knows all tags below the outermost. -/
def Known : Form σ → Prop
  | leaf _ => True
  | slot _ _ => True
  | branch _ parts => ∀ p ∈ parts, Der.knownTag p.tag = true ∧ p.Known

/-- What is to stand beside a form: the companion of its place, if it is one
and has one. -/
def companion? (companions : σ → Option (Form σ)) : Form σ → Option (Form σ)
  | slot _ place => companions place
  | _ => none

/-- Whether wherever a place stands that is to have a companion, the
companion stands beside it. -/
def Guarded (companions : σ → Option (Form σ)) : Form σ → Prop
  | leaf _ => True
  | slot _ _ => True
  | branch _ parts =>
      (∀ p ∈ parts, ∀ f ∈ p.companion? companions, f ∈ parts)
      ∧ ∀ p ∈ parts, p.Guarded companions

/-- What holds of a form if it holds of its parts holds of all forms. -/
@[elab_as_elim]
theorem induction {motive : Form σ → Prop} (leaf : ∀ e, motive (leaf e))
    (slot : ∀ tag place, motive (slot tag place))
    (branch : ∀ tag parts, (∀ p ∈ parts, motive p) →
      motive (branch tag parts)) (f : Form σ) : motive f :=
  fill.induct motive leaf slot branch f

@[simp] theorem tag_leaf (e : Element) : (leaf e : Form σ).tag = e.tag := rfl

@[simp] theorem tag_slot (tag : UInt8) (place : σ) :
    (slot tag place).tag = tag := rfl

@[simp] theorem tag_branch (tag : UInt8) (parts : List (Form σ)) :
    (branch tag parts).tag = tag := rfl

section Companions

variable (companions : σ → Option (Form σ))

@[simp] theorem companion?_leaf (e : Element) :
    (leaf e).companion? companions = none := rfl

@[simp] theorem companion?_slot (tag : UInt8) (place : σ) :
    (slot tag place).companion? companions = companions place := rfl

@[simp] theorem companion?_branch (tag : UInt8) (parts : List (Form σ)) :
    (branch tag parts).companion? companions = none := rfl

end Companions

@[simp] theorem fill_tag (contents : σ → Bytes) (f : Form σ) :
    (f.fill contents).tag = f.tag := by
  cases f <;> simp [fill]

/-- A filling is as long as its parts make it. -/
theorem length_fill (contents : σ → Bytes) (f : Form σ) :
    (f.fill contents).encode.length
      = f.size fun place => (contents place).length := by
  induction f using induction with
  | leaf e => rw [fill, size]
  | slot tag place => rw [fill, size, Element.length_encode]
  | branch tag parts ih =>
      have hparts : (parts.map fun p => (p.fill contents).encode.length)
          = parts.map (size fun place => (contents place).length) :=
        List.map_congr_left ih
      rw [fill, size, Element.length_encode, Element.around_content,
        List.length_flatMap, List.map_map, ← hparts]
      rfl

/-- A filling that fits is read as its tree. -/
theorem hasOutline_fill {contents : σ → Bytes} {f : Form σ} (hknown : f.Known)
    (hfits : (f.fill contents).Fits) :
    (f.fill contents).HasOutline (f.outline contents) := by
  induction f using induction with
  | leaf e =>
      rw [fill, outline]
      exact .leaf e
  | slot tag place =>
      rw [fill, outline]
      exact .leaf ⟨tag, contents place⟩
  | branch tag parts ih =>
      rw [Known] at hknown
      rw [fill] at hfits ⊢
      rw [outline]
      have hread : Der.readAll? (Element.around tag
          (parts.map (fill contents))).content
          = some (parts.map (fill contents)) := by
        refine Der.readAll?_flatMap_encode ?_ fun e he => hfits.of_mem he
        intro e he
        obtain ⟨p, hp, rfl⟩ := List.mem_map.mp he
        rw [fill_tag]
        exact (hknown p hp).1
      refine .branch hread ?_
      rw [List.forall₂_map_left_iff, List.forall₂_map_right_iff,
        List.forall₂_same]
      intro p hp
      exact ih p hp (hknown p hp).2 (hfits.of_mem (List.mem_map_of_mem hp))

end Form
end TlsKeystore
