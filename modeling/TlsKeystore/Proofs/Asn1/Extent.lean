/-
How much of its input the tolerant reader takes.

A reader delimits what it reads if it takes octets of its own from the front
and reads the same from these whatever stands behind them (`Delimits`).
Readers that delimit make up readers that delimit: one behind another, a
choice between two, a count of octets. The tolerant reader is made up of no
more than that. A tag number goes on to an octet that ends it, the first
octet of a length tells how many there are, and the length tells the content
(`delimits_read?`). So no beginning of an element is an element
(`Delimits.eq_none_of_cut`).
-/
import Mathlib
import TlsKeystore.Asn1.Ber

namespace TlsKeystore.Ber

-- ============================================================== delimiting

/-- A reader that takes octets of its own from the front: it reads the same
from these whatever stands behind them, and hands that on. -/
def Delimits {α : Type} (read : Bytes → Option (α × Bytes)) : Prop :=
  ∀ b a rest, read b = some (a, rest) →
    ∃ own, b = own ++ rest ∧ ∀ behind, read (own ++ behind) = some (a, behind)

/-- What is read is read of no beginning of the octets that it takes up. -/
theorem Delimits.eq_none_of_cut {α : Type}
    {read : Bytes → Option (α × Bytes)} (hread : Delimits read)
    {own part : Bytes} {a : α} (hown : read own = some (a, []))
    (hfront : part <+: own) (hne : part ≠ own) : read part = none := by
  cases hpart : read part with
  | none => rfl
  | some found =>
      obtain ⟨a', rest⟩ := found
      obtain ⟨missing, rfl⟩ := hfront
      obtain ⟨taken, rfl, htaken⟩ := hread _ _ _ hpart
      rw [List.append_assoc, htaken] at hown
      have hnothing : rest ++ missing = [] :=
        (Prod.mk.inj (Option.some.inj hown)).2
      rw [(List.append_eq_nil_iff.mp hnothing).2, List.append_nil] at hne
      exact absurd rfl hne

-- ================================================================== steps

section Steps

variable {α β : Type} {read other : Bytes → Option (α × Bytes)}

theorem delimits_some (a : α) : Delimits fun b => some (a, b) := by
  intro b a' rest h
  cases h
  exact ⟨[], rfl, fun _ => rfl⟩

theorem delimits_none : Delimits fun _ => (none : Option (α × Bytes)) := by
  intro b a rest h
  cases h

/-- One reader behind another, which may depend on what that one has read. -/
theorem Delimits.bind {next : α → Bytes → Option (β × Bytes)}
    (hread : Delimits read) (hnext : ∀ a, Delimits (next a)) :
    Delimits fun b => read b >>= fun r => next r.1 r.2 := by
  intro b c rest h
  obtain ⟨⟨a, mid⟩, hfirst, hsecond⟩ := Option.bind_eq_some_iff.mp h
  obtain ⟨front, rfl, hfront⟩ := hread _ _ _ hfirst
  obtain ⟨own, rfl, hown⟩ := hnext a _ _ _ hsecond
  refine ⟨front ++ own, (List.append_assoc ..).symm, fun behind => ?_⟩
  rw [List.append_assoc]
  dsimp only
  rw [hfront]
  exact hown behind

/-- A choice that is made before anything is read. -/
theorem Delimits.ite {c : Prop} [Decidable c] (hread : Delimits read)
    (hother : Delimits other) :
    Delimits fun b => if c then read b else other b := by
  by_cases hc : c
  · simpa only [if_pos hc] using hread
  · simpa only [if_neg hc] using hother

/-- A reader that takes an octet and goes on from there. -/
theorem delimits_of_cons {next : UInt8 → Bytes → Option (α × Bytes)}
    (hnil : read [] = none) (hcons : ∀ x b, read (x :: b) = next x b)
    (hnext : ∀ x, Delimits (next x)) : Delimits read := by
  intro b a rest h
  cases b with
  | nil =>
      rw [hnil] at h
      cases h
  | cons x tail =>
      rw [hcons] at h
      obtain ⟨own, rfl, hown⟩ := hnext x _ _ _ h
      refine ⟨x :: own, rfl, fun behind => ?_⟩
      rw [List.cons_append, hcons]
      exact hown behind

/-- A reader that takes as many octets as it was told, if there are as many
and they are such as it wants. -/
theorem delimits_take (n : Nat) (p : Bytes → Prop) [DecidablePred p]
    (f : Bytes → α) :
    Delimits fun b => if (b.take n).length = n ∧ p (b.take n)
      then some (f (b.take n), b.drop n) else none := by
  intro b a rest h
  dsimp only at h
  split at h
  · next hroom =>
      cases h
      refine ⟨b.take n, (List.take_append_drop n b).symm, fun behind => ?_⟩
      dsimp only
      rw [List.take_left' hroom.1, List.drop_left' hroom.1, if_pos hroom]
  · cases h

end Steps

-- ================================================================ readers

theorem delimits_readNumber? (room n : Nat) :
    Delimits (readNumber? room n) := by
  induction room generalizing n with
  | zero => exact delimits_none
  | succ room ih =>
      exact delimits_of_cons rfl (fun _ _ => rfl) fun _ =>
        (delimits_some _).ite (ih _)

theorem delimits_readLength? : Delimits readLength? :=
  delimits_of_cons rfl (fun _ _ => rfl) fun _ =>
    (delimits_some _).ite (delimits_none.ite
      (delimits_take _ (Bytes.toNat · < 0x10000000000000000) _))

theorem delimits_readTag? : Delimits readTag? := by
  refine delimits_of_cons rfl (fun _ _ => rfl) fun x => ?_
  have htag (number : Nat) := delimits_some
    (Element.mk (x.toNat / 64) (x.toNat / 32 % 2 == 1) number [])
  exact ((delimits_readNumber? 5 0).bind htag).ite (htag (x.toNat % 32))

theorem delimits_readHeader? : Delimits readHeader? :=
  delimits_readTag?.bind fun e => delimits_readLength?.bind fun length =>
    delimits_some (e, length)

/-- An element reaches as far as its length tells. -/
theorem delimits_read? : Delimits read? := by
  have hcontent (header : Element × Nat) : Delimits fun b =>
      if (b.take header.2).length = header.2
        then some ({ header.1 with content := b.take header.2 },
          b.drop header.2) else none := by
    have htake := delimits_take header.2 (fun _ => True)
      fun content => { header.1 with content }
    simpa only [and_true] using htake
  exact delimits_readHeader?.bind hcontent

theorem delimits_readSequence? : Delimits readSequence? := by
  have hcontent (e : Element) : Delimits fun b =>
      e.sequence? >>= fun content => some (content, b) := by
    cases e.sequence? with
    | none => exact delimits_none
    | some content => exact delimits_some content
  exact delimits_read?.bind hcontent

end TlsKeystore.Ber
