/-
Which entries a bundle opens with, and what is said of the others.

# The order

The entries of a bundle stand in the order of their aliases, no two under
one (`pairwise_entries`), and that is the order of the octets of these. So
the walk has one way through the entries of a bundle.

# The walk

An entry that ends the walk is refused for what it is and for how many
stand before it (`Refused`), and never for what stands behind it. A
certificate alone is refused anywhere, a key behind any other entry, and a
key in front if its chain is not one certificate. So nothing but a key with
one certificate gets past in front (`eq_of_not_refused`) and nothing at all
behind it (`refused_succ`): the walk ends at the first entry or the second
one, or with one entry or none.
-/
import TlsKeystore.Proofs.Selection

namespace TlsKeystore

namespace Pkcs12

-- ================================================================== order

variable {label : String} {e : Entry} {es : List (String × Entry)}

theorem mem_of_mem_insert {x : String × Entry} (hx : x ∈ insert label e es) :
    x = (label, e) ∨ x ∈ es := by
  induction es with
  | nil =>
      rw [insert] at hx
      exact Or.inl (List.mem_singleton.mp hx)
  | cons first rest ih =>
      obtain ⟨a, old⟩ := first
      rw [insert] at hx
      split at hx
      · exact List.mem_cons.mp hx
      · split at hx
        · rcases List.mem_cons.mp hx with h | h
          · exact Or.inl h
          · exact Or.inr (List.mem_cons_of_mem _ h)
        · rcases List.mem_cons.mp hx with rfl | h
          · exact Or.inr List.mem_cons_self
          · rcases ih h with h | h
            · exact Or.inl h
            · exact Or.inr (List.mem_cons_of_mem _ h)

theorem pairwise_insert (h : es.Pairwise (·.1 < ·.1)) :
    (insert label e es).Pairwise (·.1 < ·.1) := by
  induction es with
  | nil => exact List.pairwise_singleton ..
  | cons first rest ih =>
      obtain ⟨a, old⟩ := first
      obtain ⟨hfirst, hrest⟩ := List.pairwise_cons.mp h
      rw [insert]
      by_cases hbefore : label < a
      · rw [if_pos hbefore]
        apply List.pairwise_cons.mpr
        refine ⟨fun x hx => ?_, h⟩
        rcases List.mem_cons.mp hx with rfl | hx
        · exact hbefore
        · exact hbefore.trans (hfirst x hx)
      · rw [if_neg hbefore]
        by_cases hsame : label = a
        · rw [if_pos hsame]
          apply List.pairwise_cons.mpr
          exact ⟨fun x hx => hsame ▸ hfirst x hx, hrest⟩
        · rw [if_neg hsame]
          have hbehind : a < label := by
            rcases lt_trichotomy label a with h | h | h
            · exact absurd h hbefore
            · exact absurd h hsame
            · exact h
          apply List.pairwise_cons.mpr
          refine ⟨fun x hx => ?_, ih hrest⟩
          rcases mem_of_mem_insert hx with rfl | hx
          · exact hbehind
          · exact hfirst x hx

/-- Entries are in order of the octets of their aliases. -/
theorem pairwise_entries (bs : List Bag) :
    (entries bs).Pairwise fun x y => Utf8.encode x.1 < Utf8.encode y.1 := by
  have hinsert (added sorted : List (String × Entry))
      (h : sorted.Pairwise (·.1 < ·.1)) :
      (added.foldl (fun entries x => insert x.1 x.2 entries)
        sorted).Pairwise (·.1 < ·.1) := by
    induction added generalizing sorted with
    | nil => exact h
    | cons x added ih => exact ih _ (pairwise_insert h)
  exact (hinsert _ [] List.Pairwise.nil).imp Utf8.encode_lt_encode

end Pkcs12

namespace Bundle

open Pkcs12

-- =============================================================== refusals

/-- An entry that the walk does not get past if so many stand before it, and
what is said then. -/
inductive Refused : (before : Nat) → String × Entry → (said : String) → Prop
  where
  | notAKey (before : Nat) (label : String) (der : Bytes) :
      Refused before (label, .certificate der)
        ("Unexpected non-key entry " ++ label ++ " in bundle")
  | several (before : Nat) (label : String) (key : Bytes)
      (chain : List Bytes) :
      Refused (before + 1) (label, .keyChain key chain)
        "Expected one private key in bundle, found several"
  | chainLength (label : String) (key : Bytes) {chain : List Bytes}
      (h : chain.length ≠ 1) :
      Refused 0 (label, .keyChain key chain)
        ("Expected one certificate in bundle, found "
          ++ toString chain.length)

/-- The first entry that is refused, and what is said of it. -/
structure FirstRefused (es : List (String × Entry)) (i : Nat)
    (x : String × Entry) (said : String) : Prop where
  stands : es[i]? = some x
  refused : Refused i x said
  first : ∀ j < i, ∀ y, es[j]? = some y → ∀ other, ¬ Refused j y other

/-- What comes of a walk, in words. -/
def told (es : List (String × Entry)) : Except String OpenedBundle :=
  (walk none es).mapError OpenFailure.message

variable {x : String × Entry} {said : String}

/-- The one entry that gets past at the front. -/
theorem eq_of_not_refused (h : ∀ other, ¬ Refused 0 x other) :
    ∃ label key certificate, x = (label, .keyChain key [certificate]) := by
  obtain ⟨label, e⟩ := x
  cases e with
  | certificate der => exact absurd (.notAKey 0 label der) (h _)
  | keyChain key chain =>
      by_cases hchain : chain.length = 1
      · obtain ⟨certificate, rfl⟩ := List.length_eq_one_iff.mp hchain
        exact ⟨label, key, certificate, rfl⟩
      · exact absurd (.chainLength label key hchain) (h _)

theorem not_refused_keyChain (label : String) (key certificate : Bytes)
    (other : String) :
    ¬ Refused 0 (label, .keyChain key [certificate]) other := by
  intro h
  cases h with
  | chainLength _ _ h => exact h rfl

/-- No entry gets past behind another one. -/
theorem refused_succ (before : Nat) (x : String × Entry) :
    ∃ said, Refused (before + 1) x said := by
  obtain ⟨label, e⟩ := x
  cases e with
  | certificate der => exact ⟨_, .notAKey _ label der⟩
  | keyChain key chain => exact ⟨_, .several before label key chain⟩

-- =============================================================== the walk

/-- A walk that ends at its first entry. -/
theorem told_of_refused (h : Refused 0 x said)
    (behind : List (String × Entry)) : told (x :: behind) = .error said := by
  cases h with
  | notAKey => rfl
  | @chainLength label key chain h =>
      match chain with
      | [] => rfl
      | [_] => exact absurd rfl h
      | _ :: _ :: _ => rfl

/-- A walk that ends at its second entry. -/
theorem told_of_refused_one (label : String) (key certificate : Bytes)
    (h : Refused 1 x said) (behind : List (String × Entry)) :
    told ((label, .keyChain key [certificate]) :: x :: behind)
      = .error said := by
  cases h with
  | notAKey => rfl
  | several => rfl

/-- Nothing behind the first entry that is refused has a say. -/
theorem told_of_firstRefused {es : List (String × Entry)} {i : Nat}
    (h : FirstRefused es i x said) (behind : List (String × Entry)) :
    told (es.take (i + 1) ++ behind) = .error said := by
  obtain ⟨hstands, hrefused, hfirst⟩ := h
  match i, es with
  | 0, y :: rest =>
      obtain rfl : y = x := by simpa using hstands
      exact told_of_refused hrefused behind
  | 1, y :: z :: rest =>
      obtain rfl : z = x := by simpa using hstands
      obtain ⟨label, key, certificate, rfl⟩ :=
        eq_of_not_refused (hfirst 0 (by omega) y rfl)
      exact told_of_refused_one label key certificate hrefused behind
  | i + 2, es =>
      -- the entry behind the first one would have been refused before
      have hlength : i + 2 < es.length := (List.getElem?_eq_some_iff.mp
        hstands).1
      have hsecond : es[1]? = some es[1] :=
        List.getElem?_eq_getElem (by omega)
      obtain ⟨other, hother⟩ := refused_succ 0 es[1]
      exact absurd hother (hfirst 1 (by omega) _ hsecond other)

/-- A walk that fails has met the first entry that is refused, or none at
all. -/
theorem told_eq_error_iff {es : List (String × Entry)} :
    told es = .error said
      ↔ (es = [] ∧ said = "Expected one private key in bundle, found none")
        ∨ ∃ i x, FirstRefused es i x said := by
  constructor
  · intro h
    cases es with
    | nil => exact Or.inl ⟨rfl, (Except.error.inj h).symm⟩
    | cons x rest =>
        refine Or.inr ?_
        by_cases hx : ∃ other, Refused 0 x other
        · obtain ⟨other, hx⟩ := hx
          obtain rfl : other = said :=
            Except.error.inj ((told_of_refused hx rest).symm.trans h)
          exact ⟨0, x, rfl, hx, fun j hj => absurd hj (Nat.not_lt_zero j)⟩
        · obtain ⟨label, key, certificate, rfl⟩ :=
            eq_of_not_refused (not_exists.mp hx)
          cases rest with
          | nil => cases h
          | cons y behind =>
              obtain ⟨other, hy⟩ := refused_succ 0 y
              obtain rfl : other = said := Except.error.inj
                ((told_of_refused_one label key certificate hy behind).symm.trans
                  h)
              refine ⟨1, y, rfl, hy, fun j hj z hz => ?_⟩
              obtain rfl : j = 0 := by omega
              obtain rfl : _ = z := Option.some.inj hz
              exact not_refused_keyChain label key certificate
  · intro h
    rcases h with ⟨rfl, rfl⟩ | ⟨i, x, h⟩
    · rfl
    · have htold := told_of_firstRefused h (es.drop (i + 1))
      rwa [List.take_append_drop] at htold

/-- What is said where there is no entry is said of none. -/
theorem Refused.ne_none {before : Nat} (h : Refused before x said) :
    said ≠ "Expected one private key in bundle, found none" := by
  intro hsaid
  have hfront := congrArg (fun s : String => s.toList.take 14) hsaid
  cases h with
  | notAKey => simp at hfront
  | several => exact absurd hsaid (by decide)
  | chainLength => simp at hfront

/-- How a walk ends. It succeeds exactly with one entry, of a key with one
certificate, and with these; it finds nothing exactly if there is nothing;
and otherwise it fails with what is said of the first entry that is
refused, whatever stands behind that. And a bundle opens as the walk
through its entries ends, which are in the order of the octets of their
aliases. -/
theorem walk_classifies (es : List (String × Entry)) :
    (∀ b, told es = .ok b
        ↔ es = [(b.label, .keyChain b.key [b.certificate])])
      ∧ (told es = .error "Expected one private key in bundle, found none"
        ↔ es = [])
      ∧ (∀ said, told es = .error said
        ↔ (es = [] ∧ said = "Expected one private key in bundle, found none")
          ∨ ∃ i x, FirstRefused es i x said)
      ∧ (∀ i x said, FirstRefused es i x said → ∀ behind,
        told (es.take (i + 1) ++ behind) = .error said)
      ∧ (∀ der password, (unlock der password).mapError OpenFailure.message
        = ((bags der password).mapError fun d =>
            (OpenFailure.unreadable d).message).bind fun bs =>
          told (entries bs))
      ∧ ∀ bs, (entries bs).Pairwise fun x y =>
        Utf8.encode x.1 < Utf8.encode y.1 := by
  refine ⟨fun b => mapError_eq_ok_iff.trans walk_none_eq_ok_iff, ?_,
    fun said => told_eq_error_iff,
    fun i x said h behind => told_of_firstRefused h behind, ?_,
    pairwise_entries⟩
  · rw [told_eq_error_iff]
    constructor
    · intro h
      rcases h with ⟨h, -⟩ | ⟨i, x, h⟩
      · exact h
      · exact absurd rfl h.refused.ne_none
    · intro h
      exact Or.inl ⟨h, rfl⟩
  · intro der password
    unfold unlock
    cases bags der password with
    | error d => rfl
    | ok bs => rfl

/-- A certificate behind a good key is what is complained of, and not the
key with two certificates behind it. -/
theorem walk_classifies_behind :
    let es : List (String × Entry) :=
      [("a", .keyChain [1] [[2]]), ("b", .certificate [3]),
        ("c", .keyChain [4] [[5], [6]])]
    told es = .error "Unexpected non-key entry b in bundle"
      ∧ told [("a", .keyChain [1] [[2]]), ("b", .certificate [3])]
        = .error "Unexpected non-key entry b in bundle" := by
  intro es
  obtain ⟨-, -, hfail, hbehind, -⟩ := walk_classifies es
  have hfirst : FirstRefused es 1 ("b", .certificate [3])
      "Unexpected non-key entry b in bundle" := by
    refine ⟨rfl, .notAKey 1 "b" [3], fun j hj y hy => ?_⟩
    obtain rfl : j = 0 := by omega
    obtain rfl : _ = y := Option.some.inj hy
    exact not_refused_keyChain "a" [1] [2]
  exact ⟨(hfail _).mpr (Or.inr ⟨1, _, hfirst⟩), hbehind 1 _ _ hfirst []⟩

end Bundle
end TlsKeystore
