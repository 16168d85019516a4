/-
Identifiers that are written from arcs.

# Arcs as octets

An arc is some octets with the continuation bit and one without
(`isArc_arcOctets`), and the number of the octets is the arc, so different
arcs have different octets (`arcOctets_injective`). Cutting after each octet
without the bit gives back the octets of each arc (`groups_flatMap`), so
identifiers of different arcs are different (`ofArcs_inj`).

# What strict readers take

They take identifiers of three to nine arcs behind the octet of the first
two, none of them past 28 bits (`wellFormed_ofArcs`): four octets hold such
an arc, and only the fifth of an arc can be one too many.
-/
import TlsKeystore.Proofs.Bytes
import TlsKeystore.Asn1.Oid

namespace TlsKeystore.Oid

-- ================================================================== arcs

/-- The number of groups of seven bits. -/
private def grouped (g : Bytes) : Nat :=
  g.foldl (fun n x => n * 128 + x.toNat % 128) 0

private theorem toNat_lastOctet (n : Nat) :
    (UInt8.ofNat (n % 128)).toNat = n % 128 :=
  UInt8.toNat_ofNat_of_lt' (show _ < 256 by omega)

private theorem grouped_append_singleton (g : Bytes) (x : UInt8) :
    grouped (g ++ [x]) = grouped g * 128 + x.toNat % 128 := by
  unfold grouped
  rw [List.foldl_append]
  rfl

/-- The octets of an arc but for the last: each of them has the bit, they
are no more than the arc needs, and they say the arc. -/
private theorem continuedOnto_eq (n : Nat) :
    ∃ front : Bytes, (∀ tail, continuedOnto n tail = front ++ tail)
      ∧ (∀ x ∈ front, ¬ x < 128) ∧ (∀ k, n < 128 ^ k → front.length ≤ k)
      ∧ grouped front = n := by
  induction n using Nat.strong_induction_on with
  | _ n ih =>
      by_cases hzero : n = 0
      · subst hzero
        refine ⟨[], fun tail => ?_, fun x hx => (List.not_mem_nil hx).elim,
          fun k _ => Nat.zero_le k, rfl⟩
        rw [continuedOnto]
        rfl
      · obtain ⟨front, hfront, hbit, hlength, hvalue⟩ :=
          ih (n / 128) (by omega)
        have hlast : (UInt8.ofNat (n % 128 + 128)).toNat = n % 128 + 128 :=
          UInt8.toNat_ofNat_of_lt' (show _ < 256 by omega)
        refine ⟨front ++ [UInt8.ofNat (n % 128 + 128)], fun tail => ?_,
          fun x hx => ?_, fun k hk => ?_, ?_⟩
        · rw [continuedOnto, dif_neg hzero, hfront, List.append_assoc]
          rfl
        · rcases List.mem_append.mp hx with hx | hx
          · exact hbit x hx
          · rw [List.mem_singleton.mp hx, UInt8.lt_iff_toNat_lt, hlast]
            exact Nat.not_lt.mpr (Nat.le_add_left ..)
        · cases k with
          | zero => omega
          | succ k =>
              have hk' : n / 128 < 128 ^ k := by
                rw [pow_succ] at hk
                omega
              have := hlength k hk'
              simpa using this
        · rw [grouped_append_singleton, hvalue, hlast]
          omega

/-- Octets of one arc: all but the last have the bit. -/
structure IsArc (g : Bytes) : Prop where
  split : ∃ (front : Bytes) (last : UInt8), g = front ++ [last]
    ∧ (∀ x ∈ front, ¬ x < 128) ∧ last < 128

private theorem grouped_arcOctets (n : Nat) : grouped (arcOctets n) = n := by
  obtain ⟨front, hfront, -, -, hvalue⟩ := continuedOnto_eq (n / 128)
  rw [arcOctets, hfront, grouped_append_singleton, hvalue, toNat_lastOctet]
  omega

/-- Different arcs have different octets. -/
theorem arcOctets_injective : Function.Injective arcOctets :=
  Function.LeftInverse.injective grouped_arcOctets

theorem isArc_arcOctets (n : Nat) : IsArc (arcOctets n) := by
  obtain ⟨front, hfront, hbit, -, -⟩ := continuedOnto_eq (n / 128)
  refine ⟨front, UInt8.ofNat (n % 128), hfront _, hbit, ?_⟩
  rw [UInt8.lt_iff_toNat_lt, toNat_lastOctet]
  exact Nat.mod_lt n (by decide)

theorem length_arcOctets_le {n k : Nat} (h : n < 128 ^ (k + 1)) :
    (arcOctets n).length ≤ k + 1 := by
  obtain ⟨front, hfront, -, hlength, -⟩ := continuedOnto_eq (n / 128)
  have hk : n / 128 < 128 ^ k := by
    rw [pow_succ] at h
    omega
  have := hlength k hk
  rw [arcOctets, hfront]
  simpa using this

-- ============================================================ identifiers

theorem groups_append {g : Bytes} (hg : IsArc g) (rest : Bytes) :
    groups (g ++ rest) = g :: groups rest := by
  obtain ⟨front, last, rfl, hbit, hlast⟩ := hg.split
  induction front with
  | nil =>
      show groups (last :: rest) = _
      rw [groups, if_pos hlast]
      rfl
  | cons x front ih =>
      have hx := hbit x List.mem_cons_self
      have hrest := ih ⟨front, last, rfl,
          fun y hy => hbit y (List.mem_cons_of_mem x hy), hlast⟩
        (fun y hy => hbit y (List.mem_cons_of_mem x hy))
      show groups (x :: (front ++ [last] ++ rest)) = _
      rw [groups, if_neg hx, hrest]
      rfl

/-- The octets of arcs, cut into arcs again. -/
theorem groups_flatMap (arcs : List Nat) :
    groups (arcs.flatMap arcOctets) = arcs.map arcOctets := by
  induction arcs with
  | nil => rfl
  | cons n arcs ih =>
      rw [List.flatMap_cons, groups_append (isArc_arcOctets n), ih,
        List.map_cons]

/-- Identifiers are equal if their arcs are, the first two taken as one. -/
theorem ofArcs_inj {a b a' b' : Nat} {rest rest' : List Nat} :
    ofArcs (a :: b :: rest) = ofArcs (a' :: b' :: rest')
      ↔ UInt8.ofNat (a * 40 + b) = UInt8.ofNat (a' * 40 + b')
        ∧ rest = rest' := by
  constructor
  · intro h
    obtain ⟨hfirst, hrest⟩ := List.cons.inj (Oid.mk.inj h)
    have hgroups := congrArg groups hrest
    rw [groups_flatMap, groups_flatMap] at hgroups
    exact ⟨hfirst, List.map_injective_iff.mpr arcOctets_injective hgroups⟩
  · rintro ⟨hfirst, rfl⟩
    simp only [ofArcs, hfirst]

/-- Strict readers reach the end of an arc of four octets or less. -/
private theorem arcsFit_append {g : Bytes} (hg : IsArc g) {read : Nat}
    (hlength : read + g.length ≤ 4) (rest : Bytes) :
    arcsFit read (g ++ rest) = arcsFit 0 rest := by
  obtain ⟨front, last, rfl, hbit, hlast⟩ := hg.split
  induction front generalizing read with
  | nil =>
      have hread : ¬ 4 ≤ read := by
        simp at hlength
        omega
      show arcsFit read (last :: rest) = _
      simp [arcsFit, hread, hlast]
  | cons x front ih =>
      have hx := hbit x List.mem_cons_self
      have hread : ¬ 4 ≤ read := by
        simp at hlength
        omega
      have hrest : arcsFit (read + 1) (front ++ [last] ++ rest)
          = arcsFit 0 rest :=
        ih ⟨front, last, rfl,
            fun y hy => hbit y (List.mem_cons_of_mem x hy), hlast⟩
          (by simp at hlength ⊢; omega)
          (fun y hy => hbit y (List.mem_cons_of_mem x hy))
      show arcsFit read (x :: (front ++ [last] ++ rest)) = _
      rw [arcsFit, ← hrest]
      simp [hread, hx]

private theorem arcsFit_flatMap {arcs : List Nat}
    (h : ∀ n ∈ arcs, n < 2 ^ 28) : arcsFit 0 (arcs.flatMap arcOctets) = true := by
  induction arcs with
  | nil => rfl
  | cons n arcs ih =>
      have hn := length_arcOctets_le (k := 3) (h n List.mem_cons_self)
      rw [List.flatMap_cons, arcsFit_append (isArc_arcOctets n) (by omega)]
      exact ih fun m hm => h m (List.mem_cons_of_mem n hm)

/-- An arc has one octet at least, and one of 28 bits has four at most. -/
private theorem length_flatMap {arcs : List Nat} (h : ∀ n ∈ arcs, n < 2 ^ 28) :
    arcs.length ≤ (arcs.flatMap arcOctets).length
      ∧ (arcs.flatMap arcOctets).length ≤ 4 * arcs.length := by
  induction arcs with
  | nil => simp
  | cons n arcs ih =>
      have hn := length_arcOctets_le (k := 3) (h n List.mem_cons_self)
      have hpos : 1 ≤ (arcOctets n).length := by
        obtain ⟨front, last, heq, -, -⟩ := (isArc_arcOctets n).split
        simp [heq]
      have hrest := ih fun m hm => h m (List.mem_cons_of_mem n hm)
      rw [List.flatMap_cons, List.length_append, List.length_cons]
      omega

theorem wellFormed_ofArcs {a b : Nat} {rest : List Nat}
    (h : a * 40 + b ≤ 119 ∧ 2 ≤ rest.length ∧ rest.length ≤ 9
      ∧ ∀ n ∈ rest, n < 2 ^ 28) :
    (ofArcs (a :: b :: rest)).wellFormed = true := by
  obtain ⟨hfirst, hleast, hmost, hrest⟩ := h
  obtain ⟨hlow, hhigh⟩ := length_flatMap hrest
  have hvalue : (UInt8.ofNat (a * 40 + b)).toNat = a * 40 + b :=
    UInt8.toNat_ofNat_of_lt' (show _ < 256 by omega)
  have hoctet : UInt8.ofNat (a * 40 + b) ≤ 119 := by
    rw [UInt8.le_iff_toNat_le, hvalue]
    exact hfirst
  simp only [wellFormed, ofArcs, arcsFit_flatMap hrest, hoctet,
    decide_true, Bool.true_and, Bool.and_true, Bool.and_eq_true,
    decide_eq_true_eq]
  omega

end TlsKeystore.Oid
