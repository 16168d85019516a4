/-
What basic constraints say, and where they go unseen.

# What they say

`SaysConstraints` tells which octets are basic constraints, and what of: a
SEQUENCE at the front that holds a flag, a path length, both in this order,
or neither, and nothing else. A path length is a number within 32 bits,
under any of the four types that hold numbers (`IsNumber`). The reader
finds what octets say, and nothing where they say nothing
(`constraintsValue?_eq_some_iff`). In their distinguished form they say
what they were written for, as long as the path length fits
(`constraintsValue?_constraintsElement`).

# Where they go unseen

A certificate is answered by the number of its extensions of this kind.
With several there is no answer; one that says something is shown, with
its own word on whether it is critical. One that says nothing is passed
over, and its certificate is answered like one that has no constraints at
all (`caConstraint_of_parse`): nothing tells a damaged constraint, or an
overlong path, from none.
-/
import TlsKeystore.Proofs.X509.Inspect

namespace TlsKeystore

-- ================================================================== views

namespace Ber.Element

theorem isUniversal_iff {e : Element} {u : Universal} :
    e.isUniversal u = true ↔ e.tagClass = 0 ∧ e.number = u.number := by
  simp [isUniversal, isOf]

/-- The content of a SEQUENCE of the universal class. -/
theorem sequence?_eq_some_iff {e : Element} {content : Bytes} :
    (if e.tagClass = 0 then e.sequence? else none) = some content
      ↔ e = ⟨0, true, 16, content⟩ := by
  obtain ⟨cls, constructed, number, inner⟩ := e
  constructor
  · intro h
    split at h
    · next hclass =>
        unfold sequence? at h
        split at h
        · next hform =>
            simp only [Bool.and_eq_true, isOf, beq_iff_eq] at hform
            obtain ⟨hconstructed, hnumber⟩ := hform
            cases h
            cases hclass
            cases hconstructed
            cases hnumber
            rfl
        · cases h
    · cases h
  · intro h
    cases h
    rfl

/-- The octets of a BIT STRING, behind a count of less than eight unused
bits, which are zero. -/
theorem bits?_eq_some_iff {content octets : Bytes} :
    bits? ⟨0, false, 3, content⟩ = some octets
      ↔ ∃ unused : UInt8, content = unused :: octets ∧ unused < 8
        ∧ (octets = [] → unused = 0)
        ∧ Bytes.toNat octets % 2 ^ unused.toNat = 0 := by
  cases content with
  | nil => simp [bits?]
  | cons unused tail =>
      have hstring : isOf ⟨0, false, 3, unused :: tail⟩ .bitString = true :=
        rfl
      unfold bits?
      simp only [hstring, Bool.not_true, Bool.or_false, Bool.false_eq_true,
        if_false, List.cons.injEq]
      by_cases hunused : unused < 8
      · have hbits : unused.toNat < 8 := UInt8.lt_iff_toNat_lt.mp hunused
        have hlast := Bytes.toNat_mod_two_pow tail hbits.le
        have hpow : Nat.pow 2 unused.toNat = 2 ^ unused.toNat := rfl
        rw [if_neg (UInt8.not_le.mpr hunused), hpow, ← hlast]
        constructor
        · intro h
          split at h
          · cases h
          · next hempty =>
              split at h
              · cases h
              · next hzero =>
                  cases h
                  exact ⟨unused, ⟨rfl, rfl⟩, hunused, by tauto, by tauto⟩
        · rintro ⟨_, ⟨rfl, rfl⟩, -, hempty, hzero⟩
          rw [if_neg (by tauto), if_neg (by tauto)]
      · rw [if_pos (UInt8.not_lt.mp hunused)]
        simp only [ite_self]
        constructor
        · intro h
          cases h
        · rintro ⟨_, ⟨rfl, rfl⟩, hlt, -⟩
          exact absurd hlt hunused

end Ber.Element

namespace Certificate

open Element (around ofNatural)

-- ====================================================== what octets say

/-- A BOOLEAN is a flag, set by every octet but zero. -/
inductive IsFlag : Ber.Element → Bool → Prop
  | octet (x : UInt8) : IsFlag ⟨0, false, 1, [x]⟩ (x != 0)

/-- The elements that stand for a number: an INTEGER without a sign, an
ENUMERATED, an OCTET STRING, and a BIT STRING, whose unused bits do not
count. -/
inductive IsNumber : Ber.Element → Nat → Prop
  | integer {content : Bytes} (hsign : content.headD 0 < 128) :
      IsNumber ⟨0, false, 2, content⟩ (Bytes.toNat content)
  | enumerated (content : Bytes) :
      IsNumber ⟨0, false, 10, content⟩ (Bytes.toNat content)
  | octets (content : Bytes) :
      IsNumber ⟨0, false, 4, content⟩ (Bytes.toNat content)
  | bits {unused : UInt8} {octets : Bytes} {n : Nat} (hunused : unused < 8)
      (hempty : octets = [] → unused = 0)
      (hvalue : Bytes.toNat octets = n * 2 ^ unused.toNat) :
      IsNumber ⟨0, false, 3, unused :: octets⟩ n

/-- The members of basic constraints. No flag means that it is not set. -/
inductive ConstraintMembers : List Ber.Element → Bool → Option Nat → Prop
  | neither : ConstraintMembers [] false none
  | flag {e : Ber.Element} {ca : Bool} (hflag : IsFlag e ca) :
      ConstraintMembers [e] ca none
  | pathLength {e : Ber.Element} {n : Nat} (hnumber : IsNumber e n)
      (hfits : n < 2 ^ 32) : ConstraintMembers [e] false (some n)
  | both {e f : Ber.Element} {ca : Bool} {n : Nat} (hflag : IsFlag e ca)
      (hnumber : IsNumber f n) (hfits : n < 2 ^ 32) :
      ConstraintMembers [e, f] ca (some n)

/-- Octets that are basic constraints, and what they say. What stands behind
the SEQUENCE does not count. -/
def SaysConstraints (value : Bytes) (ca : Bool) (pathLength : Option Nat) :
    Prop :=
  ∃ content rest members, Ber.read? value = some (⟨0, true, 16, content⟩, rest)
    ∧ Ber.Begins content members []
    ∧ ConstraintMembers members ca pathLength

-- ================================================================ members

/-- The flag that an element is. -/
def flag? : Ber.Element → Option Bool
  | ⟨0, false, 1, [x]⟩ => some (x != 0)
  | _ => none

theorem flag?_eq_some_iff {e : Ber.Element} {ca : Bool} :
    flag? e = some ca ↔ IsFlag e ca := by
  constructor
  · intro h
    unfold flag? at h
    split at h
    · next x =>
        cases h
        exact IsFlag.octet x
    · cases h
  · intro h
    cases h
    rfl

/-- The number that an element stands for, of whatever size. -/
def number? (e : Ber.Element) : Option Nat :=
  if e.constructed then none
  else if e.isUniversal .integer then
    if 128 ≤ e.content.headD 0 then none else some (Bytes.toNat e.content)
  else if e.isUniversal .enumerated ∨ e.isUniversal .octetString then
    some (Bytes.toNat e.content)
  else if e.isUniversal .bitString then
    e.bits?.map fun octets =>
      Bytes.toNat octets / Nat.pow 2 (e.content.headD 0).toNat
  else none

theorem isNumber_of_number? {e : Ber.Element} {n : Nat}
    (h : number? e = some n) : IsNumber e n := by
  obtain ⟨cls, constructed, number, content⟩ := e
  unfold number? at h
  split at h
  · cases h
  · next hform =>
      obtain rfl : constructed = false := by simpa using hform
      split at h
      · next hinteger =>
          obtain ⟨rfl, rfl⟩ := Ber.Element.isUniversal_iff.mp hinteger
          split at h
          · cases h
          · next hsign =>
              cases h
              exact IsNumber.integer (UInt8.not_le.mp hsign)
      · split at h
        · next hplain =>
            cases h
            rcases hplain with hplain | hplain
            · obtain ⟨rfl, rfl⟩ := Ber.Element.isUniversal_iff.mp hplain
              exact IsNumber.enumerated content
            · obtain ⟨rfl, rfl⟩ := Ber.Element.isUniversal_iff.mp hplain
              exact IsNumber.octets content
        · split at h
          · next hbits =>
              obtain ⟨rfl, rfl⟩ := Ber.Element.isUniversal_iff.mp hbits
              obtain ⟨octets, hoctets, rfl⟩ := Option.map_eq_some_iff.mp h
              obtain ⟨unused, rfl, hunused, hempty, hzero⟩ :=
                Ber.Element.bits?_eq_some_iff.mp hoctets
              have hdvd := Nat.dvd_of_mod_eq_zero hzero
              exact IsNumber.bits hunused hempty
                (Nat.div_mul_cancel hdvd).symm
          · cases h

theorem number?_of_isNumber {e : Ber.Element} {n : Nat} (h : IsNumber e n) :
    number? e = some n := by
  cases h with
  | integer hsign =>
      have hplain : ¬ (128 : UInt8) ≤ List.headD _ 0 := UInt8.not_le.mpr hsign
      exact if_neg hplain
  | enumerated content => rfl
  | octets content => rfl
  | @bits unused octets n hunused hempty hvalue =>
      have hzero : Bytes.toNat octets % 2 ^ unused.toNat = 0 := by
        rw [hvalue, Nat.mul_mod_left]
      have hbits : Ber.Element.bits? ⟨0, false, 3, unused :: octets⟩
          = some octets :=
        Ber.Element.bits?_eq_some_iff.mpr
          ⟨unused, rfl, hunused, hempty, hzero⟩
      have hdiv : Bytes.toNat octets / Nat.pow 2 unused.toNat = n := by
        rw [hvalue]
        exact Nat.mul_div_cancel n (Nat.two_pow_pos _)
      show (Ber.Element.bits? ⟨0, false, 3, unused :: octets⟩).map _ = some n
      rw [hbits, Option.map_some, Option.some.injEq]
      exact hdiv

/-- A path length is a number, and fits. -/
theorem pathLength?_eq (e : Ber.Element) :
    pathLength? e = (number? e).filter (· < 2 ^ 32) := rfl

theorem pathLength?_eq_some_iff {e : Ber.Element} {n : Nat} :
    pathLength? e = some n ↔ IsNumber e n ∧ n < 2 ^ 32 := by
  rw [pathLength?_eq, Option.filter_eq_some_iff, decide_eq_true_eq]
  exact and_congr_left' ⟨isNumber_of_number?, number?_of_isNumber⟩

/-- A number is no flag. -/
theorem flag?_of_isNumber {e : Ber.Element} {n : Nat} (h : IsNumber e n) :
    flag? e = none := by
  cases h <;> rfl

/-- What members say: up to two of them, a flag before a path length. -/
def say? : List Ber.Element → Option (Bool × Option Nat)
  | [] => some (false, none)
  | [e] =>
    match flag? e with
    | some ca => some (ca, none)
    | none => (pathLength? e).map fun n => (false, some n)
  | [e, f] => do
    let ca ← flag? e
    let n ← pathLength? f
    some (ca, some n)
  | _ => none

theorem say?_eq_some_iff {members : List Ber.Element} {ca : Bool}
    {pathLength : Option Nat} :
    say? members = some (ca, pathLength)
      ↔ ConstraintMembers members ca pathLength := by
  constructor
  · intro h
    unfold say? at h
    split at h
    · cases h
      exact .neither
    · split at h
      · next e flag hflag =>
          cases h
          exact .flag (flag?_eq_some_iff.mp hflag)
      · obtain ⟨n, hn, hsaid⟩ := Option.map_eq_some_iff.mp h
        cases hsaid
        obtain ⟨hnumber, hfits⟩ := pathLength?_eq_some_iff.mp hn
        exact .pathLength hnumber hfits
    · obtain ⟨flag, hflag, h⟩ := Option.bind_eq_some_iff.mp h
      obtain ⟨n, hn, h⟩ := Option.bind_eq_some_iff.mp h
      cases h
      obtain ⟨hnumber, hfits⟩ := pathLength?_eq_some_iff.mp hn
      exact .both (flag?_eq_some_iff.mp hflag) hnumber hfits
    · cases h
  · intro h
    cases h with
    | neither => rfl
    | flag hflag => simp [say?, flag?_eq_some_iff.mpr hflag]
    | pathLength hnumber hfits =>
        have hn := pathLength?_eq_some_iff.mpr ⟨hnumber, hfits⟩
        simp [say?, flag?_of_isNumber hnumber, hn]
    | both hflag hnumber hfits =>
        have hn := pathLength?_eq_some_iff.mpr ⟨hnumber, hfits⟩
        simp [say?, flag?_eq_some_iff.mpr hflag, hn]

-- =============================================================== the value

/-- What the content of the SEQUENCE says. -/
def contentSays? (content : Bytes) : Option (Bool × Option Nat) :=
  if content = [] then some (false, none)
  else do
    let (first, content) ← Ber.read? content
    if content = [] then
      match flag? first with
      | some ca => some (ca, none)
      | none => (pathLength? first).map fun n => (false, some n)
    else
      let (second, content) ← Ber.read? content
      let ca ← flag? first
      let n ← pathLength? second
      if content = [] then some (ca, some n) else none

theorem constraintsValue?_eq (value : Bytes) :
    constraintsValue? value = (Ber.read? value).bind fun front =>
      (if front.1.tagClass = 0 then front.1.sequence? else none).bind
        contentSays? := by
  unfold constraintsValue?
  congr 1
  funext ⟨e, rest⟩
  by_cases hclass : e.tagClass = 0
  · simp only [if_pos hclass]
    rfl
  · simp only [if_neg hclass]
    rfl

/-- Content says what its members say, if it consists of members. -/
theorem contentSays?_of_begins {content : Bytes} {members : List Ber.Element}
    (h : Ber.Begins content members []) :
    contentSays? content = say? members := by
  unfold contentSays?
  match members with
  | [] => rw [Ber.begins_nil_iff.mp h]; rfl
  | [e] =>
      obtain ⟨hne, hread⟩ := Ber.begins_singleton_iff.mp h
      rw [if_neg hne, hread]
      rfl
  | [e, f] =>
      obtain ⟨mid, hfirst, hbehind⟩ := Ber.begins_cons_iff.mp h
      obtain ⟨hne, hsecond⟩ := Ber.begins_singleton_iff.mp hbehind
      rw [if_neg (Ber.ne_nil_of_read? hfirst), hfirst]
      simp [hne, hsecond, say?]
  | e :: f :: g :: es =>
      obtain ⟨mid, hfirst, hbehind⟩ := Ber.begins_cons_iff.mp h
      obtain ⟨mid', hsecond, hbehind⟩ := Ber.begins_cons_iff.mp hbehind
      obtain ⟨mid'', hthird, -⟩ := Ber.begins_cons_iff.mp hbehind
      rw [if_neg (Ber.ne_nil_of_read? hfirst), hfirst]
      simp [Ber.ne_nil_of_read? hsecond, hsecond,
        Ber.ne_nil_of_read? hthird, say?]

/-- Content that says something consists of members. -/
theorem exists_begins_of_contentSays? {content : Bytes}
    {said : Bool × Option Nat} (h : contentSays? content = some said) :
    ∃ members, Ber.Begins content members [] := by
  unfold contentSays? at h
  by_cases hempty : content = []
  · exact ⟨[], Ber.begins_nil_iff.mpr hempty⟩
  · rw [if_neg hempty] at h
    obtain ⟨⟨first, mid⟩, hfirst, h⟩ := Option.bind_eq_some_iff.mp h
    dsimp only at h
    by_cases hend : mid = []
    · exact ⟨[first], Ber.begins_cons_iff.mpr
        ⟨mid, hfirst, Ber.begins_nil_iff.mpr hend⟩⟩
    · rw [if_neg hend] at h
      obtain ⟨⟨second, behind⟩, hsecond, h⟩ := Option.bind_eq_some_iff.mp h
      obtain ⟨ca, -, h⟩ := Option.bind_eq_some_iff.mp h
      obtain ⟨n, -, h⟩ := Option.bind_eq_some_iff.mp h
      obtain ⟨hend', -⟩ := Option.ite_none_right_eq_some.mp h
      exact ⟨[first, second], Ber.begins_cons_iff.mpr ⟨mid, hfirst,
        Ber.begins_cons_iff.mpr ⟨behind, hsecond,
          Ber.begins_nil_iff.mpr hend'⟩⟩⟩

/-- The reader finds what octets say, and nothing else. -/
theorem constraintsValue?_eq_some_iff {value : Bytes} {ca : Bool}
    {pathLength : Option Nat} :
    constraintsValue? value = some (ca, pathLength)
      ↔ SaysConstraints value ca pathLength := by
  rw [constraintsValue?_eq]
  constructor
  · intro h
    obtain ⟨⟨e, rest⟩, hread, h⟩ := Option.bind_eq_some_iff.mp h
    obtain ⟨content, hcontent, h⟩ := Option.bind_eq_some_iff.mp h
    obtain rfl := Ber.Element.sequence?_eq_some_iff.mp hcontent
    obtain ⟨members, hbegins⟩ := exists_begins_of_contentSays? h
    have hmembers := (contentSays?_of_begins hbegins).symm.trans h
    exact ⟨content, rest, members, hread, hbegins,
      say?_eq_some_iff.mp hmembers⟩
  · rintro ⟨content, rest, members, hread, hbegins, hmembers⟩
    rw [hread]
    exact (contentSays?_of_begins hbegins).trans
      (say?_eq_some_iff.mpr hmembers)

-- ================================================== the distinguished form

/-- The members of basic constraints as they are to be written: the flag
where it is set, the path length where there is one. -/
def writtenMembers (ca : Bool) (pathLength : Option Nat) : List Element :=
  (if ca then [⟨Tag.boolean, [0xFF]⟩] else [])
    ++ (pathLength.map ofNatural).toList

def constraintsElement (ca : Bool) (pathLength : Option Nat) : Element :=
  around Tag.sequence (writtenMembers ca pathLength)

theorem isNumber_ofNatural (n : Nat) : IsNumber (ofNatural n).view n := by
  have hsign : (Der.naturalOctets n).headD 0 < 128 := by
    rcases Der.naturalOctets_cases n with
      ⟨-, h⟩ | ⟨x, rest, -, ⟨hx, h⟩ | ⟨-, h⟩⟩
    · rw [h]
      decide
    · rw [h]
      exact hx
    · rw [h]
      show (0 : UInt8) < 128
      decide
  have hnumber := IsNumber.integer hsign
  rwa [Der.toNat_naturalOctets, ← Element.view_ofNatural] at hnumber

theorem pathLength?_ofNatural (n : Nat) :
    pathLength? (ofNatural n).view = if n < 2 ^ 32 then some n else none := by
  rw [pathLength?_eq, number?_of_isNumber (isNumber_ofNatural n)]
  by_cases hfits : n < 2 ^ 32
  · rw [if_pos hfits]
    exact Option.filter_eq_some_iff.mpr ⟨rfl, decide_eq_true hfits⟩
  · have hlarge : decide (n < 2 ^ 32) = false := decide_eq_false hfits
    rw [if_neg hfits, Option.filter_some, hlarge]
    rfl

theorem flag?_ofNatural (n : Nat) : flag? (ofNatural n).view = none :=
  flag?_of_isNumber (isNumber_ofNatural n)

/-- Every member has a short tag. -/
theorem shortTag_of_mem_writtenMembers {ca : Bool} {pathLength : Option Nat}
    {e : Element} (he : e ∈ writtenMembers ca pathLength) :
    Ber.shortTag e.tag = true := by
  rw [writtenMembers, List.mem_append] at he
  cases he with
  | inl hflag =>
      cases ca with
      | false => cases hflag
      | true =>
          rw [List.mem_singleton.mp hflag]
          exact Ber.shortTag_of_mem Tag.boolean (by decide)
  | inr hlength =>
      cases pathLength with
      | none => cases hlength
      | some n =>
          rw [List.mem_singleton.mp hlength]
          exact Ber.shortTag_of_mem Tag.integer (by decide)

theorem begins_constraintsElement {ca : Bool} {pathLength : Option Nat}
    (hroom : (constraintsElement ca pathLength).HasRoom) :
    Ber.Begins (constraintsElement ca pathLength).content
      ((writtenMembers ca pathLength).map Element.view) [] := by
  rw [constraintsElement, Element.around_content]
  refine Ber.begins_flatMap_encode fun e he => ⟨?_, ?_⟩
  · exact shortTag_of_mem_writtenMembers he
  · exact hroom.of_mem he

/-- The members say what they were written for, as long as the path length
fits, and nothing otherwise. -/
theorem say?_writtenMembers (ca : Bool) (pathLength : Option Nat) :
    say? ((writtenMembers ca pathLength).map Element.view)
      = if pathLength.all (· < 2 ^ 32) then some (ca, pathLength)
        else none := by
  have hset : flag? ⟨0, false, 1, [0xFF]⟩ = some true := rfl
  cases pathLength with
  | none => cases ca <;> rfl
  | some n =>
      have hn := pathLength?_ofNatural n
      by_cases hfits : n < 2 ^ 32
      · rw [if_pos hfits] at hn
        cases ca <;> simp [writtenMembers, say?, hset, flag?_ofNatural, hn,
          hfits, -Element.view_ofNatural, -Nat.reducePow]
      · rw [if_neg hfits] at hn
        cases ca <;> simp [writtenMembers, say?, hset, flag?_ofNatural, hn,
          hfits, -Element.view_ofNatural, -Nat.reducePow]

theorem constraintsValue?_constraintsElement {ca : Bool}
    {pathLength : Option Nat}
    (hroom : (constraintsElement ca pathLength).HasRoom) :
    constraintsValue? (constraintsElement ca pathLength).encode
      = if pathLength.all (· < 2 ^ 32) then some (ca, pathLength)
        else none := by
  have hread := Ber.read?_encode (by simp [constraintsElement]) hroom []
  have hview : (constraintsElement ca pathLength).view
      = ⟨0, true, 16, (constraintsElement ca pathLength).content⟩ :=
    Element.view_sequence _
  rw [List.append_nil, hview] at hread
  rw [constraintsValue?_eq, hread]
  show contentSays? (constraintsElement ca pathLength).content = _
  rw [contentSays?_of_begins (begins_constraintsElement hroom),
    say?_writtenMembers]

-- =========================================================== certificates

/-- The extensions of a certificate that are to hold basic constraints. -/
def constraintExtensions (c : Certificate) : List Extension :=
  c.extensions.filter (·.kind = basicConstraints)

theorem caConstraint_of_nil {c : Certificate}
    (h : c.constraintExtensions = []) : c.caConstraint = .ok none := by
  rw [constraintExtensions] at h
  rw [caConstraint, h]

theorem caConstraint_of_singleton {c : Certificate} {e : Extension}
    (h : c.constraintExtensions = [e]) :
    c.caConstraint = .ok ((constraintsValue? e.value).map
      fun said => ⟨said.1, said.2, e.critical⟩) := by
  rw [constraintExtensions] at h
  rw [caConstraint, h]

theorem caConstraint_of_several {c : Certificate} {e f : Extension}
    {es : List Extension} (h : c.constraintExtensions = e :: f :: es) :
    c.caConstraint = .error .repeatedConstraints := by
  rw [constraintExtensions] at h
  rw [caConstraint, h]

/-- One extension is shown as what it says, with its own word on whether it
is critical. -/
theorem caConstraint_of_singleton_eq_some_iff {c : Certificate}
    {e : Extension} (h : c.constraintExtensions = [e]) {r : CaConstraint} :
    c.caConstraint = .ok (some r)
      ↔ SaysConstraints e.value r.authority r.pathLength
        ∧ e.critical = r.critical := by
  rw [caConstraint_of_singleton h, Except.ok.injEq, Option.map_eq_some_iff]
  constructor
  · rintro ⟨⟨ca, pathLength⟩, hvalue, rfl⟩
    exact ⟨constraintsValue?_eq_some_iff.mp hvalue, rfl⟩
  · rintro ⟨hmeaning, hcritical⟩
    refine ⟨_, constraintsValue?_eq_some_iff.mpr hmeaning, ?_⟩
    rw [hcritical]

/-- One extension that says nothing is passed over. -/
theorem caConstraint_of_singleton_eq_none_iff {c : Certificate}
    {e : Extension} (h : c.constraintExtensions = [e]) :
    c.caConstraint = .ok none
      ↔ ¬ ∃ ca pathLength, SaysConstraints e.value ca pathLength := by
  rw [caConstraint_of_singleton h, Except.ok.injEq, Option.map_eq_none_iff]
  constructor
  · rintro hnone ⟨ca, pathLength, hmeaning⟩
    rw [constraintsValue?_eq_some_iff.mpr hmeaning] at hnone
    cases hnone
  · intro hnone
    cases hvalue : constraintsValue? e.value with
    | none => rfl
    | some said =>
        exact absurd ⟨_, _, constraintsValue?_eq_some_iff.mp hvalue⟩ hnone

end Certificate

open Certificate in
/-- What is answered on the basic constraints of octets that are read as a
certificate. None are shown where it has no such extension, and also where
it has one that does not say any. One that says some is shown as it stands.
With several, and only then, there is no answer. So basic constraints in
their distinguished form are shown if the path length has 32 bits, and
otherwise taken for absent. -/
theorem caConstraint_of_parse {der : Bytes} {c : Certificate}
    (hparse : Certificate.parse der = .ok c) :
    (Inspect.caConstraint der = .ok none
        ↔ c.constraintExtensions = []
          ∨ ∃ e, c.constraintExtensions = [e]
            ∧ ¬ ∃ ca pathLength, SaysConstraints e.value ca pathLength)
      ∧ (∀ r : CaConstraint, Inspect.caConstraint der = .ok (some r)
        ↔ ∃ e, c.constraintExtensions = [e]
          ∧ SaysConstraints e.value r.authority r.pathLength
          ∧ e.critical = r.critical)
      ∧ (∀ why, Inspect.caConstraint der = .error why
        ↔ 2 ≤ c.constraintExtensions.length ∧ why = .repeatedConstraints)
      ∧ ∀ (e : Extension) (ca : Bool) (pathLength : Option Nat),
        c.constraintExtensions = [e] →
        (constraintsElement ca pathLength).HasRoom →
        e.value = (constraintsElement ca pathLength).encode →
        Inspect.caConstraint der
          = .ok (if pathLength.all (· < 2 ^ 32)
              then some ⟨ca, pathLength, e.critical⟩ else none) := by
  have hask : Inspect.caConstraint der = c.caConstraint :=
    Inspect.ask_eq hparse _
  rw [hask]
  have hwritten : ∀ (e : Extension) (ca : Bool) (pathLength : Option Nat),
      c.constraintExtensions = [e] →
      (constraintsElement ca pathLength).HasRoom →
      e.value = (constraintsElement ca pathLength).encode →
      c.caConstraint = .ok (if pathLength.all (· < 2 ^ 32)
        then some ⟨ca, pathLength, e.critical⟩ else none) := by
    intro e ca pathLength hone hroom hvalue
    rw [caConstraint_of_singleton hone, hvalue,
      constraintsValue?_constraintsElement hroom]
    split <;> rfl
  refine ⟨?_, ?_, ?_, hwritten⟩
  · match hheld : c.constraintExtensions with
    | [] => simp [caConstraint_of_nil hheld]
    | [e] => simp [caConstraint_of_singleton_eq_none_iff hheld]
    | e :: f :: es => simp [caConstraint_of_several hheld]
  · intro r
    match hheld : c.constraintExtensions with
    | [] => simp [caConstraint_of_nil hheld]
    | [e] => simp [caConstraint_of_singleton_eq_some_iff hheld]
    | e :: f :: es => simp [caConstraint_of_several hheld]
  · intro why
    match hheld : c.constraintExtensions with
    | [] => simp [caConstraint_of_nil hheld]
    | [e] => simp [caConstraint_of_singleton hheld]
    | e :: f :: es => simp [caConstraint_of_several hheld, eq_comm]

/-- A certificate that says little but how long the paths below it may
become. -/
def authorityWithin (pathLength : Nat) : Bytes :=
  let algorithm := Der.sequence [Der.oid ⟨[42]⟩]
  let name := Der.sequence []
  let date := Element.encode ⟨Tag.utcTime,
    [0x37, 0x30, 0x30, 0x31, 0x30, 0x31, 0x30, 0x30, 0x30, 0x30, 0x5A]⟩
  let constraints := (Certificate.constraintsElement true pathLength).encode
  let extension := Der.sequence [Der.oid Certificate.basicConstraints,
    Der.boolean true, Der.octetString constraints]
  Der.sequence [
    Der.sequence [Der.natural 1, algorithm, name, Der.sequence [date, date],
      name, Der.sequence [algorithm, Der.bitString []],
      Der.wrap (Tag.explicit 3) [Der.sequence [extension]]],
    algorithm, Der.bitString []]

/-- The longest path that fits is shown; with the next one the same
certificate, critical extension and all, passes for one without
constraints. -/
theorem caConstraint_authorityWithin :
    Inspect.caConstraint (authorityWithin 4294967295)
        = .ok (some ⟨true, some 4294967295, true⟩)
      ∧ ∃ c e, Certificate.parse (authorityWithin 4294967296) = .ok c
        ∧ c.constraintExtensions = [e] ∧ e.critical = true
        ∧ e.value
          = (Certificate.constraintsElement true (some 4294967296)).encode
        ∧ Inspect.caConstraint (authorityWithin 4294967296) = .ok none := by
  have hone {n : Nat} (h : (Certificate.parse (authorityWithin n)).toOption.any
      (fun c => c.constraintExtensions = [⟨Certificate.basicConstraints, true,
        (Certificate.constraintsElement true (some n)).encode⟩]) = true) :
      ∃ c, Certificate.parse (authorityWithin n) = .ok c
        ∧ c.constraintExtensions = [⟨Certificate.basicConstraints, true,
          (Certificate.constraintsElement true (some n)).encode⟩] := by
    cases hparse : Certificate.parse (authorityWithin n) with
    | error d =>
        rw [hparse] at h
        cases h
    | ok c =>
        rw [hparse] at h
        exact ⟨c, rfl, of_decide_eq_true h⟩
  constructor
  · obtain ⟨c, hparse, hheld⟩ := hone (n := 4294967295) (by decide +kernel)
    obtain ⟨-, -, -, hwritten⟩ := caConstraint_of_parse hparse
    have hanswer := hwritten _ true (some 4294967295) hheld
      (by show List.length _ ≤ _; decide) rfl
    exact hanswer
  · obtain ⟨c, hparse, hheld⟩ := hone (n := 4294967296) (by decide +kernel)
    obtain ⟨-, -, -, hwritten⟩ := caConstraint_of_parse hparse
    have hanswer := hwritten _ true (some 4294967296) hheld
      (by show List.length _ ≤ _; decide) rfl
    exact ⟨c, _, hparse, hheld, rfl, rfl, hanswer⟩

end TlsKeystore
