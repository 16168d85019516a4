/-
Numbers, and all other scalars, are read from any of their texts.

The reader tries a date, then a decimal with a fraction or a power, and an
integer last. So for each of them it is shown that none of those tried before
takes it, by the character that its first digits end at.

A decimal is rounded, and refused where that gives plus infinity (`TooLarge`).
Then its first digits are taken for an integer, and the point or the power
behind them is where the reader gets stuck.
-/
import TlsKeystore.Proofs.Toml.Times

namespace TlsKeystore.Toml.Grammar

variable {base d n : Nat} {c : Char} {ds places : List Nat}
  {s t v w : List Char} {negative : Bool}

-- ========================================================= rows of digits

theorem ne_underscore (hc : digitIn? base c = some d) : c ≠ '_' := by
  intro h
  subst h
  cases hc

/-- Where a row of digits ends. -/
def Stops (base : Nat) (t : List Char) : Prop :=
  ∀ c ∈ t.head?, c ≠ '_' ∧ digitIn? base c = none

theorem Closed.stops (ht : Closed t) (base : Nat) : Stops base t := by
  intro c hc
  rcases ht.head_cases hc with rfl | rfl | rfl | rfl | rfl <;> exact ⟨by decide, rfl⟩

theorem moreDigits_of_stops (ht : Stops base t) :
    moreDigits base t = ([], t) := by
  cases t with
  | nil => rfl
  | cons c t =>
      obtain ⟨hc, hnone⟩ := ht c rfl
      rw [moreDigits, hnone]
      intro c' rest h
      exact absurd h hc

theorem moreDigits_cons (hc : digitIn? base c = some d) (s : List Char) :
    moreDigits base (c :: s)
      = (d :: (moreDigits base s).1, (moreDigits base s).2) := by
  rw [moreDigits, hc]
  intro c' rest h
  exact absurd h (ne_underscore hc)

theorem moreDigits_underscore (hc : digitIn? base c = some d) (s : List Char) :
    moreDigits base ('_' :: c :: s) = moreDigits base (c :: s) := by
  rw [moreDigits_cons hc, moreDigits, hc]

theorem Digits.head (hw : Digits base ds w) :
    ∃ d c ds' w', ds = d :: ds' ∧ w = c :: w' ∧ Digit base d c := by
  cases hw with
  | one hc => exact ⟨_, _, _, _, rfl, rfl, hc⟩
  | more hc => exact ⟨_, _, _, _, rfl, rfl, hc⟩
  | grouped hc => exact ⟨_, _, _, _, rfl, rfl, hc⟩

theorem moreDigits_of_digits (hbase : base ≤ 16) (ht : Stops base t)
    (hw : Digits base ds w) : moreDigits base (w ++ t) = (ds, t) := by
  induction hw with
  | one hc =>
      rw [List.singleton_append, moreDigits_cons (digitIn?_of_digit hbase hc),
        moreDigits_of_stops ht]
  | more hc _ ih =>
      rw [List.cons_append, moreDigits_cons (digitIn?_of_digit hbase hc), ih]
  | grouped hc hw ih =>
      obtain ⟨d', c', ds', w', rfl, rfl, hc'⟩ := hw.head
      rw [List.cons_append, moreDigits_cons (digitIn?_of_digit hbase hc),
        List.cons_append, List.cons_append,
        moreDigits_underscore (digitIn?_of_digit hbase hc'), ← List.cons_append,
        ih]

theorem digits?_of_digits (hbase : base ≤ 16) (ht : Stops base t)
    (hw : Digits base ds w) : digits? base (w ++ t) = some (ds, t) := by
  have hread := moreDigits_of_digits hbase ht hw
  obtain ⟨d, c, ds', w', rfl, rfl, hc⟩ := hw.head
  have hdigit := digitIn?_of_digit hbase hc
  rw [List.cons_append, moreDigits_cons hdigit] at hread
  obtain ⟨hds, hrest⟩ := Prod.mk.inj hread
  rw [List.cons_append, digits?, hdigit]
  show some (d :: (moreDigits base (w' ++ t)).1, (moreDigits base (w' ++ t)).2) = _
  rw [hds, hrest]

theorem wholeDigits?_of_whole (ht : Stops 10 t) (hw : Whole ds w) :
    wholeDigits? (w ++ t) = some (ds, t) := by
  cases hw with
  | zero => rfl
  | digits hw hzero =>
      have hread := digits?_of_digits (by decide) ht hw
      obtain ⟨d, c, ds', w', rfl, rfl, hc⟩ := hw.head
      rw [wholeDigits?]
      · exact hread
      · intro rest h
        obtain ⟨rfl, -⟩ := List.cons_eq_cons.mp h
        apply hzero
        rw [List.head?_cons]
        exact (digitIn?_of_digit (by decide) hc).symm.trans rfl

theorem numberOf_eq (base : Nat) (ds : List Nat) :
    numberOf base ds = value base ds := (value_eq_foldl base ds).symm

theorem Digits.isDigit_head (hw : Digits 10 ds w) :
    ∃ c rest, w = c :: rest ∧ c.isDigit = true := by
  obtain ⟨d, c, ds', rest, -, rfl, hc⟩ := hw.head
  exact ⟨c, rest, rfl, isDigit_of_digit hc⟩

theorem Whole.head (hw : Whole ds w) :
    ∃ c rest, w = c :: rest ∧ c.isDigit = true := by
  cases hw with
  | zero => exact ⟨'0', [], rfl, rfl⟩
  | digits hw => exact hw.isDigit_head

theorem sign_of_sign (hv : Sign negative v) (hs : ∀ c ∈ s.head?, c ≠ '+' ∧ c ≠ '-') :
    sign (v ++ s) = (negative, s) := by
  cases hv with
  | plus => rfl
  | minus => rfl
  | none =>
      rw [List.nil_append, sign]
      · intro rest h
        subst h
        exact (hs _ rfl).2 rfl
      · intro rest h
        subst h
        exact (hs _ rfl).1 rfl

theorem sign_of_number (hv : Sign negative v)
    (hw : ∃ c rest, w = c :: rest ∧ c.isDigit = true) (t : List Char) :
    sign (v ++ (w ++ t)) = (negative, w ++ t) := by
  obtain ⟨c, rest, rfl, hc⟩ := hw
  apply sign_of_sign hv
  intro x hx
  obtain rfl : c = x := by simpa using hx
  constructor
  · intro h
    subst h
    cases hc
  · intro h
    subst h
    cases hc

/-- Digits end at what comes next, or at an underscore. -/
theorem Digits.split (hw : Digits 10 ds w) (t : List Char) :
    ∃ v u, w ++ t = v ++ u ∧ (∀ c ∈ v, c.isDigit = true)
      ∧ (u = t ∨ ∃ rest, u = '_' :: rest) := by
  induction hw with
  | @one d c hc =>
      refine ⟨[c], t, rfl, ?_, Or.inl rfl⟩
      simpa using isDigit_of_digit hc
  | @more d c ds w hc _ ih =>
      obtain ⟨v, u, heq, hv, hu⟩ := ih
      refine ⟨c :: v, u, ?_, ?_, hu⟩
      · rw [List.cons_append, heq, List.cons_append]
      · exact List.forall_mem_cons.mpr ⟨isDigit_of_digit hc, hv⟩
  | @grouped d c ds w hc _ =>
      refine ⟨[c], '_' :: (w ++ t), rfl, ?_, Or.inr ⟨_, rfl⟩⟩
      simpa using isDigit_of_digit hc

theorem Whole.split (hw : Whole ds w) (t : List Char) :
    ∃ v u, w ++ t = v ++ u ∧ (∀ c ∈ v, c.isDigit = true)
      ∧ (u = t ∨ ∃ rest, u = '_' :: rest) := by
  cases hw with
  | zero => exact ⟨['0'], t, rfl, by simp, Or.inl rfl⟩
  | digits hw => exact hw.split t

/-- A number is neither a date nor a time. -/
theorem dateTime?_of_whole (hv : Sign negative v) (hw : Whole ds w)
    (ht : t.head?.any (fun c => c.isDigit || c == '-' || c == ':') = false) :
    dateTime? (v ++ (w ++ t)) = none := by
  have hnone {q : Char} (hq : q = '-' ∨ q = ':') :
      ¬ DigitsThen q (v ++ (w ++ t)) := by
    cases hv with
    | plus => exact not_digitsThen_of_head rfl q
    | minus => exact not_digitsThen_of_head rfl q
    | none =>
        obtain ⟨u, u', heq, hu, hu'⟩ := hw.split t
        -- what stands behind the digits
        have hhead : u'.head?.any (fun c => c.isDigit || c == '-' || c == ':')
            = false := by
          rcases hu' with rfl | ⟨rest, rfl⟩
          · exact ht
          · rfl
        have hstop : u'.head?.any Char.isDigit = false := by
          cases u' with
          | nil => rfl
          | cons c u' =>
              rw [List.head?_cons, Option.any_some] at hhead ⊢
              simp_all
        intro h
        have hq' : q.isDigit = false := by
          rcases hq with rfl | rfl <;> rfl
        have hlast := h.head_dropWhile hq'
        rw [List.nil_append, heq, dropWhile_append_of_head hu hstop] at hlast
        rw [hlast, Option.any_some] at hhead
        rcases hq with rfl | rfl <;> cases hhead
  exact dateTime?_eq_none (hnone (Or.inl rfl)) (hnone (Or.inr rfl))

-- =============================================================== integers

theorem fitting_eq {n : Int} (hlow : -2 ^ 63 ≤ n) (hhigh : n < 2 ^ 63) :
    fitting n = some n := by
  rw [fitting, if_pos]
  omega

theorem fraction?_of_head (ht : t.head? ≠ some '.') :
    fraction? t = some ([], t) := by
  rw [fraction?]
  intro rest h
  subst h
  exact ht rfl

theorem exponent?_of_head (ht : t.head?.any (fun c => c == 'e' || c == 'E') = false) :
    exponent? t = some (0, t) := by
  cases t with
  | nil => rfl
  | cons c t =>
      rw [List.head?_cons, Option.any_some] at ht
      rw [exponent?, ht]
      rfl

/-- What begins the part behind the point or the power. -/
def isScale (c : Char) : Bool := c == '.' || c == 'e' || c == 'E'

theorem special?_of_whole (hv : Sign negative v) (hw : Whole ds w)
    (t : List Char) : special? (v ++ (w ++ t)) = none := by
  obtain ⟨c, w', hc, hdigit⟩ := hw.head
  rw [special?, sign_of_number hv hw.head, hc]
  dsimp only
  split
  · next h =>
      obtain ⟨rfl, -⟩ := List.cons_eq_cons.mp h
      cases hdigit
  · next h =>
      obtain ⟨rfl, -⟩ := List.cons_eq_cons.mp h
      cases hdigit
  · rfl

/-- Without a fraction and a power a number is no decimal. -/
theorem float?_of_whole (hv : Sign negative v) (hw : Whole ds w)
    (hstop : Stops 10 t) (ht : t.head?.any isScale = false) :
    float? (v ++ (w ++ t)) = none := by
  have hsign := sign_of_number hv hw.head t
  have hpoint : t.head? ≠ some '.' := by
    intro h
    rw [h] at ht
    cases ht
  have hpower : t.head?.any (fun c => c == 'e' || c == 'E') = false := by
    cases t with
    | nil => rfl
    | cons x t =>
        rw [List.head?_cons, Option.any_some] at ht ⊢
        simp_all [isScale]
  have hdecimal : decimal? (v ++ (w ++ t)) = none := by
    rw [decimal?, hsign]
    simp only [wholeDigits?_of_whole hstop hw, fraction?_of_head hpoint,
      exponent?_of_head hpower, Option.bind_eq_bind, Option.bind_some, if_true]
  rw [float?, hdecimal, special?_of_whole hv hw]
  rfl

theorem integerIn?_of_digits (hbase : base ≤ 16) (ht : Stops base t)
    (hw : Digits base ds w) (hhigh : value base ds < 2 ^ 63) :
    integerIn? base (w ++ t) = some (↑(value base ds), t) := by
  have hlow : (-2 ^ 63 : Int) ≤ value base ds :=
    Int.le_trans (by norm_num) (Int.natCast_nonneg _)
  have hfits : fitting (value base ds) = some ↑(value base ds) :=
    fitting_eq hlow (by exact_mod_cast hhigh)
  rw [integerIn?, digits?_of_digits hbase ht hw, Option.bind_eq_bind,
    Option.bind_some]
  dsimp only
  rw [numberOf_eq, hfits, Option.bind_eq_bind, Option.bind_some]

/-- A zero that begins a decimal integer is all of it. -/
theorem head_of_zero (hv : Sign negative v) (hw : Whole ds w) {rest : List Char}
    (h : v ++ (w ++ t) = '0' :: c :: rest) : t.head? = some c := by
  cases hv with
  | plus => exact absurd (List.cons_eq_cons.mp h).1 (by decide)
  | minus => exact absurd (List.cons_eq_cons.mp h).1 (by decide)
  | none =>
      cases hw with
      | zero =>
          obtain ⟨-, rfl⟩ := List.cons_eq_cons.mp h
          rfl
      | digits hw hzero =>
          obtain ⟨d, x, ds', w', rfl, rfl, hx⟩ := hw.head
          obtain ⟨rfl, -⟩ := List.cons_eq_cons.mp h
          have hd : some 0 = some d := digitIn?_of_digit (by decide) hx
          exact absurd hd.symm hzero

/-- Decimal digits are read up to where they stop, and then have to fit. -/
theorem integer?_of_whole (hv : Sign negative v) (hw : Whole ds w)
    (hstop : Stops 10 t) (ht : ∀ c ∈ t.head?, c ∉ ['x', 'o', 'b']) :
    integer? (v ++ (w ++ t))
      = (fitting (signed negative (value 10 ds))).map fun n => (n, t) := by
  have hletter {x : Char} {rest : List Char} (hx : x ∈ ['x', 'o', 'b'])
      (h : v ++ (w ++ t) = '0' :: x :: rest) : False :=
    ht x (head_of_zero hv hw h) hx
  rw [integer?, sign_of_number hv hw.head]
  · simp only [wholeDigits?_of_whole hstop hw, Option.bind_eq_bind,
      Option.bind_some, numberOf_eq]
    show (fitting (signed negative (value 10 ds))).bind _ = _
    cases fitting (signed negative (value 10 ds)) <;> rfl
  · exact fun _ => hletter (by decide)
  · exact fun _ => hletter (by decide)
  · exact fun _ => hletter (by decide)

theorem integer?_of_decimal (hv : Sign negative v) (hw : Whole ds w)
    (hlow : -2 ^ 63 ≤ signed negative (value 10 ds))
    (hhigh : signed negative (value 10 ds) < 2 ^ 63) (ht : Closed t) :
    integer? (v ++ (w ++ t)) = some (signed negative (value 10 ds), t) := by
  have hletter : ∀ c ∈ t.head?, c ∉ ['x', 'o', 'b'] := by
    intro c hc
    rcases ht.head_cases hc with rfl | rfl | rfl | rfl | rfl <;> decide
  rw [integer?_of_whole hv hw (ht.stops 10) hletter, fitting_eq hlow hhigh,
    Option.map_some]

theorem readNumber_of_integer {n : Int} (hw : IntegerText n w)
    (ht : Closed t) : readNumber (w ++ t) = .ok (.integer n, t) := by
  cases hw with
  | decimal hv hw hlow hhigh =>
      rw [List.append_assoc, readNumber, dateTime?_of_whole hv hw (ht.any_head rfl),
        float?_of_whole hv hw (ht.stops 10) (ht.any_head rfl),
        integer?_of_decimal hv hw hlow hhigh ht]
  | @based x base ds w hx hw hhigh =>
      simp only [List.mem_cons, Prod.mk.injEq, List.not_mem_nil, or_false] at hx
      have hbase : base ≤ 16 := by omega
      have hstop : Stops 10 (x :: (w ++ t)) := by
        intro c hc
        obtain rfl : x = c := by simpa using hc
        rcases hx with ⟨rfl, -⟩ | ⟨rfl, -⟩ | ⟨rfl, -⟩ <;>
          exact ⟨by decide, rfl⟩
      have hdate : dateTime? ('0' :: x :: (w ++ t)) = none := by
        refine dateTime?_of_whole .none .zero ?_
        rcases hx with ⟨rfl, -⟩ | ⟨rfl, -⟩ | ⟨rfl, -⟩ <;> rfl
      have hfloat : float? ('0' :: x :: (w ++ t)) = none := by
        refine float?_of_whole .none .zero hstop ?_
        rcases hx with ⟨rfl, -⟩ | ⟨rfl, -⟩ | ⟨rfl, -⟩ <;> rfl
      have hinteger : integer? ('0' :: x :: (w ++ t)) = integerIn? base (w ++ t) := by
        rcases hx with ⟨rfl, rfl⟩ | ⟨rfl, rfl⟩ | ⟨rfl, rfl⟩ <;> rfl
      rw [List.cons_append, List.cons_append, readNumber, hdate, hfloat, hinteger,
        integerIn?_of_digits hbase (ht.stops base) hw hhigh]

-- ========================================================= floating point

theorem Fraction.head (hw : Fraction places w) :
    w = [] ∨ ∃ rest, w = '.' :: rest := by
  cases hw with
  | none => exact Or.inl rfl
  | some => exact Or.inr ⟨_, rfl⟩

theorem Exponent.head {power : Int} (hw : Exponent power w) :
    w = [] ∨ ∃ e rest, w = e :: rest ∧ (e = 'e' ∨ e = 'E') := by
  cases hw with
  | none => exact Or.inl rfl
  | some he => exact Or.inr ⟨_, _, rfl, he⟩

theorem stops_of_exponent {power : Int} (hw : Exponent power w) (ht : Closed t) :
    Stops 10 (w ++ t) := by
  rcases hw.head with rfl | ⟨e, rest, rfl, he⟩
  · exact ht.stops 10
  · intro c hc
    obtain rfl : e = c := by simpa using hc
    rcases he with rfl | rfl <;> exact ⟨by decide, rfl⟩

theorem stops_of_fraction (hw : Fraction places w) (ht : Stops 10 t) :
    Stops 10 (w ++ t) := by
  cases hw with
  | none => exact ht
  | some =>
      intro c hc
      obtain rfl : '.' = c := by simpa using hc
      exact ⟨by decide, rfl⟩

theorem fraction?_of_text (hw : Fraction places w) (hstop : Stops 10 t)
    (ht : t.head? ≠ some '.') : fraction? (w ++ t) = some (places, t) := by
  cases hw with
  | none => exact fraction?_of_head ht
  | some hw =>
      rw [List.cons_append, fraction?]
      exact digits?_of_digits (by decide) hstop hw

theorem exponent?_of_text {power : Int} (hw : Exponent power w)
    (ht : Closed t) : exponent? (w ++ t) = some (power, t) := by
  cases hw with
  | none => exact exponent?_of_head (ht.any_head rfl)
  | @some e negative ds v w he hv hw =>
      have hsign := sign_of_number hv hw.isDigit_head t
      have hletter : (e == 'e' || e == 'E') = true := by
        rcases he with rfl | rfl <;> rfl
      rw [List.cons_append, List.append_assoc, exponent?, if_pos hletter, hsign]
      simp only [digits?_of_digits (by decide) (ht.stops 10) hw, numberOf_eq,
        Option.bind_eq_bind, Option.bind_some]
      rfl

/-- The number of 64 bits that is read of one in a text. -/
def Floating.nearest : Floating → Binary64
  | .decimal negative digits power => Binary64.ofDecimal negative digits power
  | .infinite negative => .infinite negative
  | .notANumber => .notANumber

/-- A decimal that is refused because it is rounded to plus infinity. This is
a bound of the reader's alone, and on one side only: what is rounded to minus
infinity is read as that. -/
def Floating.TooLarge : Floating → Prop
  | .decimal negative digits power =>
    Binary64.ofDecimal negative digits power = .infinite false
  | _ => False

theorem decimal?_of_text {power : Int} {u v w x : List Char}
    (hu : Sign negative u) (hv : Whole ds v) (hw : Fraction places w)
    (hx : Exponent power x) (hsome : w ++ x ≠ []) (ht : Closed t) :
    decimal? (u ++ (v ++ (w ++ (x ++ t))))
      = if Binary64.ofDecimal negative (value 10 (ds ++ places))
          (power - places.length) = .infinite false then none
        else some (Binary64.ofDecimal negative (value 10 (ds ++ places))
          (power - places.length), t) := by
  have hsign := sign_of_number hu hv.head (w ++ (x ++ t))
  have hscale := stops_of_exponent hx ht
  have hpoint : (x ++ t).head? ≠ some '.' := by
    rcases hx.head with rfl | ⟨e, rest, rfl, he⟩
    · intro h
      exact absurd (ht.head h) (by decide)
    · rcases he with rfl | rfl <;> simp
  have hlonger : t.length ≠ (w ++ (x ++ t)).length := by
    rw [← List.append_assoc, List.length_append]
    have := List.length_pos_iff.mpr hsome
    omega
  rw [decimal?, hsign]
  simp only [wholeDigits?_of_whole (stops_of_fraction hw hscale) hv,
    fraction?_of_text hw hscale hpoint, exponent?_of_text hx ht, if_neg hlonger,
    numberOf_eq, Option.bind_eq_bind, Option.bind_some]

/-- What comes behind the first digits of a decimal: a fraction or a power. -/
def Scaled (t : List Char) : Prop :=
  ∃ c rest, t = c :: rest ∧ (c = '.' ∨ c = 'e' ∨ c = 'E')

theorem scaled_of_text {power : Int} {x : List Char} (hw : Fraction places w)
    (hx : Exponent power x) (hsome : w ++ x ≠ []) (t : List Char) :
    Scaled (w ++ (x ++ t)) := by
  rcases hw.head with rfl | ⟨rest, rfl⟩
  · rcases hx.head with rfl | ⟨e, rest, rfl, he⟩
    · exact absurd rfl hsome
    · exact ⟨e, rest ++ t, rfl, Or.inr he⟩
  · exact ⟨'.', rest ++ (x ++ t), rfl, Or.inl rfl⟩

/-- A decimal is neither a date nor a time. -/
theorem dateTime?_of_scaled {u : List Char} (hu : Sign negative u)
    (hv : Whole ds v) (ht : Scaled t) : dateTime? (u ++ (v ++ t)) = none := by
  apply dateTime?_of_whole hu hv
  obtain ⟨c, rest, rfl, hc⟩ := ht
  rcases hc with rfl | rfl | rfl <;> rfl

/-- What is neither a decimal nor a date is one of the special numbers. -/
theorem readNumber_of_special {u : List Char} {i : Char} {x : Binary64}
    (hu : Sign negative u) (hi : i = 'i' ∨ i = 'n')
    (hspecial : special? (u ++ i :: s) = some (x, t)) :
    readNumber (u ++ i :: s) = .ok (.float x, t) := by
  have hsign : sign (u ++ i :: s) = (negative, i :: s) := by
    apply sign_of_sign hu
    intro c hc
    obtain rfl : i = c := by simpa using hc
    rcases hi with rfl | rfl <;> decide
  have hhead : (u ++ i :: s).head?.any Char.isDigit = false := by
    rcases hi with rfl | rfl <;> cases hu <;> rfl
  have hdate := dateTime?_eq_none (not_digitsThen_of_head hhead '-')
    (not_digitsThen_of_head hhead ':')
  have hdecimal : decimal? (u ++ i :: s) = none := by
    rw [decimal?, hsign]
    rcases hi with rfl | rfl <;> rfl
  rw [readNumber, hdate, float?, hdecimal, hspecial]
  rfl

theorem readNumber_of_float {x : Floating} (hw : FloatText x w)
    (hsmall : ¬ x.TooLarge) (ht : Closed t) :
    readNumber (w ++ t) = .ok (.float x.nearest, t) := by
  cases hw with
  | @decimal negative ds places power u v w x hu hv hw hx hsome =>
      have hdate :=
        dateTime?_of_scaled hu hv (scaled_of_text hw hx hsome t)
      rw [Floating.TooLarge] at hsmall
      simp only [List.append_assoc]
      rw [readNumber, hdate, float?, decimal?_of_text hu hv hw hx hsome ht,
        if_neg hsmall]
      rfl
  | @infinite negative u hu =>
      rw [List.append_assoc]
      refine readNumber_of_special hu (Or.inl rfl) ?_
      cases hu <;> rfl
  | @notANumber negative u hu =>
      rw [List.append_assoc]
      refine readNumber_of_special hu (Or.inr rfl) ?_
      cases hu <;> rfl

/-- Of a decimal that is too large no more is read than its first digits. -/
theorem readNumber_of_tooLarge {x : Floating} (hw : FloatText x w)
    (hlarge : x.TooLarge) (ht : Closed t) {v : Scalar} {rest : List Char}
    (hread : readNumber (w ++ t) = .ok (v, rest)) : Scaled rest := by
  cases hw with
  | @decimal negative ds places power u w₁ w₂ x hu hv hw hx hsome =>
      have hscaled := scaled_of_text hw hx hsome t
      have hstop := stops_of_fraction hw (stops_of_exponent hx ht)
      have hletter : ∀ c ∈ (w₂ ++ (x ++ t)).head?, c ∉ ['x', 'o', 'b'] := by
        obtain ⟨c, rest, htext, hc⟩ := hscaled
        rw [htext]
        rintro _ ⟨⟩
        rcases hc with rfl | rfl | rfl <;> decide
      have hfloat : float? (u ++ (w₁ ++ (w₂ ++ (x ++ t)))) = none := by
        rw [Floating.TooLarge] at hlarge
        rw [float?, decimal?_of_text hu hv hw hx hsome ht, if_pos hlarge,
          special?_of_whole hu hv]
        rfl
      simp only [List.append_assoc] at hread
      rw [readNumber, dateTime?_of_scaled hu hv hscaled, hfloat,
        integer?_of_whole hu hv hstop hletter] at hread
      cases hfit : fitting (signed negative (value 10 ds)) with
      | none =>
          rw [hfit] at hread
          cases hread
      | some n =>
          rw [hfit] at hread
          cases hread
          exact hscaled
  | infinite => cases hlarge
  | notANumber => cases hlarge

-- ================================================================ scalars

/-- What a number, a date or a time begins with. -/
def Numeric (c : Char) : Prop :=
  c.isDigit = true ∨ c ∈ ['+', '-', 'i', 'n']
deriving Decidable

/-- A text that begins with such a character. -/
def Numeral (w : List Char) : Prop := ∃ c rest, w = c :: rest ∧ Numeric c

theorem Numeric.not_mem (hc : Numeric c) :
    c ∉ ['"', '\'', 't', 'f', '[', '{', ' ', '\t', '#', '\n', '\r'] := by
  intro hmem
  simp only [List.mem_cons, List.not_mem_nil, or_false] at hmem
  rcases hmem with h | h | h | h | h | h | h | h | h | h | h <;>
  · subst h
    revert hc
    decide

theorem Numeral.append (hv : Numeral v) (w : List Char) : Numeral (v ++ w) := by
  obtain ⟨c, rest, rfl, hc⟩ := hv
  exact ⟨c, rest ++ w, rfl, hc⟩

theorem Numeral.signed (hv : Sign negative v) (hw : Numeral w) :
    Numeral (v ++ w) := by
  cases hv with
  | none => exact hw
  | plus => exact ⟨'+', w, rfl, by decide⟩
  | minus => exact ⟨'-', w, rfl, by decide⟩

theorem Whole.numeral (hw : Whole ds w) : Numeral w := by
  obtain ⟨c, rest, rfl, hc⟩ := hw.head
  exact ⟨c, rest, rfl, Or.inl hc⟩

theorem Fixed.numeral {count : Nat} (hw : Fixed (count + 1) n w) :
    Numeral w := by
  obtain ⟨ds, hw, hlength, -⟩ := hw
  cases hw with
  | nil => cases hlength
  | cons hc => exact ⟨_, _, rfl, Or.inl (isDigit_of_digit hc)⟩

theorem IntegerText.numeral {n : Int} (hw : IntegerText n w) : Numeral w := by
  cases hw with
  | decimal hv hw => exact .signed hv hw.numeral
  | based => exact ⟨_, _, rfl, by decide⟩

theorem FloatText.numeral {x : Floating} (hw : FloatText x w) : Numeral w := by
  cases hw with
  | decimal hu hv =>
      rw [List.append_assoc, List.append_assoc]
      exact .signed hu (hv.numeral.append _)
  | infinite hu => exact .signed hu ⟨_, _, rfl, by decide⟩
  | notANumber hu => exact .signed hu ⟨_, _, rfl, by decide⟩

theorem DateText.numeral (hw : DateText w) : Numeral w := by
  cases hw with
  | intro hy =>
      rw [List.append_assoc]
      exact hy.numeral.append _

theorem TimeText.numeral (hw : TimeText w) : Numeral w := by
  cases hw with
  | intro hu =>
      cases hu with
      | intro hh =>
          simp only [List.append_assoc]
          exact hh.numeral.append _

theorem MomentText.numeral (hw : MomentText w) : Numeral w := by
  cases hw with
  | date hw => exact hw.numeral
  | time hw => exact hw.numeral
  | both hu => exact hu.numeral.append _

theorem readScalar_of_numeral (hw : Numeral s) : readScalar s = readNumber s := by
  obtain ⟨c, rest, rfl, hc⟩ := hw
  have hne := hc.not_mem
  simp only [List.mem_cons, not_or] at hne
  rw [readScalar]
  · exact fun _ h => hne.1 (List.cons_eq_cons.mp h).1
  · exact fun _ h => hne.2.1 (List.cons_eq_cons.mp h).1
  · exact fun _ h => hne.2.2.1 (List.cons_eq_cons.mp h).1
  · exact fun _ h => hne.2.2.2.1 (List.cons_eq_cons.mp h).1

theorem Closed.unquoted (ht : Closed t) : Unquoted t := by
  constructor
  · intro h
    exact absurd (ht.head h) (by decide)
  · intro h
    exact absurd (ht.head h) (by decide)

/-- The scalar that is read of what a text says. -/
def Value.scalar : Value → Scalar
  | .string s => .string s
  | .integer n => .integer n
  | .floating x => .float x.nearest
  | .boolean b => .boolean b
  | .moment => .dateTime

/-- Of all scalars only decimals can be too large. -/
def Value.TooLarge : Value → Prop
  | .floating x => x.TooLarge
  | _ => False

/-- A scalar is read up to the blanks behind it. -/
theorem readScalar_of_text {v : Value} (hw : ScalarText v w)
    (hsmall : ¬ v.TooLarge) (ht : Closed t) :
    readScalar (w ++ t) = .ok (v.scalar, t) := by
  cases hw with
  | string hw => exact readScalar_of_string ht.unquoted hw
  | integer hw =>
      rw [readScalar_of_numeral (hw.numeral.append t)]
      exact readNumber_of_integer hw ht
  | floating hw =>
      rw [readScalar_of_numeral (hw.numeral.append t)]
      exact readNumber_of_float hw hsmall ht
  | boolean b => cases b <;> rfl
  | moment hw =>
      rw [readScalar_of_numeral (hw.numeral.append t), readNumber,
        dateTime?_of_text hw ht]
      rfl

theorem readScalar_of_tooLarge {v : Value} (hw : ScalarText v w)
    (hlarge : v.TooLarge) (ht : Closed t) {x : Scalar} {rest : List Char}
    (hread : readScalar (w ++ t) = .ok (x, rest)) : Scaled rest := by
  cases hw with
  | floating hw =>
      rw [readScalar_of_numeral (hw.numeral.append t)] at hread
      exact readNumber_of_tooLarge hw hlarge ht hread
  | string => cases hlarge
  | integer => cases hlarge
  | boolean => cases hlarge
  | moment => cases hlarge

end TlsKeystore.Toml.Grammar
