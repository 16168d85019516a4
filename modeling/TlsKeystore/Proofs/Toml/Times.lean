/-
Dates and times are read from any of their texts.

They are told from one another, and from numbers, by what stands behind their
first digits (`DigitsThen`): a dash for a date, a colon for a time. Behind a
date a blank may stand for the letter in front of a time, so what comes behind
a value matters, and after a blank that has to be a comment or a line end
(`Closed`).
-/
import TlsKeystore.Proofs.Toml.Strings

namespace TlsKeystore.Toml.Grammar

variable {base d n : Nat} {c : Char} {ds : List Nat} {s t v w : List Char}

-- ============================================================= what follows

/-- What comes behind a value on its line: blanks, and then a comment, the end
of the line or that of the text. -/
def Closed (t : List Char) : Prop :=
  ∀ c ∈ (skipBlank t).head?, c = '#' ∨ c = '\n' ∨ c = '\r'

theorem Closed.head (ht : Closed t) (hc : c ∈ t.head?) :
    c ∈ [' ', '\t', '#', '\n', '\r'] := by
  by_cases hblank : isBlank c = true
  · rcases isBlank_iff.mp hblank with rfl | rfl <;> decide
  · have hskip : skipBlank t = t := by
      apply skipBlank_of_head
      rw [hc, Option.any_some]
      exact Bool.eq_false_iff.mpr hblank
    rw [Closed, hskip] at ht
    rcases ht c hc with rfl | rfl | rfl <;> decide

theorem Closed.head_cases (ht : Closed t) (hc : c ∈ t.head?) :
    c = ' ' ∨ c = '\t' ∨ c = '#' ∨ c = '\n' ∨ c = '\r' := by
  simpa using ht.head hc

theorem Closed.tail (ht : Closed (' ' :: t)) : Closed t := ht

/-- A condition that none of the characters meets that end a value. -/
theorem Closed.any_head (ht : Closed t) {p : Char → Bool}
    (hp : ([' ', '\t', '#', '\n', '\r'].any p) = false) :
    t.head?.any p = false := by
  cases t with
  | nil => rfl
  | cons c t =>
      have hc := ht.head rfl
      rw [List.head?_cons, Option.any_some, Bool.eq_false_iff]
      exact List.any_eq_false.mp hp c hc

-- ================================================================= digits

theorem Digit.lift (hbase : base ≤ 16) (hc : Digit base d c) :
    Digit 16 d c :=
  ⟨Nat.lt_of_lt_of_le hc.1 hbase, hc.2⟩

theorem digitIn?_of_digit (hbase : base ≤ 16) (hc : Digit base d c) :
    digitIn? base c = some d := by
  rw [digitIn?, hexValue?_of_digit (hc.lift hbase), Option.filter_some,
    if_pos (by simpa using hc.1)]

theorem isDigit_of_digit (hc : Digit 10 d c) : c.isDigit = true := by
  obtain ⟨hd, hc⟩ := hc
  rcases hc with rfl | rfl
  · revert d
    decide
  · revert d
    decide

theorem digitIn?_of_isDigit (hc : c.isDigit = false) :
    digitIn? 10 c = none := by
  rw [Bool.eq_false_iff, ne_eq, Char.isDigit_iff_toNat] at hc
  unfold digitIn? Bytes.hexValue?
  dsimp only
  split_ifs with h h' h''
  · exact absurd h hc
  · rw [Option.filter_some, if_neg]
    simp only [decide_eq_true_eq]
    omega
  · rw [Option.filter_some, if_neg]
    simp only [decide_eq_true_eq]
    omega
  · rfl

-- ======================================================== dates and times

theorem value_cons (base d : Nat) (ds : List Nat) :
    value base (d :: ds) = d * base ^ ds.length + value base ds := by
  rw [value, Nat.ofDigits_reverse_cons, Nat.add_comm, Nat.mul_comm, value]

theorem fixed?_of_plain (hw : Plain 10 ds w) (t : List Char) :
    fixed? ds.length (w ++ t) = some (value 10 ds, t) := by
  induction hw with
  | nil => rfl
  | @cons d c ds w hc _ ih =>
      rw [List.length_cons, List.cons_append, fixed?,
        digitIn?_of_digit (by decide) hc, ih, value_cons]
      rfl

theorem fixed?_of_fixed {count : Nat} (hw : Fixed count n w) (t : List Char) :
    fixed? count (w ++ t) = some (n, t) := by
  obtain ⟨ds, hw, rfl, rfl⟩ := hw
  exact fixed?_of_plain hw t

theorem within?_of_fixed {low high : Nat} (hw : Fixed 2 n w) (hlow : low ≤ n)
    (hhigh : n ≤ high) (t : List Char) :
    within? low high (w ++ t) = some (n, t) := by
  rw [within?, fixed?_of_fixed hw]
  show (if low ≤ n ∧ n ≤ high then some (n, t) else none) = _
  rw [if_pos ⟨hlow, hhigh⟩]

theorem date?_of_text (hw : DateText w) (t : List Char) :
    date? (w ++ t) = some t := by
  cases hw with
  | @intro year month day y m d hy hm hd hmonth hday =>
      have htext : (y ++ '-' :: m ++ '-' :: d) ++ t
          = y ++ '-' :: (m ++ '-' :: (d ++ t)) := by simp
      rw [htext, date?, fixed?_of_fixed hy]
      simp only [Option.bind_eq_bind, Option.bind_some, expect?, beq_self_eq_true,
        if_true, within?_of_fixed hm hmonth.1 hmonth.2,
        within?_of_fixed hd hday.1 hday.2]

theorem expect?_cons (c : Char) (s : List Char) : expect? c (c :: s) = some s := by
  rw [expect?, beq_self_eq_true, if_pos rfl]

theorem Plain.isDigit (hw : Plain 10 ds w) : ∀ c ∈ w, c.isDigit = true := by
  intro c hc
  induction hw with
  | nil => cases hc
  | cons hd _ ih =>
      rcases List.mem_cons.mp hc with rfl | hc
      · exact isDigit_of_digit hd
      · exact ih hc

theorem time?_of_text (hw : TimeText w)
    (ht : t.head?.any (fun c => c == '.' || c.isDigit) = false) :
    time? (w ++ t) = some t := by
  cases hw with
  | @intro second u v w hu hv hsecond hw =>
      cases hu with
      | @intro hour minute h m hh hm hhour hminute =>
          have htext : (h ++ ':' :: m ++ ':' :: v ++ w) ++ t
              = h ++ ':' :: (m ++ ':' :: (v ++ (w ++ t))) := by simp
          rw [htext, time?, within?_of_fixed hh (Nat.zero_le _) hhour]
          simp only [Option.bind_eq_bind, Option.bind_some, expect?_cons,
            within?_of_fixed hm (Nat.zero_le _) hminute,
            within?_of_fixed hv (Nat.zero_le _) hsecond]
          cases hw with
          | none =>
              rw [List.nil_append]
              split
              · simp at ht
              · rfl
          | @some ds w hne hw =>
              have hstop : t.head?.any Char.isDigit = false := by
                cases t with
                | nil => rfl
                | cons c t => exact (Bool.or_eq_false_iff.mp ht).2
              cases hw with
              | nil => exact absurd rfl hne
              | @cons d c ds w hc hw =>
                  have hfirst := fixed?_of_plain (.cons hc .nil) (w ++ t)
                  have hmore := dropWhile_append_of_head (Plain.isDigit hw) hstop
                  show (fixed? 1 ([c] ++ (w ++ t))).bind _ = some t
                  rw [show fixed? 1 ([c] ++ (w ++ t)) = _ from hfirst]
                  exact congrArg some hmore

theorem clockOffset?_of_text (hw : OffsetText w) (ht : Closed t) :
    clockOffset? (w ++ t) = some t := by
  cases hw with
  | none =>
      cases t with
      | nil => rfl
      | cons c t =>
          rcases ht.head_cases rfl with rfl | rfl | rfl | rfl | rfl <;> rfl
  | zero hc => rcases hc with rfl | rfl <;> rfl
  | ahead hc hw =>
      cases hw with
      | @intro hour minute h m hh hm hhour hminute =>
          have htext : (h ++ ':' :: m) ++ t = h ++ ':' :: (m ++ t) := by simp
          rw [List.cons_append, htext]
          rcases hc with rfl | rfl <;>
          · rw [clockOffset?]
            · simp only [beq_self_eq_true, Bool.true_or, Bool.or_true, if_true,
                Option.bind_eq_bind, Option.bind_some, expect?_cons,
                within?_of_fixed hh (Nat.zero_le _) hhour,
                within?_of_fixed hm (Nat.zero_le _) hminute]
            all_goals decide

/-- A number of so many digits stands in front of what is left. -/
theorem eq_append_of_fixed? {count : Nat} (h : fixed? count s = some (n, t)) :
    ∃ v, s = v ++ t ∧ v.length = count ∧ ∀ c ∈ v, c.isDigit = true := by
  induction count generalizing s n with
  | zero =>
      obtain ⟨-, rfl⟩ := Prod.mk.inj (Option.some.inj h)
      exact ⟨[], rfl, rfl, by simp⟩
  | succ count ih =>
      cases s with
      | nil => cases h
      | cons c s =>
          have hc : c.isDigit = true := by
            by_contra hc
            rw [fixed?, digitIn?_of_isDigit (Bool.eq_false_iff.mpr hc)] at h
            cases h
          rw [fixed?] at h
          obtain ⟨d, -, h⟩ := Option.bind_eq_some_iff.mp h
          obtain ⟨⟨m, t'⟩, hmore, h⟩ := Option.bind_eq_some_iff.mp h
          obtain ⟨-, rfl⟩ := Prod.mk.inj (Option.some.inj h)
          obtain ⟨v, rfl, rfl, hv⟩ := ih hmore
          exact ⟨c :: v, rfl, rfl, List.forall_mem_cons.mpr ⟨hc, hv⟩⟩

/-- A text begins with digits and a character behind them. -/
def DigitsThen (q : Char) (s : List Char) : Prop :=
  ∃ v t, s = v ++ q :: t ∧ v ≠ [] ∧ ∀ c ∈ v, c.isDigit = true

theorem expect?_eq_some (h : expect? c s = some t) : s = c :: t := by
  cases s with
  | nil => cases h
  | cons x s =>
      rw [expect?] at h
      split at h
      · next hx =>
          cases h
          rw [beq_iff_eq.mp hx]
      · cases h

theorem digitsThen_of_fixed? {count : Nat} {q : Char}
    (h : fixed? (count + 1) s = some (n, t)) (hq : (expect? q t).isSome = true) :
    DigitsThen q s := by
  obtain ⟨v, rfl, hlength, hv⟩ := eq_append_of_fixed? h
  obtain ⟨rest, hrest⟩ := Option.isSome_iff_exists.mp hq
  obtain rfl := expect?_eq_some hrest
  refine ⟨v, rest, rfl, ?_, hv⟩
  intro hnil
  subst hnil
  cases hlength

theorem digitsThen_of_date? (h : date? s = some t) : DigitsThen '-' s := by
  rw [date?] at h
  obtain ⟨⟨year, rest⟩, hyear, h⟩ := Option.bind_eq_some_iff.mp h
  obtain ⟨rest', hrest, -⟩ := Option.bind_eq_some_iff.mp h
  exact digitsThen_of_fixed? hyear (Option.isSome_iff_exists.mpr ⟨_, hrest⟩)

theorem digitsThen_of_time? (h : time? s = some t) : DigitsThen ':' s := by
  rw [time?] at h
  obtain ⟨⟨hour, rest⟩, hhour, h⟩ := Option.bind_eq_some_iff.mp h
  obtain ⟨rest', hrest, -⟩ := Option.bind_eq_some_iff.mp h
  rw [within?] at hhour
  obtain ⟨⟨n, rest''⟩, hn, hhour⟩ := Option.bind_eq_some_iff.mp hhour
  dsimp only at hhour
  split at hhour
  · obtain ⟨-, rfl⟩ := Prod.mk.inj (Option.some.inj hhour)
    exact digitsThen_of_fixed? hn (Option.isSome_iff_exists.mpr ⟨_, hrest⟩)
  · cases hhour

theorem dateTime?_eq_none (hdate : ¬ DigitsThen '-' s)
    (htime : ¬ DigitsThen ':' s) : dateTime? s = none := by
  have hnodate : date? s = none :=
    Option.eq_none_iff_forall_ne_some.mpr fun _ h => hdate (digitsThen_of_date? h)
  have hnotime : time? s = none :=
    Option.eq_none_iff_forall_ne_some.mpr fun _ h => htime (digitsThen_of_time? h)
  rw [dateTime?, hnodate, hnotime]

theorem not_digitsThen_of_head (hs : s.head?.any Char.isDigit = false) (q : Char) :
    ¬ DigitsThen q s := by
  intro h
  obtain ⟨v, t, rfl, hne, hv⟩ := h
  obtain ⟨c, v, rfl⟩ := List.exists_cons_of_ne_nil hne
  rw [List.cons_append, List.head?_cons, Option.any_some,
    hv c List.mem_cons_self] at hs
  cases hs

theorem DigitsThen.head_dropWhile {q : Char} (hq : q.isDigit = false)
    (h : DigitsThen q s) : (s.dropWhile Char.isDigit).head? = some q := by
  obtain ⟨v, t, rfl, -, hv⟩ := h
  have hstop : (q :: t).head?.any Char.isDigit = false := hq
  rw [dropWhile_append_of_head hv hstop, List.head?_cons]

/-- A time is not a date. -/
theorem date?_of_time (hw : TimeText w) (t : List Char) :
    date? (w ++ t) = none := by
  refine Option.eq_none_iff_forall_ne_some.mpr fun _ h => ?_
  have hdash := (digitsThen_of_date? h).head_dropWhile rfl
  cases hw with
  | intro hu =>
      cases hu with
      | @intro hour minute h m hh =>
          obtain ⟨ds, hh, -⟩ := hh
          simp only [List.append_assoc, List.cons_append] at hdash
          rw [dropWhile_append_of_head (Plain.isDigit hh) rfl] at hdash
          cases hdash

theorem dateTime?_of_text (hw : MomentText w) (ht : Closed t) :
    dateTime? (w ++ t) = some t := by
  have hstop : t.head?.any (fun c => c == '.' || c.isDigit) = false :=
    ht.any_head rfl
  cases hw with
  | date hw =>
      rw [dateTime?, date?_of_text hw]
      show afterDate? t = some t
      cases t with
      | nil => rfl
      | cons c t =>
          rcases ht.head_cases rfl with rfl | rfl | rfl | rfl | rfl
          · -- behind a blank no time comes
            have hnone : time? t = none := by
              refine Option.eq_none_iff_forall_ne_some.mpr fun _ h => ?_
              exact not_digitsThen_of_head (ht.tail.any_head rfl) _
                (digitsThen_of_time? h)
            rw [afterDate?, hnone]
            rfl
          all_goals rfl
  | time hw =>
      rw [dateTime?, date?_of_time hw]
      exact time?_of_text hw hstop
  | @both c u v w hu hc hv hw =>
      have htext : (u ++ c :: (v ++ w)) ++ t = u ++ c :: (v ++ (w ++ t)) := by
        simp
      have hafter : (w ++ t).head?.any (fun c => c == '.' || c.isDigit) = false := by
        cases hw with
        | none => exact hstop
        | zero hc => rcases hc with rfl | rfl <;> rfl
        | ahead hc => rcases hc with rfl | rfl <;> rfl
      rw [htext, dateTime?, date?_of_text hu]
      show afterDate? (c :: (v ++ (w ++ t))) = some t
      have hletter : (c == 'T' || c == 't' || c == ' ') = true := by
        rcases hc with rfl | rfl | rfl <;> rfl
      rw [afterDate?, if_pos hletter, time?_of_text hv hafter]
      exact clockOffset?_of_text hw ht

end TlsKeystore.Toml.Grammar
