/-
A time that is written is the time that is read.

Two digits come back as the number below a hundred that they show
(`pair?_digits`), and the fields of a date and a clock stay within two
digits, so month to second come back in turn (`readFrom?_encodeRest`). The
year is the only field for which the two forms differ: the two digits of a
UTCTime are completed to the year again exactly in the range for which the
writer uses that form. `read?_encode?` joins both, for every second of the
years 0 to 9999.
-/
import TlsKeystore.Proofs.Asn1.Ber
import TlsKeystore.Proofs.Calendar
import TlsKeystore.X509.Time

namespace TlsKeystore.X509Time

-- ================================================================= digits

private theorem digit?_ofNat {n : Nat} (hn : n < 10) :
    digit? (UInt8.ofNat (48 + n)) = some n := by
  have hx : (UInt8.ofNat (48 + n)).toNat = 48 + n := by
    rw [UInt8.toNat_ofNat', Nat.mod_eq_of_lt (by omega)]
  have hrange : 48 ≤ UInt8.ofNat (48 + n) ∧ UInt8.ofNat (48 + n) ≤ 57 := by
    simp only [UInt8.le_iff_toNat_le, hx]
    simp only [UInt8.reduceToNat]
    omega
  rw [digit?, if_pos hrange, hx, Nat.add_sub_cancel_left]

/-- Two digits show the number that they were written for. -/
theorem pair?_digits {n : Nat} (hn : n < 100) (rest : Bytes) :
    pair? (digits 2 n ++ rest) = some (n, rest) := by
  have hhigh := digit?_ofNat (n := n / 10 % 10) (by omega)
  have hlow := digit?_ofNat (n := n % 10) (by omega)
  have hsum : n / 10 % 10 * 10 + n % 10 = n := by omega
  simp only [digits, List.nil_append, List.cons_append, pair?, hhigh, hlow,
    Option.bind_eq_bind, Option.bind_some, hsum]

/-- Four digits are two pairs. -/
theorem digits_four (n : Nat) :
    digits 4 n = digits 2 (n / 100) ++ digits 2 n := by
  simp [digits, Nat.div_div_eq_div_mul]

theorem digits_two_mod (n : Nat) : digits 2 (n % 100) = digits 2 n := by
  have hhigh : n % 100 / 10 % 10 = n / 10 % 10 := by omega
  have hlow : n % 100 % 10 = n % 10 := by omega
  simp only [digits, hhigh, hlow]

theorem length_digits (count n : Nat) : (digits count n).length = count := by
  induction count generalizing n with
  | zero => rfl
  | succ count ih =>
      rw [digits, List.length_append, ih]
      rfl

-- ============================================================= the fields

/-- Month to second come back, with the mark behind them. -/
theorem readFrom?_encodeRest {t : DateTime} (hdate : t.date.isValid = true)
    (hclock : t.hour ≤ 23 ∧ t.minute ≤ 59 ∧ t.second ≤ 59) :
    readFrom? t.date.year (encodeRest t) = some (t, [0x5A]) := by
  obtain ⟨hmonth, hday⟩ := Date.bounds_of_isValid hdate
  obtain ⟨hhour, hminute, hsecond⟩ := hclock
  have hmore : 2 ≤ (digits 2 t.second ++ [0x5A]).length := by
    simp [length_digits]
  simp only [encodeRest, readFrom?, List.append_assoc, Option.bind_eq_bind,
    pair?_digits (show t.date.month < 100 by omega),
    pair?_digits (show t.date.day < 100 by omega),
    pair?_digits (show t.hour < 100 by omega),
    pair?_digits (show t.minute < 100 by omega),
    pair?_digits (show t.second < 100 by omega),
    if_pos hmore, Option.bind_some]
  simp [hdate, hhour, hminute, hsecond]

-- =============================================================== the time

/-- A UTCTime shows the time that it was written for, in its century. -/
theorem ofUtc?_encodeRest {t : DateTime} (hdate : t.date.isValid = true)
    (hclock : t.hour ≤ 23 ∧ t.minute ≤ 59 ∧ t.second ≤ 59)
    (hyear : 1950 ≤ t.date.year ∧ t.date.year < 2050) :
    ofUtc? (digits 2 (t.date.year.toNat % 100) ++ encodeRest t)
      = some ⟨t.toSeconds, 0⟩ := by
  have hpair := pair?_digits (n := t.date.year.toNat % 100) (by omega)
    (encodeRest t)
  have hcentury : (if t.date.year.toNat % 100 < 50
        then (2000 : Int) + ((t.date.year.toNat % 100 : Nat) : Int)
        else 1900 + ((t.date.year.toNat % 100 : Nat) : Int))
      = t.date.year := by
    split <;> omega
  have hrest := readFrom?_encodeRest hdate hclock
  simp only [ofUtc?, hpair, Option.bind_eq_bind, Option.bind_some]
  rw [hcentury, hrest]
  simp [offset?]

/-- A GeneralizedTime shows the time that it was written for. -/
theorem ofGeneralized?_encodeRest {t : DateTime}
    (hdate : t.date.isValid = true)
    (hclock : t.hour ≤ 23 ∧ t.minute ≤ 59 ∧ t.second ≤ 59)
    (hyear : 0 ≤ t.date.year ∧ t.date.year ≤ 9999) :
    ofGeneralized? (digits 4 t.date.year.toNat ++ encodeRest t)
      = some ⟨t.toSeconds, 0⟩ := by
  have hcentury := pair?_digits (n := t.date.year.toNat / 100) (by omega)
    (digits 2 t.date.year.toNat ++ encodeRest t)
  have hpair := pair?_digits (n := t.date.year.toNat % 100) (by omega)
    (encodeRest t)
  rw [digits_two_mod] at hpair
  have hsum : ((t.date.year.toNat / 100 : Nat) : Int) * 100
      + ((t.date.year.toNat % 100 : Nat) : Int) = t.date.year := by omega
  have hrest := readFrom?_encodeRest hdate hclock
  simp only [ofGeneralized?, digits_four, List.append_assoc, hcentury, hpair,
    Option.bind_eq_bind, Option.bind_some, hsum, hrest]
  simp [dropFraction?]

private theorem length_encodeRest (t : DateTime) :
    (encodeRest t).length = 11 := by
  simp [encodeRest, length_digits]

private theorem read?_utc {content : Bytes} {t : Timestamp}
    (hlength : content.length ≤ 13) (h : ofUtc? content = some t)
    (rest : Bytes) :
    read? (Element.encode ⟨Tag.utcTime, content⟩ ++ rest)
      = some (t, rest) := by
  have hroom : Element.HasRoom ⟨Tag.utcTime, content⟩ := by
    show content.length ≤ 0x7FFFFFFFFFFFFFFF
    omega
  rw [read?, Ber.read?_encode (by simp) hroom]
  simp [Element.view, Tag.utcTime, Ber.Element.isOf, Ber.Universal.number, h]

private theorem read?_generalized {content : Bytes} {t : Timestamp}
    (hlength : content.length ≤ 15) (h : ofGeneralized? content = some t)
    (rest : Bytes) :
    read? (Element.encode ⟨Tag.generalizedTime, content⟩ ++ rest)
      = some (t, rest) := by
  have hroom : Element.HasRoom ⟨Tag.generalizedTime, content⟩ := by
    show content.length ≤ 0x7FFFFFFFFFFFFFFF
    omega
  rw [read?, Ber.read?_encode (by simp) hroom]
  simp [Element.view, Tag.generalizedTime, Ber.Element.isOf,
    Ber.Universal.number, h]

/-- A second of the years 0 to 9999 is written as an element that is read
as this second. -/
theorem read?_encode? {s : Int} {der : Bytes} (h : encode? s = some der) :
    ∃ e : Element, e.encode = der
      ∧ ∀ rest, read? (e.encode ++ rest) = some (⟨s, 0⟩, rest) := by
  have hdate : (DateTime.ofSeconds s).date.isValid = true :=
    isValid_ofDays _
  have hclock := ofSeconds_bounds s
  have hseconds := toSeconds_ofSeconds s
  unfold encode? at h
  generalize DateTime.ofSeconds s = t at *
  rw [← hseconds]
  simp only at h
  split at h
  · cases h
  · next hrange =>
      split at h
      · next hutc =>
          refine ⟨_, Option.some.inj h, fun rest => ?_⟩
          refine read?_utc ?_ (ofUtc?_encodeRest hdate hclock hutc) rest
          simp [length_digits, length_encodeRest]
      · next hother =>
          have hyear : 0 ≤ t.date.year ∧ t.date.year ≤ 9999 := by omega
          refine ⟨_, Option.some.inj h, fun rest => ?_⟩
          refine read?_generalized ?_
            (ofGeneralized?_encodeRest hdate hclock hyear) rest
          simp [length_digits, length_encodeRest]

-- =========================================================== which times

/-- A second of the years 0 to 9999. -/
def Writable (s : Int) : Prop :=
  0 ≤ (DateTime.ofSeconds s).date.year
    ∧ (DateTime.ofSeconds s).date.year ≤ 9999

/-- These are the seconds that can be written, in at most seventeen
octets. -/
theorem exists_encode?_iff {s : Int} :
    (∃ der, encode? s = some der ∧ der.length ≤ 17) ↔ Writable s := by
  unfold encode? Writable
  generalize DateTime.ofSeconds s = t
  dsimp only
  split
  · next houtside =>
      constructor
      · rintro ⟨der, h, -⟩
        cases h
      · intro h
        omega
  · next hinside =>
      refine ⟨fun _ => by omega, fun _ => ?_⟩
      split
      · exact ⟨_, rfl, by simp [Element.encode, Der.lengthOctets,
          length_digits, length_encodeRest]⟩
      · exact ⟨_, rfl, by simp [Element.encode, Der.lengthOctets,
          length_digits, length_encodeRest]⟩

theorem encode?_eq_none {s : Int} (h : ¬ Writable s) : encode? s = none := by
  unfold Writable at h
  unfold encode?
  dsimp only
  rw [if_pos (by omega)]

end TlsKeystore.X509Time
