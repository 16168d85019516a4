/-
Days, dates and back.

# An era

The arithmetic of `Date.ofDays` runs inside an era of 146097 days. Every
day of an era is `century`, `cycle` (of four years), `year` and `day` with
nothing left over (`exists_split`), where the leap day is day 365 of the
last year of a cycle, and missing from the last cycle of a century unless
that is the last of the era. The closed form for the year of the era then
is what it should be (`yearOfEra_split`): the day count goes down by one
for each full cycle, and the one place where it may go down too early is
the leap day itself.

# Back

From there on each step is a division. `toDays_ofDays` and
`toSeconds_ofSeconds` say that nothing is lost, `isValid_ofDays` that the
calendar has every day that comes out. Since days go up with years, the
years of four digits are the days between two (`Date.year_bounds_iff`).
-/
import Mathlib
import TlsKeystore.Calendar

namespace TlsKeystore

-- =============================================================== one era

/-- The place of a day in its era. -/
private structure Split (n century cycle year day : Int) : Prop where
  sum : n = 36524 * century + 1461 * cycle + 365 * year + day
  centuries : 0 ≤ century ∧ century ≤ 3
  cycles : 0 ≤ cycle ∧ cycle ≤ 24
  years : 0 ≤ year ∧ year ≤ 3
  days : 0 ≤ day ∧ (day ≤ 364
    ∨ day = 365 ∧ year = 3 ∧ (cycle ≠ 24 ∨ century = 3))

private theorem exists_split {n : Int} (h0 : 0 ≤ n) (hn : n < 146097) :
    ∃ century cycle year day, Split n century cycle year day := by
  obtain ⟨f, hf⟩ : ∃ f, f = min (n / 36524) 3 := ⟨_, rfl⟩
  obtain ⟨r, hr⟩ : ∃ r, r = n - 36524 * f := ⟨_, rfl⟩
  obtain ⟨k, hk⟩ : ∃ k, k = r / 1461 := ⟨_, rfl⟩
  obtain ⟨s, hs⟩ : ∃ s, s = r - 1461 * k := ⟨_, rfl⟩
  obtain ⟨j, hj⟩ : ∃ j, j = min (s / 365) 3 := ⟨_, rfl⟩
  have hrange : 0 ≤ r ∧ (r < 36524 ∨ r = 36524 ∧ f = 3) := by omega
  have hcycle : 0 ≤ k ∧ k ≤ 24 ∧ 0 ≤ s ∧ s < 1461
      ∧ (s = 1460 → k ≠ 24 ∨ f = 3) := by omega
  refine ⟨f, k, j, s - 365 * j, ?_, ?_, ?_, ?_, ?_⟩ <;> omega

/-- The closed form for the year of the era. -/
private theorem yearOfEra_split {n century cycle year day : Int}
    (h : Split n century cycle year day) :
    (n - n / 1460 + n / 36524 - n / 146096) / 365
      = 100 * century + 4 * cycle + year := by
  obtain ⟨rfl, hcentury, hcycle, hyear, hday⟩ := h
  generalize hn : 36524 * century + 1461 * cycle + 365 * year + day = n
  -- one day less for each cycle, and for the leap day
  have hleap : n / 1460 = 25 * century + cycle
      + (24 * century + cycle + 365 * year + day) / 1460 := by omega
  have hextra : (24 * century + cycle + 365 * year + day) / 1460 ≤ 1
      ∧ 0 ≤ (24 * century + cycle + 365 * year + day) / 1460
      ∧ (day = 0 → (24 * century + cycle + 365 * year + day) / 1460 = 0)
      ∧ (day = 365 → (24 * century + cycle + 365 * year + day) / 1460 = 1) := by
    omega
  -- one day more for each century, but for the last day of the era
  have hrest : 1461 * cycle + 365 * year + day ≤ 36523
      ∨ 1461 * cycle + 365 * year + day = 36524 ∧ century = 3 := by omega
  have hcenturies : n / 36524 - n / 146096 = century := by
    rcases hrest with hrest | ⟨hrest, rfl⟩
    · have : n / 36524 = century := by omega
      omega
    · omega
  omega

/-- The day of the year, counted from March. -/
private theorem dayOfYear_split {n century cycle year day y : Int}
    (h : Split n century cycle year day)
    (hy : y = 100 * century + 4 * cycle + year) :
    n - (365 * y + y / 4 - y / 100) = day := by
  obtain ⟨rfl, hcentury, hcycle, hyear, hday⟩ := h
  have hfour : y / 4 = 25 * century + cycle := by omega
  have hhundred : y / 100 = century := by omega
  omega

-- ================================================================== dates

/-- The date of a place in an era, where the months count from March. -/
private def dateOf (era century cycle year day : Int) : Date :=
  let y := 100 * century + 4 * cycle + year + era * 400
  let m := (5 * day + 2) / 153
  let month := if m < 10 then m + 3 else m - 9
  ⟨if month ≤ 2 then y + 1 else y, month.toNat,
    (day - (153 * m + 2) / 5 + 1).toNat⟩

private theorem ofDays_split (days : Int) :
    ∃ century cycle year day,
      Split ((days + 719468) % 146097) century cycle year day
      ∧ Date.ofDays days
        = dateOf ((days + 719468) / 146097) century cycle year day := by
  obtain ⟨century, cycle, year, day, hsplit⟩ :=
    exists_split (n := (days + 719468) % 146097) (by omega) (by omega)
  have hyear := yearOfEra_split hsplit
  have hday := dayOfYear_split hsplit rfl
  refine ⟨century, cycle, year, day, hsplit, ?_⟩
  unfold Date.ofDays
  simp only [hyear, hday]
  rfl

/-- A date tells its day. -/
theorem toDays_ofDays (days : Int) : (Date.ofDays days).toDays = days := by
  obtain ⟨century, cycle, year, day, hsplit, hdate⟩ := ofDays_split days
  obtain ⟨hsum, hcentury, hcycle, hyear, hday⟩ := hsplit
  rw [hdate]
  generalize hera : (days + 719468) / 146097 = era
  have hdays : days + 719468 = era * 146097 + 36524 * century + 1461 * cycle
      + 365 * year + day := by omega
  obtain ⟨m, hm⟩ : ∃ m, m = (5 * day + 2) / 153 := ⟨_, rfl⟩
  obtain ⟨d, hd⟩ : ∃ d, d = day - (153 * m + 2) / 5 + 1 := ⟨_, rfl⟩
  have hmonth : 0 ≤ m ∧ m ≤ 11 := by omega
  have hdpos : 1 ≤ d := by omega
  obtain ⟨y, hy⟩ : ∃ y, y = 100 * century + 4 * cycle + year + era * 400 :=
    ⟨_, rfl⟩
  have hfour : y / 4 = 25 * century + cycle + 100 * era := by omega
  have hhundred : y / 100 = century + 4 * era := by omega
  have hfourHundred : y / 400 = era := by omega
  simp only [dateOf, Date.toDays, ← hm, ← hd, ← hy]
  by_cases hlate : m < 10
  · have hcalendar : ¬ (m + 3).toNat ≤ 2 := by omega
    have hcalendarInt : ¬ m + 3 ≤ 2 := by omega
    simp only [if_pos hlate, if_neg hcalendar, if_neg hcalendarInt]
    have hback : (((m + 3).toNat : Int) - 3) = m := by omega
    rw [hback]
    omega
  · have hcalendar : (m - 9).toNat ≤ 2 := by omega
    have hcalendarInt : m - 9 ≤ 2 := by omega
    simp only [if_neg hlate, if_pos hcalendar, if_pos hcalendarInt]
    have hback : (((m - 9).toNat : Int) + 9) = m := by omega
    rw [hback, Int.add_sub_cancel]
    omega

/-- A date that comes out is one of the calendar. -/
theorem isValid_ofDays (days : Int) : (Date.ofDays days).isValid = true := by
  obtain ⟨century, cycle, year, day, hsplit, hdate⟩ := ofDays_split days
  obtain ⟨hsum, hcentury, hcycle, hyear, hday⟩ := hsplit
  rw [hdate]
  generalize (days + 719468) / 146097 = era
  obtain ⟨m, hm⟩ : ∃ m, m = (5 * day + 2) / 153 := ⟨_, rfl⟩
  have hmonth : 0 ≤ m ∧ m ≤ 11 := by omega
  obtain ⟨y, hy⟩ : ∃ y, y = 100 * century + 4 * cycle + year + era * 400 :=
    ⟨_, rfl⟩
  have hleap : Calendar.isLeap (y + 1) = false → day ≤ 364 := by
    intro hcommon
    by_contra hlast
    have hfour : (y + 1) % 4 = 0 := by omega
    have hhundred : (y + 1) % 100 ≠ 0 ∨ (y + 1) % 400 = 0 := by omega
    simp [Calendar.isLeap, hfour] at hcommon
    omega
  have hrange : 1 ≤ (day - (153 * m + 2) / 5 + 1).toNat := by omega
  have hlength : m ≠ 11 → ∀ year : Int, (day - (153 * m + 2) / 5 + 1).toNat
      ≤ Calendar.daysInMonth year
        (if m < 10 then m + 3 else m - 9).toNat := by
    intro hm11 year
    obtain ⟨hm0, hm1⟩ := hmonth
    interval_cases m <;> simp [Calendar.daysInMonth] at hm11 ⊢ <;> omega
  simp only [dateOf, Date.isValid, ← hm, ← hy, Bool.and_eq_true,
    decide_eq_true_eq]
  refine ⟨⟨⟨by split <;> omega, by split <;> omega⟩, hrange⟩, ?_⟩
  by_cases hfebruary : m = 11
  · rw [hfebruary] at hm ⊢
    show (day - 337 + 1).toNat
      ≤ if Calendar.isLeap (y + 1) then 29 else 28
    cases hyearKind : Calendar.isLeap (y + 1) with
    | true => rw [if_pos rfl]; omega
    | false =>
        have := hleap hyearKind
        rw [if_neg (by simp)]
        omega
  · exact hlength hfebruary _

-- ================================================================== times

/-- A time of day tells its second. -/
theorem toSeconds_ofSeconds (s : Int) :
    (DateTime.ofSeconds s).toSeconds = s := by
  simp only [DateTime.toSeconds, DateTime.ofSeconds, toDays_ofDays]
  omega

/-- A clock shows nothing past 23:59:59. -/
theorem ofSeconds_bounds (s : Int) :
    (DateTime.ofSeconds s).hour ≤ 23 ∧ (DateTime.ofSeconds s).minute ≤ 59
      ∧ (DateTime.ofSeconds s).second ≤ 59 := by
  simp only [DateTime.ofSeconds]
  omega

/-- The numbers of a date of the calendar have two digits. -/
theorem Date.bounds_of_isValid {d : Date} (h : d.isValid = true) :
    d.month ≤ 12 ∧ d.day ≤ 31 := by
  simp only [Date.isValid, Bool.and_eq_true, decide_eq_true_eq] at h
  obtain ⟨⟨⟨-, hmonth⟩, -⟩, hday⟩ := h
  refine ⟨hmonth, hday.trans ?_⟩
  unfold Calendar.daysInMonth
  split
  · split <;> omega
  all_goals omega

-- ================================================================== years

/-- The days of all years before `y`, where years begin in March. -/
private def daysBefore (y : Int) : Int := 365 * y + y / 4 - y / 100 + y / 400

/-- No year has less than 365 days. -/
private theorem daysBefore_add_le {y z : Int} (h : y ≤ z) :
    daysBefore y + 365 * (z - y) ≤ daysBefore z := by
  have hhundred (x : Int) : x / 100 = x / 4 / 25 := by omega
  have hfourHundred (x : Int) : x / 400 = x / 4 / 100 := by omega
  have hfour : y / 4 ≤ z / 4 := by omega
  unfold daysBefore
  rw [hhundred y, hhundred z, hfourHundred y, hfourHundred z]
  generalize y / 4 = m at *
  generalize z / 4 = n at *
  omega

/-- A year is on either side of both ends, and its days are. -/
private theorem daysBefore_cases (y : Int) :
    (y ≤ -1 ∧ daysBefore y + 365 * (-1 - y) ≤ -366
        ∨ -1 ≤ y ∧ -366 + 365 * (y + 1) ≤ daysBefore y)
      ∧ (y ≤ 9999 ∧ daysBefore y + 365 * (9999 - y) ≤ 3652059
        ∨ 9999 ≤ y ∧ 3652059 + 365 * (y - 9999) ≤ daysBefore y) := by
  have hfirst : daysBefore (-1) = -366 := by decide
  have hlast : daysBefore 9999 = 3652059 := by decide
  rw [← hfirst, ← hlast]
  constructor
  · rcases le_total y (-1) with hy | hy
    · exact Or.inl ⟨hy, daysBefore_add_le hy⟩
    · exact Or.inr ⟨hy, by simpa using daysBefore_add_le hy⟩
  · rcases le_total y 9999 with hy | hy
    · exact Or.inl ⟨hy, daysBefore_add_le hy⟩
    · exact Or.inr ⟨hy, daysBefore_add_le hy⟩

/-- The days of the years 0 to 9999, from the first to the last. -/
theorem Date.year_bounds_iff {d : Date} (h : d.isValid = true) :
    0 ≤ d.year ∧ d.year ≤ 9999
      ↔ -719528 ≤ d.toDays ∧ d.toDays ≤ 2932896 := by
  obtain ⟨hmonth, hday⟩ := bounds_of_isValid h
  obtain ⟨hmonth', hday'⟩ : 1 ≤ d.month ∧ 1 ≤ d.day := by
    simp only [isValid, Bool.and_eq_true, decide_eq_true_eq] at h
    exact ⟨h.1.1.1, h.1.2⟩
  unfold toDays
  by_cases hearly : d.month ≤ 2
  · have hmonths : 306 ≤ (153 * ((d.month : Int) + 9) + 2) / 5
        ∧ (153 * ((d.month : Int) + 9) + 2) / 5 ≤ 337 := by omega
    have hyear := daysBefore_cases (d.year - 1)
    simp only [if_pos hearly]
    unfold daysBefore at hyear
    omega
  · have hmonths : 0 ≤ (153 * ((d.month : Int) - 3) + 2) / 5
        ∧ (153 * ((d.month : Int) - 3) + 2) / 5 ≤ 275 := by omega
    have hyear := daysBefore_cases d.year
    simp only [if_neg hearly]
    unfold daysBefore at hyear
    omega

/-- Their seconds. -/
theorem DateTime.year_bounds_iff {s : Int} :
    0 ≤ (ofSeconds s).date.year ∧ (ofSeconds s).date.year ≤ 9999
      ↔ -62167219200 ≤ s ∧ s ≤ 253402300799 := by
  have hdate : (ofSeconds s).date = Date.ofDays (s / 86400) := rfl
  rw [hdate, Date.year_bounds_iff (isValid_ofDays _), toDays_ofDays]
  omega

end TlsKeystore
