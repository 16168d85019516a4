/-
What can be told from the text of a summary.

# From the end

The alias and the common name are shown as they are, line ends and all, so
nothing in the text says where they end. But they stand in front. The seven
lines behind them are each on one line (`OneLine`), whatever the certificate
says, so the last line end of a text is that in front of its last line, and
from there they are told apart one by one (`lines_inj`).

# On each line

A line has its label in front of what it shows, and that is shown without
loss. A time is its numbers in decimal, of fixed width but for the year, and
these are those of a calendar and a clock that nothing is lost in
(`Timestamp.text_inj`). A constraint is words with blanks between them, and
a length is no word (`Summary.constraintText_inj`).
-/
import TlsKeystore.Proofs.Calendar
import TlsKeystore.Proofs.Validity

namespace TlsKeystore

-- ============================================================== one line

/-- A text without a line end. -/
def OneLine (s : String) : Prop := '\n' ∉ s.toList

theorem OneLine.append {s t : String} (hs : OneLine s) (ht : OneLine t) :
    OneLine (s ++ t) := by
  unfold OneLine
  rw [String.toList_append, List.mem_append]
  intro h
  rcases h with h | h
  · exact hs h
  · exact ht h

/-- A number in decimal consists of digits. -/
theorem isDigit_of_mem_toString {n : Nat} {c : Char}
    (hc : c ∈ (toString n).toList) : c.isDigit = true := by
  rw [Nat.toString_eq_ofList_toDigits, String.toList_ofList] at hc
  exact Nat.isDigit_of_mem_toDigits (by decide) (by decide) hc

theorem notMem_toString {c : Char} (hc : c.isDigit = false) (n : Nat) :
    c ∉ (toString n).toList := by
  intro h
  rw [isDigit_of_mem_toString h] at hc
  cases hc

/-- A number with a sign may have a minus in front of its digits. -/
theorem notMem_toString_int {c : Char} (hc : c.isDigit = false)
    (hminus : c ≠ '-') (n : Int) : c ∉ (toString n).toList := by
  rw [Int.toString_eq_repr, Int.repr_eq_if]
  split
  · exact notMem_toString hc _
  · rw [String.toList_append, List.mem_append]
    intro h
    rcases h with h | h
    · exact hminus (by simpa using h)
    · exact notMem_toString hc _ h

theorem oneLine_toHex (b : Bytes) : OneLine (Bytes.toHex b) := by
  have hdigit : ∀ n < 16, Bytes.hexDigit n ≠ '\n' := by decide
  unfold OneLine Bytes.toHex
  rw [String.toList_ofList]
  induction b with
  | nil => exact List.not_mem_nil
  | cons x b ih =>
      have hx := x.toNat_lt
      rw [Bytes.hexChars, List.mem_cons, List.mem_cons]
      intro h
      rcases h with h | h | h
      · exact hdigit _ (by omega) h.symm
      · exact hdigit _ (by omega) h.symm
      · exact ih h

theorem oneLine_intercalate {separator : String} {texts : List String}
    (hseparator : OneLine separator) (htexts : ∀ s ∈ texts, OneLine s) :
    OneLine (separator.intercalate texts) := by
  induction texts with
  | nil => exact List.not_mem_nil
  | cons s texts ih =>
      have hs := htexts s List.mem_cons_self
      have hrest := ih fun t ht => htexts t (List.mem_cons_of_mem _ ht)
      cases texts with
      | nil =>
          rw [String.intercalate_singleton]
          exact hs
      | cons t texts =>
          rw [String.intercalate_cons_cons]
          exact (hs.append hseparator).append hrest

/-- An identifier is shown on one line, in either form. -/
theorem oneLine_dotted (oid : Oid) : OneLine oid.dotted := by
  unfold Oid.dotted
  split
  · apply oneLine_intercalate (show '\n' ∉ _ by decide)
    intro s hs
    obtain ⟨x, -, rfl⟩ := List.mem_map.mp hs
    exact oneLine_toHex [x]
  · apply oneLine_intercalate (show '\n' ∉ _ by decide)
    intro s hs
    obtain ⟨n, -, rfl⟩ := List.mem_map.mp hs
    exact notMem_toString rfl n

-- ================================================================= lines

variable {front front' : List Char}

/-- What stands in front of the first of some character, and behind it. -/
theorem part_inj {c : Char} {part part' rest rest' : List Char}
    (hpart : c ∉ part) (hpart' : c ∉ part')
    (h : part ++ c :: rest = part' ++ c :: rest') :
    part = part' ∧ rest = rest' := by
  have htake {u t : List Char} (hu : c ∉ u) :
      (u ++ c :: t).takeWhile (· != c) = u := by
    have hall : ∀ x ∈ u, (x != c) = true := by
      intro x hx
      exact bne_iff_ne.mpr fun hxc => hu (hxc ▸ hx)
    rw [List.takeWhile_append_of_pos hall]
    simp
  have hsame : part = part' := by
    rw [← htake hpart, h, htake hpart']
  subst hsame
  exact ⟨rfl, (List.cons_eq_cons.mp (List.append_cancel_left h)).2⟩

/-- The last line of a text, and what stands in front of it. -/
theorem lastLine_inj {line line' : List Char} (hline : '\n' ∉ line)
    (hline' : '\n' ∉ line')
    (h : front ++ '\n' :: line = front' ++ '\n' :: line') :
    front = front' ∧ line = line' := by
  have hreverse : line.reverse ++ '\n' :: front.reverse
      = line'.reverse ++ '\n' :: front'.reverse := by
    simpa using congrArg List.reverse h
  obtain ⟨hlast, hfront⟩ := part_inj (by simpa using hline)
    (by simpa using hline') hreverse
  exact ⟨List.reverse_inj.mp hfront, List.reverse_inj.mp hlast⟩

/-- As many lines at the end of a text as are known to be there. -/
theorem lines_inj {ls ls' : List String} (hlength : ls.length = ls'.length)
    (hls : ∀ l ∈ ls, OneLine l) (hls' : ∀ l ∈ ls', OneLine l)
    (h : front ++ ls.flatMap (fun l => '\n' :: l.toList)
      = front' ++ ls'.flatMap (fun l => '\n' :: l.toList)) :
    ls = ls' := by
  induction ls using List.reverseRecOn generalizing ls' with
  | nil => exact (List.length_eq_zero_iff.mp hlength.symm).symm
  | append_singleton ls l ih =>
      rcases List.eq_nil_or_concat ls' with rfl | ⟨init, l', rfl⟩
      · simp at hlength
      · rw [List.concat_eq_append] at hlength hls' h ⊢
        simp only [List.length_append, List.length_singleton,
          Nat.add_right_cancel_iff] at hlength
        simp only [List.flatMap_append, List.flatMap_singleton,
          ← List.append_assoc] at h
        obtain ⟨hfront, hlast⟩ := lastLine_inj (hls l (by simp))
          (hls' l' (by simp)) h
        rw [String.toList_inj.mp hlast, ih hlength
          (fun x hx => hls x (by simp [hx]))
          (fun x hx => hls' x (by simp [hx])) hfront]

-- =============================================================== numbers

namespace Calendar

/-- What a number is filled up with does not count when it is read. -/
theorem ofDigitChars_filled (width : Nat) {fill : Char}
    (hfill : fill.toNat ≤ 48) (n : Nat) :
    Nat.ofDigitChars 10 (filled width fill n).toList 0 = n := by
  have hzero (count : Nat) (rest : List Char) :
      Nat.ofDigitChars 10 (List.replicate count fill ++ rest) 0
        = Nat.ofDigitChars 10 rest 0 := by
    have hnone : fill.toNat - '0'.toNat = 0 := Nat.sub_eq_zero_of_le hfill
    induction count with
    | zero => rfl
    | succ count ih =>
        rw [List.replicate_succ, List.cons_append, ← ih, Nat.ofDigitChars,
          List.foldl_cons, hnone]
        rfl
  rw [filled, String.toList_append, String.toList_ofList, hzero,
    Nat.toString_eq_ofList_toDigits, String.toList_ofList,
    Nat.ofDigitChars_ten_toDigits]

theorem filled_inj {width m n : Nat} {fill : Char} (hfill : fill.toNat ≤ 48)
    (h : (filled width fill m).toList = (filled width fill n).toList) :
    m = n := by
  rw [← ofDigitChars_filled width hfill m, h, ofDigitChars_filled width hfill]

theorem length_filled_two {n : Nat} (hn : n < 100) (fill : Char) :
    (filled 2 fill n).toList.length = 2 := by
  have hlength : (Nat.toDigits 10 n).length ≤ 2 :=
    (Nat.length_toDigits_le_iff (by decide) (by decide)).mpr hn
  rw [filled, String.toList_append, String.toList_ofList, List.length_append,
    List.length_replicate, Nat.toString_eq_ofList_toDigits,
    String.length_ofList, String.toList_ofList]
  omega

theorem notMem_filled {c fill : Char} (hc : c.isDigit = false)
    (hfill : c ≠ fill) (width n : Nat) :
    c ∉ (filled width fill n).toList := by
  rw [filled, String.toList_append, String.toList_ofList, List.mem_append]
  intro h
  rcases h with h | h
  · exact hfill (List.eq_of_mem_replicate h)
  · exact notMem_toString hc n h

/-- The names of the months all differ, and all have three letters. -/
theorem monthName_inj {m n : Nat} (hm : 1 ≤ m ∧ m ≤ 12)
    (hn : 1 ≤ n ∧ n ≤ 12) (h : monthName m = monthName n) : m = n := by
  have hall : ∀ m ≤ 12, ∀ n ≤ 12, 1 ≤ m → 1 ≤ n →
      monthName m = monthName n → m = n := by decide
  exact hall m hm.2 n hn.2 hm.1 hn.1 h

theorem monthName_letters {m : Nat} (hm : 1 ≤ m ∧ m ≤ 12) :
    (monthName m).toList.length = 3 ∧ OneLine (monthName m) := by
  have hall : ∀ m ≤ 12, 1 ≤ m → (monthName m).toList.length = 3
      ∧ '\n' ∉ (monthName m).toList := by decide
  exact hall m hm.2 hm.1

end Calendar

-- ================================================================= times

namespace Timestamp

open Calendar

/-- What a clock with an offset shows. -/
def shown (t : Timestamp) : DateTime :=
  DateTime.ofSeconds (t.seconds + t.offset * 60)

/-- How far the clock is ahead, with a sign. -/
def ahead (t : Timestamp) : List Char :=
  (if t.offset < 0 then '-' else '+')
    :: ((filled 2 '0' (t.offset.natAbs / 60)).toList
      ++ ':' :: (filled 2 '0' (t.offset.natAbs % 60)).toList)

theorem shown_bounds (t : Timestamp) :
    (1 ≤ t.shown.date.month ∧ t.shown.date.month ≤ 12)
      ∧ t.shown.date.day < 100 ∧ t.shown.hour < 100 ∧ t.shown.minute < 100
      ∧ t.shown.second < 100 := by
  have hvalid : t.shown.date.isValid = true := isValid_ofDays _
  obtain ⟨hmonth, hday⟩ := Date.bounds_of_isValid hvalid
  obtain ⟨hhour, hminute, hsecond⟩ := ofSeconds_bounds
    (t.seconds + t.offset * 60)
  have hfirst : 1 ≤ t.shown.date.month := by
    simp only [Date.isValid, Bool.and_eq_true, decide_eq_true_eq] at hvalid
    exact hvalid.1.1.1
  unfold shown at *
  refine ⟨⟨hfirst, hmonth⟩, ?_, ?_, ?_, ?_⟩ <;> omega

/-- The text of a time, part by part. -/
theorem toList_text (t : Timestamp) :
    t.text.toList = (monthName t.shown.date.month).toList ++ ' '
      :: ((filled 2 ' ' t.shown.date.day).toList ++ ' '
      :: ((filled 2 '0' t.shown.hour).toList ++ ':'
      :: ((filled 2 '0' t.shown.minute).toList ++ ':'
      :: ((filled 2 '0' t.shown.second).toList ++ ' '
      :: ((toString t.shown.date.year).toList ++ ' ' :: t.ahead))))) := by
  have hsign : (if t.offset < 0 then "-" else "+").toList
      = [if t.offset < 0 then '-' else '+'] := by
    split <;> rfl
  have hblank : " ".toList = [' '] := rfl
  have hcolon : ":".toList = [':'] := rfl
  unfold text ahead shown
  simp only [String.toList_append, List.append_assoc, hsign, hblank, hcolon,
    List.cons_append, List.nil_append]

theorem notMem_ahead {c : Char} (hc : c.isDigit = false) (hminus : c ≠ '-')
    (hplus : c ≠ '+') (hcolon : c ≠ ':') (hzero : c ≠ '0') (t : Timestamp) :
    c ∉ t.ahead := by
  unfold ahead
  rw [List.mem_cons, List.mem_append, List.mem_cons]
  intro h
  rcases h with h | h | h | h
  · split at h
    · exact hminus h
    · exact hplus h
  · exact notMem_filled hc hzero 2 _ h
  · exact hcolon h
  · exact notMem_filled hc hzero 2 _ h

theorem oneLine_text (t : Timestamp) : OneLine t.text := by
  obtain ⟨hmonth, -⟩ := t.shown_bounds
  obtain ⟨-, hname⟩ := monthName_letters hmonth
  have hblanks (n : Nat) : '\n' ∉ (filled 2 ' ' n).toList :=
    notMem_filled rfl (by decide) 2 n
  have hzeros (n : Nat) : '\n' ∉ (filled 2 '0' n).toList :=
    notMem_filled rfl (by decide) 2 n
  have hyear : '\n' ∉ (toString t.shown.date.year).toList :=
    notMem_toString_int rfl (by decide) _
  have hahead : '\n' ∉ t.ahead := notMem_ahead rfl (by decide) (by decide)
    (by decide) (by decide) t
  unfold OneLine at *
  rw [toList_text]
  simp only [List.mem_append, List.mem_cons, hname, hblanks, hzeros, hyear,
    hahead]
  decide

theorem offset_eq_of_ahead {t t' : Timestamp} (h : t.ahead = t'.ahead) :
    t.offset = t'.offset := by
  have hcolon (n : Nat) : ':' ∉ (filled 2 '0' n).toList :=
    notMem_filled rfl (by decide) 2 n
  obtain ⟨hsign, hrest⟩ := List.cons_eq_cons.mp h
  obtain ⟨hhours, hminutes⟩ := part_inj (hcolon _) (hcolon _) hrest
  have hhours := filled_inj (by decide) hhours
  have hminutes := filled_inj (by decide) hminutes
  by_cases hbehind : t.offset < 0
  · by_cases hbehind' : t'.offset < 0
    · omega
    · rw [if_pos hbehind, if_neg hbehind'] at hsign
      exact absurd hsign (by decide)
  · by_cases hbehind' : t'.offset < 0
    · rw [if_neg hbehind, if_pos hbehind'] at hsign
      exact absurd hsign (by decide)
    · omega

/-- Times with one text are the same instant, on clocks that are ahead
alike. -/
theorem text_inj {t t' : Timestamp} (h : t.text = t'.text) : t = t' := by
  obtain ⟨hmonth, hday, hhour, hminute, hsecond⟩ := t.shown_bounds
  obtain ⟨hmonth', hday', hhour', hminute', hsecond'⟩ := t'.shown_bounds
  have hlist := congrArg String.toList h
  rw [toList_text, toList_text] at hlist
  -- the parts in front of the year have their places
  have htwo {m n : Nat} (hm : m < 100) (hn : n < 100) (fill : Char) :
      (filled 2 fill m).toList.length = (filled 2 fill n).toList.length := by
    rw [length_filled_two hm, length_filled_two hn]
  obtain ⟨hname, hlist⟩ := List.append_inj hlist
    ((monthName_letters hmonth).1.trans (monthName_letters hmonth').1.symm)
  obtain ⟨hdays, hlist⟩ := List.append_inj (List.cons_eq_cons.mp hlist).2
    (htwo hday hday' _)
  obtain ⟨hhours, hlist⟩ := List.append_inj (List.cons_eq_cons.mp hlist).2
    (htwo hhour hhour' _)
  obtain ⟨hminutes, hlist⟩ := List.append_inj (List.cons_eq_cons.mp hlist).2
    (htwo hminute hminute' _)
  obtain ⟨hseconds, hlist⟩ := List.append_inj (List.cons_eq_cons.mp hlist).2
    (htwo hsecond hsecond' _)
  obtain ⟨hyears, hahead⟩ := part_inj
    (notMem_toString_int rfl (by decide) _)
    (notMem_toString_int rfl (by decide) _) (List.cons_eq_cons.mp hlist).2
  have hoffset := offset_eq_of_ahead hahead
  have hyear : t.shown.date.year = t'.shown.date.year := by
    rw [String.toList_inj, Int.toString_eq_repr, Int.toString_eq_repr,
      Int.repr_inj] at hyears
    exact hyears
  have hshown : t.shown = t'.shown := by
    have hmonths := monthName_inj hmonth hmonth' (String.toList_inj.mp hname)
    have hdays := filled_inj (by decide) hdays
    have hhours := filled_inj (by decide) hhours
    have hminutes := filled_inj (by decide) hminutes
    have hseconds := filled_inj (by decide) hseconds
    generalize t.shown = d at *
    generalize t'.shown = d' at *
    obtain ⟨⟨year, month, day⟩, hour, minute, second⟩ := d
    obtain ⟨⟨year', month', day'⟩, hour', minute', second'⟩ := d'
    simp_all
  have hsum := congrArg DateTime.toSeconds hshown
  rw [shown, shown, toSeconds_ofSeconds, toSeconds_ofSeconds] at hsum
  obtain ⟨seconds, offset⟩ := t
  obtain ⟨seconds', offset'⟩ := t'
  obtain rfl : offset = offset' := hoffset
  obtain rfl : seconds = seconds' := by
    dsimp only at hsum
    omega
  rfl

end Timestamp

-- ============================================================= summaries

namespace Summary

/-- How long chains may be, in words or in digits. -/
def lengthText : Option Nat → String
  | none => "unconstrained"
  | some n => toString n

theorem lengthText_inj {n n' : Option Nat} (h : lengthText n = lengthText n') :
    n = n' := by
  have hword (n : Nat) : "unconstrained" ≠ toString n := by
    intro h
    have hfirst : 'u' ∈ (toString n).toList := by
      rw [← h]
      decide
    exact notMem_toString rfl n hfirst
  cases n with
  | none =>
      cases n' with
      | none => rfl
      | some n' => exact absurd h (hword n')
  | some n =>
      cases n' with
      | none => exact absurd h.symm (hword n)
      | some n' => rw [Nat.repr_inj.mp h]

theorem notMem_lengthText {c : Char} (hc : c.isDigit = false)
    (hword : c ∉ "unconstrained".toList) (n : Option Nat) :
    c ∉ (lengthText n).toList := by
  cases n with
  | none => exact hword
  | some n => exact notMem_toString hc n

theorem toString_bool_inj {b b' : Bool} (h : toString b = toString b') :
    b = b' := by
  revert b b'
  decide

theorem constraintText_some (c : CaConstraint) :
    constraintText (some c) = "ca=" ++ toString c.authority ++ " path_len="
      ++ lengthText c.pathLength ++ " critical=" ++ toString c.critical := by
  obtain ⟨authority, pathLength, critical⟩ := c
  cases pathLength <;> rfl

/-- The text of a constraint, part by part. -/
theorem toList_constraintText (c : CaConstraint) :
    (constraintText (some c)).toList = 'c' :: ("a=".toList
      ++ ((toString c.authority).toList ++ ' ' :: ("path_len=".toList
      ++ ((lengthText c.pathLength).toList ++ ' ' :: ("critical=".toList
      ++ (toString c.critical).toList))))) := by
  rw [constraintText_some]
  simp only [String.toList_append, List.append_assoc]
  rfl

theorem oneLine_constraintText (ca : Option CaConstraint) :
    OneLine (constraintText ca) := by
  cases ca with
  | none => exact show '\n' ∉ _ by decide
  | some c =>
      have hbool : ∀ b : Bool, '\n' ∉ (toString b).toList := by decide
      have hlength : '\n' ∉ (lengthText c.pathLength).toList :=
        notMem_lengthText rfl (by decide) _
      unfold OneLine
      rw [toList_constraintText]
      simp only [List.mem_append, List.mem_cons, hbool, hlength]
      decide

/-- Constraints with one text are the same, or both are absent. -/
theorem constraintText_inj {ca ca' : Option CaConstraint}
    (h : constraintText ca = constraintText ca') : ca = ca' := by
  have habsent (c : CaConstraint) :
      constraintText none ≠ constraintText (some c) := by
    intro h
    have hlist := congrArg String.toList h
    rw [toList_constraintText] at hlist
    exact absurd (List.cons_eq_cons.mp hlist).1 (by decide)
  have hbool : ∀ b : Bool, ' ' ∉ (toString b).toList := by decide
  have hlength (n : Option Nat) : ' ' ∉ (lengthText n).toList :=
    notMem_lengthText rfl (by decide) n
  cases ca with
  | none =>
      cases ca' with
      | none => rfl
      | some c => exact absurd h (habsent c)
  | some c =>
      cases ca' with
      | none => exact absurd h.symm (habsent c)
      | some c' =>
          have hlist := congrArg String.toList h
          rw [toList_constraintText, toList_constraintText] at hlist
          obtain ⟨hauthority, hlist⟩ := part_inj (hbool _) (hbool _)
            (List.append_cancel_left (List.cons_eq_cons.mp hlist).2)
          obtain ⟨hlengths, hlist⟩ := part_inj (hlength _) (hlength _)
            (List.append_cancel_left hlist)
          have hcritical := List.append_cancel_left hlist
          obtain ⟨authority, pathLength, critical⟩ := c
          obtain ⟨authority', pathLength', critical'⟩ := c'
          obtain rfl : authority = authority' :=
            toString_bool_inj (String.toList_inj.mp hauthority)
          obtain rfl : pathLength = pathLength' :=
            lengthText_inj (String.toList_inj.mp hlengths)
          obtain rfl : critical = critical' :=
            toString_bool_inj (String.toList_inj.mp hcritical)
          rfl

/-- The lines behind those of the names. -/
def technical (s : Summary) : List String :=
  ["self-issued:      " ++ toString s.selfIssued,
    "serial:           " ++ s.serial,
    "not before:       " ++ s.notBefore.text,
    "not after:        " ++ s.notAfter.text,
    "basic constraints: " ++ constraintText s.ca,
    "signature:        " ++ s.signatureAlgorithm,
    "key matches cert: " ++ toString s.keyMatches]

theorem toList_text (s : Summary) :
    s.text.toList = ("alias:            " ++ s.label ++ "\n"
        ++ "common name:      " ++ s.commonName.getD "<none>").toList
      ++ s.technical.flatMap fun l => '\n' :: l.toList := by
  have hend : "\n".toList = ['\n'] := rfl
  unfold text technical
  simp only [String.intercalate_cons_cons, String.intercalate_singleton,
    String.toList_append, List.flatMap_cons, List.flatMap_nil, hend,
    List.append_assoc, List.cons_append, List.nil_append, List.append_nil]

/-- Each of them is one line, whatever stands in the certificate. -/
theorem oneLine_technical {b : OpenedBundle} {s : Summary}
    (h : b.summary = .ok s) : ∀ l ∈ s.technical, OneLine l := by
  obtain ⟨c, hserial, halgorithm⟩ : ∃ c : Certificate,
      s.serial = c.serialHex
        ∧ s.signatureAlgorithm = c.signatureAlgorithmText := by
    have hanswers := OpenedBundle.answers_of_summary h
    have hserial := hanswers.serial
    have halgorithm := hanswers.signatureAlgorithm
    cases hparse : Certificate.parse b.certificate with
    | error d =>
        rw [Inspect.serialHex, Inspect.ask_of_error hparse] at hserial
        cases hserial
    | ok c =>
        rw [Inspect.serialHex, Inspect.ask_eq hparse] at hserial
        rw [Inspect.signatureAlgorithm, Inspect.ask_eq hparse] at halgorithm
        exact ⟨c, (Except.ok.inj hserial).symm,
          (Except.ok.inj halgorithm).symm⟩
  have hbool (b : Bool) : OneLine (toString b) := by
    unfold OneLine
    revert b
    decide
  have hlabel {label shown : String} (hl : '\n' ∉ label.toList)
      (hs : OneLine shown) : OneLine (label ++ shown) := OneLine.append hl hs
  unfold technical
  rw [hserial, halgorithm]
  simp only [List.forall_mem_cons]
  refine ⟨hlabel (by decide) (hbool _),
    hlabel (by decide) (oneLine_toHex _),
    hlabel (by decide) s.notBefore.oneLine_text,
    hlabel (by decide) s.notAfter.oneLine_text,
    hlabel (by decide) (oneLine_constraintText _),
    hlabel (by decide) (oneLine_dotted _),
    hlabel (by decide) (hbool _), ?_⟩
  intro l hl
  cases hl

/-- Whatever the names are, the text tells all fields behind them: summaries
of any two bundles with one text agree in whether the certificate issued
itself, its serial number, both bounds of its validity, its constraints, its
algorithm, and whether the key matches. -/
theorem technical_of_text {b b' : OpenedBundle} {s s' : Summary}
    (h : b.summary = .ok s) (h' : b'.summary = .ok s')
    (htext : s.text = s'.text) :
    s.selfIssued = s'.selfIssued ∧ s.serial = s'.serial
      ∧ s.notBefore = s'.notBefore ∧ s.notAfter = s'.notAfter
      ∧ s.ca = s'.ca ∧ s.signatureAlgorithm = s'.signatureAlgorithm
      ∧ s.keyMatches = s'.keyMatches := by
  have hlist := congrArg String.toList htext
  rw [toList_text, toList_text] at hlist
  have hlength : s.technical.length = s'.technical.length := by
    simp only [technical, List.length_cons, List.length_nil]
  have hlines : s.technical = s'.technical :=
    lines_inj hlength (oneLine_technical h) (oneLine_technical h') hlist
  unfold technical at hlines
  simp only [List.cons.injEq, String.append_right_inj, and_true] at hlines
  obtain ⟨hself, hserial, hfirst, hlast, hca, halgorithm, hkey⟩ := hlines
  exact ⟨toString_bool_inj hself, hserial, Timestamp.text_inj hfirst,
    Timestamp.text_inj hlast, constraintText_inj hca, halgorithm,
    toString_bool_inj hkey⟩

/-- The summary of a certificate for a name, under an alias. -/
def named (label name : String) : Summary where
  label := label
  commonName := some name
  selfIssued := true
  serial := Bytes.toHex (Der.naturalOctets 255)
  notBefore := ⟨-1, 0⟩
  notAfter := ⟨0, 0⟩
  ca := some ⟨true, none, true⟩
  signatureAlgorithm := Signature.sha256WithRsa.dotted
  keyMatches := true

theorem exists_summary_named (label name : String)
    (hroom : (Utf8.encode name).length ≤ 1000) :
    ∃ b : OpenedBundle, b.summary = .ok (named label name) := by
  let t : CertificateTerms := { CertificateTerms.plain with commonName := name }
  have hfirst : t.notBefore.seconds = -1 := rfl
  have hlast : t.notAfter.seconds = 0 := rfl
  have hnames : Name.textLength t.nameAttributes
      = (Utf8.encode name).length := rfl
  have hserial : t.serial.length = 2 := rfl
  obtain ⟨certificate, hsign⟩ := CertificateTerms.selfSign_isOk_of_writable
    (t := t) PrivateKey.fit_drawn.signs PrivateKey.sound_drawn
    (by rw [hfirst, X509Time.writable_iff]; omega)
    (by rw [hlast, X509Time.writable_iff]; omega)
    (by rw [hnames, hserial, Bytes.maxLength]; omega)
  obtain ⟨signed, signature, -, -, -, hparse⟩ :=
    CertificateTerms.parse_selfSign hsign
  have hask {α : Type} := Inspect.ask_eq (α := α) hparse
  have hself : (t.written PrivateKey.drawn signed signature).selfIssued
      = true := by
    simp [Certificate.selfIssued, CertificateTerms.written]
  refine ⟨⟨label, PrivateKey.drawn.encode, certificate⟩,
    OpenedBundle.summary_eq_ok_iff.mpr ⟨rfl, ?_, ?_, ?_, ?_, ?_, ?_, ?_⟩⟩
  · exact (hask _).trans (CertificateTerms.commonName_written ..)
  · rw [Inspect.selfIssued, hask, hself]
    rfl
  · have hnumber : Bytes.toNat t.serial = 255 := rfl
    rw [Inspect.serialHex, hask, Certificate.serialHex]
    show Except.ok (Bytes.toHex (Der.naturalOctets (Bytes.toNat t.serial))) = _
    rw [hnumber]
    rfl
  · rw [Inspect.validity, hask, Certificate.validity]
    show Except.ok (Timestamp.mk t.notBefore.seconds 0,
      Timestamp.mk t.notAfter.seconds 0) = _
    rw [hfirst, hlast]
    rfl
  · exact (hask _).trans (CertificateTerms.caConstraint_written ..)
  · rw [Inspect.signatureAlgorithm, hask]
    rfl
  · exact OpenedBundle.keyMatches_encode PrivateKey.fit_drawn hsign label

/-- An alias that goes on as a common name would: the names are not told
apart, and all else is. -/
theorem technical_of_text_moved :
    ∃ b b' : OpenedBundle, ∃ s s', b.summary = .ok s ∧ b'.summary = .ok s'
      ∧ s.text = s'.text ∧ s.label ≠ s'.label
      ∧ s.commonName ≠ s'.commonName ∧ s.serial = s'.serial := by
  obtain ⟨b, h⟩ := exists_summary_named "a\ncommon name:      b" "c"
    (by decide)
  obtain ⟨b', h'⟩ := exists_summary_named "a"
    "b\ncommon name:      c" (by decide)
  have htext : (named "a\ncommon name:      b" "c").text
      = (named "a" "b\ncommon name:      c").text := by
    apply String.toList_inj.mp
    rw [toList_text, toList_text]
    rfl
  obtain ⟨-, hserial, -⟩ := technical_of_text h h' htext
  exact ⟨b, b', _, _, h, h', htext, by decide, by decide, hserial⟩

end Summary
end TlsKeystore
