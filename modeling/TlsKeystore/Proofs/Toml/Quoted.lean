/-
Every string can be written, and is read as itself.

# Between double quotes

A character stands there as itself, as a letter behind a backslash, or as a
number in hexadecimal (`Shows`), and in each case the reader has it back and
goes on behind it. So with quotes escaped, a string is read to its end, by
induction on its characters (`basicRest_escaped`).

# Quotes that stand as they are

In the long forms up to two quotes in a row stand for themselves, even in
front of the three that close the string. Of the quotes in a row the reader
takes the last three for the end, and at most two before them for the
string. So a quote is one of the string if behind it there come none or one,
or the closing three, or one and the closing three (`Spared`). All that the
long forms need is that what is written behind a quote is of this kind.

# The choice

Single quotes are chosen only where no character needs an escape and there
are few enough single quotes in a row (`plainest_literal`,
`plainest_longLiteral`). Double quotes can take anything, so no condition is
needed for them, and every string is read as it was
(`readString_write`).
-/
import TlsKeystore.Toml.Quoted
import Mathlib

namespace TlsKeystore.Toml

-- ================================================================ numbers

theorem hexValue?_hexDigit {d : Nat} (h : d < 16) :
    Bytes.hexValue? (Bytes.hexDigit d).toUpper = some d := by
  decide +revert

/-- Digits are read as what their number leaves in their width. -/
theorem mapM_hexUpper (width n : Nat) :
    ∃ values, (hexUpper width n).mapM Bytes.hexValue? = some values
      ∧ values.foldl (fun n d => n * 16 + d) 0 = n % 16 ^ width := by
  induction width generalizing n with
  | zero => exact ⟨[], rfl, (Nat.mod_one n).symm⟩
  | succ width ih =>
      obtain ⟨values, hvalues, hfold⟩ := ih (n / 16)
      have hdigit := hexValue?_hexDigit (Nat.mod_lt n (by decide : 0 < 16))
      refine ⟨values ++ [n % 16], ?_, ?_⟩
      · simp [hexUpper, List.mapM_append, hvalues, hdigit]
      · rw [List.foldl_append, hfold, Nat.pow_succ', Nat.mod_mul]
        simp only [List.foldl_cons, List.foldl_nil]
        omega

/-- A character whose number has at most four digits is read from them. -/
theorem codePoint?_hexUpper {c : Char} (h : c.toNat < 16 ^ 4) :
    codePoint? (hexUpper 4 c.toNat) = some c := by
  obtain ⟨values, hvalues, hfold⟩ := mapM_hexUpper 4 c.toNat
  rw [Nat.mod_eq_of_lt h] at hfold
  have hvalid : c.toNat.isValidChar := c.valid
  rw [codePoint?, hvalues]
  simp only [Option.bind_eq_bind, Option.bind_some, hfold, dif_pos hvalid]
  rfl

-- ============================================================= characters

/-- How a character may stand between double quotes. -/
inductive Shows (long : Bool) (c : Char) : List Char → Prop where
  | plain (h : isPlain c = true) : Shows long c [c]
  | line (hlong : long = true) (h : c = '\n') : Shows long c [c]
  | letter {x : Char} (h : escape? x = some c) : Shows long c ['\\', x]
  | number {i j k l : Char} (h : codePoint? [i, j, k, l] = some c) :
      Shows long c ['\\', 'u', i, j, k, l]

/-- How a character stands there on its own. -/
def glyph (long : Bool) (c : Char) : List Char := escaped long 0 0 [c]

theorem isComment_of_not_isControl {c : Char} (hcontrol : isControl c = false)
    (hline : c ≠ '\n') : isComment c = true := by
  unfold isControl at hcontrol
  unfold isComment
  by_cases htab : c = '\t'
  · simp [htab]
  · simp [htab, hline] at hcontrol ⊢
    exact hcontrol

theorem shows_glyph (long : Bool) (c : Char) : Shows long c (glyph long c) := by
  unfold glyph escaped
  by_cases hquote : c = '"'
  · subst hquote
    exact .letter rfl
  · rw [if_neg (by simpa using hquote)]
    dsimp only [escaped]
    rw [List.append_nil]
    -- the characters with a letter of their own, and then all others
    split
    · exact .letter rfl
    · exact .letter rfl
    · split
      · next hlong => exact .line hlong rfl
      · exact .letter rfl
    · exact .letter rfl
    · exact .letter rfl
    · exact .letter rfl
    · next hline _ _ hbackslash =>
        split
        · next hcontrol =>
            have hsmall : c.toNat < 16 ^ 4 := by
              simp [isControl] at hcontrol
              omega
            exact .number (codePoint?_hexUpper hsmall)
        · next hcontrol =>
            have hcomment := isComment_of_not_isControl
              (by simpa using hcontrol) hline
            refine .plain ?_
            rw [isPlain, hcomment, bne_iff_ne.mpr hquote,
              bne_iff_ne.mpr hbackslash]
            rfl

variable {long : Bool} {c : Char} {shown t : List Char}

/-- The letters of escapes are letters, quotes and backslashes. -/
theorem letter_ne {x : Char} (h : escape? x = some c) :
    x ≠ 'u' ∧ x ≠ 'U' ∧ x ≠ '\n' ∧ x ≠ '\r' ∧ isBlank x = false := by
  unfold escape? at h
  split at h
  case h_8 => cases h
  all_goals decide

theorem isPlain_ne (h : isPlain c = true) :
    c ≠ '"' ∧ c ≠ '\\' ∧ c ≠ '\n' ∧ c ≠ '\r' := by
  refine ⟨?_, ?_, ?_, ?_⟩ <;> rintro rfl <;> revert h <;> decide

/-- What shows a character does not begin with a quote, and with a line end only
if that is the character. -/
theorem Shows.head (h : Shows long c shown) :
    ∃ x rest, shown = x :: rest
      ∧ x ≠ '"' ∧ x ≠ '\r' ∧ (x = '\n' → c = '\n') := by
  cases h with
  | plain h =>
      obtain ⟨hquote, -, -, hreturn⟩ := isPlain_ne h
      exact ⟨c, [], rfl, hquote, hreturn, id⟩
  | line hlong h =>
      subst h
      exact ⟨_, [], rfl, by decide, by decide, id⟩
  | letter h => exact ⟨_, _, rfl, by decide, by decide, by simp⟩
  | number h => exact ⟨_, _, rfl, by decide, by decide, by simp⟩

/-- A character is read from what shows it. -/
theorem basicRest_of_shows (h : Shows false c shown) (t : List Char) :
    basicRest (shown ++ t) = before c (basicRest t) := by
  cases h with
  | plain h =>
      obtain ⟨hquote, hbackslash, -, -⟩ := isPlain_ne h
      rw [List.singleton_append, basicRest, if_pos h]
      · exact hquote
      all_goals intros; exact absurd ‹_› hbackslash
  | line hlong => cases hlong
  | letter h =>
      obtain ⟨hu, hU, -⟩ := letter_ne h
      rw [List.cons_append, List.singleton_append, basicRest, h, beforeEscape]
      · intros; exact absurd ‹_› hu
      · intros; exact absurd ‹_› hU
  | number h =>
      show basicRest ('\\' :: 'u' :: _ :: _ :: _ :: _ :: t) = _
      rw [basicRest, h, beforeEscape]

/-- The same in the long form, where a line end may show itself. -/
theorem longBasicRest_of_shows (h : Shows true c shown) (t : List Char) :
    longBasicRest false (shown ++ t) = before c (longBasicRest false t) := by
  cases h with
  | plain h =>
      obtain ⟨hquote, hbackslash, hline, hreturn⟩ := isPlain_ne h
      rw [List.singleton_append, longBasicRest]
      · rw [Bool.false_and, if_neg Bool.false_ne_true, if_pos h]
      all_goals simp_all
  | line hlong h =>
      subst h
      rw [List.singleton_append, longBasicRest, if_neg Bool.false_ne_true]
  | @letter x h =>
      obtain ⟨hu, hU, hline, hreturn, hblank⟩ := letter_ne h
      rw [List.cons_append, List.singleton_append, longBasicRest]
      · have hends : ¬ endsLine (x :: t) = true := by
          simp [endsLine, skipBlank, hblank, hline, hreturn]
        rw [if_neg (by simpa using hline), if_neg hends, h, beforeEscape]
      · intros; exact absurd ‹_› hu
      · intros; exact absurd ‹_› hU
  | number h =>
      show longBasicRest false ('\\' :: 'u' :: _ :: _ :: _ :: _ :: t) = _
      rw [longBasicRest, h, beforeEscape]

-- ================================================================= quotes

/-- As many quotes in front as leave the quote before them to the string: none
or one of the string, or the three at its end, with one or none before. -/
inductive Spared (q : Char) : List Char → Prop where
  | none {t : List Char} (h : t.head? ≠ some q) : Spared q t
  | one {t : List Char} (h : t.head? ≠ some q) : Spared q (q :: t)
  | closing {t : List Char} (h : t.head? ≠ some q) : Spared q (q :: q :: q :: t)
  | oneAndClosing {t : List Char} (h : t.head? ≠ some q) :
      Spared q (q :: q :: q :: q :: t)

theorem ne_cons_of_head {q : Char} (h : t.head? ≠ some q) (rest : List Char) :
    t = q :: rest → False := by
  rintro rfl
  exact h rfl

theorem cons_ne_of_head {q : Char} (h : t.head? ≠ some q) (rest : List Char) :
    q :: t = q :: q :: rest → False :=
  fun heq => ne_cons_of_head h rest (List.cons_eq_cons.mp heq).2

theorem longBasicRest_closing (h : t.head? ≠ some '"') (skipping : Bool) :
    longBasicRest skipping ('"' :: '"' :: '"' :: t) = .ok ([], t) := by
  rw [longBasicRest]
  · exact fun _ => ne_cons_of_head h _
  · exact fun _ => ne_cons_of_head h _

/-- A quote that is spared is one of the string. -/
theorem longBasicRest_quote (h : Spared '"' t) :
    longBasicRest false ('"' :: t) = before '"' (longBasicRest false t) := by
  cases h with
  | none h =>
      rw [longBasicRest]
      all_goals exact fun _ => ne_cons_of_head h _
  | one h =>
      rw [longBasicRest]
      all_goals exact fun _ => cons_ne_of_head h _
  | closing h =>
      rw [longBasicRest_closing h, longBasicRest]
      · rfl
      · exact fun _ => ne_cons_of_head h _
  | oneAndClosing h =>
      rw [longBasicRest, longBasicRest]
      · rfl
      · exact fun _ => ne_cons_of_head h _

theorem longLiteralRest_closing (h : t.head? ≠ some '\'') :
    longLiteralRest ('\'' :: '\'' :: '\'' :: t) = .ok ([], t) := by
  rw [longLiteralRest]
  · exact fun _ => ne_cons_of_head h _
  · exact fun _ => ne_cons_of_head h _

/-- The same for single quotes. -/
theorem longLiteralRest_quote (h : Spared '\'' t) :
    longLiteralRest ('\'' :: t) = before '\'' (longLiteralRest t) := by
  have hcomment : ('\'' == '\n' || isComment '\'') = true := by decide
  have hreturn : ∀ rest : List Char, '\'' = '\r' → t = '\n' :: rest → False :=
    fun _ h => absurd h (by decide)
  cases h with
  | none h =>
      rw [longLiteralRest, if_pos hcomment]
      case x_4 => exact hreturn
      all_goals exact fun _ _ => ne_cons_of_head h _
  | one h =>
      rw [longLiteralRest, if_pos hcomment]
      case x_4 => exact hreturn
      all_goals exact fun _ _ => cons_ne_of_head h _
  | closing h =>
      rw [longLiteralRest_closing h, longLiteralRest]
      · rfl
      · exact fun _ => ne_cons_of_head h _
  | oneAndClosing h =>
      rw [longLiteralRest, longLiteralRest]
      · rfl
      · exact fun _ => ne_cons_of_head h _

-- ========================================================= double quotes

variable {quotes run : Nat} {s : List Char}

/-- A character is shown, unless it is a quote that stands as it is. -/
theorem escaped_cons (h : c = '"' → quotes ≤ run) :
    escaped long quotes run (c :: s)
      = glyph long c ++ escaped long quotes 0 s := by
  by_cases hquote : c = '"'
  · have hrun := Nat.not_lt.mpr (h hquote)
    simp [escaped, glyph, hquote, hrun]
  · simp [escaped, glyph, hquote]

theorem escaped_quote (h : run < quotes) :
    escaped long quotes run ('"' :: s)
      = '"' :: escaped long quotes (run + 1) s := by
  simp [escaped, h]

/-- What is shown begins with no quote that stands as it is, and with a line end
only if the string does. -/
theorem head_escaped (long : Bool) {quotes run : Nat} {c : Char}
    (s : List Char) (h : c = '"' → quotes ≤ run) :
    ∃ x rest, escaped long quotes run (c :: s) = x :: rest
      ∧ x ≠ '"' ∧ x ≠ '\r' ∧ (x = '\n' → c = '\n') := by
  obtain ⟨x, rest, hshown, hx⟩ := (shows_glyph long c).head
  rw [escaped_cons h, hshown]
  exact ⟨x, rest ++ escaped long quotes 0 s, rfl, hx⟩

theorem basicRest_escaped (run : Nat) (s t : List Char) :
    basicRest (escaped false 0 run s ++ '"' :: t) = .ok (s, t) := by
  induction s generalizing run with
  | nil => rw [escaped, List.nil_append, basicRest]
  | cons c s ih =>
      rw [escaped_cons fun _ => Nat.zero_le _, List.append_assoc,
        basicRest_of_shows (shows_glyph false c), ih]
      rfl

/-- What stands behind a quote that stands as it is. -/
theorem spared_escaped (ht : t.head? ≠ some '"') (hrun : 1 ≤ run)
    (s : List Char) :
    Spared '"' (escaped true 2 run s ++ '"' :: '"' :: '"' :: t) := by
  cases s with
  | nil => exact .closing ht
  | cons c s =>
      by_cases hstands : c = '"' ∧ run < 2
      · obtain ⟨rfl, hrun⟩ := hstands
        rw [escaped_quote hrun]
        -- this is the second one, so a third would be escaped
        cases s with
        | nil => exact .oneAndClosing ht
        | cons d s =>
            have hfull : d = '"' → 2 ≤ run + 1 := fun _ => by omega
            obtain ⟨x, rest, hhead, hx, -⟩ := head_escaped true s hfull
            refine .one ?_
            rw [hhead]
            simpa using hx
      · have hfull : c = '"' → 2 ≤ run := fun hc =>
          Nat.not_lt.mp fun hlt => hstands ⟨hc, hlt⟩
        obtain ⟨x, rest, hhead, hx, -⟩ := head_escaped true s hfull
        refine .none ?_
        rw [hhead]
        simpa using hx

theorem longBasicRest_escaped (ht : t.head? ≠ some '"') (run : Nat)
    (s : List Char) :
    longBasicRest false (escaped true 2 run s ++ '"' :: '"' :: '"' :: t)
      = .ok (s, t) := by
  induction s generalizing run with
  | nil => exact longBasicRest_closing ht false
  | cons c s ih =>
      by_cases hstands : c = '"' ∧ run < 2
      · obtain ⟨rfl, hrun⟩ := hstands
        rw [escaped_quote hrun, List.cons_append,
          longBasicRest_quote (spared_escaped ht (Nat.le_add_left 1 run) s), ih]
        rfl
      · rw [escaped_cons fun hc => Nat.not_lt.mp fun hlt => hstands ⟨hc, hlt⟩,
          List.append_assoc, longBasicRest_of_shows (shows_glyph true c), ih]
        rfl

-- ========================================================= single quotes

theorem literalRest_append (hs : ∀ c ∈ s, isComment c = true ∧ c ≠ '\'')
    (t : List Char) : literalRest (s ++ '\'' :: t) = .ok (s, t) := by
  induction s with
  | nil => rw [List.nil_append, literalRest]
  | cons c s ih =>
      obtain ⟨hc, hquote⟩ := hs c List.mem_cons_self
      rw [List.cons_append, literalRest, if_pos hc,
        ih fun d hd => hs d (List.mem_cons_of_mem _ hd)]
      · rfl
      · exact hquote

/-- The run that is going on is no longer than the longest. -/
theorem le_longestRun (q : Char) (run : Nat) (s : List Char) :
    run ≤ longestRun q run s := by
  induction s generalizing run with
  | nil => exact Nat.le_refl run
  | cons c s ih =>
      rw [longestRun]
      split
      · exact Nat.le_trans (Nat.le_succ run) (ih (run + 1))
      · exact Nat.le_max_left ..

/-- What stands behind a quote in a string with few of them in a row. -/
theorem spared_append (ht : t.head? ≠ some '\'') (hrun : 1 ≤ run)
    (hs : longestRun '\'' run s ≤ 2) :
    Spared '\'' (s ++ '\'' :: '\'' :: '\'' :: t) := by
  cases s with
  | nil => exact .closing ht
  | cons c s =>
      by_cases hc : c = '\''
      · subst hc
        rw [longestRun, if_pos (by decide)] at hs
        cases s with
        | nil => exact .oneAndClosing ht
        | cons d s =>
            refine .one ?_
            intro heq
            obtain rfl : d = '\'' := by simpa using heq
            -- with a third one the run would be too long
            rw [longestRun, if_pos (by decide)] at hs
            have hle := le_longestRun '\'' (run + 1 + 1) s
            omega
      · exact .none (by simpa using hc)

theorem longLiteralRest_append (ht : t.head? ≠ some '\'')
    (hs : ∀ c ∈ s, c = '\n' ∨ isComment c = true)
    (hrun : longestRun '\'' run s ≤ 2) :
    longLiteralRest (s ++ '\'' :: '\'' :: '\'' :: t) = .ok (s, t) := by
  induction s generalizing run with
  | nil => exact longLiteralRest_closing ht
  | cons c s ih =>
      have hrest := fun d hd => hs d (List.mem_cons_of_mem _ hd)
      rw [longestRun] at hrun
      by_cases hc : c = '\''
      · subst hc
        rw [if_pos (by decide)] at hrun
        rw [List.cons_append, longLiteralRest_quote
          (spared_append ht (Nat.le_add_left 1 run) hrun), ih hrest hrun]
        rfl
      · rw [if_neg (by simpa using hc)] at hrun
        have hplain : (c == '\n' || isComment c) = true := by
          simpa using hs c List.mem_cons_self
        have hreturn : c ≠ '\r' := by
          rintro rfl
          exact absurd hplain (by decide)
        rw [List.cons_append, longLiteralRest, if_pos hplain,
          ih hrest (Nat.le_trans (Nat.le_max_right ..) hrun)]
        · rfl
        all_goals intros; simp_all

/-- Where there is no run, there is no such character. -/
theorem not_mem_of_longestRun {q : Char} (h : longestRun q 0 s = 0) :
    q ∉ s := by
  induction s with
  | nil => exact List.not_mem_nil
  | cons c s ih =>
      rw [longestRun] at h
      split at h
      · have hle := le_longestRun q (0 + 1) s
        omega
      · next hc =>
          have hrest : longestRun q 0 s = 0 := by omega
          exact List.not_mem_cons_of_ne_of_not_mem
            (fun hq => hc (beq_iff_eq.mpr hq.symm)) (ih hrest)

-- ============================================================= notations

/-- The line end that a long form may begin with is not one of the string. -/
theorem dropLineEnd_first
    (h : '\n' ∉ s → t.head? ≠ some '\n' ∧ t.head? ≠ some '\r') :
    dropLineEnd ((if s.any (· == '\n') then ['\n'] else []) ++ t) = t := by
  split
  · rfl
  · next hline =>
      obtain ⟨hline, hreturn⟩ := h (by simpa using hline)
      rw [List.nil_append, dropLineEnd]
      · exact ne_cons_of_head hline
      · exact fun _ => ne_cons_of_head hreturn _

theorem readString_basic (ht : t.head? ≠ some '"') (s : List Char) :
    readString (writeAs .basic s ++ t) = .ok (s, t) := by
  have hread := basicRest_escaped 0 s t
  rw [writeAs, List.cons_append, List.cons_append, List.append_assoc,
    List.singleton_append, readString]
  · exact hread
  · rintro rest htwo
    cases s with
    | nil =>
        obtain ⟨-, rfl⟩ := List.cons_eq_cons.mp htwo
        exact ht rfl
    | cons c s =>
        have hfull : c = '"' → 0 ≤ 0 := fun _ => Nat.le_refl 0
        obtain ⟨x, shown, hhead, hx, -⟩ := head_escaped false s hfull
        rw [hhead] at htwo
        exact hx (List.cons_eq_cons.mp htwo).1

theorem readString_longBasic (ht : t.head? ≠ some '"') (s : List Char) :
    readString (writeAs .longBasic s ++ t) = .ok (s, t) := by
  have hread := longBasicRest_escaped ht 0 s
  rw [← hread]
  simp only [writeAs, List.append_assoc, List.cons_append, List.nil_append]
  rw [readString, dropLineEnd_first]
  intro hline
  cases s with
  | nil => exact ⟨by simp [escaped], by simp [escaped]⟩
  | cons c s =>
      by_cases hquote : c = '"'
      · subst hquote
        rw [escaped_quote (by decide)]
        exact ⟨by simp, by simp⟩
      · have hfull : c = '"' → 2 ≤ 0 := fun h => absurd h hquote
        obtain ⟨x, shown, hhead, -, hreturn, hx⟩ := head_escaped true s hfull
        have hc : c ≠ '\n' := fun h => hline (h ▸ List.mem_cons_self)
        rw [hhead]
        exact ⟨by simpa using mt hx hc, by simpa using hreturn⟩

theorem readString_literal (hempty : s ≠ [])
    (hs : ∀ c ∈ s, isComment c = true ∧ c ≠ '\'') (t : List Char) :
    readString (writeAs .literal s ++ t) = .ok (s, t) := by
  have hread := literalRest_append hs t
  obtain ⟨c, rest, rfl⟩ := List.exists_cons_of_ne_nil hempty
  obtain ⟨-, hc⟩ := hs c List.mem_cons_self
  rw [writeAs, List.cons_append, List.cons_append, List.append_assoc,
    List.singleton_append, readString]
  · exact hread
  · rintro rest' htwo
    exact hc (List.cons_eq_cons.mp htwo).1

theorem readString_longLiteral (ht : t.head? ≠ some '\'')
    (hs : ∀ c ∈ s, c = '\n' ∨ isComment c = true)
    (hrun : longestRun '\'' 0 s ≤ 2) :
    readString (writeAs .longLiteral s ++ t) = .ok (s, t) := by
  have hread := longLiteralRest_append ht hs hrun
  rw [← hread]
  simp only [writeAs, List.append_assoc, List.cons_append, List.nil_append]
  rw [readString, dropLineEnd_first]
  intro hline
  cases s with
  | nil => exact ⟨by simp, by simp⟩
  | cons c s =>
      have hc : c ≠ '\n' := fun h => hline (h ▸ List.mem_cons_self)
      have hreturn : c ≠ '\r' := by
        rintro rfl
        exact absurd (hs '\r' List.mem_cons_self) (by decide)
      exact ⟨by simpa using hc, by simpa using hreturn⟩

-- ================================================================ choices

/-- Without control characters, all that is left are line ends and what may
stand in a comment. -/
theorem line_or_isComment (h : s.any isControl = false) :
    ∀ c ∈ s, c = '\n' ∨ isComment c = true := by
  intro c hc
  by_cases hline : c = '\n'
  · exact Or.inl hline
  · have hcontrol : isControl c = false := by
      simpa using List.any_eq_false.mp h c hc
    exact Or.inr (isComment_of_not_isControl hcontrol hline)

theorem plainest_literal (h : plainest s = .literal) :
    s ≠ [] ∧ ∀ c ∈ s, isComment c = true ∧ c ≠ '\'' := by
  unfold plainest at h
  dsimp only at h
  split at h
  · cases h
  · next hbasic =>
      split at h
      · next hliteral =>
          simp only [Bool.and_eq_true, Bool.not_eq_true',
            beq_iff_eq] at hliteral
          obtain ⟨⟨hcontrol, hrun⟩, hline⟩ := hliteral
          refine ⟨?_, fun c hc => ⟨?_, ?_⟩⟩
          · rintro rfl
            exact hbasic rfl
          · refine (line_or_isComment hcontrol c hc).resolve_left ?_
            simpa using List.any_eq_false.mp hline c hc
          · rintro rfl
            exact not_mem_of_longestRun hrun hc
      · split at h
        · cases h
        · split at h
          · cases h
          · split at h <;> cases h

theorem plainest_longLiteral (h : plainest s = .longLiteral) :
    (∀ c ∈ s, c = '\n' ∨ isComment c = true)
      ∧ longestRun '\'' 0 s ≤ 2 := by
  unfold plainest at h
  dsimp only at h
  split at h
  · cases h
  · split at h
    · cases h
    · split at h
      · cases h
      · split at h
        · next hlong =>
            simp only [Bool.and_eq_true, Bool.not_eq_true',
              decide_eq_true_eq] at hlong
            exact ⟨line_or_isComment hlong.1, hlong.2⟩
        · split at h <;> cases h

/-- Text that does not begin with a quote. -/
structure Unquoted (t : List Char) : Prop where
  double : t.head? ≠ some '"'
  single : t.head? ≠ some '\''

/-- Every string is read as it was written. -/
theorem readString_write (s : String) (ht : Unquoted t) :
    readString (write s ++ t) = .ok (s.toList, t) := by
  unfold write
  cases hchoice : plainest s.toList with
  | basic => exact readString_basic ht.double _
  | literal =>
      obtain ⟨hempty, hs⟩ := plainest_literal hchoice
      exact readString_literal hempty hs t
  | longBasic => exact readString_longBasic ht.double _
  | longLiteral =>
      obtain ⟨hs, hrun⟩ := plainest_longLiteral hchoice
      exact readString_longLiteral ht.single hs hrun

end TlsKeystore.Toml
