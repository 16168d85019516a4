/-
Strings and keys are read from any of their texts.

Each character is taken back from its spelling, whatever comes behind, so
what stands between quotes is, by induction on it. Behind the closing quotes
there may be no further one (`Unquoted`): it would belong to the string.
-/
import TlsKeystore.Proofs.Toml.Grammar
import TlsKeystore.Proofs.Toml.Values

namespace TlsKeystore.Toml.Grammar

-- ================================================================= pieces

variable {c : Char} {s t v w : List Char}

/-- What is taken while a condition holds, if it holds up to what comes next. -/
theorem takeWhile_append_of_head {p : Char → Bool} (hw : ∀ c ∈ w, p c = true)
    (ht : t.head?.any p = false) : (w ++ t).takeWhile p = w := by
  rw [List.takeWhile_append_of_pos hw]
  cases t with
  | nil => exact List.append_nil w
  | cons d t =>
      rw [List.head?_cons, Option.any_some] at ht
      simp [ht]

/-- And what is left then. -/
theorem dropWhile_append_of_head {p : Char → Bool} (hw : ∀ c ∈ w, p c = true)
    (ht : t.head?.any p = false) : (w ++ t).dropWhile p = t := by
  rw [List.dropWhile_append_of_pos hw]
  cases t with
  | nil => rfl
  | cons d t =>
      rw [List.head?_cons, Option.any_some] at ht
      simp [ht]

theorem isBlank_iff : isBlank c = true ↔ Blank c := by
  simp [isBlank, Blank]

theorem isComment_iff : isComment c = true ↔ Visible c := by
  simp [isComment, Visible]

theorem isBare_iff : isBare c = true ↔ KeyChar c := by
  simp [isBare, KeyChar, or_assoc]

-- ================================================================= digits

variable {base d : Nat} {ds : List Nat}

theorem hexValue?_of_digit (hc : Digit 16 d c) :
    Bytes.hexValue? c = some d := by
  obtain ⟨hd, hc⟩ := hc
  rcases hc with rfl | rfl
  · revert d
    decide
  · revert d
    decide

/-- The number of digits, as it is added up from the highest. -/
theorem value_eq_foldl (base : Nat) (ds : List Nat) :
    value base ds = ds.foldl (fun n d => n * base + d) 0 := by
  rw [value, Nat.ofDigits_eq_foldr, List.foldr_reverse]
  congr
  funext n d
  rw [Nat.cast_id, Nat.add_comm, Nat.mul_comm]

/-- A character is found by its number. -/
theorem codePoint?_of_plain (hw : Plain 16 ds w)
    (hc : c.toNat = value 16 ds) : codePoint? w = some c := by
  have hvalues : w.mapM Bytes.hexValue? = some ds :=
    mapM_eq_some_iff.mpr (hw.flip.imp fun _ _ => hexValue?_of_digit)
  have hvalid : c.toNat.isValidChar := c.valid
  rw [codePoint?, hvalues]
  simp only [Option.bind_eq_bind, Option.bind_some, ← value_eq_foldl, ← hc,
    dif_pos hvalid]
  rfl

-- ============================================================= characters

theorem escape?_of_mem {x : Char} (hx : (x, c) ∈ letters) :
    escape? x = some c := by
  simp only [letters, List.mem_cons, Prod.mk.injEq, List.not_mem_nil,
    or_false] at hx
  rcases hx with hx | hx | hx | hx | hx | hx | hx <;>
  · obtain ⟨rfl, rfl⟩ := hx
    rfl

theorem eight_of_length (h : w.length = 8) :
    ∃ i j k l m n o p, w = [i, j, k, l, m, n, o, p] := by
  have hfront : (w.take 4).length = 4 := by
    rw [List.length_take, h]
    rfl
  have hback : (w.drop 4).length = 4 := by
    rw [List.length_drop, h]
  obtain ⟨i, j, k, l, hfront⟩ := List.length_eq_four.mp hfront
  obtain ⟨m, n, o, p, hback⟩ := List.length_eq_four.mp hback
  refine ⟨i, j, k, l, m, n, o, p, ?_⟩
  rw [← List.take_append_drop 4 w, hfront, hback]
  rfl

/-- A character with eight digits. All other spellings are those that are
written as well. -/
theorem Spelled.shows (long : Bool) (hw : Spelled c w) :
    Shows long c w ∨ ∃ i j k l m n o p,
      codePoint? [i, j, k, l, m, n, o, p] = some c
        ∧ w = ['\\', 'U', i, j, k, l, m, n, o, p] := by
  cases hw with
  | plain hc hquote hbackslash =>
      refine Or.inl (.plain ?_)
      rw [isPlain, isComment_iff.mpr hc, bne_iff_ne.mpr hquote,
        bne_iff_ne.mpr hbackslash]
      rfl
  | letter hx => exact Or.inl (.letter (escape?_of_mem hx))
  | @number u width ds w hu hlength hw hc =>
      have hcode := codePoint?_of_plain hw hc
      have hcount : w.length = width := hw.length_eq.symm.trans hlength
      simp only [List.mem_cons, Prod.mk.injEq, List.not_mem_nil,
        or_false] at hu
      rcases hu with ⟨rfl, rfl⟩ | ⟨rfl, rfl⟩
      · obtain ⟨i, j, k, l, rfl⟩ := List.length_eq_four.mp hcount
        exact Or.inl (.number hcode)
      · obtain ⟨i, j, k, l, m, n, o, p, rfl⟩ := eight_of_length hcount
        exact Or.inr ⟨i, j, k, l, m, n, o, p, hcode, rfl⟩

theorem basicRest_of_spelled (hw : Spelled c w) (t : List Char) :
    basicRest (w ++ t) = before c (basicRest t) := by
  rcases hw.shows false with h | ⟨i, j, k, l, m, n, o, p, hcode, rfl⟩
  · exact basicRest_of_shows h t
  · show basicRest ('\\' :: 'U' :: _ :: _ :: _ :: _ :: _ :: _ :: _ :: _ :: t) = _
    rw [basicRest, hcode, beforeEscape]

theorem longBasicRest_of_spelled (hw : Spelled c w) (t : List Char) :
    longBasicRest false (w ++ t) = before c (longBasicRest false t) := by
  rcases hw.shows true with h | ⟨i, j, k, l, m, n, o, p, hcode, rfl⟩
  · exact longBasicRest_of_shows h t
  · show longBasicRest false
      ('\\' :: 'U' :: _ :: _ :: _ :: _ :: _ :: _ :: _ :: _ :: t) = _
    rw [longBasicRest, hcode, beforeEscape]

-- ========================================================= double quotes

theorem basicRest_of_body (hw : BasicBody s w) (t : List Char) :
    basicRest (w ++ '"' :: t) = .ok (s, t) := by
  induction hw with
  | nil => rw [List.nil_append, basicRest]
  | cons hv _ ih =>
      rw [List.append_assoc, basicRest_of_spelled hv, ih]
      rfl

/-- Where few quotes stand in a row, each is one of the string. -/
theorem spared_of_few {q : Char} (ht : t.head? ≠ some q)
    (hfew : ¬ [q, q] <+: w) : Spared q (w ++ q :: q :: q :: t) := by
  cases w with
  | nil => exact .closing ht
  | cons c w =>
      by_cases hc : c = q
      · subst hc
        cases w with
        | nil => exact .oneAndClosing ht
        | cons d w =>
            apply Spared.one
            intro hd
            obtain rfl : d = c := by simpa using hd
            exact hfew ⟨w, rfl⟩
      · exact .none (by simpa using hc)

/-- Where no blank and no line end comes next, nothing is skipped. -/
theorem longBasicRest_skipping
    (hall : ∀ c ∈ s.head?, ¬ (Blank c ∨ c = '\n' ∨ c = '\r')) :
    longBasicRest true s = longBasicRest false s := by
  cases s with
  | nil => rfl
  | cons c s =>
      have hc := hall c rfl
      have hblank : isBlank c = false := by
        rw [Bool.eq_false_iff, ne_eq, isBlank_iff]
        exact fun h => hc (Or.inl h)
      unfold longBasicRest
      split <;> simp_all

theorem longBasicRest_white (hv : White v) (s : List Char) :
    longBasicRest true (v ++ s) = longBasicRest true s := by
  induction hv with
  | nil => rfl
  | blank hc _ ih =>
      rw [← ih]
      rcases hc with rfl | rfl <;> simp [longBasicRest, isBlank]
  | line hn _ ih =>
      rw [← ih, List.append_assoc]
      cases hn <;> simp [longBasicRest]

theorem White.of_blanks {b : List Char} (hb : Blanks b) (hv : White v) :
    White (b ++ v) := by
  induction b with
  | nil => exact hv
  | cons c b ih =>
      obtain ⟨hc, hb⟩ := List.forall_mem_cons.mp hb
      exact .blank hc (ih hb)

theorem skipBlank_append {b : List Char} (hb : Blanks b) (s : List Char) :
    skipBlank (b ++ s) = skipBlank s :=
  List.dropWhile_append_of_pos fun c hc => isBlank_iff.mpr (hb c hc)

theorem skipBlank_newline {n : List Char} (hn : Newline n) (s : List Char) :
    skipBlank (n ++ s) = n ++ s := by
  cases hn <;> rfl

/-- A line that is joined with the next is dropped with all that is white. -/
theorem longBasicRest_joined {b n : List Char} (hb : Blanks b)
    (hn : Newline n) (hv : White v) (s : List Char) :
    longBasicRest false ('\\' :: (b ++ n ++ v ++ s)) = longBasicRest true s := by
  -- the first character is dropped, and white is left
  obtain ⟨x, u, hx, hu, hletter⟩ : ∃ x u, b ++ n = x :: u ∧ White u
      ∧ x ≠ 'u' ∧ x ≠ 'U' := by
    cases b with
    | nil =>
        cases hn with
        | feed => exact ⟨_, _, rfl, .nil, by decide⟩
        | both => exact ⟨_, _, rfl, .line .feed .nil, by decide⟩
    | cons c b =>
        obtain ⟨hc, hb⟩ := List.forall_mem_cons.mp hb
        refine ⟨c, b ++ n, rfl, .of_blanks hb ?_, ?_⟩
        · rw [← List.append_nil n]
          exact .line hn .nil
        · rcases hc with rfl | rfl <;> decide
  have hends : endsLine (x :: (u ++ v ++ s)) = true := by
    have hline : x :: (u ++ v ++ s) = b ++ (n ++ (v ++ s)) := by
      rw [← List.append_assoc b, hx]
      simp
    rw [endsLine, hline, skipBlank_append hb, skipBlank_newline hn]
    cases hn <;> rfl
  have hskip : longBasicRest true (u ++ v ++ s) = longBasicRest true s := by
    rw [List.append_assoc, longBasicRest_white hu, longBasicRest_white hv]
  rw [hx, List.cons_append, List.cons_append, longBasicRest]
  · rw [if_pos hends, ite_self, hskip]
  · intros
    exact absurd ‹_› hletter.1
  · intros
    exact absurd ‹_› hletter.2

theorem longBasicRest_of_body (ht : t.head? ≠ some '"')
    (hw : LongBasicBody s w) :
    longBasicRest false (w ++ '"' :: '"' :: '"' :: t) = .ok (s, t) := by
  induction hw with
  | nil => exact longBasicRest_closing ht false
  | cons hv _ ih =>
      rw [List.append_assoc, longBasicRest_of_spelled hv, ih]
      rfl
  | line hn _ ih =>
      rw [List.append_assoc]
      cases hn <;> simp [longBasicRest, ih, before]
  | quote hfew _ ih =>
      rw [List.cons_append, longBasicRest_quote (spared_of_few ht hfew), ih]
      rfl
  | @joined s b n v w hb hn hv hall _ ih =>
      rw [List.cons_append, List.append_assoc, longBasicRest_joined hb hn hv,
        longBasicRest_skipping, ih]
      cases w with
      | nil =>
          intro c hc
          obtain rfl : '"' = c := by simpa using hc
          decide
      | cons c w => exact hall

-- ========================================================= single quotes

theorem literalRest_of_visible (hs : ∀ c ∈ s, Visible c ∧ c ≠ '\'')
    (t : List Char) : literalRest (s ++ '\'' :: t) = .ok (s, t) := by
  apply literalRest_append
  intro c hc
  obtain ⟨hvisible, hquote⟩ := hs c hc
  exact ⟨isComment_iff.mpr hvisible, hquote⟩

theorem longLiteralRest_of_body (ht : t.head? ≠ some '\'')
    (hw : LongLiteralBody s w) :
    longLiteralRest (w ++ '\'' :: '\'' :: '\'' :: t) = .ok (s, t) := by
  induction hw with
  | nil => exact longLiteralRest_closing ht
  | @cons c s w hc hquote _ ih =>
      have hcomment := isComment_iff.mpr hc
      have hreturn : c ≠ '\r' := by
        intro h
        subst h
        revert hc
        decide
      rw [List.cons_append, longLiteralRest, hcomment, Bool.or_true, if_pos rfl,
        ih]
      · rfl
      all_goals intros; simp_all
  | line hn _ ih =>
      rw [List.append_assoc]
      cases hn <;> simp [longLiteralRest, ih, before]
  | quote hfew _ ih =>
      rw [List.cons_append, longLiteralRest_quote (spared_of_few ht hfew), ih]
      rfl

-- ================================================================ strings

/-- The line end that a long string may begin with is dropped. -/
theorem dropLineEnd_of_opened {q : Char} (hq : q ≠ '\n' ∧ q ≠ '\r')
    (hw : Opened v w) (t : List Char) :
    dropLineEnd (w ++ q :: t) = v ++ q :: t := by
  cases hw with
  | line hn => cases hn <;> rfl
  | none hv =>
      have hhead {c : Char} {rest : List Char} (h : v ++ q :: t = c :: rest) :
          c ≠ '\n' ∧ c ≠ '\r' := by
        cases v with
        | nil =>
            obtain ⟨rfl, -⟩ := List.cons_eq_cons.mp h
            exact hq
        | cons d v =>
            obtain ⟨rfl, -⟩ := List.cons_eq_cons.mp h
            exact hv d rfl
      rw [dropLineEnd]
      · intro rest h
        exact (hhead h).1 rfl
      · intro rest h
        exact (hhead h).2 rfl

theorem Spelled.head (hw : Spelled c w) : ∃ x rest, w = x :: rest ∧ x ≠ '"' := by
  cases hw with
  | plain _ hquote => exact ⟨c, [], rfl, hquote⟩
  | letter => exact ⟨_, _, rfl, by decide⟩
  | number => exact ⟨_, _, rfl, by decide⟩

/-- A string on one line is not taken for a long one. -/
theorem readString_of_basic (ht : t.head? ≠ some '"') (hw : BasicBody s w) :
    readString ('"' :: (w ++ '"' :: t)) = .ok (s, t) := by
  have hread := basicRest_of_body hw t
  rw [readString]
  · exact hread
  · intro rest h
    cases hw with
    | nil =>
        obtain ⟨-, rfl⟩ := List.cons_eq_cons.mp h
        exact ht rfl
    | cons hv =>
        obtain ⟨x, v, rfl, hx⟩ := hv.head
        exact hx (List.cons_eq_cons.mp h).1

theorem readString_of_text (ht : Unquoted t) (hw : StringText s w) :
    readString (w ++ t) = .ok (s, t) := by
  cases hw with
  | basic hw =>
      rw [List.append_assoc]
      exact readString_of_basic ht.double hw
  | literal hs =>
      have hread := literalRest_of_visible hs t
      rw [List.append_assoc]
      show readString ('\'' :: (s ++ '\'' :: t)) = _
      rw [readString]
      · exact hread
      · intro rest h
        cases s with
        | nil =>
            obtain ⟨-, rfl⟩ := List.cons_eq_cons.mp h
            exact ht.single rfl
        | cons c s =>
            obtain ⟨rfl, -⟩ := List.cons_eq_cons.mp h
            exact (hs _ List.mem_cons_self).2 rfl
  | @longBasic v w hv hw =>
      rw [List.append_assoc]
      show longBasicRest false (dropLineEnd (w ++ '"' :: '"' :: '"' :: t)) = _
      rw [dropLineEnd_of_opened (by decide) hw, longBasicRest_of_body ht.double hv]
  | @longLiteral v w hv hw =>
      rw [List.append_assoc]
      show longLiteralRest (dropLineEnd (w ++ '\'' :: '\'' :: '\'' :: t)) = _
      rw [dropLineEnd_of_opened (by decide) hw,
        longLiteralRest_of_body ht.single hv]

/-- A string begins with a quote. -/
theorem StringText.head (hw : StringText s w) :
    ∃ q rest, w = q :: rest ∧ (q = '"' ∨ q = '\'') := by
  cases hw with
  | basic => exact ⟨_, _, rfl, Or.inl rfl⟩
  | literal => exact ⟨_, _, rfl, Or.inr rfl⟩
  | longBasic => exact ⟨_, _, rfl, Or.inl rfl⟩
  | longLiteral => exact ⟨_, _, rfl, Or.inr rfl⟩

/-- A string in front of what has no quote. -/
theorem readScalar_of_string {s : String} (ht : Unquoted t)
    (hw : StringText s.toList w) :
    readScalar (w ++ t) = .ok (.string s, t) := by
  have hread := readString_of_text ht hw
  obtain ⟨q, rest, rfl, hq⟩ := hw.head
  rw [List.cons_append] at hread ⊢
  rcases hq with rfl | rfl <;>
  · rw [readScalar, hread]
    show Except.ok (Scalar.string (String.ofList s.toList), t) = _
    rw [String.ofList_toList]

-- =================================================================== keys

theorem KeyText.of_bare {name : String} (h : Bare name) :
    KeyText name.toList name.toList :=
  .bare h.ne_nil fun c hc => isBare_iff.mp (h.isBare c hc)

/-- A key is read from any of its texts, up to what cannot be in it. -/
theorem readKeyPart_of_text {name : List Char} (hw : KeyText name w)
    (ht : ∀ c ∈ t.head?, ¬ KeyChar c) :
    readKeyPart (w ++ t) = .ok (⟨String.ofList name, (w ++ t).length⟩, t) := by
  cases hw with
  | bare hne hname =>
      have hall : ∀ c ∈ w, isBare c = true :=
        fun c hc => isBare_iff.mpr (hname c hc)
      have hstop : t.head?.any isBare = false := by
        cases t with
        | nil => rfl
        | cons d t =>
            rw [List.head?_cons, Option.any_some, Bool.eq_false_iff]
            exact fun h => ht d rfl (isBare_iff.mp h)
      have htake := takeWhile_append_of_head hall hstop
      have hdrop := dropWhile_append_of_head hall hstop
      obtain ⟨c, cs, rfl⟩ := List.exists_cons_of_ne_nil hne
      obtain ⟨-, -, -, -, -, -, hdouble, hsingle⟩ :=
        isBare_ne (hall c List.mem_cons_self)
      rw [readKeyPart]
      · rw [htake, hdrop]
      · intro rest h
        exact hdouble (List.cons_eq_cons.mp h).1
      · intro rest h
        exact hsingle (List.cons_eq_cons.mp h).1
  | @basic w hw =>
      rw [List.append_assoc]
      have hread : readQuotedKey ('"' :: (w ++ '"' :: t)) = .ok (name, t) :=
        basicRest_of_body hw t
      show readKeyPart ('"' :: (w ++ '"' :: t)) = _
      rw [readKeyPart, hread]
      rfl
  | literal hname =>
      rw [List.append_assoc]
      have hread : readQuotedKey ('\'' :: (name ++ '\'' :: t)) = .ok (name, t) :=
        literalRest_of_visible hname t
      show readKeyPart ('\'' :: (name ++ '\'' :: t)) = _
      rw [readKeyPart, hread]
      rfl

end TlsKeystore.Toml.Grammar
