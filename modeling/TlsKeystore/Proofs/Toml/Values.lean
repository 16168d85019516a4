/-
Keys and values, read from the front of a text.

What a reader makes of a text is told for each kind of token: a bare key
before its sign of equality, a string or a truth value, one more item of an
array, one more pair of a table between braces. Blanks in front of a token
are passed over where the token itself begins with none (`Solid`). From
there, longer texts are put together token by token, and nothing else about
the readers is needed to read them.
-/
import TlsKeystore.Proofs.Results
import TlsKeystore.Proofs.Toml.Quoted
import TlsKeystore.Toml.Parser

namespace TlsKeystore.Toml

-- ================================================================= pieces

/-- A text that begins with a token: with no blank, line end or comment. -/
inductive Solid : List Char → Prop where
  | intro {c : Char} {rest : List Char} (hblank : isBlank c = false)
      (hcomment : c ≠ '#') (hline : c ≠ '\n') (hreturn : c ≠ '\r') :
      Solid (c :: rest)

variable {s t rest : List Char}

theorem skipBlank_of_head (h : s.head?.any isBlank = false) :
    skipBlank s = s := by
  cases s with
  | nil => rfl
  | cons c s =>
      rw [List.head?_cons, Option.any_some] at h
      simp [skipBlank, h]

theorem skipBlank_of_solid (ht : Solid t) : skipBlank t = t := by
  cases ht with
  | intro hblank => exact skipBlank_of_head hblank

theorem skipBlank_cons (s : List Char) :
    skipBlank (' ' :: s) = skipBlank s := rfl

/-- Where a token comes next, no lines are skipped. -/
theorem skipLines_of_solid (ht : Solid t) (hs : skipBlank s = t) :
    skipLines s.length s = .ok t := by
  cases s with
  | nil =>
      subst hs
      cases ht
  | cons c s =>
      rw [List.length_cons, skipLines, hs]
      cases ht with
      | intro hblank hcomment hline hreturn => simp_all

-- =================================================================== keys

/-- A key without quotes begins with nothing that begins anything else. -/
theorem isBare_ne {c : Char} (h : isBare c = true) :
    c ≠ ' ' ∧ c ≠ '\t' ∧ c ≠ '#' ∧ c ≠ '\n' ∧ c ≠ '\r' ∧ c ≠ '[' ∧ c ≠ '"'
      ∧ c ≠ '\'' := by
  refine ⟨?_, ?_, ?_, ?_, ?_, ?_, ?_, ?_⟩ <;> rintro rfl <;> revert h <;> decide

/-- A name that can be a key without quotes. -/
structure Bare (name : String) : Prop where
  ne_nil : name.toList ≠ []
  isBare : ∀ c ∈ name.toList, isBare c = true

theorem Bare.of_all {name : String}
    (h : (!name.toList.isEmpty && name.toList.all Toml.isBare) = true) :
    Bare name := by
  obtain ⟨hne, hall⟩ := (Bool.and_eq_true ..).mp h
  exact ⟨by simpa using hne, List.all_eq_true.mp hall⟩

/-- A key in front of its value. -/
def keyed (name : String) (v : List Char) : List Char :=
  name.toList ++ ' ' :: '=' :: ' ' :: v

variable {name : String} {v : List Char}

/-- A part of a key without quotes is read up to the next blank. -/
theorem readKeyPart_of_bare (hname : Bare name) (t : List Char) :
    ∃ mark, readKeyPart (name.toList ++ ' ' :: t)
      = .ok (⟨name, mark⟩, ' ' :: t) := by
  have hblank : isBare ' ' = false := by decide
  have htake : (name.toList ++ ' ' :: t).takeWhile isBare = name.toList := by
    rw [List.takeWhile_append_of_pos hname.isBare]
    simp [hblank]
  have hdrop : (name.toList ++ ' ' :: t).dropWhile isBare = ' ' :: t := by
    rw [List.dropWhile_append_of_pos hname.isBare]
    simp [hblank]
  obtain ⟨c, cs, hcs⟩ := List.exists_cons_of_ne_nil hname.ne_nil
  obtain ⟨-, -, -, -, -, -, hdouble, hsingle⟩ :=
    isBare_ne (hname.isBare c (hcs ▸ List.mem_cons_self))
  refine ⟨(name.toList ++ ' ' :: t).length, ?_⟩
  unfold readKeyPart
  split
  · next heq =>
      rw [hcs] at heq
      exact absurd (List.cons_eq_cons.mp heq).1 hdouble
  · next heq =>
      rw [hcs] at heq
      exact absurd (List.cons_eq_cons.mp heq).1 hsingle
  · have hofList : String.ofList (c :: cs) = name := by
      rw [← hcs, String.ofList_toList]
    rw [htake, hdrop, hcs]
    dsimp only
    rw [hofList]

/-- A key without quotes is read up to the sign of equality. -/
theorem readKey_of_bare (hname : Bare name) (hs : skipBlank s = keyed name v) :
    ∃ mark, readKey s = .ok (([], ⟨name, mark⟩), '=' :: ' ' :: v) := by
  have hsolid : Solid ('=' :: ' ' :: v) :=
    .intro (by decide) (by decide) (by decide) (by decide)
  obtain ⟨mark, hpart⟩ := readKeyPart_of_bare hname ('=' :: ' ' :: v)
  refine ⟨mark, ?_⟩
  simp [readKey, maxDepth, readKeyParts, hs, keyed, hpart, skipBlank_cons,
    skipBlank_of_solid hsolid, bind, Except.bind, pure, Except.pure]

-- ================================================================ scalars

/-- A string begins with a quote. -/
theorem write_eq_cons (s : String) :
    ∃ q rest, write s = q :: rest ∧ (q = '"' ∨ q = '\'') := by
  unfold write writeAs
  cases plainest s.toList with
  | basic => exact ⟨_, _, rfl, Or.inl rfl⟩
  | literal => exact ⟨_, _, rfl, Or.inr rfl⟩
  | longBasic => exact ⟨_, _, rfl, Or.inl rfl⟩
  | longLiteral => exact ⟨_, _, rfl, Or.inr rfl⟩

theorem Unquoted.cons {c : Char} (hdouble : c ≠ '"') (hsingle : c ≠ '\'')
    (t : List Char) : Unquoted (c :: t) :=
  ⟨by simpa using hdouble, by simpa using hsingle⟩

/-- What begins with no bracket and no brace is a scalar at any depth. -/
theorem readValue_eq_readScalar {c : Char} (hbracket : c ≠ '[')
    (hbrace : c ≠ '{') (s : List Char) (depth : Nat) :
    readValue depth (c :: s) = do
      let (v, rest) ← readScalar (c :: s)
      return (.scalar (c :: s).length v, rest) := by
  have hnoArray (tail : List Char) : c :: s = '[' :: tail → False :=
    fun h => hbracket (List.cons_eq_cons.mp h).1
  have hnoTable (tail : List Char) : c :: s = '{' :: tail → False :=
    fun h => hbrace (List.cons_eq_cons.mp h).1
  cases depth with
  | zero =>
      rw [readValue]
      · exact hnoArray
      · exact hnoTable
  | succ depth =>
      rw [readValue]
      · exact hnoArray
      · exact hnoTable

theorem readValue_of_scalar {c : Char} {v : Scalar} (hbracket : c ≠ '[')
    (hbrace : c ≠ '{') (hv : readScalar (c :: s) = .ok (v, rest))
    (depth : Nat) :
    ∃ mark, readValue depth (c :: s) = .ok (.scalar mark v, rest) := by
  refine ⟨(c :: s).length, ?_⟩
  rw [readValue_eq_readScalar hbracket hbrace, hv]
  rfl

/-- A string that was written is a scalar. -/
theorem readValue_write (depth : Nat) (s : String) (ht : Unquoted t) :
    ∃ mark, readValue depth (write s ++ t)
      = .ok (.scalar mark (.string s), t) := by
  have hread := readString_write s ht
  obtain ⟨q, shown, hwrite, hq⟩ := write_eq_cons s
  rw [hwrite, List.cons_append] at hread ⊢
  refine readValue_of_scalar ?_ ?_ ?_ depth
  · rcases hq with rfl | rfl <;> decide
  · rcases hq with rfl | rfl <;> decide
  · rcases hq with rfl | rfl <;>
    · rw [readScalar, hread]
      simp [bind, Except.bind, pure, Except.pure]

theorem readValue_toString (depth : Nat) (b : Bool) (t : List Char) :
    ∃ mark, readValue depth ((toString b).toList ++ t)
      = .ok (.scalar mark (.boolean b), t) := by
  cases b with
  | false =>
      exact readValue_of_scalar (c := 'f') (s := 'a' :: 'l' :: 's' :: 'e' :: t)
        (by decide) (by decide) (by rw [readScalar]) depth
  | true =>
      exact readValue_of_scalar (c := 't') (s := 'r' :: 'u' :: 'e' :: t)
        (by decide) (by decide) (by rw [readScalar]) depth

-- ================================================================= arrays

variable {one : List Char → Except Fault (Found Node)} {steps : Nat}
  {item : Node} {items : List Node}

theorem readItems_nil (steps : Nat) (t : List Char) :
    readItems one (steps + 1) (']' :: t) = .ok ([], t) := by
  have hsolid : Solid (']' :: t) :=
    .intro (by decide) (by decide) (by decide) (by decide)
  have hskip := skipLines_of_solid hsolid (skipBlank_of_solid hsolid)
  rw [readItems, hskip]
  rfl

/-- The last item of an array. -/
theorem readItems_last (hsolid : Solid t) (hs : skipBlank s = t)
    (hitem : t.head? ≠ some ']') (hone : one t = .ok (item, ']' :: rest))
    (steps : Nat) :
    readItems one (steps + 1) s = .ok ([item], rest) := by
  have hbracket : Solid (']' :: rest) :=
    .intro (by decide) (by decide) (by decide) (by decide)
  have hskip := skipLines_of_solid hbracket (skipBlank_of_solid hbracket)
  rw [readItems, skipLines_of_solid hsolid hs]
  simp only [bind, Except.bind, pure, Except.pure]
  split
  · exact absurd rfl hitem
  · rw [hone]
    simp only [hskip]

/-- An item of an array with more behind it. -/
theorem readItems_more (hsolid : Solid t) (hs : skipBlank s = t)
    (hitem : t.head? ≠ some ']') {more : List Char}
    (hone : one t = .ok (item, ',' :: more))
    (hmore : readItems one steps more = .ok (items, rest)) :
    readItems one (steps + 1) s = .ok (item :: items, rest) := by
  have hcomma : Solid (',' :: more) :=
    .intro (by decide) (by decide) (by decide) (by decide)
  have hskip := skipLines_of_solid hcomma (skipBlank_of_solid hcomma)
  rw [readItems, skipLines_of_solid hsolid hs]
  simp only [bind, Except.bind, pure, Except.pure]
  split
  · exact absurd rfl hitem
  · rw [hone]
    simp only [hskip, hmore]

-- ================================================================= tables

variable {value : Node} {pairs : List (List Key × Key × Node)}

/-- The last pair of a table between braces. -/
theorem readPairs_last (hname : Bare name) (hs : skipBlank s = keyed name v)
    (hv : Solid v) (hone : one v = .ok (value, ' ' :: '}' :: rest))
    (steps : Nat) :
    ∃ mark, readPairs one (steps + 1) s
      = .ok ([([], ⟨name, mark⟩, value)], rest) := by
  obtain ⟨mark, hkey⟩ := readKey_of_bare hname hs
  refine ⟨mark, ?_⟩
  rw [readPairs, hkey]
  simp only [bind, Except.bind, pure, Except.pure, skipBlank_cons,
    skipBlank_of_solid hv, hone]
  rfl

/-- A pair with another one behind it. -/
theorem readPairs_more (hname : Bare name) (hs : skipBlank s = keyed name v)
    (hv : Solid v) {more : List Char} (hone : one v = .ok (value, ',' :: more))
    (hmore : readPairs one steps more = .ok (pairs, rest)) :
    ∃ mark, readPairs one (steps + 1) s
      = .ok (([], ⟨name, mark⟩, value) :: pairs, rest) := by
  obtain ⟨mark, hkey⟩ := readKey_of_bare hname hs
  refine ⟨mark, ?_⟩
  have hcomma : Solid (',' :: more) :=
    .intro (by decide) (by decide) (by decide) (by decide)
  rw [readPairs, hkey]
  simp only [bind, Except.bind, pure, Except.pure, skipBlank_cons,
    skipBlank_of_solid hv, hone, skipBlank_of_solid hcomma, hmore]

/-- A table between braces that has pairs. -/
theorem readBraces_of_pairs {es : Entries} (hs : skipBlank s = t)
    (ht : t.head? ≠ some '}')
    (hpairs : readPairs one t.length t = .ok (pairs, rest))
    (hes : bracedEntries pairs [] = .ok es) :
    readBraces one s = .ok (es, rest) := by
  rw [readBraces, hs]
  split
  · exact absurd rfl ht
  · simp only [bind, Except.bind, hpairs, hes]
    rfl

/-- A new key without a path is added at the end. -/
theorem assign_of_get?_eq_none {es : Entries} {key : Key}
    (hnew : es.get? key.name = none) (v : Visitor)
    (table : Option (List String)) (value : Node) :
    assign v table [] key value es = .ok (es ++ [(key, value)]) := by
  simp [assign, change, hnew, bind, Except.bind, pure, Except.pure]

end TlsKeystore.Toml
