/-
A text is read as what its lines say.

A value is read up to what closes it: blanks, and then a comment or the end
of the line (`Closed`). So a line is one statement or none, and the rest of
the text is what stands behind its end (`statements_of_line`). By induction
on its lines a text comes to the statements that its expressions say, in
their order (`parse_of_text`). A number that is too large ends its line too
early, so there the reading ends with a fault (`parse_of_tooLarge`).
-/
import TlsKeystore.Proofs.Toml.Numbers
import TlsKeystore.Proofs.Toml.Tables

namespace TlsKeystore.Toml.Grammar

variable {b b' n r s t u v w : List Char} {c : Char} {name : String}

-- ================================================================= values

/-- A node gives what is said. -/
inductive Gives : Content → Node → Prop where
  | scalar (mark : Nat) (v : Value) : Gives (.scalar v) (.scalar mark v.scalar)
  | array (mark : Nat) {items : List Pairs} {nodes : List Node}
      (h : List.Forall₂ IsTable items nodes) :
      Gives (.tables items) (.array mark nodes)
  | sections {items : List Pairs} {nodes : List Node}
      (h : List.Forall₂ IsTable items nodes) :
      Gives (.tables items) (.tables nodes)

/-- No table has a key twice. -/
def Content.Distinct : Content → Prop
  | .scalar _ => True
  | .tables items => ∀ ps ∈ items, Grammar.Distinct ps

/-- Only a scalar can be a number that is too large. -/
def Content.TooLarge : Content → Prop
  | .scalar v => v.TooLarge
  | .tables _ => False

theorem ScalarText.avoids {x : Value} (hw : ScalarText x w) :
    Avoids [' ', '\t', '[', '{'] w := by
  have hnumeral (hw : Numeral w) : Avoids [' ', '\t', '[', '{'] w := by
    obtain ⟨c, rest, rfl, hc⟩ := hw
    refine Avoids.of_subset ⟨c, rest, rfl, hc.not_mem⟩ (by decide)
  cases hw with
  | string hw =>
      obtain ⟨q, rest, rfl, hq⟩ := hw.head
      refine ⟨q, rest, rfl, ?_⟩
      rcases hq with rfl | rfl <;> decide
  | integer hw => exact hnumeral hw.numeral
  | floating hw => exact hnumeral hw.numeral
  | boolean b => cases b <;> exact ⟨_, _, rfl, by decide⟩
  | moment hw => exact hnumeral hw.numeral

theorem ContentText.avoids {content : Content} (hw : ContentText content w) :
    Avoids [' ', '\t'] w := by
  cases hw with
  | scalar hw => exact hw.avoids.of_subset (by decide)
  | tables => exact ⟨'[', _, rfl, by decide⟩

theorem readValue_of_content {content : Content} (hw : ContentText content w)
    (hdistinct : content.Distinct) (hsmall : ¬ content.TooLarge)
    (ht : Closed t) (depth : Nat) :
    ∃ node, readValue (depth + 2) (w ++ t) = .ok (node, t)
      ∧ Gives content node := by
  cases hw with
  | @scalar x w hw =>
      have hread := readScalar_of_text hw hsmall ht
      obtain ⟨c, rest, rfl, hc⟩ := hw.avoids
      obtain ⟨mark, hvalue⟩ := readValue_of_scalar
        (fun h => hc (by simp [h])) (fun h => hc (by simp [h])) hread (depth + 2)
      exact ⟨_, hvalue, .scalar mark x⟩
  | @tables items w hw =>
      have hsteps : items.length < (w ++ ']' :: t).length := by
        have := hw.length_le
        rw [List.length_append, List.length_cons]
        omega
      obtain ⟨nodes, hread, hnodes⟩ :=
        readItems_of_text hw hdistinct t depth hsteps
      have htext : ('[' :: w ++ [']']) ++ t = '[' :: (w ++ ']' :: t) := by simp
      refine ⟨.array ('[' :: (w ++ ']' :: t)).length nodes, ?_, .array _ hnodes⟩
      rw [htext, readValue, hread]
      rfl

/-- A decimal that is too large is not read to its end. -/
theorem readValue_of_tooLarge {v : Value} (hw : ScalarText v w)
    (hlarge : v.TooLarge) (ht : Closed t) {depth : Nat} {node : Node}
    {rest : List Char} (hread : readValue depth (w ++ t) = .ok (node, rest)) :
    Scaled rest := by
  obtain ⟨c, w, rfl, hc⟩ := hw.avoids
  rw [List.cons_append, readValue_eq_readScalar (fun h => hc (by simp [h]))
    (fun h => hc (by simp [h])), bind_eq_ok_iff] at hread
  obtain ⟨⟨x, rest'⟩, hscalar, hrest⟩ := hread
  cases hrest
  exact readScalar_of_tooLarge hw hlarge ht hscalar

theorem restOfLine_of_scaled (hs : Scaled s) :
    restOfLine s = malformedAt s := by
  obtain ⟨c, rest, rfl, hc⟩ := hs
  rcases hc with rfl | rfl | rfl <;> rfl

-- ================================================================== lines

/-- The end of a line or of the text, and what is left behind it. -/
inductive Ending : List Char → List Char → Prop where
  | text : Ending [] []
  | line {n : List Char} (hn : Newline n) (t : List Char) : Ending (n ++ t) t

theorem lineEnd_of_ending (hu : Ending u t) : lineEnd u = .ok t := by
  cases hu with
  | text => rfl
  | line hn => cases hn <;> rfl

theorem Ending.head (hu : Ending u t) (hc : c ∈ u.head?) :
    c = '\n' ∨ c = '\r' := by
  cases hu with
  | text => cases hc
  | line hn =>
      cases hn with
      | feed => exact Or.inl (Option.some.inj hc).symm
      | both => exact Or.inr (Option.some.inj hc).symm

theorem skipComment_of_remark (hr : Remark r) (hu : Ending u t) :
    skipComment (r ++ u) = u := by
  cases hr with
  | none =>
      rw [List.nil_append, skipComment]
      intro rest h
      subst h
      rcases hu.head rfl with h | h <;> cases h
  | some hw =>
      refine dropWhile_visible hw ?_
      cases u with
      | nil => rfl
      | cons c u => rcases hu.head rfl with rfl | rfl <;> rfl

/-- Behind a comment or at the end of a line there is no blank in front. -/
theorem skipBlank_of_remark (hr : Remark r) (hu : Ending u t) :
    skipBlank (r ++ u) = r ++ u := by
  cases hr with
  | some => rfl
  | none =>
      cases u with
      | nil => rfl
      | cons c u =>
          rcases hu.head rfl with rfl | rfl <;> rfl

theorem restOfLine_of_end (hb : Blanks b) (hr : Remark r) (hu : Ending u t) :
    restOfLine (b ++ (r ++ u)) = .ok t := by
  rw [restOfLine, skipBlank_append hb, skipBlank_of_remark hr hu,
    skipComment_of_remark hr hu, lineEnd_of_ending hu]

theorem closed_of_end (hb : Blanks b) (hr : Remark r) (hu : Ending u t) :
    Closed (b ++ (r ++ u)) := by
  rw [Closed, skipBlank_append hb, skipBlank_of_remark hr hu]
  intro c hc
  cases hr with
  | some =>
      obtain rfl : '#' = c := by simpa using hc
      exact Or.inl rfl
  | none => exact Or.inr (hu.head hc)

/-- A statement is what an expression says, wherever it stands. -/
inductive Reads : Expression → Statement → Prop where
  | assignment (mark mark' : Nat) {name : String} {content : Content}
      {node : Node} (h : Gives content node) :
      Reads (.assignment name content) (.assignment mark [] ⟨name, mark'⟩ node)
  | header (mark mark' : Nat) (name : String) :
      Reads (.header name) (.header mark true [] ⟨name, mark'⟩)

/-- No table in an expression has a key twice. -/
def Expression.Distinct : Expression → Prop
  | .assignment _ content => content.Distinct
  | .header _ => True

def Expression.TooLarge : Expression → Prop
  | .assignment _ content => content.TooLarge
  | .header _ => False

/-- The text of a value is what is read behind a key. -/
theorem readAssignment_of_keyed {content : Content}
    (hv : ContentText content v) (hw : Keyed name v w) (s : List Char) :
    ∃ mark, readAssignment (w ++ s) = do
      let (value, rest) ← readValue maxDepth (v ++ s)
      let rest ← restOfLine rest
      return (.assignment (w ++ s).length [] ⟨name, mark⟩ value, rest) := by
  obtain ⟨mark, b, hkey, hb⟩ := readKey_of_keyed (b := []) (by simp [Blanks]) hw s
  rw [List.nil_append] at hkey
  have hskip : skipBlank (b ++ (v ++ s)) = v ++ s := by
    rw [skipBlank_append hb]
    exact skipBlank_of_avoids (hv.avoids.append s) (by decide)
  refine ⟨mark, ?_⟩
  rw [readAssignment, hkey]
  simp only [bind, Except.bind, hskip]

/-- An assignment is read with what is left of its line. -/
theorem readAssignment_of_text {content : Content}
    (hv : ContentText content v) (hw : Keyed name v w)
    (hdistinct : content.Distinct) (hsmall : ¬ content.TooLarge)
    (ht : Closed s) (hend : restOfLine s = .ok t) :
    ∃ st, readAssignment (w ++ s) = .ok (st, t)
      ∧ Reads (.assignment name content) st := by
  obtain ⟨mark, hread⟩ := readAssignment_of_keyed hv hw s
  obtain ⟨node, hvalue, hnode⟩ := readValue_of_content hv hdistinct hsmall ht 77
  refine ⟨_, ?_, .assignment (w ++ s).length mark hnode⟩
  rw [hread]
  simp only [bind, Except.bind, pure, Except.pure, maxDepth, hvalue, hend]

/-- Behind what is read of a number that is too large the line goes on. -/
theorem readAssignment_of_tooLarge {x : Value} (hv : ScalarText x v)
    (hw : Keyed name v w) (hlarge : x.TooLarge) (ht : Closed s)
    (p : Found Statement) : readAssignment (w ++ s) ≠ .ok p := by
  obtain ⟨mark, hread⟩ := readAssignment_of_keyed (.scalar hv) hw s
  intro h
  rw [hread, bind_eq_ok_iff] at h
  obtain ⟨⟨node, rest⟩, hvalue, h⟩ := h
  dsimp only at h
  rw [restOfLine_of_scaled (readValue_of_tooLarge hv hlarge ht hvalue)] at h
  cases h

/-- Likewise the header of a section. -/
theorem readHeader_of_text {k : List Char} (hb : Blanks b)
    (hk : KeyText name.toList k) (hb' : Blanks b')
    (hend : restOfLine s = .ok t) :
    ∃ st, readHeader ('[' :: '[' :: (b ++ (k ++ (b' ++ ']' :: ']' :: s))))
        = .ok (st, t)
      ∧ Reads (.header name) st := by
  obtain ⟨mark, hkey⟩ := readKey_of_text hb hk hb' (Or.inr rfl) (']' :: s)
  refine ⟨_, ?_, .header ('[' :: '[' :: (b ++ (k ++ (b' ++ ']' :: ']' :: s)))).length
    mark name⟩
  rw [readHeader, hkey]
  simp only [bind, Except.bind, pure, Except.pure, hend]

theorem ExpressionText.avoids {e : Expression} (hw : ExpressionText e w) :
    Avoids [' ', '\t', '#', '\n', '\r', '\uFEFF'] w := by
  cases hw with
  | assignment _ hw => exact hw.avoids.of_subset (by decide)
  | header => exact ⟨'[', _, rfl, by decide⟩

/-- What begins with a key is read as an assignment. -/
theorem readLine_of_keyed (hw : Keyed name v w) (s : List Char) :
    readLine (w ++ s) = do
      let (st, rest) ← readAssignment (w ++ s)
      return (some st, rest) := by
  have havoids := hw.avoids.append s
  rw [readLine]
  · exact havoids.ne_nil
  · exact havoids.ne_cons (by decide)
  · exact havoids.ne_cons (by decide)
  · exact havoids.ne_cons (by decide)
  · exact havoids.ne_cons (by decide)

theorem readLine_of_expression {e : Expression} (hw : ExpressionText e w)
    (hdistinct : e.Distinct) (hsmall : ¬ e.TooLarge) (ht : Closed s)
    (hend : restOfLine s = .ok t) :
    ∃ st, readLine (w ++ s) = .ok (some st, t) ∧ Reads e st := by
  cases hw with
  | @assignment name content v w hv hw =>
      obtain ⟨st, hread, hst⟩ :=
        readAssignment_of_text hv hw hdistinct hsmall ht hend
      refine ⟨st, ?_, hst⟩
      rw [readLine_of_keyed hw, hread]
      rfl
  | @header name b k b' hb hk hb' =>
      obtain ⟨st, hread, hst⟩ := readHeader_of_text (s := s) hb hk hb' hend
      have htext : ('[' :: '[' :: (b ++ k ++ b') ++ [']', ']']) ++ s
          = '[' :: '[' :: (b ++ (k ++ (b' ++ ']' :: ']' :: s))) := by simp
      refine ⟨st, ?_, hst⟩
      rw [htext, readLine, hread]
      rfl

theorem readLine_of_tooLarge {e : Expression} (hw : ExpressionText e w)
    (hlarge : e.TooLarge) (ht : Closed s) (p : Found (Option Statement)) :
    readLine (w ++ s) ≠ .ok p := by
  cases hw with
  | assignment hv hw =>
      cases hv with
      | scalar hv =>
          intro h
          rw [readLine_of_keyed hw, bind_eq_ok_iff] at h
          obtain ⟨q, hread, -⟩ := h
          exact readAssignment_of_tooLarge hv hw hlarge ht q hread
      | tables => cases hlarge
  | header => cases hlarge

-- =============================================================== documents

variable {e? : Option Expression} {es : List Expression}

/-- Nothing is stated by no text. -/
theorem statements_nil (steps : Nat) : statements steps [] = ([], none) := by
  cases steps <;> rfl

theorem statements_of_readLine {st? : Option Statement} (hne : s ≠ [])
    (hs : skipBlank s = s) (hread : readLine s = .ok (st?, t)) (hb : Blanks b)
    (steps : Nat) :
    statements (steps + 1) (b ++ s)
      = (st?.toList ++ (statements steps t).1, (statements steps t).2) := by
  obtain ⟨c, rest, rfl⟩ := List.exists_cons_of_ne_nil hne
  rw [statements, skipBlank_append hb, hs]
  dsimp only
  rw [hread]

/-- A line that is not read ends the statements with a fault. -/
theorem statements_of_refused (hne : s ≠ []) (hs : skipBlank s = s)
    (hread : ∀ p, readLine s ≠ .ok p) (hb : Blanks b) (steps : Nat) :
    (statements (steps + 1) (b ++ s)).2 ≠ none := by
  obtain ⟨c, rest, rfl⟩ := List.exists_cons_of_ne_nil hne
  rw [statements, skipBlank_append hb, hs]
  dsimp only
  cases hline : readLine (c :: rest) with
  | error => simp
  | ok p => exact absurd hline (hread p)

/-- One line, and those behind it. -/
theorem statements_of_line (hv : LineText e? v)
    (hdistinct : ∀ e ∈ e?, e.Distinct) (hsmall : ∀ e ∈ e?, ¬ e.TooLarge)
    (hu : Ending u t) (steps : Nat) :
    ∃ st? : Option Statement, statements (steps + 1) (v ++ u)
        = (st?.toList ++ (statements steps t).1, (statements steps t).2)
      ∧ List.Forall₂ Reads e?.toList st?.toList := by
  cases hv with
  | @empty b r hb hr =>
      refine ⟨none, ?_, .nil⟩
      rw [List.append_assoc]
      cases hr with
      | none =>
          cases hu with
          | text =>
              rw [statements, skipBlank_append hb, statements_nil]
              rfl
          | @line n hn t =>
              have hread : readLine (n ++ t) = .ok (none, t) := by
                cases hn <;> rfl
              refine statements_of_readLine ?_ (skipBlank_newline hn t) hread hb steps
              cases hn <;> simp
      | @some w hw =>
          have hcomment := skipComment_of_remark (.some hw) hu
          have hread : readLine ('#' :: w ++ u) = .ok (none, t) := by
            rw [List.cons_append] at hcomment ⊢
            rw [readLine, hcomment, lineEnd_of_ending hu]
            rfl
          exact statements_of_readLine (by simp) rfl hread hb steps
  | @expression e b w b' r hb hw hb' hr =>
      obtain ⟨st, hread, hst⟩ := readLine_of_expression hw (hdistinct e rfl)
        (hsmall e rfl) (closed_of_end hb' hr hu) (restOfLine_of_end hb' hr hu)
      refine ⟨some st, ?_, .cons hst .nil⟩
      have havoids := hw.avoids.append (b' ++ (r ++ u))
      simp only [List.append_assoc]
      exact statements_of_readLine havoids.ne_nil
        (skipBlank_of_avoids havoids (by decide)) hread hb steps

theorem statements_of_large_line {e : Expression} (hv : LineText (some e) v)
    (hlarge : e.TooLarge) (hu : Ending u t) (steps : Nat) :
    (statements (steps + 1) (v ++ u)).2 ≠ none := by
  cases hv with
  | @expression e b w b' r hb hw hb' hr =>
      have havoids := hw.avoids.append (b' ++ (r ++ u))
      simp only [List.append_assoc]
      exact statements_of_refused havoids.ne_nil
        (skipBlank_of_avoids havoids (by decide))
        (readLine_of_tooLarge hw hlarge (closed_of_end hb' hr hu)) hb steps

theorem statements_of_document (hw : Document es w)
    (hdistinct : ∀ e ∈ es, e.Distinct) (hsmall : ∀ e ∈ es, ¬ e.TooLarge)
    {steps : Nat} (hsteps : w.length < steps) :
    ∃ sts, statements steps w = (sts, none) ∧ List.Forall₂ Reads es sts := by
  induction hw generalizing steps with
  | @last e? w hw =>
      obtain ⟨steps, rfl⟩ := Nat.exists_eq_add_of_lt hsteps
      obtain ⟨st?, hread, hst⟩ := statements_of_line hw
        (fun e he => hdistinct e (Option.mem_toList.mpr he))
        (fun e he => hsmall e (Option.mem_toList.mpr he)) .text (w.length + steps)
      rw [List.append_nil, statements_nil, List.append_nil] at hread
      exact ⟨_, hread, hst⟩
  | @more e? es v n w hv hn _ ih =>
      obtain ⟨steps, rfl⟩ := Nat.exists_eq_add_of_lt hsteps
      have hpos : 1 ≤ n.length := by cases hn <;> decide
      have hfew : w.length < (v ++ n ++ w).length + steps := by
        simp only [List.length_append]
        omega
      obtain ⟨sts, hmore, hsts⟩ := ih
        (fun e he => hdistinct e (List.mem_append_right _ he))
        (fun e he => hsmall e (List.mem_append_right _ he)) hfew
      obtain ⟨st?, hread, hst⟩ := statements_of_line hv
        (fun e he => hdistinct e
          (List.mem_append_left _ (Option.mem_toList.mpr he)))
        (fun e he => hsmall e
          (List.mem_append_left _ (Option.mem_toList.mpr he)))
        (.line hn w) ((v ++ n ++ w).length + steps)
      rw [hmore, ← List.append_assoc] at hread
      exact ⟨_, hread, List.rel_append hst hsts⟩

/-- The reading ends with a fault at the first number that is too large. -/
theorem statements_of_tooLarge (hw : Document es w)
    (hdistinct : ∀ e ∈ es, e.Distinct) (hlarge : ∃ e ∈ es, e.TooLarge)
    {steps : Nat} (hsteps : w.length < steps) :
    (statements steps w).2 ≠ none := by
  induction hw generalizing steps with
  | @last e? w hw =>
      obtain ⟨steps, rfl⟩ := Nat.exists_eq_add_of_lt hsteps
      obtain ⟨e, he, hlarge⟩ := hlarge
      obtain rfl : e? = some e := Option.mem_toList.mp he
      have hread := statements_of_large_line hw hlarge .text (w.length + steps)
      rwa [List.append_nil] at hread
  | @more e? es v n w hv hn _ ih =>
      obtain ⟨steps, rfl⟩ := Nat.exists_eq_add_of_lt hsteps
      have hpos : 1 ≤ n.length := by cases hn <;> decide
      have hfew : w.length < (v ++ n ++ w).length + steps := by
        simp only [List.length_append]
        omega
      -- the text is regrouped, but not where its steps are counted
      generalize (v ++ n ++ w).length + steps = steps at hfew
      rw [List.append_assoc]
      by_cases hhere : ∃ e ∈ e?, e.TooLarge
      · obtain ⟨e, rfl, hhere⟩ := hhere
        exact statements_of_large_line hv hhere (.line hn w) steps
      · have hsmall : ∀ e ∈ e?, ¬ e.TooLarge :=
          fun e he hlarge => hhere ⟨e, he, hlarge⟩
        have hmore : ∃ e ∈ es, e.TooLarge := by
          obtain ⟨e, he, hlarge⟩ := hlarge
          rcases List.mem_append.mp he with he | he
          · exact absurd hlarge (hsmall e (Option.mem_toList.mp he))
          · exact ⟨e, he, hlarge⟩
        have hfault := ih
          (fun e he => hdistinct e (List.mem_append_right _ he)) hmore hfew
        obtain ⟨st?, hread, -⟩ := statements_of_line hv
          (fun e he => hdistinct e
            (List.mem_append_left _ (Option.mem_toList.mpr he)))
          hsmall (.line hn w) steps
        rw [hread]
        exact hfault

/-- A line does not begin with a byte order mark. -/
theorem LineText.head_ne (hv : LineText e? v) (hu : Ending u t) :
    ∀ c ∈ (v ++ u).head?, c ≠ '\uFEFF' := by
  have hblanks {b s : List Char} (hb : Blanks b)
      (hs : ∀ c ∈ s.head?, c ≠ '\uFEFF') :
      ∀ c ∈ (b ++ s).head?, c ≠ '\uFEFF' := by
    cases b with
    | nil => exact hs
    | cons c b =>
        rintro _ ⟨⟩
        rcases hb c List.mem_cons_self with rfl | rfl <;> decide
  cases hv with
  | empty hb hr =>
      rw [List.append_assoc]
      refine hblanks hb ?_
      cases hr with
      | none =>
          intro c hc
          rcases hu.head hc with rfl | rfl <;> decide
      | some =>
          rintro _ ⟨⟩
          decide
  | expression hb hw =>
      simp only [List.append_assoc]
      refine hblanks hb ?_
      obtain ⟨c, rest, rfl, hc⟩ := hw.avoids
      rintro _ ⟨⟩ rfl
      exact hc (by simp)

/-- A document does not begin with a byte order mark. -/
theorem dropByteOrderMark_of_document (hw : Document es w) :
    dropByteOrderMark w = w := by
  have hhead : ∀ c ∈ w.head?, c ≠ '\uFEFF' := by
    cases hw with
    | last hw =>
        have h := hw.head_ne .text
        rwa [List.append_nil] at h
    | more hv hn =>
        rw [List.append_assoc]
        exact hv.head_ne (.line hn _)
  rw [dropByteOrderMark]
  intro rest h
  subst h
  exact hhead _ rfl rfl

/-- A document is found behind its byte order mark. -/
theorem document_of_text (hw : Text es w) :
    Document es (dropByteOrderMark w) := by
  cases hw with
  | plain hw => rwa [dropByteOrderMark_of_document hw]
  | marked hw => exact hw

/-- A text is the document that its statements add up to. -/
theorem parse_of_text (hw : Text es w) (hdistinct : ∀ e ∈ es, e.Distinct)
    (hsmall : ∀ e ∈ es, ¬ e.TooLarge) :
    ∃ sts, List.Forall₂ Reads es sts ∧ parse w = documentFrom {} sts := by
  obtain ⟨sts, hread, hsts⟩ := statements_of_document (document_of_text hw)
    hdistinct hsmall (Nat.lt_succ_self _)
  refine ⟨sts, hsts, ?_⟩
  rw [parse, hread]
  dsimp only
  cases documentFrom {} sts <;> rfl

/-- A text with a number that is too large is no document. -/
theorem parse_of_tooLarge (hw : Text es w) (hdistinct : ∀ e ∈ es, e.Distinct)
    (hlarge : ∃ e ∈ es, e.TooLarge) : ∃ f, parse w = .error f := by
  have hfault := statements_of_tooLarge (document_of_text hw) hdistinct hlarge
    (Nat.lt_succ_self _)
  obtain ⟨f, hf⟩ := Option.ne_none_iff_exists'.mp hfault
  rw [parse, ← Prod.mk.eta (p := statements _ _), hf]
  dsimp only
  cases documentFrom {} _ with
  | error f' => exact ⟨f', rfl⟩
  | ok es => exact ⟨f, rfl⟩

end TlsKeystore.Toml.Grammar
