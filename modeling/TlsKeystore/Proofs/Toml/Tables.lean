/-
Keys, tables and arrays are read from any of their texts.

Blanks, and in an array comments and line ends as well, are passed over where
a token comes that begins with none of them (`Avoids`). A table is read pair
by pair and an array item by item, by induction on what stands between the
braces and the brackets. The keys of a table have to differ: a table with one
of them twice is refused.
-/
import TlsKeystore.Proofs.Toml.Lines
import TlsKeystore.Proofs.Toml.Strings

namespace TlsKeystore.Toml.Grammar

variable {b b' g n r s t u v w : List Char} {c q : Char} {name : String}

-- ================================================================= spaces

/-- A text begins, and with none of some characters. -/
def Avoids (no : List Char) (w : List Char) : Prop :=
  ∃ c rest, w = c :: rest ∧ c ∉ no

section Avoids

variable {no : List Char}

theorem Avoids.append (hw : Avoids no w) (t : List Char) :
    Avoids no (w ++ t) := by
  obtain ⟨c, rest, rfl, hc⟩ := hw
  exact ⟨c, rest ++ t, rfl, hc⟩

theorem Avoids.of_subset {less : List Char} (hw : Avoids no w)
    (hless : less ⊆ no) : Avoids less w := by
  obtain ⟨c, rest, rfl, hc⟩ := hw
  exact ⟨c, rest, rfl, fun hmem => hc (hless hmem)⟩

theorem Avoids.ne_nil (hw : Avoids no w) : w ≠ [] := by
  obtain ⟨c, rest, rfl, -⟩ := hw
  simp

theorem Avoids.ne_cons (hw : Avoids no w) (hc : c ∈ no) (t : List Char) :
    w ≠ c :: t := by
  obtain ⟨d, rest, rfl, hd⟩ := hw
  intro h
  obtain ⟨rfl, -⟩ := List.cons_eq_cons.mp h
  exact hd hc

theorem skipBlank_of_avoids (hw : Avoids no w) (hno : [' ', '\t'] ⊆ no) :
    skipBlank w = w := by
  obtain ⟨c, rest, rfl, hc⟩ := hw
  apply skipBlank_of_head
  rw [List.head?_cons, Option.any_some, Bool.eq_false_iff, ne_eq, isBlank_iff]
  intro h
  apply hc
  rcases h with rfl | rfl
  · exact hno (by simp)
  · exact hno (by simp)

end Avoids

/-- A comment is dropped up to a character that cannot be in one. -/
theorem dropWhile_visible (hw : ∀ c ∈ w, Visible c)
    (ht : t.head?.any isComment = false) :
    (w ++ t).dropWhile isComment = t :=
  dropWhile_append_of_head (fun c hc => isComment_iff.mpr (hw c hc)) ht

theorem skipLines_solid (ht : Solid t) (steps : Nat) :
    skipLines steps t = .ok t := by
  cases steps with
  | zero => rfl
  | succ steps =>
      rw [skipLines, skipBlank_of_solid ht]
      cases ht with
      | intro hblank hcomment hline hreturn => simp_all

theorem skipLines_blank (hc : Blank c) (s : List Char) (steps : Nat) :
    skipLines (steps + 1) (c :: s) = skipLines (steps + 1) s := by
  have hskip : skipBlank (c :: s) = skipBlank s := by
    rw [skipBlank, List.dropWhile_cons_of_pos (isBlank_iff.mpr hc)]
    rfl
  rw [skipLines, skipLines, hskip]

theorem skipLines_line (hr : Remark r) (hn : Newline n) (s : List Char)
    (steps : Nat) :
    skipLines (steps + 1) (r ++ (n ++ s)) = skipLines steps s := by
  cases hr with
  | none =>
      rw [List.nil_append, skipLines, skipBlank_newline hn]
      cases hn <;> rfl
  | @some w hw =>
      have hdrop : (w ++ (n ++ s)).dropWhile isComment = n ++ s := by
        refine dropWhile_visible hw ?_
        cases hn <;> rfl
      have hskip : skipBlank ('#' :: (w ++ (n ++ s))) = '#' :: (w ++ (n ++ s)) :=
        skipBlank_of_head rfl
      rw [List.cons_append, skipLines, hskip]
      simp only [hdrop]
      cases hn <;> rfl

/-- A gap in an array is skipped up to the token behind it. -/
theorem skipLines_of_gap (hg : Gap g) (ht : Solid t) {steps : Nat}
    (hsteps : g.length ≤ steps) : skipLines steps (g ++ t) = .ok t := by
  induction hg generalizing steps with
  | nil => exact skipLines_solid ht steps
  | blank hc _ ih =>
      rw [List.length_cons] at hsteps
      obtain ⟨steps, rfl⟩ := Nat.exists_eq_add_of_lt hsteps
      rw [List.cons_append, skipLines_blank hc]
      exact ih (by omega)
  | @line r n w hr hn _ ih =>
      have hpos : 1 ≤ n.length := by cases hn <;> decide
      rw [List.length_append, List.length_append] at hsteps
      obtain ⟨steps, rfl⟩ := Nat.exists_eq_add_of_le' (show 1 ≤ steps by omega)
      rw [List.append_assoc, List.append_assoc, skipLines_line hr hn]
      exact ih (by omega)

-- =================================================================== keys

/-- A key begins with nothing that begins anything else. -/
theorem KeyText.avoids {k : List Char} (hk : KeyText s k) :
    Avoids [' ', '\t', '#', '\n', '\r', '[', '}', '\uFEFF'] k := by
  cases hk with
  | bare hne hname =>
      obtain ⟨c, rest, rfl⟩ := List.exists_cons_of_ne_nil hne
      have hc := hname c List.mem_cons_self
      refine ⟨c, rest, rfl, ?_⟩
      intro hmem
      simp only [List.mem_cons, List.not_mem_nil, or_false] at hmem
      rcases hmem with h | h | h | h | h | h | h | h <;>
      · subst h
        revert hc
        decide
  | basic => exact ⟨_, _, rfl, by decide⟩
  | literal => exact ⟨_, _, rfl, by decide⟩

/-- A key is read with the blanks around it. -/
theorem readKey_of_text {k : List Char} (hb : Blanks b)
    (hk : KeyText name.toList k) (hb' : Blanks b') (hq : q = '=' ∨ q = ']')
    (t : List Char) :
    ∃ mark, readKey (b ++ (k ++ (b' ++ q :: t)))
      = .ok (([], ⟨name, mark⟩), q :: t) := by
  have hstop : ∀ c ∈ (b' ++ q :: t).head?, ¬ KeyChar c := by
    intro c hc
    cases b' with
    | nil =>
        obtain rfl : q = c := by simpa using hc
        rcases hq with rfl | rfl <;> decide
    | cons x b' =>
        obtain rfl : x = c := by simpa using hc
        rcases hb' x List.mem_cons_self with rfl | rfl <;> decide
  have hpart := readKeyPart_of_text hk hstop
  rw [String.ofList_toList] at hpart
  have hfirst : skipBlank (b ++ (k ++ (b' ++ q :: t))) = k ++ (b' ++ q :: t) := by
    rw [skipBlank_append hb]
    exact skipBlank_of_avoids (hk.avoids.append _) (by decide)
  have hlast : skipBlank (b' ++ q :: t) = q :: t := by
    rw [skipBlank_append hb']
    rcases hq with rfl | rfl <;> rfl
  refine ⟨(k ++ (b' ++ q :: t)).length, ?_⟩
  rw [readKey, maxDepth, readKeyParts, hfirst, hpart]
  simp only [bind, Except.bind, pure, Except.pure, hlast]
  rcases hq with rfl | rfl <;> rfl

/-- The text of a value is found behind its key. -/
theorem readKey_of_keyed (hb : Blanks b) (hw : Keyed name v w)
    (t : List Char) :
    ∃ mark b', readKey (b ++ (w ++ t))
        = .ok (([], ⟨name, mark⟩), '=' :: (b' ++ (v ++ t)))
      ∧ Blanks b' := by
  cases hw with
  | @intro k b₁ b₂ hk hb₁ hb₂ =>
      obtain ⟨mark, hread⟩ := readKey_of_text hb hk hb₁ (Or.inl rfl)
        (b₂ ++ (v ++ t))
      refine ⟨mark, b₂, ?_, hb₂⟩
      rw [← hread]
      simp

-- ================================================================= tables

/-- A pair of keys and strings is an entry. -/
structure IsPair (p : String × String) (e : Key × Node) : Prop where
  name : e.1.name = p.1
  value : ∃ mark, e.2 = .scalar mark (.string p.2)

/-- A node is a table of such pairs, however it came to be. -/
def IsTable (ps : Pairs) (node : Node) : Prop :=
  ∃ mark kind entries, node = .table mark kind entries
    ∧ List.Forall₂ IsPair ps entries

/-- The keys of a table differ. -/
def Distinct (ps : Pairs) : Prop := (ps.map Prod.fst).Nodup

theorem readValue_of_string {s : String} (ht : Unquoted t)
    (hv : StringText s.toList v) (depth : Nat) :
    ∃ mark, readValue depth (v ++ t) = .ok (.scalar mark (.string s), t) := by
  have hread := readScalar_of_string ht hv
  obtain ⟨q, rest, rfl, hq⟩ := hv.head
  rw [List.cons_append] at hread ⊢
  refine readValue_of_scalar ?_ ?_ hread depth
  · rcases hq with rfl | rfl <;> decide
  · rcases hq with rfl | rfl <;> decide

theorem skipBlank_string {b : List Char} (hb : Blanks b) (hv : StringText s v)
    (t : List Char) : skipBlank (b ++ (v ++ t)) = v ++ t := by
  obtain ⟨q, rest, rfl, hq⟩ := hv.head
  rw [skipBlank_append hb, List.cons_append]
  rcases hq with rfl | rfl <;> rfl

theorem unquoted_of_blanks (hb : Blanks b) (hc : c ≠ '"' ∧ c ≠ '\'')
    (t : List Char) : Unquoted (b ++ c :: t) := by
  cases b with
  | nil => exact .cons hc.1 hc.2 t
  | cons x b =>
      refine .cons ?_ ?_ (b ++ c :: t)
      · rcases hb x List.mem_cons_self with rfl | rfl <;> decide
      · rcases hb x List.mem_cons_self with rfl | rfl <;> decide

/-- One pair, up to the comma or brace behind it. -/
theorem readPair_of_text {s : String} (hb : Blanks b)
    (hv : StringText s.toList v) (hw : Keyed name v w) (hb' : Blanks b')
    (hq : q = ',' ∨ q = '}') (t : List Char) (depth : Nat) :
    ∃ mark mark' rest,
      readKey (b ++ (w ++ (b' ++ q :: t))) = .ok (([], ⟨name, mark⟩), '=' :: rest)
      ∧ readValue depth (skipBlank rest)
        = .ok (.scalar mark' (.string s), b' ++ q :: t)
      ∧ skipBlank (b' ++ q :: t) = q :: t := by
  obtain ⟨mark, b'', hkey, hb''⟩ := readKey_of_keyed hb hw (b' ++ q :: t)
  have hunquoted : Unquoted (b' ++ q :: t) := by
    apply unquoted_of_blanks hb'
    rcases hq with rfl | rfl <;> decide
  obtain ⟨mark', hvalue⟩ := readValue_of_string hunquoted hv depth
  refine ⟨mark, mark', _, hkey, ?_, ?_⟩
  · rw [skipBlank_string hb'' hv, hvalue]
  · rw [skipBlank_append hb']
    rcases hq with rfl | rfl <;> rfl

theorem readPairs_of_text {ps : Pairs} (hw : PairsText ps w) (hb : Blanks b)
    (t : List Char) (depth : Nat) {steps : Nat} (hsteps : ps.length ≤ steps) :
    ∃ es : Entries, readPairs (readValue depth) steps (b ++ (w ++ '}' :: t))
        = .ok (es.map fun e => ([], e.1, e.2), t)
      ∧ List.Forall₂ IsPair ps es := by
  induction hw generalizing b steps with
  | @one name s v w b' hv hw hb' =>
      obtain ⟨steps, rfl⟩ := Nat.exists_eq_add_of_le' hsteps
      obtain ⟨mark, mark', rest, hkey, hvalue, hskip⟩ :=
        readPair_of_text hb hv hw hb' (Or.inr rfl) t depth
      refine ⟨[(⟨name, mark⟩, .scalar mark' (.string s))], ?_,
        .cons ⟨rfl, mark', rfl⟩ .nil⟩
      simp only [List.append_assoc, List.length_cons, List.length_nil, zero_add]
      rw [readPairs, hkey]
      simp only [bind, Except.bind, pure, Except.pure, hvalue, hskip]
      rfl
  | @more name s ps v w b' b'' u hv hw hb' hb'' _ ih =>
      obtain ⟨steps, rfl⟩ := Nat.exists_eq_add_of_le' (show 1 ≤ steps from
        Nat.le_trans (Nat.le_add_left ..) hsteps)
      obtain ⟨es, hmore, hes⟩ := ih hb'' (Nat.le_of_succ_le_succ hsteps)
      obtain ⟨mark, mark', rest, hkey, hvalue, hskip⟩ :=
        readPair_of_text hb hv hw hb' (Or.inl rfl) (b'' ++ (u ++ '}' :: t)) depth
      refine ⟨(⟨name, mark⟩, .scalar mark' (.string s)) :: es, ?_,
        .cons ⟨rfl, mark', rfl⟩ hes⟩
      simp only [List.append_assoc, List.cons_append]
      rw [readPairs, hkey]
      simp only [bind, Except.bind, pure, Except.pure, hvalue, hskip, hmore]
      rfl

theorem Keyed.avoids (hw : Keyed name v w) :
    Avoids [' ', '\t', '#', '\n', '\r', '[', '}', '\uFEFF'] w := by
  cases hw with
  | intro hk =>
      rw [List.append_assoc]
      exact hk.avoids.append _

theorem PairsText.avoids {ps : Pairs} (hw : PairsText ps w) :
    Avoids [' ', '\t', '#', '\n', '\r', '[', '}', '\uFEFF'] w := by
  cases hw with
  | one _ hw => exact hw.avoids.append _
  | more _ hw =>
      rw [List.append_assoc]
      exact hw.avoids.append _

/-- Every pair takes its place. -/
theorem PairsText.length_le {ps : Pairs} (hw : PairsText ps w) :
    ps.length ≤ w.length := by
  induction hw with
  | one _ hw =>
      have := List.length_pos_iff.mpr hw.avoids.ne_nil
      simp only [List.length_append, List.length_cons, List.length_nil]
      omega
  | more _ _ _ _ _ ih =>
      simp only [List.length_append, List.length_cons]
      omega

/-- Pairs of different keys are a table between braces. -/
theorem bracedEntries_of_nodup {pairs : Entries} (es : Entries)
    (hkeys : ((es ++ pairs).map (·.1.name)).Nodup) :
    bracedEntries (pairs.map fun e => ([], e.1, e.2)) es
      = .ok (es ++ pairs) := by
  induction pairs generalizing es with
  | nil => rw [List.map_nil, bracedEntries, List.append_nil]
  | cons e pairs ih =>
      have hnew : es.get? e.1.name = none := by
        refine Entries.get?_eq_none fun hmem => ?_
        rw [List.map_append] at hkeys
        exact (List.nodup_append.mp hkeys).2.2 _ hmem _ List.mem_cons_self rfl
      rw [List.append_cons] at hkeys ⊢
      rw [List.map_cons, bracedEntries, assign_of_get?_eq_none hnew]
      exact ih _ hkeys

theorem names_of_pairs {ps : Pairs} {es : Entries}
    (h : List.Forall₂ IsPair ps es) :
    es.map (·.1.name) = ps.map Prod.fst := by
  induction h with
  | nil => rfl
  | cons he _ ih => rw [List.map_cons, List.map_cons, he.name, ih]

theorem readValue_of_table {ps : Pairs} (hw : TableText ps w)
    (hdistinct : Distinct ps) (t : List Char) (depth : Nat) :
    ∃ node, readValue (depth + 1) (w ++ t) = .ok (node, t)
      ∧ IsTable ps node := by
  obtain ⟨rest, es, htext, hread, hes⟩ : ∃ rest es, w ++ t = '{' :: rest
      ∧ readBraces (readValue depth) rest = .ok (es, t)
      ∧ List.Forall₂ IsPair ps es := by
    cases hw with
    | @empty b hb =>
        have hskip : skipBlank (b ++ '}' :: t) = '}' :: t := skipBlank_append hb _
        refine ⟨b ++ '}' :: t, [], by simp, ?_, .nil⟩
        rw [readBraces, hskip]
        rfl
    | @pairs ps b w hb hw =>
        have havoids := hw.avoids.append ('}' :: t)
        have hskip : skipBlank (b ++ (w ++ '}' :: t)) = w ++ '}' :: t := by
          rw [skipBlank_append hb]
          exact skipBlank_of_avoids havoids (by decide)
        have hfirst : (w ++ '}' :: t).head? ≠ some '}' := by
          intro h
          obtain ⟨rest, hrest⟩ := List.head?_eq_some_iff.mp h
          exact havoids.ne_cons (by decide) rest hrest
        have hsteps : ps.length ≤ (w ++ '}' :: t).length := by
          have := hw.length_le
          rw [List.length_append]
          omega
        obtain ⟨es, hpairs, hes⟩ :=
          readPairs_of_text hw (b := []) (by simp [Blanks]) t depth hsteps
        have hkeys : (([] ++ es : Entries).map (·.1.name)).Nodup := by
          rw [List.nil_append, names_of_pairs hes]
          exact hdistinct
        refine ⟨b ++ (w ++ '}' :: t), es, by simp, ?_, hes⟩
        exact readBraces_of_pairs hskip hfirst hpairs
          (bracedEntries_of_nodup [] hkeys)
  refine ⟨.table (some ('{' :: rest).length) .inline es, ?_, _, _, _, rfl, hes⟩
  rw [htext, readValue, hread]
  rfl

-- ================================================================= arrays

theorem TableText.head {ps : Pairs} (hw : TableText ps w) :
    ∃ rest, w = '{' :: rest := by
  cases hw with
  | empty => exact ⟨_, rfl⟩
  | pairs => exact ⟨_, rfl⟩

theorem ItemsText.length_le {items : List Pairs} (hw : ItemsText items w) :
    items.length ≤ w.length := by
  induction hw with
  | none => exact Nat.zero_le _
  | last _ hw =>
      obtain ⟨rest, rfl⟩ := hw.head
      simp only [List.length_append, List.length_cons, List.length_nil]
      omega
  | more _ _ _ _ ih =>
      simp only [List.length_append, List.length_cons]
      omega

theorem solid_bracket (t : List Char) : Solid (']' :: t) :=
  .intro (by decide) (by decide) (by decide) (by decide)

/-- The closing bracket, with a gap in front of it. -/
theorem readItems_of_gap (hg : Gap g) (one : List Char → Except Fault (Found Node))
    (steps : Nat) (t : List Char) :
    readItems one (steps + 1) (g ++ ']' :: t) = .ok ([], t) := by
  have hlength : g.length ≤ (g ++ ']' :: t).length := by
    rw [List.length_append]
    omega
  rw [readItems, skipLines_of_gap hg (solid_bracket t) hlength]
  rfl

/-- How an array goes on behind an item. -/
def readItemsAfter (one : List Char → Except Fault (Found Node)) (steps : Nat)
    (node : Node) : List Char → Except Fault (Found (List Node))
  | ']' :: rest => .ok ([node], rest)
  | ',' :: rest => do
    let (nodes, rest) ← readItems one steps rest
    return (node :: nodes, rest)
  | rest => malformedAt rest

/-- An item with a gap on both sides. -/
theorem readItems_of_item {one : List Char → Except Fault (Found Node)}
    {node : Node} (hg : Gap g) (hw : ∃ rest, w = '{' :: rest)
    (hone : one (w ++ (r ++ t)) = .ok (node, r ++ t)) (hr : Gap r)
    (ht : Solid t) (steps : Nat) :
    readItems one (steps + 1) (g ++ (w ++ (r ++ t)))
      = readItemsAfter one steps node t := by
  obtain ⟨v, rfl⟩ := hw
  have hsolid : Solid ('{' :: v ++ (r ++ t)) :=
    .intro (by decide) (by decide) (by decide) (by decide)
  have hlength : g.length ≤ (g ++ ('{' :: v ++ (r ++ t))).length := by
    rw [List.length_append]
    omega
  have hlength' : r.length ≤ (r ++ t).length := by
    rw [List.length_append]
    omega
  rw [readItems, skipLines_of_gap hg hsolid hlength]
  simp only [bind, Except.bind, List.cons_append] at hone ⊢
  split
  · next h => exact absurd (List.cons_eq_cons.mp h).1 (by decide)
  · rw [hone]
    dsimp only
    rw [skipLines_of_gap hr ht hlength']
    rfl

theorem readItems_of_text {items : List Pairs} (hw : ItemsText items w)
    (hdistinct : ∀ ps ∈ items, Distinct ps) (t : List Char) (depth : Nat)
    {steps : Nat} (hsteps : items.length < steps) :
    ∃ nodes, readItems (readValue (depth + 1)) steps (w ++ ']' :: t)
        = .ok (nodes, t)
      ∧ List.Forall₂ IsTable items nodes := by
  induction hw generalizing steps with
  | none hg =>
      obtain ⟨steps, rfl⟩ := Nat.exists_eq_add_of_lt hsteps
      exact ⟨[], readItems_of_gap hg _ _ t, .nil⟩
  | @last ps g w g' hg hw hg' =>
      obtain ⟨steps, rfl⟩ := Nat.exists_eq_add_of_lt hsteps
      obtain ⟨node, hone, hnode⟩ := readValue_of_table hw
        (hdistinct ps List.mem_cons_self) (g' ++ ']' :: t) depth
      refine ⟨[node], ?_, .cons hnode .nil⟩
      rw [List.append_assoc, List.append_assoc]
      exact readItems_of_item hg hw.head hone hg' (solid_bracket t) _
  | @more ps items g w g' u hg hw hg' _ ih =>
      obtain ⟨steps, rfl⟩ := Nat.exists_eq_add_of_lt hsteps
      have hfew : items.length < items.length + 1 + steps := by omega
      obtain ⟨nodes, hmore, hnodes⟩ := ih
        (fun ps' hps' => hdistinct ps' (List.mem_cons_of_mem _ hps')) hfew
      obtain ⟨node, hone, hnode⟩ := readValue_of_table hw
        (hdistinct ps List.mem_cons_self) (g' ++ ',' :: (u ++ ']' :: t)) depth
      refine ⟨node :: nodes, ?_, .cons hnode hnodes⟩
      have hcomma : Solid (',' :: (u ++ ']' :: t)) :=
        .intro (by decide) (by decide) (by decide) (by decide)
      have hitem := readItems_of_item hg hw.head hone hg' hcomma
        (items.length + 1 + steps)
      simp only [List.append_assoc, List.cons_append, List.length_cons] at hitem ⊢
      rw [hitem, readItemsAfter, hmore]
      rfl

end TlsKeystore.Toml.Grammar
