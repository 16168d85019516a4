/-
A text, line by line.

Reading a document passes over its comments. To say where they stand,
`lines` reads a text in the same steps and keeps all that it comes to;
without what it keeps in addition it is the reading of the document
(`statements_eq_lines`). A text all of whose lines are comments and
assignments of different keys without a path is a document with one entry
for each of the latter, in their order (`parse_of_lines`).
-/
import TlsKeystore.Proofs.Toml.Values

namespace TlsKeystore.Toml

-- ================================================================== lines

/-- A line of a text. A statement may run over several. -/
inductive Line where
  | blank
  | comment (text : String)
  | statement (st : Statement)

/-- The statement of a line that has one. -/
def Line.statement? : Line → Option Statement
  | .statement st => some st
  | _ => none

/-- The line in front of a text that `readLine` has found a statement in, or
none. -/
def lineOf (s : List Char) : Option Statement → Line
  | some st => .statement st
  | none =>
    match s with
    | '#' :: rest =>
      .comment (String.ofList (skipBlank (rest.takeWhile isComment)))
    | _ => .blank

/-- The lines of a text, and the fault that ends them before the text ends. -/
def lines : (steps : Nat) → List Char → List Line × Option Fault
  | 0, _ => ([], none)
  | steps + 1, s =>
    match skipBlank s with
    | [] => ([], none)
    | s =>
      match readLine s with
      | .error e => ([], some e)
      | .ok (st?, rest) =>
        let (ls, fault) := lines steps rest
        (lineOf s st? :: ls, fault)

theorem statement?_lineOf (s : List Char) (st? : Option Statement) :
    (lineOf s st?).statement? = st? := by
  cases st? with
  | some st => rfl
  | none =>
      unfold lineOf
      dsimp only
      split <;> rfl

/-- The statements of a text are those of its lines. -/
theorem statements_eq_lines (steps : Nat) (s : List Char) :
    statements steps s
      = ((lines steps s).1.filterMap Line.statement?, (lines steps s).2) := by
  induction steps generalizing s with
  | zero => rfl
  | succ steps ih =>
      rw [statements, lines]
      cases skipBlank s with
      | nil => rfl
      | cons c s =>
          dsimp only
          cases readLine (c :: s) with
          | error e => rfl
          | ok found =>
              obtain ⟨st?, rest⟩ := found
              simp only [ih rest, List.filterMap_cons, statement?_lineOf]
              cases st? <;> rfl

/-- What can be seen of a line: its comment, or the key that it is about. -/
inductive Shape where
  | blank
  | comment (text : String)
  | assignment (key : List String)
  | header (key : List String)
deriving DecidableEq, Repr

/-- The shape of a line. -/
def Line.shape : Line → Shape
  | .blank => .blank
  | .comment text => .comment text
  | .statement (.assignment _ path key _) =>
    .assignment ((path ++ [key]).map (·.name))
  | .statement (.header _ _ path key) => .header ((path ++ [key]).map (·.name))

-- ================================================================ one line

variable {s t : List Char} {steps : Nat}

/-- One line, and those behind it. -/
theorem lines_succ {st? : Option Statement} (hne : s ≠ [])
    (hs : skipBlank s = s) (hread : readLine s = .ok (st?, t)) (steps : Nat) :
    lines (steps + 1) s
      = (lineOf s st? :: (lines steps t).1, (lines steps t).2) := by
  obtain ⟨c, rest, rfl⟩ := List.exists_cons_of_ne_nil hne
  rw [lines, hs]
  dsimp only
  rw [hread]

/-- A comment on a line of its own. -/
theorem lines_comment {doc : List Char} (hdoc : ∀ c ∈ doc, isComment c = true)
    (hblank : skipBlank doc = doc) (t : List Char) (steps : Nat) :
    lines (steps + 1) ('#' :: ' ' :: doc ++ '\n' :: t)
      = (.comment (String.ofList doc) :: (lines steps t).1,
        (lines steps t).2) := by
  have hall : ∀ c ∈ ' ' :: doc, isComment c = true := by
    simpa using And.intro (by decide) hdoc
  have hend : isComment '\n' = false := by decide
  have htake : (' ' :: doc ++ '\n' :: t).takeWhile isComment = ' ' :: doc := by
    rw [List.takeWhile_append_of_pos hall]
    simp [hend]
  have hdrop : (' ' :: doc ++ '\n' :: t).dropWhile isComment = '\n' :: t := by
    rw [List.dropWhile_append_of_pos hall]
    simp [hend]
  have hread : readLine ('#' :: ' ' :: doc ++ '\n' :: t) = .ok (none, t) := by
    rw [List.cons_append, readLine, skipComment, hdrop]
    rfl
  have hline : lineOf ('#' :: ' ' :: doc ++ '\n' :: t) none
      = .comment (String.ofList doc) := by
    rw [List.cons_append, lineOf, htake, skipBlank_cons, hblank]
  have hne : '#' :: ' ' :: doc ++ '\n' :: t ≠ [] := by simp
  rw [lines_succ hne rfl hread, hline]

/-- An assignment on a line of its own. -/
theorem lines_assignment {name : String} {v : List Char} {value : Node}
    (hname : Bare name) (hv : Solid v)
    (hvalue : readValue maxDepth v = .ok (value, '\n' :: t)) (steps : Nat) :
    ∃ mark mark', lines (steps + 1) (keyed name v)
      = (.statement (.assignment mark [] ⟨name, mark'⟩ value)
          :: (lines steps t).1, (lines steps t).2) := by
  obtain ⟨c, cs, hcs⟩ := List.exists_cons_of_ne_nil hname.ne_nil
  obtain ⟨hspace, htab, hcomment, hline, hreturn, hbracket, -⟩ :=
    isBare_ne (hname.isBare c (hcs ▸ List.mem_cons_self))
  have hkeyed : keyed name v = c :: (cs ++ ' ' :: '=' :: ' ' :: v) := by
    rw [keyed, hcs, List.cons_append]
  have hskip : skipBlank (keyed name v) = keyed name v := by
    simp [hkeyed, skipBlank, isBlank, hspace, htab]
  obtain ⟨mark', hkey⟩ := readKey_of_bare hname hskip
  have hassign : readAssignment (keyed name v)
      = .ok (.assignment (keyed name v).length [] ⟨name, mark'⟩ value, t) := by
    rw [readAssignment, hkey]
    simp only [bind, Except.bind, pure, Except.pure, skipBlank_cons,
      skipBlank_of_solid hv, hvalue]
    rfl
  have hread : readLine (keyed name v) = .ok (some (.assignment
      (keyed name v).length [] ⟨name, mark'⟩ value), t) := by
    unfold readLine
    split <;> rename_i heq
    · exact absurd (hkeyed.symm.trans heq) (List.cons_ne_nil _ _)
    · exact absurd (List.cons_eq_cons.mp (hkeyed.symm.trans heq)).1 hcomment
    · exact absurd (List.cons_eq_cons.mp (hkeyed.symm.trans heq)).1 hline
    · exact absurd (List.cons_eq_cons.mp (hkeyed.symm.trans heq)).1 hreturn
    · exact absurd (List.cons_eq_cons.mp (hkeyed.symm.trans heq)).1 hbracket
    · rw [hassign]
      rfl
  have hne : keyed name v ≠ [] := by simp [hkeyed]
  exact ⟨_, mark', lines_succ hne hskip hread steps⟩

-- ============================================================== documents

/-- The entry that a statement adds on its own. -/
def Statement.entry? : Statement → Option (Key × Node)
  | .assignment _ [] key value => some (key, value)
  | _ => none

theorem assignment_of_entry? {st : Statement} {e : Key × Node}
    (h : st.entry? = some e) : ∃ mark, st = .assignment mark [] e.1 e.2 := by
  unfold Statement.entry? at h
  split at h
  · cases h
    exact ⟨_, rfl⟩
  · cases h

/-- A name that no entry has is not found. -/
theorem Entries.get?_eq_none {es : Entries} {name : String}
    (h : name ∉ es.map (·.1.name)) : es.get? name = none := by
  have hfind : es.find? (fun e => e.1.name == name) = none := by
    refine List.find?_eq_none.mpr fun e he hname => h ?_
    exact List.mem_map.mpr ⟨e, he, beq_iff_eq.mp hname⟩
  rw [get?, hfind]
  rfl

/-- Different keys make a document of their own. -/
theorem documentFrom_of_entries {sts : List Statement} (root : Entries)
    {es : Entries}
    (hes : sts.map Statement.entry? = es.map some)
    (hkeys : ((root ++ es).map (·.1.name)).Nodup) :
    documentFrom { root } sts = .ok (root ++ es) := by
  induction sts generalizing root es with
  | nil =>
      obtain rfl : es = [] := by simpa using hes.symm
      rw [List.append_nil]
      rfl
  | cons st sts ih =>
      cases es with
      | nil => simp at hes
      | cons e es =>
          obtain ⟨hst, hrest⟩ := List.cons_eq_cons.mp hes
          obtain ⟨mark, rfl⟩ : ∃ mark, st = .assignment mark [] e.1 e.2 :=
            assignment_of_entry? hst
          have hnew : root.get? e.1.name = none := by
            refine Entries.get?_eq_none fun hmem => ?_
            rw [List.map_append] at hkeys
            exact (List.nodup_append.mp hkeys).2.2 _ hmem _
              List.mem_cons_self rfl
          have hadd : Draft.add { root } (.assignment mark [] e.1 e.2)
              = .ok { root := root ++ [e] } := by
            rw [Draft.add]
            dsimp only
            rw [assign_of_get?_eq_none hnew]
            rfl
          rw [List.append_cons] at hkeys ⊢
          rw [documentFrom, hadd]
          exact ih _ hrest hkeys

/-- What is read of a text whose statements are entries. -/
theorem parse_of_lines {ls : List Line} {es : Entries}
    (hbom : s.head? ≠ some '\uFEFF')
    (hlines : lines (s.length + 1) s = (ls, none))
    (hes : (ls.filterMap Line.statement?).map Statement.entry? = es.map some)
    (hkeys : (es.map (·.1.name)).Nodup) : parse s = .ok es := by
  have hdrop : dropByteOrderMark s = s := by
    unfold dropByteOrderMark
    split
    · exact absurd rfl hbom
    · rfl
  rw [parse, hdrop, statements_eq_lines, hlines]
  dsimp only
  have hdocument := documentFrom_of_entries [] hes hkeys
  rw [hdocument]
  rfl

end TlsKeystore.Toml
