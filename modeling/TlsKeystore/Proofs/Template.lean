/-
Nothing is lost in a template.

# What it says

A node says what a field is written as (`Says`), down to the two strings of
every identity. Each value is read as a node that says it (`readValue_write`),
a field as a comment and an assignment, and so a template as the lines of its
fields, in their order (`lines_fields`, by induction on the fields). Their
names differ, so the document has just these entries.

# What is read of it

A configuration is read field by field, and each field takes what its node
says. All nine are there, so it is the one that was written
(`ofToml_template`).
-/
import TlsKeystore.Config.Reader
import TlsKeystore.Config.Template
import TlsKeystore.Proofs.Toml.Lines

namespace TlsKeystore.Config

open Toml

-- ================================================================= values

/-- A node that says where a keystore is made for whom. -/
inductive SaysSpec (spec : IdentitySpec) : Node → Prop where
  | intro (mark m n m' n' : Nat) :
      SaysSpec spec (.table (some mark) .inline
        [(⟨"common_name", m⟩, .scalar n (.string spec.commonName)),
          (⟨"output_path", m'⟩, .scalar n' (.string spec.outputPath))])

/-- A node that says what a field is written as. -/
inductive Says : FieldValue → Node → Prop where
  | text (mark : Nat) (s : String) : Says (.text s) (.scalar mark (.string s))
  | flag (mark : Nat) (b : Bool) : Says (.flag b) (.scalar mark (.boolean b))
  | identities (mark : Nat) {specs : List IdentitySpec} {items : List Node}
      (h : List.Forall₂ SaysSpec specs items) :
      Says (.identities specs) (.array mark items)

variable {t : List Char}

theorem solid_write (s : String) (t : List Char) :
    Solid (Toml.write s ++ t) := by
  obtain ⟨q, rest, hwrite, hq⟩ := write_eq_cons s
  rw [hwrite]
  rcases hq with rfl | rfl <;>
    exact .intro (by decide) (by decide) (by decide) (by decide)

theorem solid_writeSpec (spec : IdentitySpec) (t : List Char) :
    Solid (writeSpec spec ++ t) :=
  .intro (by decide) (by decide) (by decide) (by decide)

theorem writeSpec_append (spec : IdentitySpec) (t : List Char) :
    writeSpec spec ++ t = '{' :: ' ' ::
      keyed "common_name" (Toml.write spec.commonName ++ ',' :: ' ' ::
      keyed "output_path" (Toml.write spec.outputPath ++ ' ' :: '}' :: t)) := by
  unfold writeSpec
  generalize Toml.write spec.commonName = name
  generalize Toml.write spec.outputPath = path
  rw [List.append_assoc, List.append_assoc, List.append_assoc,
    List.append_assoc]
  rfl

theorem head?_writeSpec (spec : IdentitySpec) (t : List Char) :
    (writeSpec spec ++ t).head? ≠ some ']' := by
  rw [writeSpec_append]
  simp

theorem bare_commonName : Bare "common_name" := .of_all rfl

theorem bare_outputPath : Bare "output_path" := .of_all rfl

/-- The pairs of an identity are a table. -/
theorem bracedEntries_spec (key key' : Key) (value value' : Node)
    (hkey : key.name = "common_name") (hkey' : key'.name = "output_path") :
    bracedEntries [([], key, value), ([], key', value')] []
      = .ok [(key, value), (key', value')] := by
  have hnew : Entries.get? [(key, value)] key'.name = none := by
    refine Entries.get?_eq_none ?_
    simp [hkey, hkey']
  rw [bracedEntries, assign_of_get?_eq_none rfl]
  simp only [bind, Except.bind]
  rw [bracedEntries, List.nil_append, assign_of_get?_eq_none hnew]
  rfl

/-- An identity is read from its braces. -/
theorem readValue_writeSpec (depth : Nat) (spec : IdentitySpec)
    (t : List Char) :
    ∃ n, readValue (depth + 1) (writeSpec spec ++ t) = .ok (n, t)
      ∧ SaysSpec spec n := by
  let last :=
    keyed "output_path" (Toml.write spec.outputPath ++ ' ' :: '}' :: t)
  let all :=
    keyed "common_name" (Toml.write spec.commonName ++ ',' :: ' ' :: last)
  obtain ⟨n', hpath⟩ := readValue_write depth spec.outputPath
    (t := ' ' :: '}' :: t) (.cons (by decide) (by decide) _)
  obtain ⟨n, hname⟩ := readValue_write depth spec.commonName
    (t := ',' :: ' ' :: last) (.cons (by decide) (by decide) _)
  obtain ⟨m', hlast⟩ := readPairs_last (s := ' ' :: last) bare_outputPath rfl
    (solid_write _ _) hpath (all.length - 2)
  obtain ⟨m, hall⟩ := readPairs_more (s := all) bare_commonName rfl
    (solid_write _ _) hname hlast
  have hsteps : all.length - 2 + 1 + 1 = all.length := by
    have : 2 ≤ all.length := Nat.le_add_left ..
    omega
  rw [hsteps] at hall
  have hentries := bracedEntries_spec ⟨"common_name", m⟩ ⟨"output_path", m'⟩
    (.scalar n (.string spec.commonName)) (.scalar n' (.string spec.outputPath))
    rfl rfl
  refine ⟨_, ?_, .intro (writeSpec spec ++ t).length m n m' n'⟩
  have hopen : all.head? = some 'c' := rfl
  have hbraces := readBraces_of_pairs (s := ' ' :: all) (t := all) rfl
    (by rw [hopen]; decide) hall hentries
  rw [writeSpec_append, readValue, hbraces]
  rfl

theorem solid_separated (spec : IdentitySpec) (specs : List IdentitySpec)
    (t : List Char) :
    Solid (separated ((spec :: specs).map writeSpec) ++ t) := by
  cases specs with
  | nil => exact solid_writeSpec spec t
  | cons next specs =>
      show Solid (writeSpec spec ++ ", ".toList ++ _ ++ t)
      rw [List.append_assoc, List.append_assoc]
      exact solid_writeSpec spec _

/-- Identities are read one after the other, up to the closing bracket. -/
theorem readItems_separated (depth : Nat) (spec : IdentitySpec)
    (specs : List IdentitySpec) {steps : Nat} (hsteps : specs.length < steps)
    {s : List Char} (t : List Char) (hs : skipBlank s
      = separated ((spec :: specs).map writeSpec) ++ ']' :: t) :
    ∃ items, readItems (readValue (depth + 1)) steps s = .ok (items, t)
      ∧ List.Forall₂ SaysSpec (spec :: specs) items := by
  induction specs generalizing spec steps s with
  | nil =>
      obtain ⟨steps, rfl⟩ := Nat.exists_eq_add_one_of_ne_zero
        (Nat.ne_zero_of_lt hsteps)
      obtain ⟨n, hread, hsays⟩ := readValue_writeSpec depth spec (']' :: t)
      exact ⟨[n], readItems_last (solid_writeSpec _ _) hs
        (head?_writeSpec _ _) hread steps, .cons hsays .nil⟩
  | cons next specs ih =>
      obtain ⟨steps, rfl⟩ := Nat.exists_eq_add_one_of_ne_zero
        (Nat.ne_zero_of_lt hsteps)
      let more := ' ' :: (separated ((next :: specs).map writeSpec) ++ ']' :: t)
      have hmore : skipBlank more
          = separated ((next :: specs).map writeSpec) ++ ']' :: t :=
        skipBlank_of_solid (solid_separated next specs _)
      obtain ⟨items, hitems, hsays⟩ := ih next (Nat.lt_of_succ_lt_succ hsteps)
        hmore
      obtain ⟨n, hread, hspec⟩ := readValue_writeSpec depth spec (',' :: more)
      have hs : skipBlank s = writeSpec spec ++ ',' :: more := by
        rw [hs]
        show writeSpec spec ++ ", ".toList ++ _ ++ _ = _
        rw [List.append_assoc, List.append_assoc]
        rfl
      exact ⟨n :: items, readItems_more (solid_writeSpec _ _) hs
        (head?_writeSpec _ _) hread hitems, .cons hspec hsays⟩

/-- Every identity takes its place. -/
theorem length_le_separated (specs : List IdentitySpec) :
    specs.length ≤ (separated (specs.map writeSpec)).length := by
  induction specs with
  | nil => exact Nat.zero_le _
  | cons spec specs ih =>
      have hlength : 1 ≤ (writeSpec spec).length := by
        rw [← List.append_nil (writeSpec spec), writeSpec_append]
        exact Nat.le_add_left ..
      cases specs with
      | nil => exact hlength
      | cons next specs =>
          show _ ≤ (writeSpec spec ++ ", ".toList
            ++ separated ((next :: specs).map writeSpec)).length
          rw [List.length_append, List.length_append, List.length_cons]
          omega

/-- Identities are read from their brackets. -/
theorem readItems_write (depth : Nat) (specs : List IdentitySpec)
    (t : List Char) :
    let s := separated (specs.map writeSpec) ++ ']' :: t
    ∃ items, readItems (readValue (depth + 1)) s.length s = .ok (items, t)
      ∧ List.Forall₂ SaysSpec specs items := by
  cases specs with
  | nil => exact ⟨[], readItems_nil _ t, .nil⟩
  | cons spec specs =>
      intro s
      have hlength := length_le_separated (spec :: specs)
      refine readItems_separated depth spec specs ?_ t
        (skipBlank_of_solid (solid_separated spec specs _))
      rw [List.length_append]
      exact Nat.lt_of_lt_of_le (Nat.lt_of_succ_le hlength) (Nat.le_add_right ..)

/-- The value of a field is read to the end of its line. -/
theorem readValue_fieldValue (depth : Nat) (v : FieldValue) (t : List Char) :
    ∃ n, readValue (depth + 2) (v.write ++ '\n' :: t) = .ok (n, '\n' :: t)
      ∧ Says v n := by
  cases v with
  | text s =>
      obtain ⟨mark, hread⟩ := readValue_write (depth + 2) s (t := '\n' :: t)
        (.cons (by decide) (by decide) _)
      exact ⟨_, hread, .text mark s⟩
  | flag b =>
      obtain ⟨mark, hread⟩ := readValue_toString (depth + 2) b ('\n' :: t)
      exact ⟨_, hread, .flag mark b⟩
  | identities specs =>
      obtain ⟨items, hitems, hsays⟩ := readItems_write depth specs ('\n' :: t)
      have hwrite : (FieldValue.identities specs).write ++ '\n' :: t
          = '[' :: (separated (specs.map writeSpec) ++ ']' :: '\n' :: t) := by
        show '[' :: (separated (specs.map writeSpec) ++ [']'] ++ '\n' :: t) = _
        rw [List.append_assoc]
        rfl
      refine ⟨_, ?_, .identities (List.length ('[' ::
        (separated (specs.map writeSpec) ++ ']' :: '\n' :: t))) hsays⟩
      rw [hwrite, readValue, hitems]
      rfl

-- ================================================================= fields

/-- A field whose comment and key are read as they are. -/
structure Field.Plain (f : Field) : Prop where
  name : Bare f.name
  doc : ∀ c ∈ f.doc.toList, isComment c = true
  start : skipBlank f.doc.toList = f.doc.toList

/-- An entry that is what a field is written as. -/
structure Holds (f : Field) (e : Key × Node) : Prop where
  name : e.1.name = f.name
  value : Says f.value e.2

theorem Field.Plain.of_all {name doc : String} {value : FieldValue}
    (hname : (!name.toList.isEmpty && name.toList.all isBare) = true)
    (hdoc : doc.toList.all isComment = true)
    (hstart : doc.toList.head?.any isBlank = false) :
    Field.Plain ⟨name, doc, value⟩ :=
  ⟨.of_all hname, List.all_eq_true.mp hdoc, skipBlank_of_head hstart⟩

theorem plain_fields (c : Config) : ∀ f ∈ c.fields, f.Plain := by
  intro f hf
  simp only [fields, List.mem_cons, List.not_mem_nil, or_false] at hf
  rcases hf with rfl | rfl | rfl | rfl | rfl | rfl | rfl | rfl | rfl
  all_goals
    exact .of_all rfl rfl rfl

theorem solid_fieldValue (v : FieldValue) (t : List Char) :
    Solid (v.write ++ t) := by
  cases v with
  | text s => exact solid_write s t
  | flag b =>
      cases b <;>
        exact .intro (by decide) (by decide) (by decide) (by decide)
  | identities specs =>
      exact .intro (by decide) (by decide) (by decide) (by decide)

theorem fieldWrite_append (f : Field) (t : List Char) :
    f.write ++ t = '#' :: ' ' :: f.doc.toList ++ '\n' ::
      keyed f.name (f.value.write ++ '\n' :: t) := by
  unfold Field.write keyed
  generalize f.value.write = v
  generalize f.name.toList = name
  generalize f.doc.toList = doc
  simp

/-- A field is a comment and an assignment. -/
theorem lines_field {f : Field} (hf : f.Plain) (t : List Char) (steps : Nat) :
    ∃ mark e, lines (steps + 2) (f.write ++ t)
        = (.comment f.doc :: .statement (.assignment mark [] e.1 e.2)
          :: (lines steps t).1, (lines steps t).2)
      ∧ Holds f e := by
  obtain ⟨n, hread, hsays⟩ := readValue_fieldValue 77 f.value t
  obtain ⟨mark, mark', hassignment⟩ := lines_assignment hf.name
    (solid_fieldValue _ _) hread steps
  refine ⟨mark, (⟨f.name, mark'⟩, n), ?_, rfl, hsays⟩
  rw [fieldWrite_append, lines_comment hf.doc hf.start, hassignment,
    String.ofList_toList]

/-- Fields are read in their order. -/
theorem lines_fields (fs : List Field) (hfs : ∀ f ∈ fs, f.Plain) {steps : Nat}
    (hsteps : (fs.flatMap Field.write).length ≤ steps) :
    ∃ ls es, lines steps (fs.flatMap Field.write) = (ls, none)
      ∧ ls.map Line.shape
        = fs.flatMap (fun f => [.comment f.doc, .assignment [f.name]])
      ∧ (ls.filterMap Line.statement?).map Statement.entry? = es.map some
      ∧ List.Forall₂ Holds fs es := by
  induction fs generalizing steps with
  | nil =>
      refine ⟨[], [], ?_, rfl, rfl, .nil⟩
      cases steps <;> rfl
  | cons f fs ih =>
      have hlength : 2 ≤ f.write.length := by
        rw [← List.append_nil f.write, fieldWrite_append]
        exact Nat.le_add_left ..
      rw [List.flatMap_cons] at hsteps ⊢
      rw [List.length_append] at hsteps
      -- a field takes two steps and is longer than that
      obtain ⟨steps, rfl⟩ := Nat.exists_eq_add_of_le' (show 2 ≤ steps by omega)
      obtain ⟨ls, es, hlines, hshape, hentries, hholds⟩ :=
        ih (fun g hg => hfs g (List.mem_cons_of_mem _ hg))
          (show _ ≤ steps by omega)
      obtain ⟨mark, e, hfield, he⟩ :=
        lines_field (hfs f List.mem_cons_self) (fs.flatMap Field.write) steps
      rw [hlines] at hfield
      refine ⟨_, e :: es, hfield, ?_, ?_, .cons he hholds⟩
      · simp only [List.map_cons, hshape, List.flatMap_cons, Line.shape,
          List.nil_append, List.map_nil, he.name]
        rfl
      · simp only [List.filterMap_cons, Line.statement?, List.map_cons,
          hentries]
        rfl

/-- The entries have the names of the fields. -/
theorem names_of_holds {fs : List Field} {es : Entries}
    (h : List.Forall₂ Holds fs es) :
    fs.map (·.name) = es.map (·.1.name) := by
  induction h with
  | nil => rfl
  | cons he _ ih => rw [List.map_cons, List.map_cons, he.name, ih]

-- =============================================================== reading

section Reading

variable {n : Node}

theorem string_of_says {s : String} (h : Says (.text s) n) (wanted : Wanted)
    (mark : Nat) : string wanted mark n = .ok s := by
  cases h
  rfl

theorem boolean_of_says {b : Bool} (h : Says (.flag b) n) (mark : Nat) :
    boolean mark n = .ok b := by
  cases h
  rfl

theorem identity_of_saysSpec {spec : IdentitySpec} (h : SaysSpec spec n)
    (mark : Nat) : identity mark n = .ok spec := by
  cases h
  rfl

theorem identitiesOf_of_says {specs : List IdentitySpec}
    (h : Says (.identities specs) n) (mark : Nat) :
    identitiesOf mark n = .ok specs := by
  cases h with
  | identities mark' hitems =>
      rw [identitiesOf]
      induction hitems with
      | nil => rfl
      | cons hspec _ ih =>
          rw [identityList, identity_of_saysSpec hspec, ih]
          rfl

end Reading

/-- Entries that are what the fields of a configuration are written as give that
configuration. -/
theorem ofEntries_of_holds {c : Config} {es : Entries}
    (h : List.Forall₂ Holds c.fields es) (mark : Nat) :
    ofEntries mark es = .ok c := by
  -- one entry for each field, with the name of the field
  simp only [fields, List.forall₂_cons_left_iff, List.forall₂_nil_left_iff] at h
  obtain ⟨⟨⟨_, _⟩, _⟩, es, ⟨rfl, hworkdir⟩, h, rfl⟩ := h
  obtain ⟨⟨⟨_, _⟩, _⟩, es, ⟨rfl, hpassword⟩, h, rfl⟩ := h
  obtain ⟨⟨⟨_, _⟩, _⟩, es, ⟨rfl, hskip⟩, h, rfl⟩ := h
  obtain ⟨⟨⟨_, _⟩, _⟩, es, ⟨rfl, hunit⟩, h, rfl⟩ := h
  obtain ⟨⟨⟨_, _⟩, _⟩, es, ⟨rfl, horganization⟩, h, rfl⟩ := h
  obtain ⟨⟨⟨_, _⟩, _⟩, es, ⟨rfl, hlocality⟩, h, rfl⟩ := h
  obtain ⟨⟨⟨_, _⟩, _⟩, es, ⟨rfl, hstate⟩, h, rfl⟩ := h
  obtain ⟨⟨⟨_, _⟩, _⟩, es, ⟨rfl, hcountry⟩, h, rfl⟩ := h
  obtain ⟨⟨⟨_, _⟩, _⟩, es, ⟨rfl, hidentities⟩, h, rfl⟩ := h
  subst h
  simp only [ofEntries, Partial.addAll, Partial.add, string_of_says hworkdir,
    string_of_says hpassword, boolean_of_says hskip, string_of_says hunit,
    string_of_says horganization, string_of_says hlocality,
    string_of_says hstate, string_of_says hcountry,
    identitiesOf_of_says hidentities, bind, Except.bind, pure, Except.pure]
  rfl

/-- Nothing is lost in a template: read line by line it is the nine fields in
their order, each directly behind a comment of its own, and there is no other
line or statement in it; and read as a configuration, it is the one that it was
written for. -/
theorem ofToml_template (c : Config) :
    (∃ ls, lines (c.template.toList.length + 1) c.template.toList = (ls, none)
      ∧ statements (c.template.toList.length + 1) c.template.toList
        = (ls.filterMap Line.statement?, none)
      ∧ ls.map Line.shape = [
        .comment "Directory that relative keystore paths are resolved against",
        .assignment ["workdir"],
        .comment ("Keystore password. The KEYSTORE_PASSWORD environment "
          ++ "variable takes precedence"),
        .assignment ["password"],
        .comment ("Keep keystores that already exist instead of "
          ++ "regenerating them"),
        .assignment ["skip_existing"],
        .comment "Organizational unit of every certificate subject",
        .assignment ["org_unit"],
        .comment "Organization of every certificate subject",
        .assignment ["organization"],
        .comment "Locality of every certificate subject",
        .assignment ["locality"],
        .comment "State or province of every certificate subject",
        .assignment ["state"],
        .comment "Country code of every certificate subject",
        .assignment ["country"],
        .comment "Keystores to generate, one per service",
        .assignment ["identities"]])
    ∧ ofToml c.template = .ok c := by
  have htext : c.template.toList = c.fields.flatMap Field.write :=
    String.toList_ofList
  obtain ⟨ls, es, hlines, hshape, hentries, hholds⟩ :=
    lines_fields c.fields (plain_fields c) (Nat.le_succ _)
  have hkeys : (es.map (·.1.name)).Nodup := by
    rw [← names_of_holds hholds]
    show ["workdir", "password", "skip_existing", "org_unit", "organization",
      "locality", "state", "country", "identities"].Nodup
    decide
  have hparse : parse c.template.toList = .ok es := by
    rw [htext]
    refine parse_of_lines ?_ hlines hentries hkeys
    show some '#' ≠ some '\uFEFF'
    decide
  refine ⟨⟨ls, ?_, ?_, ?_⟩, ?_⟩
  · rw [htext]
    exact hlines
  · rw [htext, statements_eq_lines, hlines]
  · rw [hshape]
    rfl
  · simp only [ofToml, hparse, ofEntries_of_holds hholds]

end TlsKeystore.Config
