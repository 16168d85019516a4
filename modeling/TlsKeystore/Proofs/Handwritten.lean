/-
A configuration is what a hand-written text says.

# What it says

Such a text gives each scalar of a configuration to its key, in any order
and with other scalars among them, and the identities in an array among
these or in sections behind them (`Handwritten`). How each of these is
written is free (`Written`).

# What is read of it

The document of the text has an entry for each key, and every entry fits the
configuration (`Fits`). So at each entry the fields that are known are those
of the configuration whose keys have been met (`Partial.taken`), by induction
on the entries. All keys together make the configuration; one that has been
taken out of the text is what is missed at the end. A key that is given
something twice is refused where that happens, and the entries are not looked
at. So is a text with a number that is too large (`TooLarge`), though it stands
under a key that no configuration has.
-/
import TlsKeystore.Config.Reader
import TlsKeystore.Proofs.Toml.Sections

namespace TlsKeystore.Config

open Toml

-- ================================================================ writing

/-- The keys of a configuration. -/
def keys : List String :=
  ["workdir", "password", "skip_existing", "org_unit", "organization",
    "locality", "state", "country", "identities"]

/-- The scalars of a configuration under their keys. -/
def scalars (c : Config) : List (String × Grammar.Value) :=
  [("workdir", .string c.workdir), ("password", .string c.password),
    ("skip_existing", .boolean c.skipExisting),
    ("org_unit", .string c.orgUnit), ("organization", .string c.organization),
    ("locality", .string c.locality), ("state", .string c.state),
    ("country", .string c.country)]

/-- The two keys of an identity in either order. -/
inductive IsIdentity (spec : IdentitySpec) : Grammar.Pairs → Prop where
  | nameFirst : IsIdentity spec
      [("common_name", spec.commonName), ("output_path", spec.outputPath)]
  | pathFirst : IsIdentity spec
      [("output_path", spec.outputPath), ("common_name", spec.commonName)]

/-- Scalars under other keys than those of a configuration, no two alike. -/
structure Extra (extras : List (String × Grammar.Value)) : Prop where
  distinct : (extras.map Prod.fst).Nodup
  other : ∀ e ∈ extras, e.1 ∉ keys

/-- Scalars as what their keys are given. -/
def plain (scalars : List (String × Grammar.Value)) :
    List (String × Grammar.Content) :=
  scalars.map fun e => (e.1, .scalar e.2)

/-- Assignments and sections that say what a configuration is: its scalars in
any order, others among them, and its identities in an array among them or,
where there are any, in sections. -/
inductive Handwritten (c : Config) :
    List (String × Grammar.Content) → List Grammar.Pairs → Prop where
  | inline {root : List (String × Grammar.Content)}
      {extras : List (String × Grammar.Value)} {items : List Grammar.Pairs}
      (hextras : Extra extras)
      (hitems : List.Forall₂ IsIdentity c.identities items)
      (hroot : root.Perm
        (("identities", .tables items) :: plain (c.scalars ++ extras))) :
      Handwritten c root []
  | sections {root : List (String × Grammar.Content)}
      {extras : List (String × Grammar.Value)} {items : List Grammar.Pairs}
      (hextras : Extra extras)
      (hitems : List.Forall₂ IsIdentity c.identities items)
      (hne : items ≠ [])
      (hroot : root.Perm (plain (c.scalars ++ extras))) :
      Handwritten c root items

/-- A text with assignments, and behind them identities in sections. -/
def Written (root : List (String × Grammar.Content))
    (items : List Grammar.Pairs) (text : String) : Prop :=
  Grammar.Text (Grammar.assigned root ++ Grammar.sections "identities" items)
    text.toList

-- ================================================================ reading

variable {c : Config} {names : List String} {k : String}

/-- The fields of a configuration that are among some names. -/
def Partial.taken (c : Config) (names : List String) : Partial where
  workdir := if "workdir" ∈ names then some c.workdir else none
  password := if "password" ∈ names then some c.password else none
  skipExisting := if "skip_existing" ∈ names then some c.skipExisting else none
  orgUnit := if "org_unit" ∈ names then some c.orgUnit else none
  organization := if "organization" ∈ names then some c.organization else none
  locality := if "locality" ∈ names then some c.locality else none
  state := if "state" ∈ names then some c.state else none
  country := if "country" ∈ names then some c.country else none
  identities := if "identities" ∈ names then some c.identities else none

/-- An entry says nothing else of a configuration than what it is. -/
inductive Fits (c : Config) : Key × Node → Prop where
  | scalar {key : Key} {v : Grammar.Value} (mark : Nat)
      (h : (key.name, v) ∈ c.scalars) : Fits c (key, .scalar mark v.scalar)
  | identities {key : Key} {node : Node} (hkey : key.name = "identities")
      (h : ∀ mark, identitiesOf mark node = .ok c.identities) :
      Fits c (key, node)
  | other {key : Key} (node : Node) (hkey : key.name ∉ keys) :
      Fits c (key, node)

theorem Partial.add_taken {e : Key × Node} (he : Fits c e)
    (names : List String) :
    (taken c names).add e.1 e.2 = .ok (taken c (e.1.name :: names)) := by
  cases he with
  | @scalar key v mark h =>
      obtain ⟨name, m⟩ := key
      simp only [scalars, List.mem_cons, Prod.mk.injEq, List.not_mem_nil,
        or_false] at h
      rcases h with ⟨rfl, rfl⟩ | ⟨rfl, rfl⟩ | ⟨rfl, rfl⟩ | ⟨rfl, rfl⟩
        | ⟨rfl, rfl⟩ | ⟨rfl, rfl⟩ | ⟨rfl, rfl⟩ | ⟨rfl, rfl⟩ <;>
      simp [add, taken, string, boolean, Grammar.Value.scalar, bind, Except.bind,
        pure, Except.pure]
  | @identities key node hkey h =>
      obtain ⟨name, m⟩ := key
      obtain rfl : name = "identities" := hkey
      simp [add, taken, h, bind, Except.bind, pure, Except.pure]
  | @other key node hkey =>
      obtain ⟨name, m⟩ := key
      simp only [keys, List.mem_cons, not_or, List.not_mem_nil] at hkey
      simp only [add]
      split <;> simp_all [taken, pure, Except.pure, eq_comm]

theorem Partial.finish_taken (h : ∀ k ∈ keys, k ∈ names) (mark : Nat) :
    (taken c names).finish mark = .ok c := by
  simp only [keys, List.forall_mem_cons] at h
  simp [finish, taken, found, h, bind, Except.bind, pure, Except.pure]

theorem Partial.finish_taken_missing (hk : k ∈ keys)
    (h : ∀ k' ∈ keys, k' ∈ names ↔ k' ≠ k) (mark : Nat) :
    (taken c names).finish mark = .error ⟨mark, .missing k⟩ := by
  simp only [keys, List.forall_mem_cons] at h
  simp only [keys, List.mem_cons, List.not_mem_nil, or_false] at hk
  rcases hk with rfl | rfl | rfl | rfl | rfl | rfl | rfl | rfl | rfl <;>
  simp [finish, taken, found, h, bind, Except.bind]

/-- Entries that fit are taken one after the other. -/
theorem Partial.addAll_taken {es : Entries} (hes : ∀ e ∈ es, Fits c e)
    (names : List String) :
    ∃ names', (taken c names).addAll es = .ok (taken c names')
      ∧ ∀ k, k ∈ names' ↔ k ∈ names ∨ k ∈ es.map (·.1.name) := by
  induction es generalizing names with
  | nil => exact ⟨names, rfl, by simp⟩
  | cons e es ih =>
      obtain ⟨he, hes⟩ := List.forall_mem_cons.mp hes
      obtain ⟨names', hread, hnames'⟩ := ih hes (e.1.name :: names)
      refine ⟨names', ?_, ?_⟩
      · obtain ⟨key, node⟩ := e
        rw [addAll, add_taken he]
        exact hread
      · intro k
        rw [hnames', List.map_cons, List.mem_cons, List.mem_cons]
        tauto

-- ============================================================= identities

theorem eq_of_isPair {p : String × String} {e : Key × Node}
    (h : Grammar.IsPair p e) :
    ∃ m m', e = (⟨p.1, m⟩, .scalar m' (.string p.2)) := by
  obtain ⟨⟨name, m⟩, node⟩ := e
  obtain ⟨hname, m', hvalue⟩ := h
  dsimp only at hname hvalue
  rw [hname, hvalue]
  exact ⟨m, m', rfl⟩

theorem eq_of_two_pairs {p q : String × String} {es : Entries}
    (h : List.Forall₂ Grammar.IsPair [p, q] es) :
    ∃ m m' n n', es = [(⟨p.1, m⟩, .scalar m' (.string p.2)),
      (⟨q.1, n⟩, .scalar n' (.string q.2))] := by
  obtain ⟨e, _, he, hrest, rfl⟩ := List.forall₂_cons_left_iff.mp h
  obtain ⟨e', _, he', hnil, rfl⟩ := List.forall₂_cons_left_iff.mp hrest
  obtain ⟨m, m', rfl⟩ := eq_of_isPair he
  obtain ⟨n, n', rfl⟩ := eq_of_isPair he'
  cases hnil
  exact ⟨m, m', n, n', rfl⟩

theorem identity_of_table {spec : IdentitySpec} {ps : Grammar.Pairs}
    {node : Node} (hspec : IsIdentity spec ps) (h : Grammar.IsTable ps node)
    (mark : Nat) : identity mark node = .ok spec := by
  obtain ⟨mark', kind, entries, rfl, hentries⟩ := h
  cases hspec with
  | nameFirst =>
      obtain ⟨m, m', n, n', rfl⟩ := eq_of_two_pairs hentries
      rfl
  | pathFirst =>
      obtain ⟨m, m', n, n', rfl⟩ := eq_of_two_pairs hentries
      rfl

theorem identityList_of_tables {specs : List IdentitySpec}
    {items : List Grammar.Pairs} {nodes : List Node}
    (hitems : List.Forall₂ IsIdentity specs items)
    (hnodes : List.Forall₂ Grammar.IsTable items nodes) (mark : Nat) :
    identityList mark nodes = .ok specs := by
  induction hitems generalizing nodes with
  | nil =>
      cases hnodes
      rfl
  | cons hspec _ ih =>
      cases hnodes with
      | cons hnode hnodes =>
          rw [identityList, identity_of_table hspec hnode, ih hnodes]
          rfl

theorem identitiesOf_of_gives {items : List Grammar.Pairs} {node : Node}
    (hitems : List.Forall₂ IsIdentity c.identities items)
    (h : Grammar.Gives (.tables items) node) (mark : Nat) :
    identitiesOf mark node = .ok c.identities := by
  cases h with
  | array _ hnodes => exact identityList_of_tables hitems hnodes mark
  | sections hnodes => exact identityList_of_tables hitems hnodes mark

theorem IsIdentity.distinct {spec : IdentitySpec} {ps : Grammar.Pairs}
    (h : IsIdentity spec ps) : Grammar.Distinct ps := by
  cases h with
  | nameFirst =>
      show ["common_name", "output_path"].Nodup
      decide
  | pathFirst =>
      show ["output_path", "common_name"].Nodup
      decide

theorem distinct_of_identities {specs : List IdentitySpec}
    {items : List Grammar.Pairs}
    (h : List.Forall₂ IsIdentity specs items) :
    ∀ ps ∈ items, Grammar.Distinct ps := by
  induction h with
  | nil =>
      intro ps hps
      cases hps
  | cons hspec _ ih => exact List.forall_mem_cons.mpr ⟨hspec.distinct, ih⟩

-- =================================================================== parts

/-- What a key is given says nothing else of a configuration than what it is. -/
inductive Right (c : Config) : String × Grammar.Content → Prop where
  | scalar {name : String} {v : Grammar.Value} (h : (name, v) ∈ c.scalars) :
      Right c (name, .scalar v)
  | identities {items : List Grammar.Pairs}
      (hitems : List.Forall₂ IsIdentity c.identities items) :
      Right c ("identities", .tables items)
  | other {name : String} (v : Grammar.Value) (hname : name ∉ keys) :
      Right c (name, .scalar v)

variable {a : String × Grammar.Content}

theorem Right.distinct (h : Right c a) : a.2.Distinct := by
  cases h with
  | scalar => trivial
  | other => trivial
  | identities hitems => exact distinct_of_identities hitems

theorem Right.fits (h : Right c a) {e : Key × Node} (he : Grammar.IsEntry a e) :
    Fits c e := by
  obtain ⟨key, node⟩ := e
  obtain ⟨hname, hvalue⟩ := he
  cases h with
  | scalar h =>
      cases hvalue with
      | scalar mark => exact .scalar mark (by rwa [hname])
  | identities hitems =>
      exact .identities hname fun mark => identitiesOf_of_gives hitems hvalue mark
  | other v hother => exact .other node (by rwa [hname])

theorem fits_of_entries {as : List (String × Grammar.Content)} {es : Entries}
    (hright : ∀ a ∈ as, Right c a)
    (hes : List.Forall₂ Grammar.IsEntry as es) : ∀ e ∈ es, Fits c e := by
  induction hes with
  | nil =>
      intro e he
      cases he
  | cons he _ ih =>
      obtain ⟨ha, has⟩ := List.forall_mem_cons.mp hright
      exact List.forall_mem_cons.mpr ⟨ha.fits he, ih has⟩

section Writing

variable {root : List (String × Grammar.Content)} {items : List Grammar.Pairs}

/-- All that a hand-written text gives its keys. -/
theorem Handwritten.perm (h : Handwritten c root items) :
    ∃ extras items', Extra extras
      ∧ List.Forall₂ IsIdentity c.identities items'
      ∧ (Grammar.contents root "identities" items).Perm
        (("identities", .tables items') :: plain (c.scalars ++ extras)) := by
  cases h with
  | inline hextras hitems hroot => exact ⟨_, _, hextras, hitems, hroot⟩
  | sections hextras hitems hne hroot =>
      refine ⟨_, items, hextras, hitems, ?_⟩
      obtain ⟨ps, items, rfl⟩ := List.exists_cons_of_ne_nil hne
      have hlast := List.perm_append_singleton
        ("identities", Grammar.Content.tables (ps :: items)) root
      exact hlast.trans (hroot.cons _)

theorem map_fst_plain (scalars : List (String × Grammar.Value)) :
    (plain scalars).map Prod.fst = scalars.map Prod.fst := by
  rw [plain, List.map_map]
  rfl

theorem Handwritten.right (h : Handwritten c root items) :
    ∀ a ∈ Grammar.contents root "identities" items, Right c a := by
  obtain ⟨extras, items', hextras, hitems', hperm⟩ := h.perm
  intro a ha
  rcases List.mem_cons.mp (hperm.mem_iff.mp ha) with rfl | ha
  · exact .identities hitems'
  · obtain ⟨e, he, rfl⟩ := List.mem_map.mp ha
    rcases List.mem_append.mp he with he | he
    · exact .scalar he
    · exact .other e.2 (hextras.other e he)

theorem Handwritten.perm_names (h : Handwritten c root items) :
    ∃ others, (∀ k ∈ others, k ∉ keys) ∧ others.Nodup
      ∧ ((Grammar.contents root "identities" items).map Prod.fst).Perm
        (keys ++ others) := by
  obtain ⟨extras, items', hextras, -, hperm⟩ := h.perm
  refine ⟨extras.map Prod.fst, ?_, hextras.distinct, ?_⟩
  · intro k hk
    obtain ⟨e, he, rfl⟩ := List.mem_map.mp hk
    exact hextras.other e he
  · have hnames := hperm.map Prod.fst
    rw [List.map_cons, map_fst_plain, List.map_append, ← List.cons_append] at hnames
    have hkeys : ("identities" :: c.scalars.map Prod.fst).Perm keys :=
      (List.perm_append_singleton "identities" (c.scalars.map Prod.fst)).symm
    exact hnames.trans (hkeys.append_right _)

theorem Handwritten.nodup (h : Handwritten c root items) :
    ((Grammar.contents root "identities" items).map Prod.fst).Nodup := by
  obtain ⟨others, hothers, hnodup, hperm⟩ := h.perm_names
  rw [hperm.nodup_iff, List.nodup_append]
  refine ⟨by decide, hnodup, ?_⟩
  intro k hk k' hk' heq
  exact hothers k' hk' (heq ▸ hk)

theorem Handwritten.mem_names (h : Handwritten c root items) (hk : k ∈ keys) :
    k ∈ (Grammar.contents root "identities" items).map Prod.fst := by
  obtain ⟨others, -, -, hperm⟩ := h.perm_names
  exact hperm.mem_iff.mpr (List.mem_append_left _ hk)

theorem contents_filter (root : List (String × Grammar.Content))
    (items : List Grammar.Pairs) (k : String) :
    Grammar.contents (root.filter (·.1 ≠ k)) "identities"
        (if k = "identities" then [] else items)
      = (Grammar.contents root "identities" items).filter (·.1 ≠ k) := by
  cases items with
  | nil =>
      rw [ite_self]
      rfl
  | cons ps items =>
      by_cases hk : k = "identities"
      · subst hk
        simp [Grammar.contents]
      · have hk' : "identities" ≠ k := fun h => hk h.symm
        simp [Grammar.contents, hk, hk']

theorem allDistinct_of_right
    (hright : ∀ a ∈ Grammar.contents root "identities" items, Right c a) :
    Grammar.AllDistinct root items := by
  cases items with
  | nil => exact ⟨fun a ha => (hright a ha).distinct, by simp⟩
  | cons ps items =>
      obtain ⟨hroot, hitems⟩ := List.forall_mem_append.mp hright
      exact ⟨fun a ha => (hroot a ha).distinct,
        (hitems _ List.mem_cons_self).distinct⟩

/-- What is read of a text that says nothing else of a configuration than what
it is. -/
theorem ofToml_of_right {text : String}
    (hright : ∀ a ∈ Grammar.contents root "identities" items, Right c a)
    (hnodup : ((Grammar.contents root "identities" items).map Prod.fst).Nodup)
    (hbounded : Grammar.Bounded root) (hw : Written root items text) :
    ∃ names,
      (∀ k, k ∈ names
        ↔ k ∈ (Grammar.contents root "identities" items).map Prod.fst)
      ∧ ofToml text
        = ((Partial.taken c names).finish text.toList.length).mapError
          fun m => .misfit (position text.toList m.mark) m.what := by
  obtain ⟨es, hparse, hes⟩ :=
    Grammar.parse_of_contents hw (allDistinct_of_right hright) hbounded hnodup
  obtain ⟨names, hread, hnames⟩ :=
    Partial.addAll_taken (fits_of_entries hright hes) []
  have hnone : Partial.taken c [] = {} := rfl
  refine ⟨names, ?_, ?_⟩
  · intro k
    rw [hnames, ← Grammar.names_of_entries hes]
    simp
  · rw [hnone] at hread
    simp only [ofToml, hparse, ofEntries, hread, bind, Except.bind]
    cases (Partial.taken c names).finish text.toList.length <;> rfl

/-- A number that is too large fails the whole text. -/
theorem ofToml_of_unbounded {text : String} (hw : Written root items text)
    (hall : Grammar.AllDistinct root items) (h : ¬ Grammar.Bounded root) :
    ∃ e, ofToml text = .error e := by
  obtain ⟨f, hparse⟩ :=
    Grammar.parse_of_unbounded hw (Grammar.distinct_of_all hall _) h
  refine ⟨failureOf text.toList f, ?_⟩
  simp only [ofToml, hparse]

/-- The keys of scalars are assigned in front of all sections. -/
theorem Handwritten.mem_root (h : Handwritten c root items) (hk : k ∈ keys)
    (hscalar : k ≠ "identities") : k ∈ root.map Prod.fst := by
  have hmem := h.mem_names hk
  cases items with
  | nil => exact hmem
  | cons ps items =>
      rw [Grammar.contents, List.map_append, List.mem_append] at hmem
      rcases hmem with hmem | hmem
      · exact hmem
      · exact absurd (List.mem_singleton.mp hmem) hscalar

/-- Where a key is assigned again in front or behind, the second of both is
the one that fails. -/
theorem parse_of_inserted {front back : List (String × Grammar.Content)}
    {a : String × Grammar.Content} {es : List Grammar.Expression} {w : List Char}
    (hw : Grammar.Text (Grammar.assigned (front ++ a :: back) ++ es) w)
    (hdistinct : ∀ e ∈ Grammar.assigned (front ++ a :: back) ++ es, e.Distinct)
    (hsmall : ∀ e ∈ Grammar.assigned (front ++ a :: back) ++ es, ¬ e.TooLarge)
    (hnodup : ((front ++ back).map Prod.fst).Nodup)
    (ha : a.1 ∈ (front ++ back).map Prod.fst) :
    ∃ mark, parse w = .error ⟨mark, .repeatedKey a.1 (some [])⟩ := by
  rw [List.map_append] at hnodup ha
  rcases List.mem_append.mp ha with ha | ha
  · exact Grammar.parse_of_repeated hw hdistinct hsmall
      (List.nodup_append.mp hnodup).1 ha
  · obtain ⟨b, hb, hkey⟩ := List.mem_map.mp ha
    obtain ⟨mid, rest, rfl⟩ := List.append_of_mem hb
    have htext : front ++ a :: (mid ++ b :: rest)
        = (front ++ a :: mid) ++ b :: rest := by simp
    rw [htext] at hw hdistinct hsmall
    rw [← hkey]
    rw [List.map_append, List.map_cons] at hnodup
    apply Grammar.parse_of_repeated hw hdistinct hsmall
    · rw [List.map_append, List.map_cons, ← hkey]
      have hlast := List.perm_append_singleton b.1 (mid.map Prod.fst)
      rw [← (hlast.append_left _).nodup_iff]
      refine hnodup.sublist (List.Sublist.append_left ?_ _)
      exact List.Sublist.append_left
        (List.singleton_sublist.mpr List.mem_cons_self) _
    · rw [List.map_append, List.map_cons, hkey]
      exact List.mem_append_right _ List.mem_cons_self

/-- What is left says nothing else of a configuration either. -/
theorem Handwritten.right_of_removed (h : Handwritten c root items) (k : String) :
    ∀ a ∈ Grammar.contents (root.filter (·.1 ≠ k)) "identities"
      (if k = "identities" then [] else items), Right c a := by
  rw [contents_filter]
  exact fun a ha => h.right a (List.mem_of_mem_filter ha)

/-- A key that is taken away from what a configuration is given is missed. -/
theorem Handwritten.ofToml_of_removed (h : Handwritten c root items)
    (hk : k ∈ keys) {text : String}
    (hw : Written (root.filter (·.1 ≠ k))
      (if k = "identities" then [] else items) text)
    (hbounded : Grammar.Bounded (root.filter (·.1 ≠ k))) :
    ∃ place, ofToml text = .error (.misfit place (.missing k)) := by
  have hcontents := contents_filter root items k
  obtain ⟨names, hnames, hread⟩ : ∃ names,
      (∀ k', k' ∈ names ↔ k' ∈ ((Grammar.contents root "identities" items).filter
        (·.1 ≠ k)).map Prod.fst)
      ∧ ofToml text
        = ((Partial.taken c names).finish text.toList.length).mapError
          fun m => .misfit (position text.toList m.mark) m.what := by
    rw [← hcontents]
    apply ofToml_of_right (h.right_of_removed k) _ hbounded hw
    rw [hcontents]
    exact h.nodup.sublist (List.filter_sublist.map _)
  refine ⟨position text.toList text.toList.length, ?_⟩
  rw [hread, Partial.finish_taken_missing hk]
  · rfl
  · intro k' hk'
    rw [hnames]
    constructor
    · intro hmem
      obtain ⟨a, ha, rfl⟩ := List.mem_map.mp hmem
      simpa using (List.mem_filter.mp ha).2
    · intro hne
      obtain ⟨a, ha, rfl⟩ := List.mem_map.mp (h.mem_names hk')
      exact List.mem_map.mpr ⟨a, List.mem_filter.mpr ⟨ha, by simpa using hne⟩, rfl⟩

theorem Handwritten.nodup_root (h : Handwritten c root items) :
    (root.map Prod.fst).Nodup := by
  refine h.nodup.sublist (List.Sublist.map _ ?_)
  cases items with
  | nil => exact List.Sublist.refl root
  | cons ps items => exact List.sublist_append_left ..

theorem Handwritten.allDistinct_of_repeated
    {front back : List (String × Grammar.Content)}
    (h : Handwritten c (front ++ back) items) {content : Grammar.Content}
    (hcontent : content.Distinct) (k : String) :
    Grammar.AllDistinct (front ++ (k, content) :: back) items := by
  obtain ⟨hroot, hitems⟩ := allDistinct_of_right h.right
  obtain ⟨hfront, hback⟩ := List.forall_mem_append.mp hroot
  refine ⟨List.forall_mem_append.mpr ⟨hfront, ?_⟩, hitems⟩
  exact List.forall_mem_cons.mpr ⟨hcontent, hback⟩

/-- A key of a scalar that is assigned once more is refused. -/
theorem Handwritten.ofToml_of_repeated
    {front back : List (String × Grammar.Content)}
    (h : Handwritten c (front ++ back) items) (hk : k ∈ keys)
    (hscalar : k ≠ "identities") {content : Grammar.Content}
    (hcontent : content.Distinct) {text : String}
    (hw : Written (front ++ (k, content) :: back) items text)
    (hbounded : Grammar.Bounded (front ++ (k, content) :: back)) :
    ∃ place, ofToml text
      = .error (.misfit place (.repeatedKey k (some []))) := by
  obtain ⟨mark, hparse⟩ := parse_of_inserted hw
    (Grammar.distinct_of_all (h.allDistinct_of_repeated hcontent k) "identities")
    (Grammar.small_of_bounded hbounded "identities" items) h.nodup_root
    (h.mem_root hk hscalar)
  refine ⟨position text.toList mark, ?_⟩
  simp only [ofToml, hparse]
  rfl

end Writing

/-- However a configuration is written by hand, it is read as what it is, if no
number among the other scalars is too large; with one that is, the text is
refused. What is left out of such a text is missed, the identities as well as
any scalar; and what is said again of a scalar, in front of the sections, is
refused. -/
theorem ofToml_handwritten {root : List (String × Grammar.Content)}
    {items : List Grammar.Pairs} (h : Handwritten c root items) :
    (∀ text, Written root items text →
        (Grammar.Bounded root → ofToml text = .ok c)
        ∧ (¬ Grammar.Bounded root → ∃ e, ofToml text = .error e))
    ∧ (∀ k ∈ keys, ∀ text,
        Written (root.filter (·.1 ≠ k))
          (if k = "identities" then [] else items) text →
        ∃ e, ofToml text = .error e
          ∧ (Grammar.Bounded root → ∃ place, e = .misfit place (.missing k)))
    ∧ (∀ k ∈ keys, k ≠ "identities" →
        ∀ front back content, front ++ back = root → content.Distinct →
        ∀ text, Written (front ++ (k, content) :: back) items text →
        ∃ e, ofToml text = .error e
          ∧ (Grammar.Bounded (front ++ (k, content) :: back) →
            ∃ place, e = .misfit place (.repeatedKey k (some [])))) := by
  refine ⟨?_, ?_, ?_⟩
  · intro text hw
    refine ⟨fun hbounded => ?_, ?_⟩
    · obtain ⟨names, hnames, hread⟩ := ofToml_of_right h.right h.nodup hbounded hw
      rw [hread, Partial.finish_taken]
      · rfl
      · exact fun k hk => (hnames k).mpr (h.mem_names hk)
    · exact ofToml_of_unbounded hw (allDistinct_of_right h.right)
  · intro k hk text hw
    by_cases hbounded : Grammar.Bounded (root.filter (·.1 ≠ k))
    · obtain ⟨place, hread⟩ := h.ofToml_of_removed hk hw hbounded
      exact ⟨_, hread, fun _ => ⟨place, rfl⟩⟩
    · obtain ⟨e, hread⟩ := ofToml_of_unbounded hw
        (allDistinct_of_right (h.right_of_removed k)) hbounded
      refine ⟨e, hread, fun hroot => absurd ?_ hbounded⟩
      exact fun a ha => hroot a (List.mem_of_mem_filter ha)
  · intro k hk hscalar front back content hroot hcontent text hw
    subst hroot
    by_cases hbounded : Grammar.Bounded (front ++ (k, content) :: back)
    · obtain ⟨place, hread⟩ :=
        h.ofToml_of_repeated hk hscalar hcontent hw hbounded
      exact ⟨_, hread, fun _ => ⟨place, rfl⟩⟩
    · obtain ⟨e, hread⟩ :=
        ofToml_of_unbounded hw (h.allDistinct_of_repeated hcontent k) hbounded
      exact ⟨e, hread, fun hroot => absurd hroot hbounded⟩

-- ============================================================= one layout

/-- An assignment with the text of its value. -/
abbrev ContentLine := (String × Grammar.Content) × List Char

/-- The key needs no quotes, and the text is one of the value. -/
structure ContentLine.Fits (l : ContentLine) : Prop where
  key : Bare l.1.1
  value : Grammar.ContentText l.1.2 l.2

/-- Assignments on lines of their own. -/
def layout (ls : List ContentLine) : List Char :=
  ls.flatMap fun l => l.1.1.toList ++ ' ' :: '=' :: ' ' :: l.2 ++ ['\n']

theorem document_of_layout {ls : List ContentLine} (hls : ∀ l ∈ ls, l.Fits)
    {es : List Grammar.Expression} {w : List Char}
    (hw : Grammar.Document es w) :
    Grammar.Document (Grammar.assigned (ls.map Prod.fst) ++ es)
      (layout ls ++ w) := by
  induction ls with
  | nil => exact hw
  | cons l ls ih =>
      obtain ⟨hl, hls⟩ := List.forall_mem_cons.mp hls
      have hblank : Grammar.Blanks [' '] := by
        simp [Grammar.Blanks, Grammar.Blank]
      have hnone : Grammar.Blanks [] := by simp [Grammar.Blanks]
      have hkeyed := Grammar.Keyed.intro (v := l.2) (.of_bare hl.key) hblank hblank
      have hline := Grammar.LineText.expression hnone
        (.assignment hl.value hkeyed) hnone .none
      have hall := Grammar.Document.more hline .feed (ih hls)
      simpa [layout, Grammar.assigned] using hall

/-- A key with an empty string. -/
def emptyLine (name : String) : ContentLine :=
  ((name, .scalar (.string "")), ['\'', '\''])

theorem fits_emptyLine {name : String} (h : Bare name) :
    (emptyLine name).Fits :=
  ⟨h, .scalar (.string (.literal (s := []) (by simp)))⟩

/-- A configuration with one identity. -/
def sample : Config where
  workdir := ""
  password := ""
  skipExisting := true
  orgUnit := ""
  organization := ""
  locality := ""
  state := ""
  country := ""
  identities := [⟨"", ""⟩]

/-- Its scalars in reverse, behind a key that is none of its own. -/
def sampleLines : List ContentLine :=
  [(("port", .scalar (.integer 1)), ['1']), emptyLine "country",
    emptyLine "state", emptyLine "locality", emptyLine "organization",
    emptyLine "org_unit",
    (("skip_existing", .scalar (.boolean true)), ['t', 'r', 'u', 'e']),
    emptyLine "password", emptyLine "workdir"]

/-- Its identity, with the path first. -/
def sampleItems : List Grammar.Pairs :=
  [[("output_path", ""), ("common_name", "")]]

/-- Lines in front of its identity. -/
def sampleText (ls : List ContentLine) : String :=
  String.ofList (layout ls
    ++ "[[identities]]\noutput_path = ''\ncommon_name = ''\n".toList)

theorem written_sampleText {ls : List ContentLine} (hls : ∀ l ∈ ls, l.Fits) :
    Written (ls.map Prod.fst) sampleItems (sampleText ls) := by
  have hnone : Grammar.Blanks [] := by simp [Grammar.Blanks]
  have hkey : Bare "identities" := .of_all rfl
  have hheader := Grammar.LineText.expression hnone
    (.header hnone (.of_bare hkey) hnone) hnone .none
  have hpairs : ∀ l ∈ [emptyLine "output_path", emptyLine "common_name"],
      l.Fits := by
    simp only [List.forall_mem_cons]
    exact ⟨fits_emptyLine (.of_all rfl), fits_emptyLine (.of_all rfl), by simp⟩
  have hend : Grammar.Document [] [] := .last (.empty hnone .none)
  have hsection := Grammar.Document.more hheader .feed
    (document_of_layout hpairs hend)
  apply Grammar.Text.plain
  rw [sampleText, String.toList_ofList]
  exact document_of_layout hls hsection

theorem fits_sampleLines : ∀ l ∈ sampleLines, l.Fits := by
  have hdigits : Grammar.Digits 10 [1] ['1'] := .one ⟨by decide, Or.inl rfl⟩
  have hinteger : Grammar.IntegerText 1 ['1'] :=
    .decimal .none (.digits hdigits (by decide)) (by decide) (by decide)
  have hempty {name : String} (h : (!name.toList.isEmpty
      && name.toList.all isBare) = true) : (emptyLine name).Fits :=
    fits_emptyLine (.of_all h)
  simp only [sampleLines, List.forall_mem_cons]
  exact ⟨⟨.of_all rfl, .scalar (.integer hinteger)⟩, hempty rfl, hempty rfl,
    hempty rfl, hempty rfl, hempty rfl, ⟨.of_all rfl, .scalar (.boolean true)⟩,
    hempty rfl, hempty rfl, by simp⟩

/-- The sample in sections, with other scalars and all in reverse. -/
theorem handwritten_sample {ls : List ContentLine}
    {extras : List (String × Grammar.Value)} (hextras : Extra extras)
    (hls : ls.map Prod.fst = (plain (sample.scalars ++ extras)).reverse) :
    Handwritten sample (ls.map Prod.fst) sampleItems := by
  refine .sections hextras (.cons .pathFirst .nil) (by simp [sampleItems]) ?_
  rw [hls]
  exact List.reverse_perm _

/-- A text in sections that is read; the same without a line, and with one more
in front. -/
theorem ofToml_handwritten_sample :
    ofToml (sampleText sampleLines) = .ok sample
    ∧ (∃ place,
        ofToml (sampleText (sampleLines.filter fun l => l.1.1 ≠ "state"))
          = .error (.misfit place (.missing "state")))
    ∧ (∃ place, ofToml (sampleText (emptyLine "workdir" :: sampleLines))
          = .error (.misfit place (.repeatedKey "workdir" (some [])))) := by
  have hextras : Extra [("port", .integer 1)] := ⟨by decide, by decide⟩
  have hsample : Handwritten sample (sampleLines.map Prod.fst) sampleItems :=
    handwritten_sample hextras rfl
  have hbounded : Grammar.Bounded (sampleLines.map Prod.fst) := by
    simp [Grammar.Bounded, sampleLines, emptyLine, Grammar.Content.TooLarge,
      Grammar.Value.TooLarge]
  obtain ⟨hread, hmissing, hrepeated⟩ := ofToml_handwritten hsample
  refine ⟨?_, ?_, ?_⟩
  · exact (hread _ (written_sampleText fits_sampleLines)).1 hbounded
  · have hkept : ∀ l ∈ sampleLines.filter (fun l => l.1.1 ≠ "state"), l.Fits :=
      fun l hl => fits_sampleLines l (List.mem_of_mem_filter hl)
    have hw := written_sampleText hkept
    obtain ⟨e, hread, hplace⟩ := hmissing "state" (by decide) _
      (by rwa [List.filter_map, if_neg (by decide)])
    obtain ⟨place, rfl⟩ := hplace hbounded
    exact ⟨place, hread⟩
  · have hmore : ∀ l ∈ emptyLine "workdir" :: sampleLines, l.Fits :=
      List.forall_mem_cons.mpr ⟨fits_emptyLine (.of_all rfl), fits_sampleLines⟩
    obtain ⟨e, hread, hplace⟩ := hrepeated "workdir" (by decide) (by decide) []
      _ (.scalar (.string "")) rfl trivial _ (written_sampleText hmore)
    obtain ⟨place, rfl⟩ := hplace (List.forall_mem_cons.mpr ⟨id, hbounded⟩)
    exact ⟨place, hread⟩

/-- A key with a number that is too large. -/
def largeLine : ContentLine :=
  (("x", .scalar (.floating (.decimal false 1 999))), ['1', 'e', '9', '9', '9'])

theorem fits_largeLine : largeLine.Fits := by
  have hone : Grammar.Digits 10 [1] ['1'] := .one ⟨by decide, Or.inl rfl⟩
  have hnine : Grammar.Digit 10 9 '9' := ⟨by decide, Or.inl rfl⟩
  have hpower : Grammar.Exponent 999 ['e', '9', '9', '9'] :=
    .some (Or.inl rfl) .none (.more hnine (.more hnine (.one hnine)))
  have hnumber : Grammar.FloatText (.decimal false 1 999)
      ['1', 'e', '9', '9', '9'] :=
    .decimal .none (.digits hone (by decide)) .none hpower (by simp)
  exact ⟨.of_all rfl, .scalar (.floating hnumber)⟩

/-- Not every hand-written text is read: with such a key in front, which the
format allows, the sample is refused at its first line. -/
theorem handwritten_refused :
    Handwritten sample ((largeLine :: sampleLines).map Prod.fst) sampleItems
    ∧ Written ((largeLine :: sampleLines).map Prod.fst) sampleItems
      (sampleText (largeLine :: sampleLines))
    ∧ ofToml (sampleText (largeLine :: sampleLines)) = .error (.malformed 1) := by
  have hextras : Extra [("port", .integer 1),
      ("x", .floating (.decimal false 1 999))] := ⟨by decide, by decide⟩
  refine ⟨?_, ?_, ?_⟩
  · exact handwritten_sample hextras rfl
  · exact written_sampleText
      (List.forall_mem_cons.mpr ⟨fits_largeLine, fits_sampleLines⟩)
  · decide +kernel

end TlsKeystore.Config
