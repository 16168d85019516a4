/-
What changes on a disk, and what does not.

# Places

`node?_put` is what there is to know about a change: one place says
something else, all others say what they said.

A disk is a tree when everything on it stands in a directory, and relative
paths begin in one (`Tree`). Making directories and writing files keep it
one, because names are only looked up in directories
(`Tree.directory_of_base`).

# Growing

A disk has grown into another when every place that was taken is as it was
and every place that is newly taken is a directory (`Grows`). Making
directories does that and no more, whether it comes to its end or not. A
disk that grows keeps all its files, but paths may lead further on it than
before.

# Files

`target?` is the place that a file written to a path takes. Writing
changes this place alone (`writeFile_eq_ok_iff`).
-/
import Mathlib
import TlsKeystore.Disk
import TlsKeystore.Proofs.Results

namespace TlsKeystore.Disk

-- ================================================================= places

/-- Other entries do not matter to a place. -/
private theorem lookup_without {p q : Place} (hq : q ≠ p)
    (nodes : List (Place × Node)) :
    (nodes.filter (·.1 != p)).lookup q = nodes.lookup q := by
  induction nodes with
  | nil => rfl
  | cons e nodes ih =>
      rw [List.filter_cons, List.lookup_cons]
      by_cases he : e.1 = p
      · have hqe : (q == e.1) = false := by simpa [he] using hq
        rw [if_neg (by simp [he]), ih, hqe]
      · rw [if_pos (by simpa using he), List.lookup_cons, ih]

theorem node?_put (d : Disk) {p : Place} (hp : p ≠ []) (n : Node) (q : Place) :
    (d.put p n).node? q = if q = p then some n else d.node? q := by
  cases q with
  | nil => rw [if_neg hp.symm]; rfl
  | cons name q =>
      show ((p, n) :: d.nodes.filter (·.1 != p)).lookup (name :: q) = _
      rw [List.lookup_cons]
      by_cases hq : name :: q = p
      · rw [if_pos hq, hq, beq_self_eq_true]
      · have hne : (name :: q == p) = false := by simpa using hq
        rw [if_neg hq, hne]
        exact lookup_without hq d.nodes

/-- A disk on which everything stands in a directory. -/
structure Tree (d : Disk) : Prop where
  here : d.node? d.here = some .directory
  above : ∀ {name p n}, d.node? (name :: p) = some n →
    d.node? p = some .directory

namespace Tree

variable {d : Disk}

/-- All that a directory stands in are directories. -/
theorem of_suffix (hd : d.Tree) {p q : Place}
    (hp : d.node? p = some .directory) (hq : q <:+ p) :
    d.node? q = some .directory := by
  induction p with
  | nil =>
      rw [List.suffix_nil.mp hq]
      exact hp
  | cons name p ih =>
      rcases List.suffix_cons_iff.mp hq with rfl | hq
      · exact hp
      · exact ih (hd.above hp) hq

/-- What is put in a directory leaves a tree, unless a file takes the place
of a directory. -/
theorem put (hd : d.Tree) {name : String} {p : Place} {n : Node}
    (hp : d.node? p = some .directory)
    (hn : n = .directory ∨ d.node? (name :: p) ≠ some .directory) :
    (d.put (name :: p) n).Tree := by
  have hput := node?_put d (List.cons_ne_nil name p) n
  -- A directory of the old disk is one of the new disk.
  have hkept : ∀ q, d.node? q = some .directory →
      (d.put (name :: p) n).node? q = some .directory := by
    intro q hq
    rw [hput]
    by_cases hplace : q = name :: p
    · rw [if_pos hplace]
      rcases hn with rfl | hn
      · rfl
      · exact absurd (hplace ▸ hq) hn
    · rw [if_neg hplace]
      exact hq
  refine ⟨hkept _ hd.here, fun {name' p' n'} h => hkept _ ?_⟩
  rw [hput] at h
  by_cases hplace : name' :: p' = name :: p
  · obtain ⟨-, rfl⟩ := List.cons.inj hplace
    exact hp
  · rw [if_neg hplace] at h
    exact hd.above h

end Tree

-- =================================================================== ways

/-- A name enters the directory that it leads to. -/
theorem enter_eq_ok_iff {d : Disk} {p q : Place} {name : String} :
    d.enter p name = .ok q
      ↔ d.step p name = .ok q ∧ d.node? q = some .directory := by
  unfold enter
  simp only [bind_eq_ok_iff, ite_throw_eq_ok_iff, pure_eq_ok_iff]
  constructor
  · rintro ⟨_, hstep, hq, rfl⟩
    exact ⟨hstep, hq⟩
  · rintro ⟨hstep, hq⟩
    exact ⟨q, hstep, hq, rfl⟩

theorem walk_cons_eq_ok_iff {d : Disk} {p q : Place} {name : String}
    {rest : List String} :
    d.walk p (name :: rest) = .ok q
      ↔ ∃ r, d.enter p name = .ok r ∧ d.walk r rest = .ok q := by
  rw [walk, bind_eq_ok_iff]

/-- A way from a directory leads to one. -/
theorem directory_of_walk {d : Disk} {p q : Place} {names : List String}
    (hp : d.node? p = some .directory) (h : d.walk p names = .ok q) :
    d.node? q = some .directory := by
  induction names generalizing p with
  | nil =>
      cases h
      exact hp
  | cons name rest ih =>
      obtain ⟨r, henter, hrest⟩ := walk_cons_eq_ok_iff.mp h
      exact ih (enter_eq_ok_iff.mp henter).2 hrest

/-- Where a path starts from. -/
def start (d : Disk) (r : Path.Route) : Place :=
  if r.absolute then [] else d.here

/-- A path starts from a directory. -/
theorem Tree.directory_start {d : Disk} (hd : d.Tree) (r : Path.Route) :
    d.node? (d.start r) = some .directory := by
  unfold start
  split
  · rfl
  · exact hd.here

/-- The last name of a path is looked up where all names before it lead. -/
theorem base_eq_ok_iff {d : Disk} {path : String} {p : Place} :
    d.base path = .ok p
      ↔ usable path = .ok () ∧ d.walk (d.start (Path.route path))
        (Path.route path).names.dropLast = .ok p :=
  bind_unit_eq_ok_iff

/-- The directory in which the last name of a path is looked up is one. -/
theorem Tree.directory_of_base {d : Disk} (hd : d.Tree) {path : String}
    {p : Place} (h : d.base path = .ok p) :
    d.node? p = some .directory :=
  directory_of_walk (hd.directory_start _) (base_eq_ok_iff.mp h).2

-- ================================================================ growing

/-- A disk with more directories, and nothing else changed. -/
structure Grows (d d' : Disk) : Prop where
  here : d'.here = d.here
  node : ∀ p, d'.node? p = d.node? p
    ∨ d.node? p = none ∧ d'.node? p = some .directory
  tree : d.Tree → d'.Tree

namespace Grows

theorem refl (d : Disk) : d.Grows d := ⟨rfl, fun _ => Or.inl rfl, id⟩

theorem trans {d d' d'' : Disk} (h : d.Grows d') (h' : d'.Grows d'') :
    d.Grows d'' := by
  refine ⟨h'.here.trans h.here, fun p => ?_, h'.tree ∘ h.tree⟩
  rcases h.node p with hsame | ⟨hfree, hnew⟩
  · rcases h'.node p with hsame' | ⟨hfree', hnew'⟩
    · exact Or.inl (hsame'.trans hsame)
    · exact Or.inr ⟨hsame.symm.trans hfree', hnew'⟩
  · rcases h'.node p with hsame' | ⟨hfree', -⟩
    · exact Or.inr ⟨hfree, hsame'.trans hnew⟩
    · rw [hnew] at hfree'
      cases hfree'

/-- What was taken is as it was. -/
theorem node_of_isSome {d d' : Disk} (h : d.Grows d') {p : Place} {n : Node}
    (hp : d.node? p = some n) : d'.node? p = some n := by
  rcases h.node p with hsame | ⟨hfree, -⟩
  · exact hsame.trans hp
  · rw [hp] at hfree
    cases hfree

end Grows

/-- Making a directory takes the place that its path names, where that is
free. -/
theorem createDirectory_eq_ok_iff {d d' : Disk} {path : String} :
    d.createDirectory path = .ok d'
      ↔ ∃ p name, d.base path = .ok p
        ∧ newName? (Path.route path) = some name
        ∧ name.utf8ByteSize ≤ maxName ∧ d.node? (name :: p) = none
        ∧ d.put (name :: p) .directory = d' := by
  unfold createDirectory
  cases d.base path with
  | error fault => simp [bind, Except.bind]
  | ok p =>
      simp only [bind, Except.bind, Except.ok.injEq, exists_and_left,
        exists_eq_left']
      cases newName? (Path.route path) with
      | none => simp [throw_ne_ok]
      | some name =>
          by_cases hlong : maxName < name.utf8ByteSize
          · simp [hlong, Nat.not_le.mpr hlong]
          · by_cases htaken : (d.node? (name :: p)).isSome = true
            · simp [hlong, htaken, Option.isSome_iff_ne_none.mp htaken]
            · simp [hlong, pure_eq_ok_iff, Nat.not_lt.mp hlong,
                Option.not_isSome_iff_eq_none.mp htaken]

/-- Making a directory takes one free place. -/
theorem createDirectory_grows {d d' : Disk} {path : String}
    (h : d.createDirectory path = .ok d') : d.Grows d' := by
  obtain ⟨p, name, hbase, -, -, hfree, rfl⟩ := createDirectory_eq_ok_iff.mp h
  refine ⟨rfl, fun q => ?_, fun hd =>
    hd.put (hd.directory_of_base hbase) (Or.inl rfl)⟩
  rw [node?_put d (List.cons_ne_nil _ _)]
  by_cases hq : q = name :: p
  · rw [if_pos hq, hq]
    exact Or.inr ⟨hfree, rfl⟩
  · rw [if_neg hq]
    exact Or.inl rfl

-- ================================================================== files

/-- The place that a file written to a path takes. -/
def target? (d : Disk) (path : String) : Option Place := do
  let p ← (d.base path).toOption
  let name ← newName? (Path.route path)
  if !(Path.route path).closed ∧ name.utf8ByteSize ≤ maxName
      ∧ d.node? (name :: p) ≠ some .directory then
    some (name :: p)
  else none

theorem target?_eq_some_iff {d : Disk} {path : String} {p : Place} :
    d.target? path = some p
      ↔ ∃ q name, d.base path = .ok q ∧ newName? (Path.route path) = some name
        ∧ (Path.route path).closed = false ∧ name.utf8ByteSize ≤ maxName
        ∧ d.node? (name :: q) ≠ some .directory ∧ name :: q = p := by
  unfold target?
  cases d.base path with
  | error fault => simp [Except.toOption]
  | ok q =>
      simp only [Except.toOption, Option.bind_eq_bind, Option.bind_some,
        Option.bind_eq_some_iff, Option.ite_none_right_eq_some,
        Option.some.injEq, Bool.not_eq_true', Except.ok.injEq]
      constructor
      · rintro ⟨name, hname, ⟨hclosed, hlong, hnode⟩, rfl⟩
        exact ⟨q, name, rfl, hname, hclosed, hlong, hnode, rfl⟩
      · rintro ⟨_, name, rfl, hname, hclosed, hlong, hnode, rfl⟩
        exact ⟨name, hname, ⟨hclosed, hlong, hnode⟩, rfl⟩

/-- Writing puts the content at the target, where there is one. -/
theorem writeFile_eq_ok_iff {d d' : Disk} {path : String} {content : Bytes} :
    d.writeFile path content = .ok d'
      ↔ ∃ p, d.target? path = some p ∧ d.put p (.file content) = d' := by
  unfold writeFile target?
  cases d.base path with
  | error fault => simp [Except.toOption, bind, Except.bind]
  | ok p =>
      simp only [bind, Except.bind, Except.toOption, Option.bind_some]
      cases newName? (Path.route path) with
      | none => simp [throw, throwThe, MonadExceptOf.throw]
      | some name =>
          by_cases hclosed : (Path.route path).closed = true
          · simp [hclosed, throw, throwThe, MonadExceptOf.throw]
          · by_cases hlong : maxName < name.utf8ByteSize
            · simp [hclosed, hlong, throw, throwThe, MonadExceptOf.throw,
                Nat.not_le.mpr hlong]
            · by_cases hnode : d.node? (name :: p) = some .directory
              · simp [hclosed, hlong, hnode, throw, throwThe,
                  MonadExceptOf.throw]
              · simp [hclosed, hlong, hnode, pure, Except.pure,
                  Nat.not_lt.mp hlong]

/-- A target is never the root. -/
theorem target?_ne_nil {d : Disk} {path : String} {p : Place}
    (h : d.target? path = some p) : p ≠ [] := by
  obtain ⟨q, name, -, -, -, -, -, rfl⟩ := target?_eq_some_iff.mp h
  exact List.cons_ne_nil _ _

/-- A file in place of what is not a directory leaves a tree. -/
theorem Tree.put_target? {d : Disk} (hd : d.Tree) {path : String} {p : Place}
    (h : d.target? path = some p) (content : Bytes) :
    (d.put p (.file content)).Tree := by
  obtain ⟨q, name, hbase, -, -, -, hnode, rfl⟩ := target?_eq_some_iff.mp h
  exact hd.put (hd.directory_of_base hbase) (Or.inr hnode)

end TlsKeystore.Disk
