/-
Where paths lead while a disk is written to.

Nothing that a run does takes anything away: directories stay directories,
and what is taken stays taken (`Keeps`). A path that has led somewhere
leads there ever after, since each of its names was looked up in a
directory and found (`Keeps.find`, by induction on the names). And after
a file has been written, its path leads to it (`find_of_target?`).

The other way round, a path without `..` goes through directories that its
place stands in, which are all there if something stands at the place. So on
a tree, a path that leads to what was there from the first has led there
from the first (`Tree.find_of_find`), and if it led to nothing, its place
was free (`Tree.free_of_pathExists`).
-/
import TlsKeystore.Proofs.Disk

namespace TlsKeystore.Disk

variable {d d' : Disk} {path : String} {p q : Place}

-- ================================================================ keeping

/-- A disk on which nothing is gone, though files may have other contents. -/
structure Keeps (d d' : Disk) : Prop where
  here : d'.here = d.here
  directory : ∀ {p}, d.node? p = some .directory →
    d'.node? p = some .directory
  file : ∀ {p content}, d.node? p = some (.file content) →
    ∃ content', d'.node? p = some (.file content')

namespace Keeps

theorem refl (d : Disk) : d.Keeps d := ⟨rfl, id, fun h => ⟨_, h⟩⟩

theorem trans {d'' : Disk} (h : d.Keeps d') (h' : d'.Keeps d'') :
    d.Keeps d'' := by
  refine ⟨h'.here.trans h.here, h'.directory ∘ h.directory, fun hp => ?_⟩
  obtain ⟨content, hfile⟩ := h.file hp
  exact h'.file hfile

theorem taken (h : d.Keeps d') (hp : (d.node? p).isSome) :
    (d'.node? p).isSome := by
  obtain ⟨n, hn⟩ := Option.isSome_iff_exists.mp hp
  cases n with
  | directory => exact Option.isSome_of_eq_some (h.directory hn)
  | file content =>
      obtain ⟨content', hfile⟩ := h.file hn
      exact Option.isSome_of_eq_some hfile

theorem step (h : d.Keeps d') {name : String} (hstep : d.step p name = .ok q) :
    d'.step p name = .ok q := by
  unfold Disk.step at hstep ⊢
  split_ifs at hstep ⊢ with hdot hdots hlong hfree
  · exact hstep
  · exact hstep
  · exact hstep
  · next htaken => exact hfree (h.taken htaken)

theorem enter (h : d.Keeps d') {name : String}
    (henter : d.enter p name = .ok q) : d'.enter p name = .ok q := by
  obtain ⟨hstep, hq⟩ := enter_eq_ok_iff.mp henter
  exact enter_eq_ok_iff.mpr ⟨h.step hstep, h.directory hq⟩

theorem start (h : d.Keeps d') (r : Path.Route) : d'.start r = d.start r := by
  rw [Disk.start, Disk.start, h.here]

theorem walk (h : d.Keeps d') {names : List String}
    (hwalk : d.walk p names = .ok q) : d'.walk p names = .ok q := by
  induction names generalizing p with
  | nil => exact hwalk
  | cons name rest ih =>
      obtain ⟨r, henter, hrest⟩ := walk_cons_eq_ok_iff.mp hwalk
      exact walk_cons_eq_ok_iff.mpr ⟨r, h.enter henter, ih hrest⟩

theorem base (h : d.Keeps d') (hbase : d.base path = .ok p) :
    d'.base path = .ok p := by
  obtain ⟨husable, hwalk⟩ := base_eq_ok_iff.mp hbase
  refine base_eq_ok_iff.mpr ⟨husable, ?_⟩
  rw [h.start]
  exact h.walk hwalk

/-- What is a directory now and was there before, was one before. -/
theorem directory_of_isSome (h : d.Keeps d') (hp : (d.node? p).isSome)
    (hdir : d'.node? p = some .directory) : d.node? p = some .directory := by
  obtain ⟨n, hn⟩ := Option.isSome_iff_exists.mp hp
  cases n with
  | directory => exact hn
  | file content =>
      obtain ⟨content', hfile⟩ := h.file hn
      rw [hdir] at hfile
      cases hfile

end Keeps

theorem Grows.keeps (h : d.Grows d') : d.Keeps d' :=
  ⟨h.here, h.node_of_isSome, fun hp => ⟨_, h.node_of_isSome hp⟩⟩

/-- A file in place of what is not a directory. -/
theorem keeps_put (hp : p ≠ []) (hnode : d.node? p ≠ some .directory)
    (content : Bytes) : d.Keeps (d.put p (.file content)) := by
  refine ⟨rfl, fun {q} hq => ?_, fun {q old} hq => ?_⟩
  · rw [node?_put d hp, if_neg]
    · exact hq
    · rintro rfl
      exact hnode hq
  · rw [node?_put d hp]
    split
    · exact ⟨content, rfl⟩
    · exact ⟨old, hq⟩

-- ================================================================ finding

/-- Where the last name of a path leads from the directory that it is looked
up in, and that directory where a path has no name. -/
def last (d : Disk) (r : Path.Route) (p : Place) : Except FileFault Place :=
  match r.names.getLast? with
  | none => .ok p
  | some name => if r.closed then d.enter p name else d.step p name

theorem find_eq_ok_iff : d.find path = .ok q
    ↔ ∃ p, d.base path = .ok p ∧ d.last (Path.route path) p = .ok q := by
  show d.base path >>= d.last (Path.route path) = .ok q ↔ _
  rw [bind_eq_ok_iff]

/-- A path goes on leading where it has led. -/
theorem Keeps.find (h : d.Keeps d') (hfind : d.find path = .ok q) :
    d'.find path = .ok q := by
  obtain ⟨p, hbase, hlast⟩ := find_eq_ok_iff.mp hfind
  refine find_eq_ok_iff.mpr ⟨p, h.base hbase, ?_⟩
  unfold last at hlast ⊢
  split at hlast
  · exact hlast
  · split at hlast
    · next hclosed =>
        rw [if_pos hclosed]
        exact h.enter hlast
    · next hopen =>
        rw [if_neg hopen]
        exact h.step hlast

/-- A new name leads to what stands under it. -/
theorem step_of_newName? {r : Path.Route} {name : String}
    (hname : newName? r = some name) (hlong : name.utf8ByteSize ≤ maxName)
    (hnode : (d.node? (name :: q)).isSome) :
    d.step q name = .ok (name :: q) := by
  obtain ⟨-, hnew⟩ := Option.filter_eq_some_iff.mp hname
  have hnot : name ≠ "." ∧ name ≠ ".." := by simpa using hnew
  unfold step
  rw [if_neg (by simpa using hnot.1), if_neg (by simpa using hnot.2),
    if_neg (Nat.not_lt.mpr hlong), if_pos hnode]

/-- A path to a file that could be written leads to what stands there. -/
theorem find_of_target? (htarget : d.target? path = some p)
    (hnode : (d'.node? p).isSome) (h : d.Keeps d') :
    d'.find path = .ok p := by
  obtain ⟨q, name, hbase, hname, hclosed, hlong, -, rfl⟩ :=
    target?_eq_some_iff.mp htarget
  refine find_eq_ok_iff.mpr ⟨q, h.base hbase, ?_⟩
  rw [last, (Option.filter_eq_some_iff.mp hname).1, hclosed]
  exact step_of_newName? hname hlong hnode

/-- What a path leads to, by the place that it leads to. -/
theorem get?_eq_ok_iff {n : Node} : d.get? path = .ok n
    ↔ ∃ p, d.find path = .ok p ∧ d.node? p = some n := by
  rw [get?, bind_eq_ok_iff]
  refine exists_congr fun p => and_congr_right fun _ => ?_
  cases d.node? p with
  | none => simp [throw_ne_ok]
  | some old => simp [pure_eq_ok_iff]

theorem pathExists_iff : d.pathExists path = true
    ↔ ∃ p, d.find path = .ok p ∧ (d.node? p).isSome := by
  rw [pathExists, isSome_toOption_iff]
  simp only [get?_eq_ok_iff, Option.isSome_iff_exists]
  rw [exists_comm]
  simp only [exists_and_left]

-- ============================================================== ways down

/-- A name leads to the same place on all disks where something is there. -/
theorem step_of_isSome {name : String} (h : d'.step p name = .ok q)
    (hq : (d.node? q).isSome) : d.step p name = .ok q := by
  unfold step at h ⊢
  split_ifs at h ⊢ with hdot hdots hlong hfree
  · exact h
  · exact h
  · exact h
  · cases h
    exact absurd hq hfree

/-- A name that does not lead up leads down or stays. -/
theorem eq_or_eq_cons_of_step {name : String} (hup : name ≠ "..")
    (h : d.step p name = .ok q) : q = p ∨ q = name :: p := by
  unfold step at h
  split_ifs at h with hdot hdots hlong hfree
  · exact Or.inl (Except.ok.inj h).symm
  · exact absurd (beq_iff_eq.mp hdots) hup
  · exact Or.inr (Except.ok.inj h).symm

theorem suffix_of_walk {names : List String} (hup : ".." ∉ names)
    (h : d.walk p names = .ok q) : p <:+ q := by
  induction names generalizing p with
  | nil =>
      cases h
      exact List.suffix_refl _
  | cons name rest ih =>
      obtain ⟨r, henter, hrest⟩ := walk_cons_eq_ok_iff.mp h
      have hbelow := ih (List.not_mem_of_not_mem_cons hup) hrest
      rcases eq_or_eq_cons_of_step (List.ne_of_not_mem_cons hup).symm
        (enter_eq_ok_iff.mp henter).1 with rfl | rfl
      · exact hbelow
      · exact (List.suffix_cons name p).trans hbelow

/-- A way down to a directory goes through directories, so it can be gone on
each tree that has this directory. -/
theorem Tree.walk_of_walk (hd : d.Tree) {names : List String}
    (hup : ".." ∉ names) (h : d'.walk p names = .ok q)
    (hq : d.node? q = some .directory) : d.walk p names = .ok q := by
  induction names generalizing p with
  | nil => exact h
  | cons name rest ih =>
      obtain ⟨r, henter, hrest⟩ := walk_cons_eq_ok_iff.mp h
      have hrestup := List.not_mem_of_not_mem_cons hup
      have hr := hd.of_suffix hq (suffix_of_walk hrestup hrest)
      have hstep := step_of_isSome (enter_eq_ok_iff.mp henter).1
        (Option.isSome_of_eq_some hr)
      exact walk_cons_eq_ok_iff.mpr
        ⟨r, enter_eq_ok_iff.mpr ⟨hstep, hr⟩, ih hrestup hrest⟩

/-- The last name of a path, unless it leads up, leads to what was there
before from a directory that was there before. -/
theorem Tree.last_of_last (hd : d.Tree) (h : d.Keeps d') {r : Path.Route}
    (hup : ".." ∉ r.names) (hdir : d'.node? q = some .directory)
    (hlast : d'.last r q = .ok p) (hp : (d.node? p).isSome) :
    d.node? q = some .directory ∧ d.last r q = .ok p := by
  have hstepped {name : String} (hname : name ≠ "..")
      (hstep : d'.step q name = .ok p) :
      d.node? q = some .directory ∧ d.step q name = .ok p := by
    refine ⟨?_, step_of_isSome hstep hp⟩
    rcases eq_or_eq_cons_of_step hname hstep with rfl | rfl
    · exact h.directory_of_isSome hp hdir
    · obtain ⟨n, hn⟩ := Option.isSome_iff_exists.mp hp
      exact hd.above hn
  unfold last at hlast ⊢
  split at hlast
  · cases hlast
    exact ⟨h.directory_of_isSome hp hdir, rfl⟩
  · next name hname =>
      have hne : name ≠ ".." := fun heq =>
        hup (heq ▸ List.mem_of_getLast? hname)
      split at hlast
      · next hclosed =>
          obtain ⟨hstep, hdir'⟩ := enter_eq_ok_iff.mp hlast
          obtain ⟨hq, hstep⟩ := hstepped hne hstep
          rw [if_pos hclosed]
          exact ⟨hq, enter_eq_ok_iff.mpr
            ⟨hstep, h.directory_of_isSome hp hdir'⟩⟩
      · next hopen =>
          rw [if_neg hopen]
          exact hstepped hne hlast

/-- Where a path without `..` leads to what was there before, it led there
before. -/
theorem Tree.find_of_find (hd : d.Tree) (h : d.Keeps d')
    (hup : ".." ∉ (Path.route path).names) (hfind : d'.find path = .ok p)
    (hp : (d.node? p).isSome) : d.find path = .ok p := by
  obtain ⟨q, hbase, hlast⟩ := find_eq_ok_iff.mp hfind
  obtain ⟨husable, hwalk⟩ := base_eq_ok_iff.mp hbase
  rw [h.start] at hwalk
  have hdir := directory_of_walk (h.directory (hd.directory_start _)) hwalk
  obtain ⟨hq, hlast⟩ := hd.last_of_last h hup hdir hlast hp
  have hdown := hd.walk_of_walk (fun h => hup (List.mem_of_mem_dropLast h))
    hwalk hq
  exact find_eq_ok_iff.mpr ⟨q, base_eq_ok_iff.mpr ⟨husable, hdown⟩, hlast⟩

/-- The place that a path without `..` leads to was free if the path led to
nothing. -/
theorem Tree.free_of_pathExists (hd : d.Tree) (h : d.Keeps d')
    (hup : ".." ∉ (Path.route path).names) (hfind : d'.find path = .ok p)
    (hseen : d.pathExists path = false) : d.node? p = none := by
  by_contra htaken
  have hp := Option.isSome_iff_ne_none.mpr htaken
  have hseen' := pathExists_iff.mpr ⟨p, hd.find_of_find h hup hfind hp, hp⟩
  exact Bool.false_ne_true (hseen.symm.trans hseen')

/-- Where a file written to a path without `..` would take the place of
something, the path led to that before. -/
theorem Tree.pathExists_of_target? (hd : d.Tree) (hgrows : d.Grows d')
    (hup : ".." ∉ (Path.route path).names)
    (htarget : d'.target? path = some p) {n : Node}
    (hnode : d.node? p = some n) : d.pathExists path = true := by
  have hp := Option.isSome_of_eq_some hnode
  have hfind := find_of_target? htarget (hgrows.keeps.taken hp)
    (Keeps.refl d')
  exact pathExists_iff.mpr
    ⟨p, hd.find_of_find hgrows.keeps hup hfind hp, hp⟩

end TlsKeystore.Disk
