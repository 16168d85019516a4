/-
Storing a bundle on a machine.

# Making directories

A run that looks at nothing but the disk, and changes nothing but the disk
and that by growing, is one that builds (`Builds`). Doing nothing builds,
and so does doing one such thing after another. Making directories is such
a run (`createWithin_builds`, by induction on the directories that may be
missing), whether it comes to its end or stops half way.

# Storing

`target?` is the place that a bundle takes: where its path leads once the
directories above it are made. If there is one, `Store.write` puts the
bundle there, and if not, all that it leaves are directories. Of the files
that stood before, it can change the one at the target only (`file_write`),
and a tree stays a tree (`tree_write`).
-/
import TlsKeystore.Proofs.Disk
import TlsKeystore.Provision

namespace TlsKeystore

-- =============================================================== machines

namespace Host

variable (h : Host)

theorem run_bind {α β : Type} (x : StateM Host α) (f : α → StateM Host β) :
    (x >>= f).run h = (f (x.run h).1).run (x.run h).2 := rfl

@[simp] theorem run_pathExists (path : String) :
    (MonadHost.pathExists path : StateM Host Bool).run h
      = (h.disk.pathExists path, h) := rfl

@[simp] theorem run_now :
    (MonadHost.now : StateM Host Instant).run h = (h.clock, h) := rfl

@[simp] theorem run_draw {α : Type} (d : Draw α) :
    (MonadHost.draw d : StateM Host α).run h
      = ((d.run h.entropy).1, { h with entropy := (d.run h.entropy).2 }) :=
  rfl

/-- What writing a file does to the machine. -/
theorem run_writeOctets_snd (path : String) (content : Bytes) :
    ((MonadHost.writeOctets path content : StateM Host _).run h).2
      = match h.disk.target? path with
        | some place =>
            { h with disk := h.disk.put place (.file content) }
        | none => h := by
  show (Host.change (·.writeFile path content) h).2 = _
  unfold Host.change
  cases hwritten : h.disk.writeFile path content with
  | ok written =>
      obtain ⟨place, hplace, rfl⟩ := Disk.writeFile_eq_ok_iff.mp hwritten
      simp only [hwritten, hplace]
  | error fault =>
      cases hplace : h.disk.target? path with
      | none => simp only [hwritten]
      | some place =>
          rw [Disk.writeFile_eq_ok_iff.mpr ⟨place, hplace, rfl⟩] at hwritten
          cases hwritten

end Host

-- =============================================================== building

/-- A run that is a function of the disk and lets it grow. -/
def Builds {α : Type} (x : StateM Host α) : Prop :=
  ∃ f : Disk → α × Disk, ∀ h : Host,
    x.run h = ((f h.disk).1, { h with disk := (f h.disk).2 })
      ∧ h.disk.Grows (f h.disk).2

namespace Builds

variable {α β : Type}

/-- Only looking at the disk. -/
theorem look (f : Disk → α) : Builds fun h : Host => (f h.disk, h) :=
  ⟨fun d => (f d, d), fun _ => ⟨rfl, Disk.Grows.refl _⟩⟩

theorem pure (a : α) : Builds (pure a : StateM Host α) := look fun _ => a

theorem bind {x : StateM Host α} {f : α → StateM Host β}
    (hx : Builds x) (hf : ∀ a, Builds (f a)) : Builds (x >>= f) := by
  obtain ⟨first, hfirst⟩ := hx
  choose second hsecond using hf
  refine ⟨fun d => second (first d).1 (first d).2, fun h => ?_⟩
  obtain ⟨hrun, hgrows⟩ := hfirst h
  obtain ⟨hrun', hgrows'⟩ :=
    hsecond (first h.disk).1 { h with disk := (first h.disk).2 }
  refine ⟨?_, hgrows.trans hgrows'⟩
  rw [Host.run_bind, hrun]
  exact hrun'

/-- Changing the disk by making it grow. -/
theorem change {f : Disk → Except FileFault Disk}
    (hf : ∀ {d d'}, f d = .ok d' → d.Grows d') : Builds (Host.change f) := by
  refine ⟨fun d => ((f d).map fun _ => (), (f d).toOption.getD d),
    fun h => ?_⟩
  show Host.change f h = _ ∧ _
  unfold Host.change
  cases hchanged : f h.disk with
  | ok grown =>
      simp only [hchanged]
      exact ⟨rfl, hf hchanged⟩
  | error fault =>
      simp only [hchanged]
      exact ⟨rfl, Disk.Grows.refl _⟩

theorem grows {x : StateM Host α} (hx : Builds x) (h : Host) :
    h.disk.Grows (x.run h).2.disk := by
  obtain ⟨f, hf⟩ := hx
  rw [(hf h).1]
  exact (hf h).2

/-- Nothing is printed while building. -/
theorem printed {x : StateM Host α} (hx : Builds x) (h : Host) :
    (x.run h).2.printed = h.printed := by
  obtain ⟨f, hf⟩ := hx
  rw [(hf h).1]

/-- What else there is on a machine has no part in a run that builds. -/
theorem congr {x : StateM Host α} (hx : Builds x) {h g : Host}
    (hdisk : h.disk = g.disk) :
    (x.run h).1 = (x.run g).1 ∧ (x.run h).2.disk = (x.run g).2.disk := by
  obtain ⟨f, hf⟩ := hx
  rw [(hf h).1, (hf g).1, hdisk]
  exact ⟨rfl, rfl⟩

end Builds

namespace Store

-- ============================================================ directories

theorem createDirectory_builds (path : String) :
    Builds (MonadHost.createDirectory path : StateM Host _) :=
  Builds.change Disk.createDirectory_grows

theorem settled_builds (path : String) (made : Except FileFault Unit) :
    Builds (settled path made : StateM Host _) := by
  cases made with
  | ok => exact Builds.pure _
  | error fault =>
      have hlook : Builds (MonadHost.isDirectory path : StateM Host Bool) :=
        Builds.look fun d => d.isDirectory path
      exact hlook.bind fun _ => Builds.pure _

theorem createWithin_builds (steps : Nat) (path : String) :
    Builds (createWithin steps path : StateM Host _) := by
  induction steps generalizing path with
  | zero => exact Builds.pure _
  | succ steps ih =>
      rw [createWithin]
      split
      · exact Builds.pure _
      · refine (createDirectory_builds path).bind fun made => ?_
        split
        · next above _ =>
            refine (ih above).bind fun made => ?_
            cases made with
            | error fault => exact Builds.pure _
            | ok =>
                exact (createDirectory_builds path).bind fun made =>
                  settled_builds path made
        · exact settled_builds path _

theorem ensureParent_builds (path : String) :
    Builds (ensureParent path : StateM Host _) := by
  unfold ensureParent
  split
  · exact (createWithin_builds _ _).bind fun _ => Builds.pure _
  · exact Builds.pure _

-- ================================================================ bundles

/-- The place that a bundle takes when it is stored, if it can be. -/
def target? (path : String) (h : Host) : Option Place :=
  match (ensureParent path : StateM Host _).run h with
  | (.ok (), built) => built.disk.target? path
  | (.error _, _) => none

/-- The target is where the path leads once its directories are made. -/
theorem target?_of_target? {path : String} {h : Host} {place : Place}
    (htarget : target? path h = some place) :
    ((ensureParent path : StateM Host _).run h).2.disk.target? path
      = some place := by
  unfold target? at htarget
  split at htarget
  · next hrun =>
      rw [hrun]
      exact htarget
  · cases htarget

/-- The target is a matter of the disk alone. -/
theorem target?_congr (path : String) {h g : Host} (hdisk : h.disk = g.disk) :
    target? path h = target? path g := by
  have hcongr := (ensureParent_builds path).congr hdisk
  unfold target?
  generalize (ensureParent path : StateM Host _).run h = r at hcongr
  generalize (ensureParent path : StateM Host _).run g = s at hcongr
  obtain ⟨made, built⟩ := r
  obtain ⟨made', built'⟩ := s
  obtain ⟨rfl, hbuilt⟩ := hcongr
  cases made with
  | error why => rfl
  | ok => exact congrArg (·.target? path) hbuilt

/-- What storing a bundle does to the machine: directories get made, and
then the bundle is put at the target if there is one. -/
theorem run_write_snd (path : String) (der : Bytes) (h : Host) :
    ((write path der : StateM Host _).run h).2
      = let built := ((ensureParent path : StateM Host _).run h).2
        match target? path h with
        | some place =>
            { built with disk := built.disk.put place (.file der) }
        | none => built := by
  unfold write target?
  rw [Host.run_bind]
  generalize (ensureParent path : StateM Host _).run h = r
  obtain ⟨made, built⟩ := r
  cases made with
  | error why => rfl
  | ok => exact Host.run_writeOctets_snd built path der

/-- Nothing is printed when a bundle is stored. -/
theorem printed_write (path : String) (der : Bytes) (h : Host) :
    ((write path der : StateM Host _).run h).2.printed = h.printed := by
  have hbuilt := (ensureParent_builds path).printed h
  rw [run_write_snd]
  cases target? path h <;> exact hbuilt

/-- Of the files that stand when a bundle is stored, the one at the target
is replaced and all others stay as they are. -/
theorem file_write (path : String) (der : Bytes) {h : Host} {place : Place}
    {old : Bytes} (hfile : h.disk.node? place = some (.file old)) :
    ((write path der : StateM Host _).run h).2.disk.node? place
      = some (.file (if target? path h = some place then der else old)) := by
  have hgrows := (ensureParent_builds path).grows h
  rw [run_write_snd]
  cases htarget : target? path h with
  | none => simpa using hgrows.node_of_isSome hfile
  | some other =>
      show (Disk.put _ other (.file der)).node? place = _
      rw [Disk.node?_put _ (Disk.target?_ne_nil (target?_of_target? htarget))]
      by_cases hsame : place = other
      · rw [if_pos hsame, if_pos (by rw [hsame])]
      · rw [if_neg hsame, if_neg (by simpa using Ne.symm hsame)]
        exact hgrows.node_of_isSome hfile

/-- A tree stays one. -/
theorem tree_write (path : String) (der : Bytes) {h : Host}
    (htree : h.disk.Tree) :
    ((write path der : StateM Host _).run h).2.disk.Tree := by
  have hbuilt := ((ensureParent_builds path).grows h).tree htree
  rw [run_write_snd]
  cases htarget : target? path h with
  | none => exact hbuilt
  | some place => exact hbuilt.put_target? (target?_of_target? htarget) der

end Store
end TlsKeystore
