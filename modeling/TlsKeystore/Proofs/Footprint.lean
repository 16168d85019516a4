/-
What a disk looks like after a bundle was to be stored on it.

The directory that a path stands in has a way of its own, and storing makes
directories along that way only (`above_write`): the path may be empty,
absolute, end with a slash, lead up again, or lead through a file, where
that way breaks off in the middle.

So an attempt to store leaves a small mark (`Footprint`): nothing is gone,
files are as they were but for the one that was asked for, and what
directories are new stand above it. `write_footprint` has both outcomes. One
that succeeds can be read back through its own path, and one that fails
leaves no file other than it found it. There is no third, and which of the
two it is depends on whether the path leads to a place for a file once its
directories are made (`run_write_fst_eq_ok_iff`).
-/
import TlsKeystore.Proofs.Progress

namespace TlsKeystore

-- ============================================================== footprints

namespace Disk

variable {d d' : Disk} {path : String}

/-- A place that the way of the directory comes to in which a path stands. -/
def Above (d : Disk) (path : String) (q : Place) : Prop :=
  ∃ parent, Path.parent? path = some parent
    ∧ d.OnWay (Path.route parent).absolute (Path.route parent).names q

/-- What storing at a path may do to a disk. -/
structure Footprint (path : String) (d d' : Disk) (touched : Place → Prop) :
    Prop where
  /-- Nothing is gone: directories stay directories, and files stay files. -/
  keeps : d.Keeps d'
  /-- Of the files, only those that are touched change or appear. -/
  files : ∀ q, ¬ touched q → ∀ content,
    d'.node? q = some (.file content) ↔ d.node? q = some (.file content)
  /-- New directories stand above the path. -/
  made : ∀ q, d'.node? q = some .directory →
    d.node? q ≠ some .directory → d'.Above path q

theorem Above.of_keeps {q : Place} (h : d.Above path q) (hkeeps : d.Keeps d') :
    d'.Above path q := by
  obtain ⟨parent, hparent, hway⟩ := h
  exact ⟨parent, hparent, hway.of_keeps hkeeps⟩

/-- A disk that grows has the files that it had. -/
theorem Grows.file_iff (h : d.Grows d') {q : Place} {content : Bytes} :
    d'.node? q = some (.file content) ↔ d.node? q = some (.file content) := by
  constructor
  · intro hfile
    rcases h.node q with hsame | ⟨-, hnew⟩
    · exact hsame.symm.trans hfile
    · rw [hfile] at hnew
      cases hnew
  · exact h.node_of_isSome

/-- A file is read back through the path that it was written to. -/
theorem content_put_of_target? {place : Place}
    (htarget : d.target? path = some place) (content : Bytes) :
    (d.put place (.file content)).find path = .ok place
      ∧ (d.put place (.file content)).content path = .ok content := by
  obtain ⟨q, name, -, -, -, -, hfree, hplace⟩ :=
    target?_eq_some_iff.mp htarget
  have hne := target?_ne_nil htarget
  have hnode : (d.put place (.file content)).node? place
      = some (.file content) := by
    rw [node?_put d hne, if_pos rfl]
  have hfind : (d.put place (.file content)).find path = .ok place := by
    apply find_of_target? htarget (Option.isSome_of_eq_some hnode)
    exact keeps_put hne (hplace ▸ hfree) content
  refine ⟨hfind, ?_⟩
  unfold Disk.content
  rw [get?_eq_ok_iff.mpr ⟨place, hfind, hnode⟩]

end Disk

namespace Store

-- ================================================================= storing

/-- The directories for a path are made along the way of the one that the
path stands in. -/
theorem above_ensureParent (path : String) {h : Host} {q : Place}
    (hq : ((ensureParent path : StateM Host _).run h).2.disk.node? q
      = some .directory)
    (hnot : h.disk.node? q ≠ some .directory) :
    ((ensureParent path : StateM Host _).run h).2.disk.Above path q := by
  unfold ensureParent at hq ⊢
  cases hparent : Path.parent? path with
  | none =>
      rw [hparent] at hq
      exact absurd hq hnot
  | some parent =>
      rw [hparent] at hq
      obtain ⟨-, hpaved⟩ := createWithin_paves (parent.length + 1) parent h
      exact ⟨parent, hparent, hpaved q hq hnot⟩

/-- Storing makes directories above its path only. -/
theorem above_write (path : String) (der : Bytes) {h : Host} {q : Place}
    (hq : ((write path der : StateM Host _).run h).2.disk.node? q
      = some .directory)
    (hnot : h.disk.node? q ≠ some .directory) :
    ((write path der : StateM Host _).run h).2.disk.Above path q := by
  obtain ⟨hbuilt, hkeeps⟩ := directory_of_write path der hq
  exact (above_ensureParent path hbuilt hnot).of_keeps hkeeps

/-- A bundle is stored if its path leads to a place for it. -/
theorem run_write_fst_eq_ok_iff (path : String) (der : Bytes) (h : Host) :
    ((write path der : StateM Host _).run h).1 = .ok ()
      ↔ (target? path h).isSome := by
  constructor
  · intro hok
    unfold target?
    unfold write at hok
    rw [Host.run_bind] at hok
    generalize (ensureParent path : StateM Host _).run h = r at hok ⊢
    obtain ⟨made, built⟩ := r
    cases made with
    | error why => cases hok
    | ok =>
        by_contra hnone
        have hfails : ∀ disk, built.disk.writeFile path der ≠ .ok disk := by
          intro disk hwritten
          obtain ⟨place, htarget, -⟩ := Disk.writeFile_eq_ok_iff.mp hwritten
          exact hnone (Option.isSome_of_eq_some htarget)
        change ((Host.change (·.writeFile path der) built).1.mapError
          (FileError.mk .createFile path)).mapError StoreFailure.file
            = .ok () at hok
        unfold Host.change at hok
        dsimp only at hok
        cases hwritten : built.disk.writeFile path der with
        | ok disk => exact hfails disk hwritten
        | error fault =>
            rw [hwritten] at hok
            cases hok
  · intro htarget
    obtain ⟨place, hplace⟩ := Option.isSome_iff_exists.mp htarget
    rw [run_write_of_target? hplace]

/-- What storing a bundle comes to, on every disk and for every path. If it
succeeds, the bundle is read back through the path, and the file that the
path leads to is the only one that has changed or appeared. If it fails, no
file has changed or appeared. Either way nothing is gone, and new directories
stand above the path. It succeeds where the path leads to a place for a file
once its directories are made. -/
theorem write_footprint (path : String) (der : Bytes) (h : Host) :
    (match (write path der : StateM Host _).run h with
      | (.ok (), after) =>
          after.disk.content path = .ok der
          ∧ Disk.Footprint path h.disk after.disk
            (after.disk.find path = .ok ·)
      | (.error _, after) =>
          Disk.Footprint path h.disk after.disk fun _ => False)
    ∧ (((write path der : StateM Host _).run h).1 = .ok ()
      ↔ (target? path h).isSome) := by
  refine ⟨?_, run_write_fst_eq_ok_iff path der h⟩
  have hkeeps := keeps_write path der h
  have hmade := fun q => above_write path der (h := h) (q := q)
  generalize hrun : (write path der : StateM Host _).run h = r at hkeeps hmade
  obtain ⟨stored, after⟩ := r
  cases stored with
  | error why =>
      have hgrows := grows_of_write_error hrun
      exact ⟨hkeeps, fun q _ content => hgrows.file_iff, hmade⟩
  | ok =>
      obtain ⟨built, place, hgrows, htarget, hdisk⟩ := write_eq_ok hrun
      obtain ⟨hfind, hcontent⟩ := Disk.content_put_of_target? htarget der
      rw [← hdisk] at hfind hcontent
      refine ⟨hcontent, hkeeps, fun q hq content => ?_, hmade⟩
      -- the path leads to its place alone, so all other places are untouched
      have hother : q ≠ place := by
        intro hsame
        rw [hsame] at hq
        exact hq hfind
      rw [hdisk, Disk.node?_put built (Disk.target?_ne_nil htarget),
        if_neg hother]
      exact hgrows.file_iff

end Store
end TlsKeystore
