/-
Where directories get made.

A way is gone name by name, and comes to a place after each of them
(`Disk.OnWay`). Making one directory takes the place at the end of its own
way (`createDirectory_paved`). Making it with all that it stands in takes
places on that way only (`createWithin_paves`, by induction on the
directories that may be missing), since what a path stands in lies on the
way of the path. So all that storing a bundle adds to a disk, the file
aside, are directories that its path goes through (`through_write`).
-/
import TlsKeystore.Proofs.Path
import TlsKeystore.Proofs.Store
import TlsKeystore.Proofs.Ways

namespace TlsKeystore

-- =================================================================== ways

namespace Disk

variable {d d' d'' : Disk} {path : String} {absolute : Bool}
  {names : List String} {p q : Place}

theorem walk_append (xs ys : List String) :
    d.walk p (xs ++ ys) = d.walk p xs >>= fun q => d.walk q ys := by
  induction xs generalizing p with
  | nil => rfl
  | cons name xs ih =>
      simp only [List.cons_append, walk, ih, bind_assoc]

/-- A place that a way comes to, at its beginning or after some name. -/
def OnWay (d : Disk) (absolute : Bool) (names : List String) (q : Place) :
    Prop :=
  ∃ part, part <+: names
    ∧ d.walk (if absolute then [] else d.here) part = .ok q

/-- A place that a path comes to before its last name. -/
def Through (d : Disk) (path : String) (q : Place) : Prop :=
  d.OnWay (Path.route path).absolute (Path.route path).names.dropLast q

theorem OnWay.of_keeps (h : d.OnWay absolute names q) (hkeeps : d.Keeps d') :
    d'.OnWay absolute names q := by
  obtain ⟨part, hpart, hwalk⟩ := h
  refine ⟨part, hpart, ?_⟩
  rw [hkeeps.here]
  exact hkeeps.walk hwalk

theorem OnWay.longer {more : List String} (h : d.OnWay absolute names q)
    (hnames : names <+: more) : d.OnWay absolute more q := by
  obtain ⟨part, hpart, hwalk⟩ := h
  exact ⟨part, hpart.trans hnames, hwalk⟩

/-- A disk on which directories are new only along a way. -/
def Paved (d d' : Disk) (absolute : Bool) (names : List String) : Prop :=
  ∀ q, d'.node? q = some .directory → d.node? q ≠ some .directory →
    d'.OnWay absolute names q

theorem Paved.refl (d : Disk) : d.Paved d absolute names :=
  fun _ h hnot => absurd h hnot

theorem Paved.trans (h : d.Paved d' absolute names)
    (h' : d'.Paved d'' absolute names) (hkeeps : d'.Keeps d'') :
    d.Paved d'' absolute names := by
  intro q hq hnot
  by_cases hmiddle : d'.node? q = some .directory
  · exact (h q hmiddle hnot).of_keeps hkeeps
  · exact h' q hq hmiddle

theorem Paved.longer {more : List String} (h : d.Paved d' absolute names)
    (hnames : names <+: more) : d.Paved d' absolute more :=
  fun q hq hnot => (h q hq hnot).longer hnames

/-- A new directory stands at the end of its way. -/
theorem createDirectory_paved (h : d.createDirectory path = .ok d') :
    d.Paved d' (Path.route path).absolute (Path.route path).names := by
  have hkeeps := (createDirectory_grows h).keeps
  obtain ⟨p, name, hbase, hname, hlong, -, rfl⟩ :=
    createDirectory_eq_ok_iff.mp h
  have hput := node?_put d (List.cons_ne_nil name p) .directory
  intro q hq hnot
  have hplace : q = name :: p := by
    by_contra hother
    rw [hput, if_neg hother] at hq
    exact hnot hq
  subst hplace
  refine ⟨_, List.prefix_refl _, ?_⟩
  have hnames : (Path.route path).names
      = (Path.route path).names.dropLast ++ [name] :=
    (List.dropLast_append_getLast?
      name (Option.filter_eq_some_iff.mp hname).1).symm
  have hwalk := hkeeps.walk (base_eq_ok_iff.mp hbase).2
  have hstep := step_of_newName? (q := p) hname hlong
    (Option.isSome_of_eq_some hq)
  rw [hnames, walk_append, bind_eq_ok_iff]
  exact ⟨p, hwalk, walk_cons_eq_ok_iff.mpr
    ⟨_, enter_eq_ok_iff.mpr ⟨hstep, hq⟩, rfl⟩⟩

end Disk

-- ================================================================= paving

/-- A run that lets the disk grow, by directories on a way. -/
def Paves {α : Type} (absolute : Bool) (names : List String)
    (x : StateM Host α) : Prop :=
  ∀ h : Host, h.disk.Grows (x.run h).2.disk
    ∧ h.disk.Paved (x.run h).2.disk absolute names

namespace Paves

variable {α β : Type} {absolute : Bool} {names : List String}

/-- A run that leaves the machine alone. -/
theorem still {x : StateM Host α} (hx : ∀ h, (x.run h).2 = h) :
    Paves absolute names x := by
  intro h
  rw [hx h]
  exact ⟨Disk.Grows.refl _, Disk.Paved.refl _⟩

theorem bind {x : StateM Host α} {f : α → StateM Host β}
    (hx : Paves absolute names x) (hf : ∀ a, Paves absolute names (f a)) :
    Paves absolute names (x >>= f) := by
  intro h
  obtain ⟨hgrows, hpaved⟩ := hx h
  obtain ⟨hgrows', hpaved'⟩ := hf (x.run h).1 (x.run h).2
  exact ⟨hgrows.trans hgrows', hpaved.trans hpaved' hgrows'.keeps⟩

theorem longer {x : StateM Host α} {more : List String}
    (hx : Paves absolute names x) (hnames : names <+: more) :
    Paves absolute more x :=
  fun h => ⟨(hx h).1, (hx h).2.longer hnames⟩

end Paves

namespace Store

theorem createDirectory_paves (path : String) :
    Paves (Path.route path).absolute (Path.route path).names
      (MonadHost.createDirectory path : StateM Host _) := by
  intro h
  refine ⟨(createDirectory_builds path).grows h, ?_⟩
  show h.disk.Paved (Host.change (·.createDirectory path) h).2.disk _ _
  unfold Host.change
  cases hmade : h.disk.createDirectory path with
  | error fault =>
      simp only [hmade]
      exact Disk.Paved.refl _
  | ok disk =>
      simp only [hmade]
      exact Disk.createDirectory_paved hmade

theorem run_settled_snd (path : String) (made : Except FileFault Unit)
    (h : Host) : ((settled path made : StateM Host _).run h).2 = h := by
  cases made <;> rfl

theorem createWithin_paves (steps : Nat) (path : String) :
    Paves (Path.route path).absolute (Path.route path).names
      (createWithin steps path : StateM Host _) := by
  induction steps generalizing path with
  | zero => exact Paves.still fun _ => rfl
  | succ steps ih =>
      rw [createWithin]
      split
      · exact Paves.still fun _ => rfl
      · refine (createDirectory_paves path).bind fun made => ?_
        split
        · next above habove =>
            obtain ⟨habsolute, hnames⟩ := Path.route_of_parent? habove
            have hmade := ih above
            rw [habsolute] at hmade
            refine (hmade.longer
              (hnames.trans (List.dropLast_prefix _))).bind fun made => ?_
            cases made with
            | error fault => exact Paves.still fun _ => rfl
            | ok =>
                exact (createDirectory_paves path).bind fun made =>
                  Paves.still (run_settled_snd path made)
        · exact Paves.still (run_settled_snd path _)

/-- The directories for a path are made where it goes through. -/
theorem ensureParent_paves (path : String) :
    Paves (Path.route path).absolute (Path.route path).names.dropLast
      (ensureParent path : StateM Host _) := by
  unfold ensureParent
  split
  · next parent hparent =>
      obtain ⟨habsolute, hnames⟩ := Path.route_of_parent? hparent
      have hmade := createWithin_paves (parent.length + 1) parent
      rw [habsolute] at hmade
      exact (hmade.longer hnames).bind fun _ => Paves.still fun _ => rfl
  · exact Paves.still fun _ => rfl

/-- Putting a bundle in its place adds no directory to those that were made
for it, and takes nothing away. -/
theorem directory_of_write (path : String) (der : Bytes) {h : Host} {q : Place}
    (hq : ((write path der : StateM Host _).run h).2.disk.node? q
      = some .directory) :
    ((ensureParent path : StateM Host _).run h).2.disk.node? q
        = some .directory
      ∧ ((ensureParent path : StateM Host _).run h).2.disk.Keeps
        ((write path der : StateM Host _).run h).2.disk := by
  rw [run_write_snd] at hq ⊢
  cases htarget : target? path h with
  | none =>
      rw [htarget] at hq
      exact ⟨hq, Disk.Keeps.refl _⟩
  | some place =>
      rw [htarget] at hq
      obtain ⟨p, name, -, -, -, -, hfree, rfl⟩ :=
        Disk.target?_eq_some_iff.mp (target?_of_target? htarget)
      have hput := Disk.node?_put
        ((ensureParent path : StateM Host _).run h).2.disk
        (List.cons_ne_nil name p) (.file der)
      refine ⟨?_, Disk.keeps_put (List.cons_ne_nil name p) hfree der⟩
      dsimp only at hq
      rw [hput] at hq
      split at hq
      · cases hq
      · exact hq

/-- A bundle is stored with no directories but those that its path goes
through. -/
theorem through_write (path : String) (der : Bytes) {h : Host} {q : Place}
    (hq : ((write path der : StateM Host _).run h).2.disk.node? q
      = some .directory)
    (hnot : h.disk.node? q ≠ some .directory) :
    ((write path der : StateM Host _).run h).2.disk.Through path q := by
  obtain ⟨-, hpaved⟩ := ensureParent_paves path h
  obtain ⟨hbuilt, hkeeps⟩ := directory_of_write path der hq
  exact Disk.OnWay.of_keeps (hpaved q hbuilt hnot) hkeeps

end Store
end TlsKeystore
