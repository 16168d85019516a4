/-
What a turn of a run does where it succeeds, and how turns make up a run.

A turn that succeeds has done what it reports (`provisionOne_eq_ok`): it
has found something at its path that is to be kept (`Skips`), or it has put
a new keystore of its name where the path leads once the directories above
it are made (`Generates`). And it does succeed where a bundle is made and
the path leads to a place for it (`run_provisionOne_of_newBundle`).

A run lists the outcomes of its turns in order (`run_listed_of_ok`), and
stops at the first that fails (`run_listed_of_error`). What it reports in
the end is that list (`run_provision`).
-/
import TlsKeystore.Proofs.Keystore
import TlsKeystore.Proofs.Lift
import TlsKeystore.Proofs.Provision

namespace TlsKeystore

-- =============================================================== one turn

namespace Store

/-- A bundle that is stored is put where its path leads once the directories
above it are made. -/
theorem write_eq_ok {path : String} {der : Bytes} {h h' : Host}
    (hrun : (write path der : StateM Host _).run h = (.ok (), h')) :
    ∃ built place, h.disk.Grows built ∧ built.target? path = some place
      ∧ h'.disk = built.put place (.file der) := by
  have hgrows := (ensureParent_builds path).grows h
  unfold write at hrun
  rw [Host.run_bind] at hrun
  generalize (ensureParent path : StateM Host _).run h = r at hrun hgrows
  obtain ⟨made, built⟩ := r
  cases made with
  | error why => cases hrun
  | ok =>
      change (((Host.change (·.writeFile path der) built).1.mapError
        (FileError.mk .createFile path)).mapError StoreFailure.file,
        (Host.change (·.writeFile path der) built).2) = (.ok (), h') at hrun
      unfold Host.change at hrun
      dsimp only at hrun
      cases hwritten : built.disk.writeFile path der with
      | error fault =>
          rw [hwritten] at hrun
          cases hrun
      | ok disk =>
          rw [hwritten] at hrun
          cases hrun
          obtain ⟨place, htarget, rfl⟩ := Disk.writeFile_eq_ok_iff.mp hwritten
          exact ⟨built.disk, place, hgrows, htarget, rfl⟩

/-- A bundle is stored wherever its path leads to a place for a file. -/
theorem run_write_of_target? {path : String} {h : Host} {place : Place}
    (htarget : target? path h = some place) (der : Bytes) :
    (write path der : StateM Host _).run h
      = (.ok (), { ((ensureParent path : StateM Host _).run h).2 with
          disk := ((ensureParent path : StateM Host _).run h).2.disk.put place
            (.file der) }) := by
  unfold target? at htarget
  unfold write
  rw [Host.run_bind]
  generalize (ensureParent path : StateM Host _).run h = r at htarget ⊢
  obtain ⟨made, built⟩ := r
  cases made with
  | error why => cases htarget
  | ok =>
      have hwritten : built.disk.writeFile path der
          = .ok (built.disk.put place (.file der)) :=
        Disk.writeFile_eq_ok_iff.mpr ⟨place, htarget, rfl⟩
      show (((Host.change (·.writeFile path der) built).1.mapError
        (FileError.mk .createFile path)).mapError StoreFailure.file,
        (Host.change (·.writeFile path der) built).2) = _
      unfold Host.change
      dsimp only
      rw [hwritten]
      rfl

end Store

namespace Plan

variable {p : Plan} {spec : IdentitySpec} {o : Outcome} {h h' : Host}

/-- What is skipped is there, on the very disk. -/
structure Skips (p : Plan) (spec : IdentitySpec) (o : Outcome) (d d' : Disk) :
    Prop where
  asked : p.skipExisting = true
  seen : d.pathExists (p.pathOf spec) = true
  outcome : o = ⟨spec.commonName, p.pathOf spec, .skipped⟩
  disk : d' = d

/-- What is generated is a keystore of the name, where the path leads once
the directories above it are made. -/
structure Generates (p : Plan) (spec : IdentitySpec) (o : Outcome)
    (d d' built : Disk) (place : Place) (der : Bytes) : Prop where
  keystore : Bundle.IsKeystore p.password spec.commonName der
  grows : d.Grows built
  target : built.target? (p.pathOf spec) = some place
  outcome : o = ⟨spec.commonName, p.pathOf spec, .generated⟩
  disk : d' = built.put place (.file der)

namespace Generates

variable {d d' built : Disk} {place : Place} {der : Bytes}

theorem node (h : p.Generates spec o d d' built place der) (q : Place) :
    d'.node? q = if q = place then some (.file der) else built.node? q := by
  rw [h.disk]
  exact Disk.node?_put built (Disk.target?_ne_nil h.target) (.file der) q

/-- Nothing is gone when a keystore is generated. -/
theorem keeps (h : p.Generates spec o d d' built place der) : d.Keeps d' := by
  obtain ⟨q, name, -, -, -, -, hfree, rfl⟩ :=
    Disk.target?_eq_some_iff.mp h.target
  rw [h.disk]
  exact h.grows.keeps.trans (Disk.keeps_put (List.cons_ne_nil name q) hfree der)

/-- The path leads to the new keystore. -/
theorem find (h : p.Generates spec o d d' built place der) :
    d'.find (p.pathOf spec) = .ok place := by
  obtain ⟨q, name, -, -, -, -, hfree, hplace⟩ :=
    Disk.target?_eq_some_iff.mp h.target
  refine Disk.find_of_target? h.target (by rw [h.node, if_pos rfl]; rfl) ?_
  rw [h.disk]
  exact Disk.keeps_put (Disk.target?_ne_nil h.target) (hplace ▸ hfree) der

end Generates

/-- A turn that succeeds has skipped, or it has made a bundle and generated
that. -/
theorem provisionOne_eq_ok
    (hrun : (p.provisionOne spec : StateM Host _).run h = (.ok o, h')) :
    p.Skips spec o h.disk h'.disk
      ∨ ∃ built place der,
        ((p.newBundle spec.commonName h.clock).run h.entropy).1 = .ok der
        ∧ p.Generates spec o h.disk h'.disk built place der := by
  rw [run_provisionOne] at hrun
  split at hrun
  · next hkept =>
      cases hrun
      rw [Bool.and_eq_true] at hkept
      exact Or.inl ⟨hkept.1, hkept.2, rfl, rfl⟩
  · generalize hdrawn : (p.newBundle spec.commonName h.clock).run h.entropy
      = drawn at hrun
    obtain ⟨made, entropy⟩ := drawn
    cases made with
    | error why => cases hrun
    | ok der =>
        dsimp only at hrun
        generalize hstored : (Store.write (p.pathOf spec) der :
          StateM Host _).run { h with entropy } = r at hrun
        obtain ⟨stored, after⟩ := r
        cases stored with
        | error why => cases hrun
        | ok =>
            cases hrun
            obtain ⟨built, place, hgrows, htarget, hdisk⟩ :=
              Store.write_eq_ok hstored
            have hmade := congrArg Prod.fst hdrawn
            exact Or.inr ⟨built, place, der, rfl,
              isKeystore_of_newBundle hmade, hgrows, htarget, rfl, hdisk⟩

/-- A turn generates where nothing is to be kept, a bundle is made, and the
path leads to a place for it. -/
theorem run_provisionOne_of_newBundle
    (hkeeps : (p.skipExisting && h.disk.pathExists (p.pathOf spec)) = false)
    {der : Bytes}
    (hmade : ((p.newBundle spec.commonName h.clock).run h.entropy).1 = .ok der)
    {place : Place} (htarget : Store.target? (p.pathOf spec) h = some place) :
    ∃ h', (p.provisionOne spec : StateM Host _).run h
        = (.ok ⟨spec.commonName, p.pathOf spec, .generated⟩, h')
      ∧ h'.disk = (((Store.ensureParent (p.pathOf spec) :
          StateM Host _).run h).2.disk).put place (.file der) := by
  generalize hdrawn : (p.newBundle spec.commonName h.clock).run h.entropy
    = drawn at hmade
  obtain ⟨made, entropy⟩ := drawn
  cases hmade
  have hdisk := ((Store.ensureParent_builds (p.pathOf spec)).congr
    (h := { h with entropy }) (g := h) rfl).2
  have htarget : Store.target? (p.pathOf spec) { h with entropy }
      = some place :=
    (Store.target?_congr _ (h := { h with entropy }) (g := h) rfl).trans
      htarget
  have hwritten := Store.run_write_of_target? htarget der
  rw [← hdisk, run_provisionOne, hkeeps, if_neg Bool.false_ne_true, hdrawn]
  dsimp only
  rw [hwritten]
  exact ⟨_, rfl, rfl⟩

-- ============================================================= whole runs

section Beside

variable {σ : Type} (report : Outcome → StateT σ (StateM Host) Unit)
  (rest : List IdentitySpec) (s : σ)

/-- What is asked of the machine is done there, and leaves the state at the
side of a run alone. -/
private theorem run_lift_bind {α β : Type} (x : StateM Host α)
    (f : α → StateT σ (StateM Host) β) :
    ((StateT.lift x >>= f).run s).run h
      = ((f (x.run h).1).run s).run (x.run h).2 := rfl

/-- A list of turns stops at the first if that fails, with nothing reported
for it. -/
theorem run_provisionAll_of_error {why : KeystoreFailure} {after : Host}
    (hturn : (p.provisionOne spec : StateM Host _).run h
      = (.error why, after)) :
    ((p.provisionAll report (spec :: rest)).run s).run h
      = ((.error ⟨spec.commonName, why⟩, s), after) := by
  rw [provisionAll, provisionOne_lift, run_lift_bind, hturn]
  rfl

/-- A list of turns goes on from where the first and its report have left
the machine. -/
theorem run_provisionAll_of_ok {told : Host}
    (hturn : (p.provisionOne spec : StateM Host _).run h = (.ok o, told)) :
    ((p.provisionAll report (spec :: rest)).run s).run h
      = let (((), s'), after) := ((report o).run s).run told
        ((p.provisionAll report rest).run s').run after := by
  rw [provisionAll, provisionOne_lift, run_lift_bind, hturn]
  rfl

end Beside

/-- Turns, one after the other, that list their outcomes behind those that
are listed already. -/
def listed (p : Plan) (specs : List IdentitySpec) (outcomes : List Outcome) :
    StateM Host (Except ProvisionFailure Unit × List Outcome) :=
  (p.provisionAll (fun o => modify (· ++ [o])) specs :
    StateT (List Outcome) (StateM Host) _).run outcomes

/-- What comes of a turn that succeeds is listed. -/
theorem run_listed_of_ok {rest : List IdentitySpec}
    {outcomes : List Outcome} {after : Host}
    (hturn : (p.provisionOne spec : StateM Host _).run h = (.ok o, after)) :
    (p.listed (spec :: rest) outcomes).run h
      = (p.listed rest (outcomes ++ [o])).run after :=
  run_provisionAll_of_ok _ rest outcomes hturn

/-- Nothing is listed for a turn that fails. -/
theorem run_listed_of_error {rest : List IdentitySpec}
    {outcomes : List Outcome} {why : KeystoreFailure} {after : Host}
    (hturn : (p.provisionOne spec : StateM Host _).run h
      = (.error why, after)) :
    (p.listed (spec :: rest) outcomes).run h
      = ((.error ⟨spec.commonName, why⟩, outcomes), after) :=
  run_provisionAll_of_error _ rest outcomes hturn

/-- A run reports what its turns have listed, if all of them succeed. -/
theorem run_provision :
    (p.provision : StateM Host _).run h
      = (((p.listed p.identities []).run h).1.1.map fun () =>
          ((p.listed p.identities []).run h).1.2,
        ((p.listed p.identities []).run h).2) := rfl

end Plan
end TlsKeystore
