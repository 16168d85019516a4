/-
What becomes of the files that stand before a run.

A run is a list of turns, one for each identity up to the first failure
(`Plan.turns`). A turn that keeps what exists and makes a bundle has seen
nothing at its path, so nothing should be lost by storing it there. But a
path may lead further once its directories are made: `a/../k` leads nowhere
while there is no `a`, and to `k` as soon as there is. A turn that comes
upon a file in this way replaces it (`Plan.Uncovers`), and no other turn
changes a file (`file_provisionOne`). By induction on the turns, a file is
as it was after a run exactly if no turn has uncovered it, and otherwise
what the last such turn has made it (`file_provisionEach`).

Going down only, a path cannot lead further than it did before
(`Uncovers.up`). So nothing is lost where no path of the plan has a `..` in
it (`file_kept`).
-/
import TlsKeystore.Proofs.Keystore
import TlsKeystore.Proofs.Store
import TlsKeystore.Proofs.Ways

namespace TlsKeystore.Plan

-- ================================================================== turns

/-- What a run does for one identity, beginning on some machine. -/
structure Turn where
  spec : IdentitySpec
  before : Host

/-- The turns of a run, the last of which may be one that fails. -/
def turns (p : Plan) (report : Outcome → StateM Host Unit) :
    List IdentitySpec → Host → List Turn
  | [], _ => []
  | spec :: rest, h =>
    ⟨spec, h⟩ :: match (p.provisionOne spec : StateM Host _).run h with
      | (.error _, _) => []
      | (.ok outcome, stored) =>
        p.turns report rest ((report outcome).run stored).2

/-- The turn finds nothing at its path and makes a bundle, but once it has
made the directories of the path, that leads to a file. -/
structure Uncovers (p : Plan) (t : Turn) (place : Place) (der : Bytes) :
    Prop where
  unseen : t.before.disk.pathExists (p.pathOf t.spec) = false
  made : ((p.newBundle t.spec.commonName t.before.clock).run
    t.before.entropy).1 = .ok der
  leads : Store.target? (p.pathOf t.spec) t.before = some place
  stood : ∃ old, t.before.disk.node? place = some (.file old)

/-- The last of the turns to uncover a file makes the bundle `der`. -/
def LastUncovers (p : Plan) (ts : List Turn) (place : Place) (der : Bytes) :
    Prop :=
  ∃ earlier t later, ts = earlier ++ t :: later ∧ p.Uncovers t place der
    ∧ ∀ t' ∈ later, ∀ der', ¬ p.Uncovers t' place der'

variable {p : Plan} {place : Place}

/-- What comes before matters only if nothing uncovers the file later. -/
theorem LastUncovers.cons {ts : List Turn} {der : Bytes}
    (h : p.LastUncovers ts place der) (t : Turn) :
    p.LastUncovers (t :: ts) place der := by
  obtain ⟨earlier, u, later, rfl, hu, hlater⟩ := h
  exact ⟨t :: earlier, u, later, rfl, hu, hlater⟩

/-- The only turn is the last. -/
theorem LastUncovers.of_singleton {t : Turn} {der : Bytes}
    (h : p.LastUncovers [t] place der) : p.Uncovers t place der := by
  obtain ⟨earlier, u, later, hsplit, hu, -⟩ := h
  have hmem : u ∈ [t] := by simp [hsplit]
  rwa [← List.mem_singleton.mp hmem]

-- =============================================================== one turn

theorem run_keeps (path : String) (h : Host) :
    (p.keeps path : StateM Host Bool).run h
      = (p.skipExisting && h.disk.pathExists path, h) := by
  unfold keeps
  cases p.skipExisting <;> rfl

/-- All that a turn can do: it finds something that is to be kept, or it
fails to make a bundle, or it makes one and stores it. -/
theorem run_provisionOne (spec : IdentitySpec) (h : Host) :
    (p.provisionOne spec : StateM Host _).run h
      = if p.skipExisting && h.disk.pathExists (p.pathOf spec) then
          (.ok ⟨spec.commonName, p.pathOf spec, .skipped⟩, h)
        else
          match (p.newBundle spec.commonName h.clock).run h.entropy with
          | (.error why, entropy) => (.error why, { h with entropy })
          | (.ok der, entropy) =>
            match (Store.write (p.pathOf spec) der : StateM Host _).run
                { h with entropy } with
            | (.error why, after) => (.error (.store why), after)
            | (.ok (), after) =>
              (.ok ⟨spec.commonName, p.pathOf spec, .generated⟩, after) := by
  unfold provisionOne
  dsimp only
  rw [Host.run_bind, run_keeps]
  dsimp only
  split
  · rfl
  · rw [Host.run_bind, Host.run_now, Host.run_bind, Host.run_draw]
    generalize (p.newBundle spec.commonName h.clock).run h.entropy = drawn
    obtain ⟨made, entropy⟩ := drawn
    cases made with
    | error why => rfl
    | ok der =>
        dsimp only
        rw [Host.run_bind]
        generalize (Store.write (p.pathOf spec) der : StateM Host _).run
          { h with entropy } = r
        obtain ⟨stored, after⟩ := r
        cases stored <;> rfl

/-- A turn that finds something where existing keystores are kept says so and
does nothing else. -/
theorem run_provisionOne_of_pathExists (hskip : p.skipExisting = true)
    (t : Turn)
    (hseen : t.before.disk.pathExists (p.pathOf t.spec) = true) :
    (p.provisionOne t.spec : StateM Host _).run t.before
      = (.ok ⟨t.spec.commonName, p.pathOf t.spec, .skipped⟩, t.before) := by
  rw [run_provisionOne, hskip, hseen]
  rfl

/-- What a turn does to the machine where existing keystores are kept. -/
theorem run_provisionOne_snd (hskip : p.skipExisting = true) (t : Turn) :
    ((p.provisionOne t.spec : StateM Host _).run t.before).2
      = if t.before.disk.pathExists (p.pathOf t.spec) then t.before
        else
          match (p.newBundle t.spec.commonName t.before.clock).run
              t.before.entropy with
          | (.error _, entropy) => { t.before with entropy }
          | (.ok der, entropy) =>
            ((Store.write (p.pathOf t.spec) der : StateM Host _).run
              { t.before with entropy }).2 := by
  rw [run_provisionOne, hskip, Bool.true_and]
  by_cases hseen : t.before.disk.pathExists (p.pathOf t.spec) = true
  · rw [if_pos hseen, if_pos hseen]
  · rw [if_neg hseen, if_neg hseen]
    generalize (p.newBundle t.spec.commonName t.before.clock).run
      t.before.entropy = drawn
    obtain ⟨made, entropy⟩ := drawn
    cases made with
    | error why => rfl
    | ok der =>
        dsimp only
        generalize (Store.write (p.pathOf t.spec) der : StateM Host _).run
          { t.before with entropy } = r
        obtain ⟨stored, after⟩ := r
        cases stored <;> rfl

/-- A turn replaces the file that it uncovers, and no other. -/
theorem file_provisionOne (hskip : p.skipExisting = true) (t : Turn)
    {old : Bytes} (hfile : t.before.disk.node? place = some (.file old)) :
    let after := ((p.provisionOne t.spec : StateM Host _).run t.before).2
    (∀ der, ¬ p.Uncovers t place der)
        ∧ after.disk.node? place = some (.file old)
      ∨ ∃ der, p.Uncovers t place der
        ∧ after.disk.node? place = some (.file der) := by
  intro after
  have hafter : after = _ := run_provisionOne_snd hskip t
  clear_value after
  cases hseen : t.before.disk.pathExists (p.pathOf t.spec) with
  | true =>
      rw [hseen, if_pos rfl] at hafter
      refine Or.inl ⟨fun der h => ?_, hafter ▸ hfile⟩
      exact Bool.false_ne_true (h.unseen.symm.trans hseen)
  | false =>
      rw [hseen, if_neg Bool.false_ne_true] at hafter
      generalize hdrawn : (p.newBundle t.spec.commonName t.before.clock).run
        t.before.entropy = drawn at hafter
      obtain ⟨made, entropy⟩ := drawn
      cases made with
      | error why =>
          refine Or.inl ⟨fun der h => ?_, hafter ▸ hfile⟩
          have hmade := h.made
          rw [hdrawn] at hmade
          cases hmade
      | ok der =>
          have htarget : Store.target? (p.pathOf t.spec) t.before
              = Store.target? (p.pathOf t.spec) { t.before with entropy } :=
            Store.target?_congr _ rfl
          have hstored := Store.file_write (p.pathOf t.spec) der
            (h := { t.before with entropy }) hfile
          dsimp only at hafter
          rw [← hafter, ← htarget] at hstored
          by_cases hleads : Store.target? (p.pathOf t.spec) t.before
              = some place
          · rw [if_pos hleads] at hstored
            refine Or.inr ⟨der, ⟨hseen, ?_, hleads, old, hfile⟩, hstored⟩
            rw [hdrawn]
          · rw [if_neg hleads] at hstored
            exact Or.inl ⟨fun der' h => hleads h.leads, hstored⟩

-- ============================================================= whole runs

/-- A run leaves a file as it was if no turn uncovers it, and otherwise as
the last such turn has made it. -/
theorem file_provisionAll (hskip : p.skipExisting = true)
    {report : Outcome → StateM Host Unit}
    (hreport : ∀ o h, ((report o).run h).2.disk = h.disk)
    (specs : List IdentitySpec) {h : Host} {old : Bytes}
    (hfile : h.disk.node? place = some (.file old)) :
    let after := ((p.provisionAll report specs).run h).2
    (∀ t ∈ p.turns report specs h, ∀ der, ¬ p.Uncovers t place der)
        ∧ after.disk.node? place = some (.file old)
      ∨ ∃ der, p.LastUncovers (p.turns report specs h) place der
        ∧ after.disk.node? place = some (.file der) := by
  induction specs generalizing h old with
  | nil => exact Or.inl ⟨fun t ht => (List.not_mem_nil ht).elim, hfile⟩
  | cons spec rest ih =>
      have hturn := file_provisionOne hskip ⟨spec, h⟩ hfile
      rw [provisionAll, turns, Host.run_bind]
      generalize (p.provisionOne spec : StateM Host _).run h = r at hturn
      obtain ⟨result, stored⟩ := r
      dsimp only at hturn ⊢
      cases result with
      | error why =>
          rcases hturn with ⟨hkept, hfile⟩ | ⟨der, huncovers, hfile⟩
          · refine Or.inl ⟨fun t ht => ?_, hfile⟩
            rw [List.mem_singleton.mp ht]
            exact hkept
          · exact Or.inr ⟨der, ⟨[], _, [], rfl, huncovers,
              fun t ht => (List.not_mem_nil ht).elim⟩, hfile⟩
      | ok outcome =>
          have hdisk := hreport outcome stored
          dsimp only
          rw [Host.run_bind]
          generalize ((report outcome).run stored).2 = reported at hdisk ⊢
          rw [← hdisk] at hturn
          rcases hturn with ⟨hkept, hfile⟩ | ⟨der, huncovers, hfile⟩
          · rcases ih hfile with ⟨hrest, hafter⟩ | ⟨der, hlast, hafter⟩
            · refine Or.inl ⟨fun t ht => ?_, hafter⟩
              rcases List.mem_cons.mp ht with rfl | ht
              · exact hkept
              · exact hrest t ht
            · exact Or.inr ⟨der, hlast.cons _, hafter⟩
          · rcases ih hfile with ⟨hrest, hafter⟩ | ⟨der', hlast, hafter⟩
            · exact Or.inr ⟨der, ⟨[], _, _, rfl, huncovers, hrest⟩, hafter⟩
            · exact Or.inr ⟨der', hlast.cons _, hafter⟩

/-- Where existing keystores are kept and reporting leaves the disk alone, a
file that stands before a run stands after it as it was, if no turn uncovers
it. If turns do, it is what the last of them has made. -/
theorem file_provisionEach (hskip : p.skipExisting = true)
    {report : Outcome → StateM Host Unit}
    (hreport : ∀ o h, ((report o).run h).2.disk = h.disk)
    {h : Host} {old : Bytes} (hfile : h.disk.node? place = some (.file old)) :
    let after := ((p.provisionEach report).run h).2
    (∀ t ∈ p.turns report p.identities h, ∀ der, ¬ p.Uncovers t place der)
        ∧ after.disk.node? place = some (.file old)
      ∨ ∃ der, p.LastUncovers (p.turns report p.identities h) place der
        ∧ after.disk.node? place = some (.file der) :=
  file_provisionAll hskip hreport p.identities hfile

/-- There is but one turn for one identity. -/
theorem turns_singleton (report : Outcome → StateM Host Unit)
    (spec : IdentitySpec) (h : Host) :
    p.turns report [spec] h = [⟨spec, h⟩] := by
  rw [turns]
  split <;> rfl

/-- A path through a missing directory and back uncovers a file, whatever the
plan and the random octets, as long as there is a bundle to store. -/
theorem uncovers_back_out {h : Host} {content : Bytes}
    (hdisk : h.disk = ⟨[(["k"], .file content)], []⟩) (hdir : p.workdir = ".")
    {name : String} {der : Bytes}
    (hmade : ((p.newBundle name h.clock).run h.entropy).1 = .ok der) :
    p.Uncovers ⟨⟨name, "a/../k"⟩, h⟩ ["k"] der := by
  have hpath : p.pathOf ⟨name, "a/../k"⟩ = "./a/../k" := by
    show Path.resolve p.workdir "a/../k" = _
    rw [hdir]
    decide
  have hleads : Store.target? "./a/../k" h = some ["k"] :=
    Store.target?_congr _
      (g := ⟨⟨[(["k"], .file content)], []⟩, h.entropy, h.clock, ""⟩) hdisk
  refine ⟨?_, hmade, ?_, content, ?_⟩
  · show h.disk.pathExists (p.pathOf _) = false
    rw [hpath, hdisk]
    rfl
  · show Store.target? (p.pathOf _) h = _
    rw [hpath, hleads]
  · show h.disk.node? _ = _
    rw [hdisk]
    rfl

/-- A plan for one keystore, and to keep what exists. -/
def planAt (path : String) : Plan :=
  ⟨[⟨"auth", path⟩], "changeit", .standard, ".", true⟩

/-- A machine with nothing but a file `k`. -/
def hostWithK : Host :=
  ⟨⟨[(["k"], .file [0x30])], []⟩, PrivateKey.plainStream, ⟨0⟩, ""⟩

/-- The file `k` is kept where the plan names it plainly. It is replaced by a
new keystore where the path of the plan goes through a missing directory and
back. -/
theorem file_provisionEach_k :
    let report : Outcome → StateM Host Unit := fun _ => pure ()
    (((planAt "k").provisionEach report).run hostWithK).2.disk.node? ["k"]
        = some (.file [0x30])
      ∧ ∃ der, (((planAt "a/../k").provisionEach report).run
          hostWithK).2.disk.node? ["k"] = some (.file der)
        ∧ Bundle.IsKeystore "changeit" "auth" der := by
  intro report
  have hfile : hostWithK.disk.node? ["k"] = some (.file [0x30]) := rfl
  have hreport : ∀ o h, ((report o).run h).2.disk = h.disk := fun _ _ => rfl
  have hturns (path : String) : (planAt path).turns report
      (planAt path).identities hostWithK = [⟨⟨"auth", path⟩, hostWithK⟩] :=
    turns_singleton report ⟨"auth", path⟩ hostWithK
  have hcases (path : String) :=
    file_provisionEach (p := planAt path) rfl hreport hfile
  constructor
  · rcases hcases "k" with ⟨-, hafter⟩ | ⟨der, hlast, -⟩
    · exact hafter
    · rw [hturns] at hlast
      exact absurd hlast.of_singleton.unseen (by decide)
  · obtain ⟨der, hmade⟩ := newBundle_auth (p := planAt "a/../k") rfl rfl
    have huncovers : (planAt "a/../k").Uncovers
        ⟨⟨"auth", "a/../k"⟩, hostWithK⟩ ["k"] der :=
      uncovers_back_out (h := hostWithK) rfl rfl hmade
    rcases hcases "a/../k" with ⟨hkept, -⟩ | ⟨der', hlast, hafter⟩
    · rw [hturns] at hkept
      exact absurd huncovers (hkept _ (List.mem_singleton_self _) der)
    · rw [hturns] at hlast
      have hkeystore := isKeystore_of_newBundle hlast.of_singleton.made
      exact ⟨der', hafter, hkeystore⟩

-- ============================================================= ways down

/-- A turn that uncovers a file has a path that leads up. -/
theorem Uncovers.up {t : Turn} {der : Bytes}
    (huncovers : p.Uncovers t place der) (htree : t.before.disk.Tree) :
    ".." ∈ (Path.route (p.pathOf t.spec)).names := by
  by_contra hup
  obtain ⟨old, hold⟩ := huncovers.stood
  have hseen := htree.pathExists_of_target?
    ((Store.ensureParent_builds _).grows t.before) hup
    (Store.target?_of_target? huncovers.leads) hold
  exact Bool.false_ne_true (huncovers.unseen.symm.trans hseen)

theorem tree_provisionOne (hskip : p.skipExisting = true) (t : Turn)
    (htree : t.before.disk.Tree) :
    ((p.provisionOne t.spec : StateM Host _).run t.before).2.disk.Tree := by
  rw [run_provisionOne_snd hskip]
  split
  · exact htree
  · split
    · exact htree
    · exact Store.tree_write _ _ htree

/-- All turns of a run on a tree are for identities of the plan, on trees. -/
theorem tree_of_mem_turns (hskip : p.skipExisting = true)
    {report : Outcome → StateM Host Unit}
    (hreport : ∀ o h, ((report o).run h).2.disk = h.disk)
    {specs : List IdentitySpec} {h : Host} (htree : h.disk.Tree) {t : Turn}
    (ht : t ∈ p.turns report specs h) :
    t.spec ∈ specs ∧ t.before.disk.Tree := by
  induction specs generalizing h with
  | nil => cases ht
  | cons spec rest ih =>
      have hturn := tree_provisionOne hskip ⟨spec, h⟩ htree
      rw [turns] at ht
      rcases List.mem_cons.mp ht with rfl | ht
      · exact ⟨List.mem_cons_self, htree⟩
      · generalize (p.provisionOne spec : StateM Host _).run h = r
          at hturn ht
        obtain ⟨result, stored⟩ := r
        cases result with
        | error why => cases ht
        | ok outcome =>
            rw [← hreport outcome stored] at hturn
            obtain ⟨hspec, hbefore⟩ := ih hturn ht
            exact ⟨List.mem_cons_of_mem _ hspec, hbefore⟩

/-- Where existing keystores are kept and no path of the plan leads up, all
files stay as they are. -/
theorem file_kept (hskip : p.skipExisting = true)
    (hup : ∀ spec ∈ p.identities, ".." ∉ (Path.route (p.pathOf spec)).names)
    {report : Outcome → StateM Host Unit}
    (hreport : ∀ o h, ((report o).run h).2.disk = h.disk)
    {h : Host} (htree : h.disk.Tree) {old : Bytes}
    (hfile : h.disk.node? place = some (.file old)) :
    ((p.provisionEach report).run h).2.disk.node? place
      = some (.file old) := by
  have hkept : ∀ t ∈ p.turns report p.identities h, ∀ der,
      ¬ p.Uncovers t place der := by
    intro t ht der huncovers
    obtain ⟨hspec, hbefore⟩ := tree_of_mem_turns hskip hreport htree ht
    exact hup _ hspec (huncovers.up hbefore)
  rcases file_provisionAll hskip hreport p.identities hfile with
    ⟨-, hafter⟩ | ⟨der, ⟨earlier, t, later, hturns, huncovers, -⟩, -⟩
  · exact hafter
  · have ht : t ∈ p.turns report p.identities h := by simp [hturns]
    exact absurd huncovers (hkept t ht der)

end TlsKeystore.Plan
