/-
Which keystore stands where after a run.

# The books

What stands on the disk after a run that reports success can be told from
its outcomes. A place belongs to the last of the new keystores whose paths
lead there (`owner?`), and holds a keystore of that name. A place that
belongs to none holds what it held, or is a directory that was made on the
way (`Ledger`).

One turn keeps the books in order (`Ledger.turn`), because paths go on
leading where they have led, and a new file changes its own place only. So
a whole run does, by induction on its turns (`ledger_listed`).

# Sharing a place

Nothing keeps two identities from having one place, under one spelling of
the path or two. Then there is one keystore for both, of the one that was
made last.
-/
import TlsKeystore.Proofs.Turns
import TlsKeystore.Proofs.Ways

namespace TlsKeystore

-- ============================================================== the books

/-- The last of the new keystores whose paths lead to a place. -/
def owner? (d : Disk) (outcomes : List Outcome) (place : Place) :
    Option Outcome :=
  (outcomes.filter fun o => o.status = .generated
    ∧ (d.find o.path).toOption = some place).getLast?

theorem owner?_append (d : Disk) (outcomes : List Outcome) (o : Outcome)
    (place : Place) :
    owner? d (outcomes ++ [o]) place
      = if o.status = .generated ∧ (d.find o.path).toOption = some place
        then some o else owner? d outcomes place := by
  unfold owner?
  rw [List.filter_append]
  by_cases hleads : o.status = .generated
      ∧ (d.find o.path).toOption = some place
  · rw [List.filter_cons_of_pos (by simpa using hleads), List.filter_nil,
      List.getLast?_concat, if_pos hleads]
  · rw [List.filter_cons_of_neg (by simpa using hleads), List.filter_nil,
      List.append_nil, if_neg hleads]

theorem mem_of_owner? {d : Disk} {outcomes : List Outcome} {o : Outcome}
    {place : Place} (h : owner? d outcomes place = some o) :
    o ∈ outcomes ∧ o.status = .generated ∧ d.find o.path = .ok place := by
  have hmem := List.mem_of_getLast? h
  rw [List.mem_filter, decide_eq_true_eq] at hmem
  refine ⟨hmem.1, hmem.2.1, ?_⟩
  have hfind := hmem.2.2
  cases hplace : d.find o.path with
  | error fault => rw [hplace] at hfind; cases hfind
  | ok q =>
      rw [hplace] at hfind
      cases hfind
      rfl

/-- A place for which a keystore was made has an owner. -/
theorem owner?_ne_none {d : Disk} {outcomes : List Outcome} {o : Outcome}
    {place : Place} (ho : o ∈ outcomes) (hstatus : o.status = .generated)
    (hfind : d.find o.path = .ok place) : owner? d outcomes place ≠ none := by
  intro hnone
  have hempty := List.getLast?_eq_none_iff.mp hnone
  rw [List.filter_eq_nil_iff] at hempty
  exact hempty o ho (by simp [hstatus, hfind, Except.toOption])

/-- The owners of places stay the same while their paths do. -/
theorem owner?_congr {d d' : Disk} {outcomes : List Outcome}
    (h : ∀ o ∈ outcomes, d.find o.path = d'.find o.path) (place : Place) :
    owner? d outcomes place = owner? d' outcomes place := by
  unfold owner?
  congr 1
  refine List.filter_congr fun o ho => ?_
  rw [h o ho]

/-- What stands on a disk after the turns with these outcomes. -/
structure Ledger (p : Plan) (before : Disk) (outcomes : List Outcome)
    (d : Disk) : Prop where
  keeps : before.Keeps d
  asked : ∀ o ∈ outcomes, o.status = .skipped → p.skipExisting = true
  leads : ∀ o ∈ outcomes, ∃ place, d.find o.path = .ok place
    ∧ (d.node? place).isSome
  owned : ∀ {place o}, owner? d outcomes place = some o →
    ∃ content, d.node? place = some (.file content)
      ∧ Bundle.IsKeystore p.password o.commonName content
  unowned : ∀ {place}, owner? d outcomes place = none →
    d.node? place = before.node? place
      ∨ before.node? place = none ∧ d.node? place = some .directory

namespace Ledger

variable {p : Plan} {before d d' : Disk} {outcomes : List Outcome}
  {spec : IdentitySpec} {o : Outcome}

/-- Before the first turn nothing has an owner, and all is as it was. -/
theorem nil (p : Plan) (d : Disk) : Ledger p d [] d where
  keeps := Disk.Keeps.refl d
  asked := fun o ho => (List.not_mem_nil ho).elim
  leads := fun o ho => (List.not_mem_nil ho).elim
  owned := fun h => by cases h
  unowned := fun _ => Or.inl rfl

theorem skip (hledger : Ledger p before outcomes d)
    (hskips : p.Skips spec o d d') :
    Ledger p before (outcomes ++ [o]) d' := by
  obtain ⟨hasked, hseen, rfl, rfl⟩ := hskips
  have howner (place : Place) : owner? d' (outcomes
        ++ [⟨spec.commonName, p.pathOf spec, .skipped⟩]) place
      = owner? d' outcomes place := by
    rw [owner?_append, if_neg]
    rintro ⟨hstatus, -⟩
    cases hstatus
  refine ⟨hledger.keeps, fun o ho hskipped => ?_, fun o ho => ?_,
    fun h => ?_, fun h => ?_⟩
  · exact hasked
  · rcases List.mem_append.mp ho with ho | ho
    · exact hledger.leads o ho
    · rw [List.mem_singleton.mp ho]
      exact Disk.pathExists_iff.mp hseen
  · rw [howner] at h
    exact hledger.owned h
  · rw [howner] at h
    exact hledger.unowned h

/-- The paths of all outcomes lead where they led. -/
theorem find_of_keeps (hledger : Ledger p before outcomes d)
    (hkeeps : d.Keeps d') (ho : o ∈ outcomes) :
    d'.find o.path = d.find o.path := by
  obtain ⟨q, hq, -⟩ := hledger.leads o ho
  rw [hkeeps.find hq, hq]

variable {built : Disk} {place : Place} {der : Bytes}

/-- A new keystore has the place that its path leads to, and no other place
has another owner than before. -/
theorem owner?_of_generates (hledger : Ledger p before outcomes d)
    (hgenerates : p.Generates spec o d d' built place der) (q : Place) :
    owner? d' (outcomes ++ [o]) q
      = if place = q then some o else owner? d outcomes q := by
  have hold : ∀ o ∈ outcomes, d'.find o.path = d.find o.path :=
    fun o ho => hledger.find_of_keeps hgenerates.keeps ho
  rw [owner?_append, owner?_congr hold, hgenerates.outcome]
  simp [hgenerates.find, Except.toOption]

theorem generate (hledger : Ledger p before outcomes d)
    (hgenerates : p.Generates spec o d d' built place der) :
    Ledger p before (outcomes ++ [o]) d' where
  keeps := hledger.keeps.trans hgenerates.keeps
  asked := by
    intro x hx hskipped
    rcases List.mem_append.mp hx with hx | hx
    · exact hledger.asked x hx hskipped
    · rw [List.mem_singleton.mp hx, hgenerates.outcome] at hskipped
      cases hskipped
  leads := by
    intro x hx
    rcases List.mem_append.mp hx with hx | hx
    · obtain ⟨q, hq, htaken⟩ := hledger.leads x hx
      exact ⟨q, hgenerates.keeps.find hq, hgenerates.keeps.taken htaken⟩
    · rw [List.mem_singleton.mp hx, hgenerates.outcome]
      exact ⟨place, hgenerates.find, by rw [hgenerates.node, if_pos rfl]; rfl⟩
  owned := by
    intro q x howner
    rw [hledger.owner?_of_generates hgenerates] at howner
    rw [hgenerates.node]
    split at howner
    · next hplace =>
        cases howner
        rw [hgenerates.outcome]
        exact ⟨der, if_pos hplace.symm, hgenerates.keystore⟩
    · next hother =>
        obtain ⟨content, hfile, hkeystore⟩ := hledger.owned howner
        rw [if_neg (Ne.symm hother)]
        exact ⟨content, hgenerates.grows.node_of_isSome hfile, hkeystore⟩
  unowned := by
    intro q howner
    rw [hledger.owner?_of_generates hgenerates] at howner
    rw [hgenerates.node]
    split at howner
    · cases howner
    · next hother =>
        rw [if_neg (Ne.symm hother)]
        rcases hledger.unowned howner with hsame | ⟨hwasFree, hdirectory⟩
        · rcases hgenerates.grows.node q with hsame' | ⟨hstillFree, hnew⟩
          · exact Or.inl (hsame'.trans hsame)
          · exact Or.inr ⟨hsame.symm.trans hstillFree, hnew⟩
        · exact Or.inr
            ⟨hwasFree, hgenerates.grows.node_of_isSome hdirectory⟩

/-- One turn that succeeds keeps the books in order. -/
theorem turn {h h' : Host}
    (hledger : Ledger p before outcomes h.disk)
    (hrun : (p.provisionOne spec : StateM Host _).run h = (.ok o, h')) :
    Ledger p before (outcomes ++ [o]) h'.disk
      ∧ o.commonName = spec.commonName ∧ o.path = p.pathOf spec := by
  rcases Plan.provisionOne_eq_ok hrun with hskips |
    ⟨built, place, der, -, hgenerates⟩
  · refine ⟨hledger.skip hskips, ?_⟩
    rw [hskips.outcome]
    exact ⟨rfl, rfl⟩
  · refine ⟨hledger.generate hgenerates, ?_⟩
    rw [hgenerates.outcome]
    exact ⟨rfl, rfl⟩

/-- The place of an outcome has an owner, if it was free and has not become a
directory where existing keystores are kept. -/
theorem exists_owner (hledger : Ledger p before outcomes d)
    (ho : o ∈ outcomes) {place : Place} (hfind : d.find o.path = .ok place)
    (hfresh : p.skipExisting = true →
      before.node? place = none ∧ d.node? place ≠ some .directory) :
    ∃ owner, owner? d outcomes place = some owner := by
  refine Option.ne_none_iff_exists'.mp fun hnone => ?_
  cases hstatus : o.status with
  | generated => exact owner?_ne_none ho hstatus hfind hnone
  | skipped =>
      obtain ⟨hfree, hfile⟩ := hfresh (hledger.asked o ho hstatus)
      obtain ⟨place', hfind', htaken⟩ := hledger.leads o ho
      rw [hfind] at hfind'
      cases hfind'
      rcases hledger.unowned hnone with hsame | ⟨-, hdirectory⟩
      · rw [hsame, hfree] at htaken
        cases htaken
      · exact hfile hdirectory

end Ledger

-- ============================================================= whole runs

namespace Plan

variable {p : Plan} {h h' : Host}

/-- What was asked for, as the outcomes say it. -/
def named (p : Plan) (spec : IdentitySpec) : String × String :=
  (spec.commonName, p.pathOf spec)

/-- Turns that all succeed keep the books in order, with an outcome of each
identity. By induction on the turns. -/
theorem ledger_listed {before : Disk} {specs : List IdentitySpec}
    {done outcomes : List Outcome}
    (hledger : Ledger p before done h.disk)
    (hrun : (p.listed specs done).run h = ((.ok (), outcomes), h')) :
    Ledger p before outcomes h'.disk
      ∧ outcomes.map (fun o => (o.commonName, o.path))
        = done.map (fun o => (o.commonName, o.path)) ++ specs.map p.named := by
  induction specs generalizing done h with
  | nil =>
      cases hrun
      exact ⟨hledger, (List.append_nil _).symm⟩
  | cons spec rest ih =>
      generalize hturn : (p.provisionOne spec : StateM Host _).run h = r
      obtain ⟨result, after⟩ := r
      cases result with
      | error why =>
          rw [run_listed_of_error hturn] at hrun
          cases hrun
      | ok o =>
          rw [run_listed_of_ok hturn] at hrun
          obtain ⟨hledger, hname, hpath⟩ := hledger.turn hturn
          obtain ⟨hledger, houtcomes⟩ := ih hledger hrun
          refine ⟨hledger, houtcomes.trans ?_⟩
          rw [List.map_append, List.append_assoc, List.map_singleton,
            hname, hpath]
          rfl

/-- The outcomes of a run that succeeds tell what stands on the disk. -/
theorem ledger_provision {outcomes : List Outcome}
    (hrun : (p.provision : StateM Host _).run h = (.ok outcomes, h')) :
    Ledger p h.disk outcomes h'.disk
      ∧ outcomes.map (fun o => (o.commonName, o.path))
        = p.identities.map p.named := by
  rw [run_provision] at hrun
  generalize hall : (p.listed p.identities []).run h = r at hrun
  obtain ⟨⟨result, reported⟩, after⟩ := r
  cases result with
  | error why => cases hrun
  | ok =>
      cases hrun
      exact ledger_listed (Ledger.nil p h.disk) hall

/-- On a tree, the place of a path without `..` was free if there was nothing
at the path. -/
theorem free_of_provision {outcomes : List Outcome}
    (hrun : (p.provision : StateM Host _).run h = (.ok outcomes, h'))
    (htree : h.disk.Tree) {path : String}
    (hup : ".." ∉ (Path.route path).names)
    (hseen : h.disk.pathExists path = false) {place : Place}
    (hfind : h'.disk.find path = .ok place) : h.disk.node? place = none :=
  htree.free_of_pathExists (ledger_provision hrun).1.keeps hup hfind hseen

-- ======================================================= two at one place

/-- Two names for one path. -/
def sharedPlan : Plan :=
  ⟨[⟨"auth", "k"⟩, ⟨"data", "k"⟩], "changeit", .standard, ".", true⟩

/-- A machine with nothing on its disk. -/
def emptyHost : Host := ⟨⟨[], []⟩, PrivateKey.plainStream, ⟨0⟩, ""⟩

theorem pathOf_sharedPlan (name : String) :
    sharedPlan.pathOf ⟨name, "k"⟩ = "./k" := by
  show Path.resolve "." "k" = _
  decide

/-- The first keystore is made, and the second is taken for it. -/
theorem run_sharedPlan :
    ∃ der h', (sharedPlan.provision : StateM Host _).run emptyHost
        = (.ok [⟨"auth", "./k", .generated⟩, ⟨"data", "./k", .skipped⟩], h')
      ∧ h'.disk = ⟨[(["k"], .file der)], []⟩
      ∧ Bundle.IsKeystore "changeit" "auth" der := by
  obtain ⟨der, hmade⟩ := newBundle_auth (p := sharedPlan) rfl rfl
  have hpath := pathOf_sharedPlan
  have hunseen : emptyHost.disk.pathExists "./k" = false := by decide
  have htarget : Store.target? "./k" emptyHost = some ["k"] := rfl
  have hbuilt : ((Store.ensureParent "./k" : StateM Host _).run
      emptyHost).2.disk = ⟨[], []⟩ := rfl
  have hkeeps : (sharedPlan.skipExisting && emptyHost.disk.pathExists
      (sharedPlan.pathOf ⟨"auth", "k"⟩)) = false := by
    rw [hpath, hunseen]
    rfl
  obtain ⟨h', hfirst, hdisk⟩ := run_provisionOne_of_newBundle hkeeps hmade
    (by rw [hpath]; exact htarget)
  rw [hpath] at hfirst hdisk
  rw [hbuilt] at hdisk
  have hsecond := run_provisionOne_of_pathExists (p := sharedPlan) rfl
    ⟨⟨"data", "k"⟩, h'⟩ (by rw [hpath, hdisk]; rfl)
  rw [hpath] at hsecond
  have hkeystore := isKeystore_of_newBundle hmade
  refine ⟨der, h', ?_, hdisk, hkeystore⟩
  have hlisted : (sharedPlan.listed sharedPlan.identities []).run emptyHost
      = ((.ok (), [⟨"auth", "./k", .generated⟩, ⟨"data", "./k", .skipped⟩]),
          h') := by
    exact (run_listed_of_ok hfirst).trans (run_listed_of_ok hsecond)
  rw [run_provision, hlisted]
  rfl

-- =========================================================== in their place

/-- After a run that succeeds, every identity of the plan has a keystore at
its path. It is the one that was made last of all whose paths lead to the
same place, and all its parts are of that name; so it is the identity's own
unless it shares the place with another name. Where existing keystores are
kept, this is so if the place was free before the run, and has not become a
directory. -/
theorem keystore_provision {outcomes : List Outcome}
    (hrun : (p.provision : StateM Host _).run h = (.ok outcomes, h'))
    {spec : IdentitySpec} (hspec : spec ∈ p.identities)
    (hfresh : p.skipExisting = true → ∀ place,
      h'.disk.find (p.pathOf spec) = .ok place →
        h.disk.node? place = none ∧ h'.disk.node? place ≠ some .directory) :
    outcomes.map (fun o => (o.commonName, o.path)) = p.identities.map p.named
      ∧ ∃ place owner content b,
        h'.disk.find (p.pathOf spec) = .ok place
        ∧ owner? h'.disk outcomes place = some owner
        ∧ h'.disk.get? (p.pathOf spec) = .ok (.file content)
        ∧ Bundle.unlock content p.password = .ok b
        ∧ b.BelongsTo owner.commonName
        ∧ ((∀ other ∈ p.identities,
            h'.disk.find (p.pathOf other) = .ok place →
              other.commonName = spec.commonName) →
          owner.commonName = spec.commonName) := by
  obtain ⟨hledger, houtcomes⟩ := ledger_provision hrun
  obtain ⟨o, ho, hnamed⟩ : ∃ o ∈ outcomes,
      (o.commonName, o.path) = p.named spec := by
    rw [← List.mem_map, houtcomes]
    exact List.mem_map_of_mem hspec
  have hpath : o.path = p.pathOf spec := congrArg Prod.snd hnamed
  obtain ⟨place, hfind, -⟩ := hledger.leads o ho
  obtain ⟨owner, howner⟩ := hledger.exists_owner ho hfind fun hskip =>
    hfresh hskip place (hpath ▸ hfind)
  obtain ⟨content, hfile, b, hunlock, hbelongs⟩ := hledger.owned howner
  rw [hpath] at hfind
  refine ⟨houtcomes, place, owner, content, b, hfind, howner,
    Disk.get?_eq_ok_iff.mpr ⟨place, hfind, hfile⟩, hunlock, hbelongs,
    fun hall => ?_⟩
  -- the owner is an identity of the plan, and its path leads there too
  obtain ⟨hmem, -, hownerFind⟩ := mem_of_owner? howner
  obtain ⟨other, hother, hotherNamed⟩ : ∃ other ∈ p.identities,
      p.named other = (owner.commonName, owner.path) := by
    rw [← List.mem_map, ← houtcomes]
    exact List.mem_map_of_mem hmem
  have hotherName : other.commonName = owner.commonName :=
    congrArg Prod.fst hotherNamed
  have hotherPath : p.pathOf other = owner.path :=
    congrArg Prod.snd hotherNamed
  rw [← hotherPath] at hownerFind
  exact hotherName.symm.trans (hall other hother hownerFind)

theorem keystore_provision_shared :
    ∃ outcomes h' content b,
      (sharedPlan.provision : StateM Host _).run emptyHost
        = (.ok outcomes, h')
      ∧ h'.disk.get? "./k" = .ok (.file content)
      ∧ Bundle.unlock content "changeit" = .ok b ∧ b.BelongsTo "auth" := by
  obtain ⟨der, h', hrun, hdisk, -⟩ := run_sharedPlan
  have hfound : h'.disk.find "./k" = .ok ["k"] := by
    rw [hdisk]
    rfl
  have hfresh : sharedPlan.skipExisting = true → ∀ place,
      h'.disk.find (sharedPlan.pathOf ⟨"auth", "k"⟩) = .ok place →
        emptyHost.disk.node? place = none
          ∧ h'.disk.node? place ≠ some .directory := by
    intro _ place hplace
    rw [pathOf_sharedPlan, hfound] at hplace
    cases hplace
    have hfile : h'.disk.node? ["k"] = some (.file der) := by
      rw [hdisk]
      rfl
    exact ⟨rfl, by rw [hfile]; simp⟩
  obtain ⟨-, place, owner, content, b, hfind, howner, hfile, hunlock,
    hbelongs, -⟩ := keystore_provision hrun List.mem_cons_self hfresh
  rw [pathOf_sharedPlan] at hfind hfile
  rw [hfound] at hfind
  cases hfind
  -- of the two, the first was made
  rw [owner?, hdisk] at howner
  cases howner
  exact ⟨_, h', content, b, hrun, hfile, hunlock, hbelongs⟩

/-- Not every identity has a keystore of its own: of two at one path, one
goes without. -/
theorem not_keystore_of_each :
    ¬ ∀ (p : Plan) (h h' : Host) (outcomes : List Outcome),
      h.disk.Tree →
      (∀ spec ∈ p.identities, h.disk.pathExists (p.pathOf spec) = false) →
      (p.provision : StateM Host _).run h = (.ok outcomes, h') →
      ∀ spec ∈ p.identities, ∃ content b,
        h'.disk.get? (p.pathOf spec) = .ok (.file content)
        ∧ Bundle.unlock content p.password = .ok b
        ∧ b.BelongsTo spec.commonName := by
  intro hall
  obtain ⟨der, h', hrun, hdisk, b, hunlock, hbelongs⟩ := run_sharedPlan
  have htree : emptyHost.disk.Tree := ⟨rfl, fun {name p n} hn => by cases hn⟩
  have hunseen : ∀ spec ∈ sharedPlan.identities,
      emptyHost.disk.pathExists (sharedPlan.pathOf spec) = false := by
    decide
  obtain ⟨content, b', hfile, hunlock', hbelongs'⟩ :=
    hall sharedPlan emptyHost h' _ htree hunseen hrun ⟨"data", "k"⟩
      (by decide)
  rw [pathOf_sharedPlan, hdisk] at hfile
  have hder : (Disk.get? ⟨[(["k"], .file der)], []⟩ "./k")
      = .ok (.file der) := rfl
  rw [hder] at hfile
  cases hfile
  -- one file opens to one bundle, and that has one alias
  rw [show sharedPlan.password = "changeit" from rfl, hunlock] at hunlock'
  cases hunlock'
  have hsame := hbelongs.label.symm.trans hbelongs'.label
  revert hsame
  decide

end Plan
end TlsKeystore
