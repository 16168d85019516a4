/-
How far a run gets, and what stands on the disk meanwhile.

# One turn

A turn draws random octets and no more, or it stores a bundle
(`draws_or_stores`). So whether it succeeds or not, it takes nothing away
(`keeps_provisionOne`) and makes no directories but those that its path goes
through (`through_provisionOne`). One that fails changes no file at all
(`grows_of_error`). One that generates is over when its keystore stands at
its path (`keystore_of_generated`).

# A whole run

So the books of a run (`Ledger`) are in order wherever it stops
(`Runs.ledger`), and the directories that it has made lie on the ways of the
identities that it has come to (`Runs.through`). `account_progress` puts
this together: a run is done with identities from the front of its plan, one
report for each, and stops at the first that fails, without a look at the
others.
-/
import TlsKeystore.Proofs.Account
import TlsKeystore.Proofs.Paving

namespace TlsKeystore

-- =============================================================== one turn

namespace Store

variable {path : String} {der : Bytes} {h h' : Host}

/-- Nothing is gone when a bundle is stored. -/
theorem keeps_write (path : String) (der : Bytes) (h : Host) :
    h.disk.Keeps ((write path der : StateM Host _).run h).2.disk := by
  have hgrows := (ensureParent_builds path).grows h
  rw [run_write_snd]
  cases htarget : target? path h with
  | none => exact hgrows.keeps
  | some place =>
      obtain ⟨p, name, -, -, -, -, hfree, rfl⟩ :=
        Disk.target?_eq_some_iff.mp (target?_of_target? htarget)
      exact hgrows.keeps.trans
        (Disk.keeps_put (List.cons_ne_nil name p) hfree der)

/-- A bundle that is not stored leaves directories at most. -/
theorem grows_of_write_error {why : StoreFailure}
    (hrun : (write path der : StateM Host _).run h = (.error why, h')) :
    h.disk.Grows h'.disk := by
  have hsnd := run_write_snd path der h
  rw [hrun] at hsnd
  cases htarget : target? path h with
  | some place =>
      rw [run_write_of_target? htarget] at hrun
      cases hrun
  | none =>
      rw [htarget] at hsnd
      dsimp only at hsnd
      rw [hsnd]
      exact (ensureParent_builds path).grows h

end Store

namespace Plan

variable {p : Plan} {spec : IdentitySpec} {h h' : Host}
  {t : Except KeystoreFailure Outcome}

/-- What a turn does to the machine: it draws random octets at most, or it
stores a bundle, and fails only where that does. -/
theorem draws_or_stores
    (hrun : (p.provisionOne spec : StateM Host _).run h = (t, h')) :
    (∃ entropy, h' = { h with entropy })
      ∨ ∃ der entropy stored,
        (Store.write (p.pathOf spec) der : StateM Host _).run
            { h with entropy } = (stored, h')
          ∧ ∀ why, t = .error why → ∃ why', stored = .error why' := by
  rw [run_provisionOne] at hrun
  split at hrun
  · cases hrun
    exact Or.inl ⟨h.entropy, rfl⟩
  · generalize (p.newBundle spec.commonName h.clock).run h.entropy = drawn
      at hrun
    obtain ⟨made, entropy⟩ := drawn
    cases made with
    | error why =>
        cases hrun
        exact Or.inl ⟨entropy, rfl⟩
    | ok der =>
        dsimp only at hrun
        generalize hstored : (Store.write (p.pathOf spec) der :
          StateM Host _).run { h with entropy } = r at hrun
        obtain ⟨stored, after⟩ := r
        refine Or.inr ⟨der, entropy, stored, ?_, ?_⟩
        · rw [hstored]
          cases stored <;> cases hrun <;> rfl
        · cases stored with
          | error why => exact fun _ _ => ⟨why, rfl⟩
          | ok =>
              cases hrun
              intro why hfails
              cases hfails

/-- A turn prints nothing. -/
theorem printed_provisionOne
    (hrun : (p.provisionOne spec : StateM Host _).run h = (t, h')) :
    h'.printed = h.printed := by
  rcases draws_or_stores hrun with
    ⟨entropy, rfl⟩ | ⟨der, entropy, stored, hstored, -⟩
  · rfl
  · have hprinted := Store.printed_write (p.pathOf spec) der { h with entropy }
    rw [hstored] at hprinted
    exact hprinted

/-- A turn takes nothing away. -/
theorem keeps_provisionOne
    (hrun : (p.provisionOne spec : StateM Host _).run h = (t, h')) :
    h.disk.Keeps h'.disk := by
  rcases draws_or_stores hrun with
    ⟨entropy, rfl⟩ | ⟨der, entropy, stored, hstored, -⟩
  · exact Disk.Keeps.refl _
  · have hkeeps := Store.keeps_write (p.pathOf spec) der { h with entropy }
    rw [hstored] at hkeeps
    exact hkeeps

/-- A turn makes no directories but those that its path goes through. -/
theorem through_provisionOne
    (hrun : (p.provisionOne spec : StateM Host _).run h = (t, h'))
    {q : Place} (hq : h'.disk.node? q = some .directory)
    (hnot : h.disk.node? q ≠ some .directory) :
    h'.disk.Through (p.pathOf spec) q := by
  rcases draws_or_stores hrun with
    ⟨entropy, rfl⟩ | ⟨der, entropy, stored, hstored, -⟩
  · exact absurd hq hnot
  · have hthrough := Store.through_write (p.pathOf spec) der
      (h := { h with entropy }) (q := q)
    rw [hstored] at hthrough
    exact hthrough hq hnot

/-- A turn that fails leaves directories at most. -/
theorem grows_of_error {why : KeystoreFailure}
    (hrun : (p.provisionOne spec : StateM Host _).run h = (.error why, h')) :
    h.disk.Grows h'.disk := by
  rcases draws_or_stores hrun with
    ⟨entropy, rfl⟩ | ⟨der, entropy, stored, hstored, hfails⟩
  · exact Disk.Grows.refl _
  · obtain ⟨why', rfl⟩ := hfails why rfl
    exact Store.grows_of_write_error (h := { h with entropy }) hstored

/-- When a turn has generated, its keystore stands at its path. -/
theorem keystore_of_generated {o : Outcome}
    (hrun : (p.provisionOne spec : StateM Host _).run h = (.ok o, h'))
    (hstatus : o.status = .generated) :
    o = ⟨spec.commonName, p.pathOf spec, .generated⟩
      ∧ ∃ der, ((p.newBundle spec.commonName h.clock).run h.entropy).1 = .ok der
        ∧ h'.disk.get? o.path = .ok (.file der) := by
  rcases provisionOne_eq_ok hrun with hskips |
    ⟨built, place, der, hmade, hgenerates⟩
  · rw [hskips.outcome] at hstatus
    cases hstatus
  · refine ⟨hgenerates.outcome, der, hmade, ?_⟩
    rw [hgenerates.outcome]
    exact Disk.get?_eq_ok_iff.mpr
      ⟨place, hgenerates.find, by rw [hgenerates.node, if_pos rfl]⟩

end Plan

-- ============================================================ whole runs

namespace Ledger

variable {p : Plan} {before d d' : Disk} {outcomes : List Outcome}

/-- The books stay in order when directories are made without a report. -/
theorem grow (hledger : Ledger p before outcomes d) (hgrows : d.Grows d') :
    Ledger p before outcomes d' := by
  have howner (place : Place) :
      owner? d' outcomes place = owner? d outcomes place :=
    owner?_congr (fun o ho => hledger.find_of_keeps hgrows.keeps ho) place
  refine ⟨hledger.keeps.trans hgrows.keeps, hledger.asked, fun o ho => ?_,
    fun {place o} h => ?_, fun {place} h => ?_⟩
  · obtain ⟨place, hfind, htaken⟩ := hledger.leads o ho
    exact ⟨place, hgrows.keeps.find hfind, hgrows.keeps.taken htaken⟩
  · rw [howner] at h
    obtain ⟨content, hfile, hkeystore⟩ := hledger.owned h
    exact ⟨content, hgrows.node_of_isSome hfile, hkeystore⟩
  · rw [howner] at h
    rcases hledger.unowned h with hsame | ⟨hfree, hdirectory⟩
    · rcases hgrows.node place with hsame' | ⟨hfree', hnew⟩
      · exact Or.inl (hsame'.trans hsame)
      · exact Or.inr ⟨hsame.symm.trans hfree', hnew⟩
    · exact Or.inr ⟨hfree, hgrows.node_of_isSome hdirectory⟩

end Ledger

namespace Plan

variable {p : Plan} {r : Reporter} {specs : List IdentitySpec} {h : Host}
  {a : Account}

namespace Runs

/-- The books of a run are in order wherever it stops. -/
theorem ledger {before : Disk} {earlier : List Outcome}
    (ha : p.Runs r specs h a) (hledger : Ledger p before earlier h.disk) :
    Ledger p before (earlier ++ a.outcomes) a.after.disk := by
  induction ha generalizing earlier with
  | done h =>
      rw [Account.outcomes, List.map_nil, List.append_nil]
      exact hledger
  | fails turn =>
      rw [Account.outcomes, List.map_nil, List.append_nil]
      exact hledger.grow (grows_of_error turn)
  | @reports spec rest h told o a turn further ih =>
      obtain ⟨hledger, -⟩ := hledger.turn turn
      rw [← r.disk_tell o told] at hledger
      have hrest := ih hledger
      rw [List.append_assoc] at hrest
      exact hrest

/-- A run takes nothing away. -/
theorem keeps (ha : p.Runs r specs h a) : h.disk.Keeps a.after.disk := by
  induction ha with
  | done h => exact Disk.Keeps.refl _
  | fails turn => exact keeps_provisionOne turn
  | reports turn further ih =>
      rw [r.disk_tell] at ih
      exact (keeps_provisionOne turn).trans ih

/-- The directories that a run makes lie on the ways of the identities that
it has come to. -/
theorem through (ha : p.Runs r specs h a) {q : Place}
    (hq : a.after.disk.node? q = some .directory)
    (hnot : h.disk.node? q ≠ some .directory) :
    ∃ spec ∈ specs.take (a.notices.length + 1),
      a.after.disk.Through (p.pathOf spec) q := by
  induction ha with
  | done h => exact absurd hq hnot
  | fails turn =>
      exact ⟨_, List.mem_cons_self, through_provisionOne turn hq hnot⟩
  | @reports spec rest h told o a turn further ih =>
      rw [r.disk_tell] at ih
      by_cases htold : told.disk.node? q = some .directory
      · -- made in the first turn, and still on the same way
        have hkeeps := further.keeps
        rw [r.disk_tell] at hkeeps
        exact ⟨spec, List.mem_cons_self,
          (through_provisionOne turn htold hnot).of_keeps hkeeps⟩
      · obtain ⟨spec', hspec, hthrough⟩ := ih hq htold
        exact ⟨spec', List.mem_cons_of_mem _ hspec, hthrough⟩

end Runs

/-- Where a run gets to. It is done with `k` identities from the front of
the plan, reports each of them and no other, and succeeds if these are all;
otherwise it has failed at the next one, whatever stands behind that. A
keystore that is reported as new stands at its path when it is reported. The
run takes nothing away, all files that it makes or changes are at the paths
of such keystores, and all directories that it makes are on the ways of the
identities that it has come to. What is listed in the end is what is
reported on the way. -/
theorem account_progress (p : Plan) (r : Reporter) (h : Host) :
    let a := p.account r h
    let k := a.notices.length
    (p.provisionEach r.tell : StateM Host _).run h = (a.result, a.after)
    ∧ k ≤ p.identities.length
    ∧ a.notices.map (fun n => (n.outcome.commonName, n.outcome.path))
      = (p.identities.take k).map p.named
    ∧ (a.result = .ok () ↔ k = p.identities.length)
    ∧ (∀ f, a.result = .error f →
      (∃ spec, p.identities[k]? = some spec
        ∧ f.message = "Failed to provision keystore for " ++ spec.commonName
          ++ ": " ++ f.why.message)
      ∧ ∀ later, Plan.account { p with
          identities := p.identities.take (k + 1) ++ later } r h = a)
    ∧ (∀ n ∈ a.notices, n.outcome.status = .generated →
      ∃ content b, n.host.disk.get? n.outcome.path = .ok (.file content)
        ∧ Bundle.unlock content p.password = .ok b
        ∧ b.BelongsTo n.outcome.commonName)
    ∧ h.disk.Keeps a.after.disk
    ∧ (∀ place content, a.after.disk.node? place = some (.file content) →
      h.disk.node? place ≠ some (.file content) →
      ∃ n ∈ a.notices, n.outcome.status = .generated
        ∧ a.after.disk.find n.outcome.path = .ok place)
    ∧ (∀ place, a.after.disk.node? place = some .directory →
      h.disk.node? place ≠ some .directory →
      ∃ spec ∈ p.identities.take (k + 1),
        a.after.disk.Through (p.pathOf spec) place)
    ∧ (p.provision : StateM Host _).run h
      = let b := p.account .silent h
        (b.result.map fun () => b.notices.map (·.outcome), b.after) := by
  intro a k
  have ha := runs_account p r h
  have hledger := ha.ledger (Ledger.nil p h.disk)
  rw [List.nil_append] at hledger
  refine ⟨ha.run_provisionAll, ha.length_notices_le, ?_,
    ha.result_eq_ok_iff, fun f hf => ⟨?_, fun later => ?_⟩,
    fun n hn hstatus => ?_, ha.keeps, fun place content hfile hnot => ?_,
    fun place hq hnot => ha.through hq hnot, run_provision_eq p h⟩
  · have hnamed := ha.named_outcomes
    rw [Account.outcomes, List.map_map] at hnamed
    exact hnamed
  · obtain ⟨spec, hspec, hname⟩ := ha.result_eq_error hf
    exact ⟨spec, hspec, by rw [← hname]; rfl⟩
  · exact account_eq ((ha.cut hf later).other_identities _)
  · obtain ⟨spec, -, before, hturn⟩ := ha.turn_of_mem hn
    obtain ⟨ho, der, hmade, hfile⟩ := keystore_of_generated hturn hstatus
    obtain ⟨b, hunlock, hbelongs⟩ := isKeystore_of_newBundle hmade
    rw [ho]
    exact ⟨der, b, by rw [← ho]; exact hfile, hunlock, hbelongs⟩
  · obtain ⟨o, howner⟩ :
        ∃ o, owner? a.after.disk a.outcomes place = some o := by
      refine Option.ne_none_iff_exists'.mp fun hnone => ?_
      rcases hledger.unowned hnone with hsame | ⟨-, hdirectory⟩
      · exact hnot (hsame.symm.trans hfile)
      · rw [hfile] at hdirectory
        cases hdirectory
    obtain ⟨ho, hstatus, hfind⟩ := mem_of_owner? howner
    obtain ⟨n, hn, rfl⟩ := List.mem_map.mp ho
    exact ⟨n, hn, hstatus, hfind⟩

end Plan
end TlsKeystore
