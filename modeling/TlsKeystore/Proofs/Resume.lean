/-
Running a plan again.

Whatever a run has reported is there when it ends, and stays there. So on a
run that keeps what exists, each of these identities is found at its path
and skipped: as long as nothing but such identities has been come to,
nothing has changed (`runs_of_pathExists`, by induction on the identities).
A run that was broken off goes on where it stopped, and after one that has
succeeded there is nothing left to do (`account_again`).
-/
import TlsKeystore.Proofs.Progress

namespace TlsKeystore.Plan

variable {p : Plan} {r : Reporter} {specs : List IdentitySpec} {h : Host}
  {a : Account}

/-- The outcome of an identity whose keystore is kept. -/
def kept (p : Plan) (spec : IdentitySpec) : Outcome :=
  ⟨spec.commonName, p.pathOf spec, .skipped⟩

/-- Identities whose paths all lead to something are all skipped where
existing keystores are kept, and nothing changes meanwhile. -/
theorem runs_of_pathExists (r : Reporter) (specs : List IdentitySpec) (h : Host)
    (hskip : p.skipExisting = true)
    (hseen : ∀ spec ∈ specs, h.disk.pathExists (p.pathOf spec) = true) :
    ∃ a, p.Runs r specs h a ∧ a.result = .ok ()
      ∧ a.notices.map (fun n => (n.outcome, n.host.disk))
        = specs.map (fun spec => (p.kept spec, h.disk))
      ∧ a.after.disk = h.disk := by
  induction specs generalizing h with
  | nil => exact ⟨_, .done h, rfl, rfl, rfl⟩
  | cons spec rest ih =>
      have hturn := run_provisionOne_of_pathExists hskip ⟨spec, h⟩
        (hseen spec List.mem_cons_self)
      have hdisk := r.disk_tell (p.kept spec) h
      obtain ⟨a, ha, hok, hnotices, hafter⟩ :=
        ih ((r.tell (p.kept spec)).run h).2 fun other hother => by
          rw [hdisk]
          exact hseen other (List.mem_cons_of_mem _ hother)
      rw [hdisk] at hnotices hafter
      refine ⟨_, .reports hturn ha, hok, ?_, hafter⟩
      rw [List.map_cons, List.map_cons, hnotices]
      rfl

/-- What a run has reported is there in the end. -/
theorem Runs.pathExists (ha : p.Runs r specs h a) :
    ∀ spec ∈ specs.take a.notices.length,
      a.after.disk.pathExists (p.pathOf spec) = true := by
  intro spec hspec
  have hledger := ha.ledger (Ledger.nil p h.disk)
  obtain ⟨o, ho, hnamed⟩ : ∃ o ∈ a.outcomes,
      (o.commonName, o.path) = p.named spec := by
    rw [← List.mem_map, ha.named_outcomes]
    exact List.mem_map_of_mem hspec
  have hpath : o.path = p.pathOf spec := congrArg Prod.snd hnamed
  rw [← hpath]
  exact Disk.pathExists_iff.mpr (hledger.leads o ho)

/-- A plan that keeps what exists. -/
def keeping (p : Plan) : Plan := { p with skipExisting := true }

/-- A run of the same plan that keeps what exists, after one that has
reported `k` identities and wherever that has stopped, begins with reports
that these `k` are skipped, in their order, and the disk is the same all the
while. If the first has gone through, there is no more to the second. -/
theorem account_again (p : Plan) (r r' : Reporter) (h : Host)
    (entropy : Entropy) (clock : Instant) (printed : String) :
    let a := p.account r h
    let k := a.notices.length
    let h' : Host := ⟨a.after.disk, entropy, clock, printed⟩
    let again := p.keeping.account r' h'
    k ≤ p.identities.length
    ∧ (again.notices.take k).map (fun n => (n.outcome, n.host.disk))
      = (p.identities.take k).map (fun spec => (p.kept spec, a.after.disk))
    ∧ (a.result = .ok () →
      again.result = .ok () ∧ again.notices.length = p.identities.length
      ∧ again.after.disk = a.after.disk
      ∧ ∃ after, (p.keeping.provision : StateM Host _).run h'
          = (.ok (p.identities.map p.kept), after)
        ∧ after.disk = a.after.disk) := by
  intro a k h' again
  have ha := runs_account p r h
  have hle := ha.length_notices_le
  -- the first `k` identities are skipped, and then comes what comes
  have hfirst (r' : Reporter) := runs_of_pathExists (p := p.keeping) r'
    (p.identities.take k) h' rfl ha.pathExists
  obtain ⟨b, hb, hok, hnotices, hafter⟩ := hfirst r'
  obtain ⟨c, hc⟩ := exists_runs p.keeping r' (p.identities.drop k) b.after
  have hagain := hb.append hok hc
  rw [List.take_append_drop] at hagain
  have hagain : again = _ := account_eq hagain
  have hlength : b.notices.length = k := by
    have hlengths := congrArg List.length hnotices
    rw [List.length_map, List.length_map, List.length_take,
      Nat.min_eq_left hle] at hlengths
    exact hlengths
  refine ⟨hle, ?_, fun hdone => ?_⟩
  · rw [hagain]
    dsimp only
    rw [← hlength, List.take_left, hlength]
    exact hnotices
  · have hall : p.identities.take k = p.identities :=
      List.take_of_length_le (ha.result_eq_ok_iff.mp hdone).ge
    have hsecond := hfirst .silent
    rw [hall] at hb hsecond
    obtain ⟨c, hc, hcok, hcnotices, hcafter⟩ := hsecond
    have houtcomes : c.outcomes = p.identities.map p.kept := by
      have hfst := congrArg (List.map Prod.fst) hcnotices
      rw [List.map_map, List.map_map] at hfst
      exact hfst
    have hagain : again = b := account_eq hb
    rw [hagain]
    refine ⟨hok, hlength.trans (ha.result_eq_ok_iff.mp hdone), hafter,
      c.after, ?_, hcafter⟩
    rw [run_provision_eq, account_eq hc, hcok, houtcomes]
    rfl

end TlsKeystore.Plan
