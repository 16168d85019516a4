/-
What a run tells while it goes, and how it goes on from there.

# The account of a run

Whoever has an outcome reported may do with it what he likes, as long as he
leaves the disk alone (`Reporter`). So that nothing has to be believed about
when he is told what, a run is watched: next to telling, every report is
noted down with the machine as it is at that moment (`noted`). The account
of a run is its result, these notices, and the machine in the end
(`Plan.account`).

# Turn by turn

`Runs` says how accounts come about: there is nothing to do, or the first
turn fails, or it succeeds, is reported, and the rest is run from there.
Every run has an account of this kind and no other (`runs_account`), it is
the account of the run without the watching, too (`Runs.run_provisionAll`),
and all else is by induction on it: the notices are for the identities in
their order, one for each up to the first failure.
-/
import TlsKeystore.Proofs.Outcomes

namespace TlsKeystore

namespace Plan

-- =============================================================== accounts

/-- A way to report outcomes that leaves the disk alone. -/
structure Reporter where
  tell : Outcome → StateM Host Unit
  disk_tell : ∀ o h, ((tell o).run h).2.disk = h.disk

/-- Not to report at all. -/
def Reporter.silent : Reporter := ⟨fun _ => pure (), fun _ _ => rfl⟩

/-- An outcome that was reported, and the machine as it was told. -/
structure Notice where
  outcome : Outcome
  host : Host

/-- Reports an outcome and notes it down. -/
def noted (r : Reporter) (o : Outcome) :
    StateT (List Notice) (StateM Host) Unit := do
  let h ← StateT.lift (get : StateM Host Host)
  modify (· ++ [⟨o, h⟩])
  StateT.lift (r.tell o)

/-- What a run comes to, with all that it reports on its way. -/
structure Account where
  result : Except ProvisionFailure Unit
  notices : List Notice
  after : Host

/-- The account of a watched run. -/
def account (p : Plan) (r : Reporter) (h : Host) : Account :=
  let ((result, notices), after) :=
    ((p.provisionEach (noted r) :
      StateT (List Notice) (StateM Host) _).run []).run h
  ⟨result, notices, after⟩

/-- The outcomes that an account tells of. -/
def Account.outcomes (a : Account) : List Outcome :=
  a.notices.map (·.outcome)

-- =========================================================== turn by turn

variable {p : Plan} {r : Reporter} {spec : IdentitySpec}
  {specs rest : List IdentitySpec} {h : Host} {a : Account}

/-- How an account comes about, turn by turn. -/
inductive Runs (p : Plan) (r : Reporter) :
    List IdentitySpec → Host → Account → Prop where
  | done (h : Host) : Runs p r [] h ⟨.ok (), [], h⟩
  | fails {spec : IdentitySpec} {rest : List IdentitySpec} {h after : Host}
      {why : KeystoreFailure}
      (turn : (p.provisionOne spec : StateM Host _).run h
        = (.error why, after)) :
      Runs p r (spec :: rest) h ⟨.error ⟨spec.commonName, why⟩, [], after⟩
  | reports {spec : IdentitySpec} {rest : List IdentitySpec} {h told : Host}
      {o : Outcome} {a : Account}
      (turn : (p.provisionOne spec : StateM Host _).run h = (.ok o, told))
      (further : Runs p r rest ((r.tell o).run told).2 a) :
      Runs p r (spec :: rest) h { a with notices := ⟨o, told⟩ :: a.notices }

/-- Every run comes about. -/
theorem exists_runs (p : Plan) (r : Reporter) (specs : List IdentitySpec)
    (h : Host) : ∃ a, p.Runs r specs h a := by
  induction specs generalizing h with
  | nil => exact ⟨_, .done h⟩
  | cons spec rest ih =>
      generalize hturn : (p.provisionOne spec : StateM Host _).run h = t
      obtain ⟨result, told⟩ := t
      cases result with
      | error why => exact ⟨_, .fails hturn⟩
      | ok o =>
          obtain ⟨a, ha⟩ := ih ((r.tell o).run told).2
          exact ⟨_, .reports hturn ha⟩

namespace Runs

/-- A watched run goes as it comes about, and adds its notices to those that
are there. -/
theorem run_noted (ha : p.Runs r specs h a) (earlier : List Notice) :
    ((p.provisionAll (noted r) specs :
      StateT (List Notice) (StateM Host) _).run earlier).run h
      = ((a.result, earlier ++ a.notices), a.after) := by
  induction ha generalizing earlier with
  | done h =>
      rw [List.append_nil]
      rfl
  | fails turn =>
      rw [List.append_nil]
      exact run_provisionAll_of_error _ _ earlier turn
  | @reports spec rest h told o a turn further ih =>
      rw [run_provisionAll_of_ok _ _ earlier turn]
      show ((p.provisionAll (noted r) rest).run (earlier ++ [⟨o, told⟩])).run
        ((r.tell o).run told).2 = _
      rw [ih, List.append_assoc]
      rfl

/-- A run that is not watched goes just as well. -/
theorem run_provisionAll (ha : p.Runs r specs h a) :
    (p.provisionAll r.tell specs : StateM Host _).run h
      = (a.result, a.after) := by
  induction ha with
  | done h => rfl
  | fails turn =>
      rw [provisionAll, Host.run_bind, turn]
      rfl
  | reports turn further ih =>
      rw [provisionAll, Host.run_bind, turn]
      exact ih

/-- Turns that are listed go as if nobody was told. -/
theorem run_listed (ha : p.Runs .silent specs h a) (earlier : List Outcome) :
    (p.listed specs earlier).run h
      = ((a.result, earlier ++ a.outcomes), a.after) := by
  generalize hr : Reporter.silent = r at ha
  induction ha generalizing earlier with
  | done h =>
      rw [Account.outcomes, List.map_nil, List.append_nil]
      rfl
  | fails turn =>
      rw [Account.outcomes, List.map_nil, List.append_nil]
      exact run_listed_of_error turn
  | @reports spec rest h told o a turn further ih =>
      subst hr
      have hrest := ih (earlier ++ [o])
      rw [List.append_assoc] at hrest
      rw [run_listed_of_ok turn]
      exact hrest

end Runs

/-- A run has the account that comes about. -/
theorem account_eq (ha : p.Runs r p.identities h a) : p.account r h = a := by
  unfold account provisionEach
  rw [ha.run_noted []]
  rfl

theorem runs_account (p : Plan) (r : Reporter) (h : Host) :
    p.Runs r p.identities h (p.account r h) := by
  obtain ⟨a, ha⟩ := exists_runs p r p.identities h
  rw [account_eq ha]
  exact ha

/-- What a run that nobody watches reports in the end. -/
theorem run_provision_eq (p : Plan) (h : Host) :
    (p.provision : StateM Host _).run h
      = ((p.account .silent h).result.map fun () =>
          (p.account .silent h).outcomes,
        (p.account .silent h).after) := by
  rw [run_provision, (runs_account p .silent h).run_listed []]
  rfl

-- =========================================================== how far it gets

namespace Runs

/-- The notices are for the identities, in their order. -/
theorem named_outcomes (ha : p.Runs r specs h a) :
    a.outcomes.map (fun o => (o.commonName, o.path))
      = (specs.take a.notices.length).map p.named := by
  induction ha with
  | done h => rfl
  | fails turn => rfl
  | reports turn further ih =>
      obtain ⟨-, hname, hpath⟩ := (Ledger.nil p _).turn turn
      simp only [Account.outcomes, List.map_cons, List.length_cons,
        List.take_succ_cons, hname, hpath] at ih ⊢
      rw [ih]
      rfl

/-- There are no more notices than identities. -/
theorem length_notices_le (ha : p.Runs r specs h a) :
    a.notices.length ≤ specs.length := by
  induction ha with
  | done h => exact Nat.le_refl _
  | fails turn => exact Nat.zero_le _
  | reports turn further ih => exact Nat.succ_le_succ ih

/-- A run succeeds if all identities are reported. -/
theorem result_eq_ok_iff (ha : p.Runs r specs h a) :
    a.result = .ok () ↔ a.notices.length = specs.length := by
  induction ha with
  | done h => simp
  | fails turn => simp
  | reports turn further ih => simpa using ih

/-- A run fails at the identity behind those that are reported. -/
theorem result_eq_error (ha : p.Runs r specs h a) {f : ProvisionFailure}
    (hf : a.result = .error f) :
    ∃ spec, specs[a.notices.length]? = some spec
      ∧ f.commonName = spec.commonName := by
  induction ha with
  | done h => cases hf
  | @fails spec rest h after why turn =>
      cases hf
      exact ⟨spec, rfl, rfl⟩
  | reports turn further ih => exact ih hf

/-- A run that fails has not looked at what comes behind the identity that it
fails at. -/
theorem cut (ha : p.Runs r specs h a) {f : ProvisionFailure}
    (hf : a.result = .error f) (later : List IdentitySpec) :
    p.Runs r (specs.take (a.notices.length + 1) ++ later) h a := by
  induction ha with
  | done h => cases hf
  | fails turn => exact .fails turn
  | reports turn further ih => exact .reports turn (ih hf)

/-- A turn is a matter of its own identity, and not of the others that the plan
names. -/
theorem other_identities (ha : p.Runs r specs h a)
    (others : List IdentitySpec) :
    Runs { p with identities := others } r specs h a := by
  induction ha with
  | done h => exact .done h
  | fails turn => exact .fails turn
  | reports turn further ih => exact .reports turn ih

/-- A run that succeeds is gone on with from where it ends. -/
theorem append {b : Account} (ha : p.Runs r specs h a)
    (hok : a.result = .ok ()) (hb : p.Runs r rest a.after b) :
    p.Runs r (specs ++ rest) h
      { b with notices := a.notices ++ b.notices } := by
  induction ha with
  | done h => exact hb
  | fails turn => cases hok
  | reports turn further ih => exact .reports turn (ih hok hb)

/-- A notice is of a turn that has succeeded. -/
theorem turn_of_mem (ha : p.Runs r specs h a) {n : Notice}
    (hn : n ∈ a.notices) :
    ∃ spec ∈ specs, ∃ before,
      (p.provisionOne spec : StateM Host _).run before
        = (.ok n.outcome, n.host) := by
  induction ha with
  | done h => cases hn
  | fails turn => cases hn
  | @reports spec rest h told o a turn further ih =>
      rcases List.mem_cons.mp hn with rfl | hn
      · exact ⟨spec, List.mem_cons_self, h, turn⟩
      · obtain ⟨spec', hspec, hturn⟩ := ih hn
        exact ⟨spec', List.mem_cons_of_mem _ hspec, hturn⟩

end Runs
end Plan
end TlsKeystore
