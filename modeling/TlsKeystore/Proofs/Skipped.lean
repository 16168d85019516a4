/-
What stands where a keystore is said to be kept.

A run looks whether a path leads to anything, not whether that is a file. So
an identity is skipped over a directory as well as over a keystore, and what
its report means is this (`skipped_account`): its path leads to a place, the
same one when it is reported and when the run is over, and that is either a
file both times or a directory both times. Since nothing is taken away, no
later turn can make the one into the other.

The directory may be the run's own. One that was not there before lies on
the way of an identity that has had its turn: what is known of a notice is
known from the run of the identities in front of it (`Runs.split`, by
induction on the turns).
-/
import TlsKeystore.Proofs.Resume

namespace TlsKeystore.Plan

variable {p : Plan} {r : Reporter} {spec : IdentitySpec}
  {specs : List IdentitySpec} {h h' : Host} {a : Account} {i : Nat} {n : Notice}

/-- A turn that is reported as skipped has found something, and has left the
disk alone. -/
theorem skips_of_skipped {o : Outcome}
    (hrun : (p.provisionOne spec : StateM Host _).run h = (.ok o, h'))
    (hskipped : o.status = .skipped) : p.Skips spec o h.disk h'.disk := by
  rcases provisionOne_eq_ok hrun with hskips | ⟨built, place, der, -, hgen⟩
  · exact hskips
  · rw [hgen.outcome] at hskipped
    cases hskipped

/-- A notice comes from the turn of its identity, after a run of all that
stand in front of it, and nothing is gone since. -/
theorem Runs.split (ha : p.Runs r specs h a) (hn : a.notices[i]? = some n) :
    ∃ spec b, specs[i]? = some spec ∧ p.Runs r (specs.take i) h b
      ∧ (p.provisionOne spec : StateM Host _).run b.after
        = (.ok n.outcome, n.host)
      ∧ n.host.disk.Keeps a.after.disk := by
  induction ha generalizing i with
  | done h => cases hn
  | fails turn => cases hn
  | @reports spec rest h told o a turn further ih =>
      cases i with
      | zero =>
          cases hn
          have hkeeps := further.keeps
          rw [r.disk_tell] at hkeeps
          exact ⟨spec, _, rfl, .done h, turn, hkeeps⟩
      | succ i =>
          obtain ⟨spec', b, hspec, hb, hturn, hkeeps⟩ := ih hn
          exact ⟨spec', _, hspec, .reports turn hb, hturn, hkeeps⟩

/-- What it means that an identity is reported as skipped. The run was asked
to keep what exists, and the path of the identity leads to one place from
the report to the end of the run. If there is no directory there, there is a
file, from the report to the end. If there is one, it stays, and either it
was there before the run or an identity of the plan that comes earlier goes
through it. -/
theorem skipped_account (p : Plan) (r : Reporter) (h : Host)
    (hn : (p.account r h).notices[i]? = some n)
    (hskipped : n.outcome.status = .skipped) :
    let after := (p.account r h).after.disk
    p.skipExisting = true
    ∧ (∃ spec, p.identities[i]? = some spec ∧ n.outcome = p.kept spec)
    ∧ ∃ place, n.host.disk.find n.outcome.path = .ok place
      ∧ after.find n.outcome.path = .ok place
      ∧ ((∃ seen last, n.host.disk.node? place = some (.file seen)
          ∧ after.node? place = some (.file last))
        ∨ n.host.disk.node? place = some .directory
          ∧ after.node? place = some .directory
          ∧ (h.disk.node? place = some .directory
            ∨ ∃ earlier ∈ p.identities.take i,
              n.host.disk.Through (p.pathOf earlier) place)) := by
  intro after
  obtain ⟨spec, b, hspec, hb, hturn, hkeeps⟩ := (runs_account p r h).split hn
  have hskips := skips_of_skipped hturn hskipped
  obtain ⟨place, hfind, htaken⟩ := Disk.pathExists_iff.mp hskips.seen
  -- the disk at the report is the one that the earlier turns have left
  rw [← hskips.disk] at hfind htaken
  have hpath : n.outcome.path = p.pathOf spec := by rw [hskips.outcome]
  rw [hpath]
  refine ⟨hskips.asked, ⟨spec, hspec, hskips.outcome⟩, place, hfind,
    hkeeps.find hfind, ?_⟩
  obtain ⟨node, hnode⟩ := Option.isSome_iff_exists.mp htaken
  cases node with
  | file seen =>
      obtain ⟨last, hlast⟩ := hkeeps.file hnode
      exact Or.inl ⟨seen, last, hnode, hlast⟩
  | directory =>
      refine Or.inr ⟨hnode, hkeeps.directory hnode, ?_⟩
      by_cases hbefore : h.disk.node? place = some .directory
      · exact Or.inl hbefore
      · rw [hskips.disk] at hnode ⊢
        obtain ⟨earlier, hearlier, hthrough⟩ := hb.through hnode hbefore
        exact Or.inr ⟨earlier, List.mem_of_mem_take hearlier, hthrough⟩

/-- A plan for one keystore at `d`, and to keep what exists. -/
def planAtD : Plan := ⟨[⟨"auth", "d"⟩], "changeit", .standard, ".", true⟩

/-- A machine with nothing but a directory `d`. -/
def hostWithD : Host :=
  ⟨⟨[(["d"], .directory)], []⟩, ⟨fun _ => 0, 0⟩, ⟨0⟩, ""⟩

/-- A keystore is said to be kept at `d`, and `d` is a directory all the
while. -/
theorem skipped_account_directory :
    ∃ n, (planAtD.account .silent hostWithD).notices[0]? = some n
      ∧ n.outcome = ⟨"auth", "./d", .skipped⟩
      ∧ n.host.disk.get? "./d" = .ok .directory
      ∧ (planAtD.account .silent hostWithD).after.disk.get? "./d"
        = .ok .directory := by
  obtain ⟨a, ha, -, hnotices, -⟩ := runs_of_pathExists (p := planAtD) .silent
    planAtD.identities hostWithD rfl (by decide)
  have haccount := account_eq ha
  obtain ⟨n, hlist, hn⟩ := List.map_eq_singleton_iff.mp hnotices
  obtain ⟨houtcome, hdisk⟩ := Prod.mk.inj hn
  have hname : n.outcome = ⟨"auth", "./d", .skipped⟩ := by
    rw [houtcome]
    decide
  have hmem : (planAtD.account .silent hostWithD).notices[0]? = some n := by
    rw [haccount, hlist]
    rfl
  have hseen : n.host.disk.node? ["d"] = some .directory := by
    rw [hdisk]
    rfl
  have hfound : n.host.disk.find "./d" = .ok ["d"] := by
    rw [hdisk]
    rfl
  obtain ⟨-, -, place, hfind, hafter, hnode⟩ := skipped_account planAtD .silent
    hostWithD hmem (by rw [hname])
  rw [hname] at hfind hafter
  rw [hfound] at hfind
  cases hfind
  refine ⟨n, hmem, hname, Disk.get?_eq_ok_iff.mpr ⟨_, hfound, hseen⟩, ?_⟩
  rcases hnode with ⟨seen, last, hfile, -⟩ | ⟨-, hlast, -⟩
  · rw [hseen] at hfile
    cases hfile
  · exact Disk.get?_eq_ok_iff.mpr ⟨_, hafter, hlast⟩

end TlsKeystore.Plan
