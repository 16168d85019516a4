/-
What the commands say about each other's work.

# Configurations

The configuration of a path is the usual one where nothing is there, and
otherwise what the text of the file there is read as (`Configures`). There
may be none, and then nothing is generated, and the machine is left as it
was (`run_generate_of_error`).

# Generating, and looking at it

With a configuration, generating is a run of its plan, and what is printed
is one line for each report (`Plan.Runs.printed`). A keystore that is
reported as new holds a fit key and a certificate that this key has signed
for the identity, so it opens and has a summary that ends well
(`Plan.Runs.opened_of_generated`). All that is left for `inspect` to agree
on with `generate` is the password, and it does wherever that is given, or
stands in the environment, or is the usual one (`inspectPassword_eq`). The
two are put together in `inspect_generate`.
-/
import TlsKeystore.CommandLine
import TlsKeystore.Proofs.Progress

namespace TlsKeystore

-- =============================================================== printing

/-- The last line of a summary with a key that matches. -/
theorem Summary.text_of_keyMatches {s : Summary} (h : s.keyMatches = true) :
    ∃ shown, s.text = shown ++ "key matches cert: true" := by
  have hlast : "key matches cert: " ++ toString true
      = "key matches cert: true" := rfl
  rw [text, h, hlast]
  simp only [String.intercalate_cons_cons, String.intercalate_singleton,
    ← String.append_assoc]
  exact ⟨_, rfl⟩

namespace Plan

variable {p : Plan} {spec : IdentitySpec} {specs : List IdentitySpec}
  {h : Host} {a : Account}

/-- Reporting by printing a line. -/
def Reporter.lines : Reporter :=
  ⟨fun o => MonadHost.print (o.line ++ "\n"), fun _ _ => rfl⟩

/-- The lines of the notices of an account. -/
def Account.lines (a : Account) : String :=
  String.join (a.notices.map (·.outcome.line ++ "\n"))

/-- A run prints a line for each of its reports, and no more. -/
theorem Runs.printed (ha : p.Runs .lines specs h a) :
    a.after.printed = h.printed ++ a.lines := by
  generalize hr : Reporter.lines = r at ha
  induction ha with
  | done h => simp [Account.lines]
  | fails turn => simpa [Account.lines] using printed_provisionOne turn
  | @reports spec rest h told o a turn further ih =>
      subst hr
      have htold : ((Reporter.lines.tell o).run told).2.printed
          = h.printed ++ (o.line ++ "\n") :=
        congrArg (· ++ _) (printed_provisionOne turn)
      rw [ih, htold]
      simp [Account.lines, String.append_assoc]

-- ============================================================ the keystores

/-- What is found at the path of a keystore that is reported as new. -/
theorem Runs.opened_of_generated {r : Reporter} (ha : p.Runs r specs h a)
    {n : Notice} (hn : n ∈ a.notices)
    (hstatus : n.outcome.status = .generated) :
    ∃ spec ∈ specs, n.outcome = ⟨spec.commonName, p.pathOf spec, .generated⟩
      ∧ ∃ content b, n.host.disk.content n.outcome.path = .ok content
        ∧ Bundle.unlock content p.password = .ok b
        ∧ (∃ certificate, Certificate.parse b.certificate = .ok certificate
          ∧ certificate.Names p.subject spec.commonName)
        ∧ ∃ s, b.summary = .ok s ∧ s.keyMatches = true := by
  obtain ⟨spec, hspec, before, hturn⟩ := ha.turn_of_mem hn
  obtain ⟨ho, der, hmade, hfile⟩ := keystore_of_generated hturn hstatus
  obtain ⟨k, certificate, random, hfit, hsign, hunlock⟩ :=
    unlock_of_newBundle hmade
  have hcontent : n.host.disk.content n.outcome.path = .ok der := by
    rw [Disk.content, hfile]
  obtain ⟨signed, signature, -, -, -, hparse⟩ :=
    CertificateTerms.parse_selfSign hsign
  exact ⟨spec, hspec, ho, der, _, hcontent, hunlock,
    ⟨_, hparse, CertificateTerms.names_written ..⟩,
    summary_of_selfSign hfit hsign spec.commonName⟩

end Plan

namespace CommandLine

-- ========================================================= configurations

/-- The text of a file. -/
def textOf (d : Disk) (path : String) : Except FileError String :=
  (d.content path).bind fun octets =>
    match Utf8.decode? octets with
    | some s => .ok s
    | none => .error ⟨.readFile, path, .notText⟩

theorem run_readText (path : String) (h : Host) :
    (readText path : StateM Host _).run h = (textOf h.disk path, h) := rfl

/-- What is made of the path of a configuration. -/
def configured (d : Disk) (path : String) : Except LoadFailure Config :=
  if d.pathExists path then
    match textOf d path with
    | .error why => .error (.file why)
    | .ok s => (Config.ofToml s).mapError .text
  else .ok .standard

/-- The configuration that a path gives on a disk: the usual one if nothing
is there, else the one that the text of the file is. -/
inductive Configures (d : Disk) (path : String) : Config → Prop where
  | absent (hnone : d.pathExists path = false) : Configures d path .standard
  | said {octets : Bytes} {s : String} {c : Config}
      (hcontent : d.content path = .ok octets)
      (htext : Utf8.decode? octets = some s)
      (hconfig : Config.ofToml s = .ok c) : Configures d path c

variable {d : Disk} {path s : String} {octets : Bytes} {c : Config}

/-- A file that has a content is there. -/
theorem pathExists_of_content (hcontent : d.content path = .ok octets) :
    d.pathExists path = true := by
  unfold Disk.content at hcontent
  unfold Disk.pathExists
  split at hcontent
  · cases hcontent
  · cases hcontent
  · next hnode =>
      rw [hnode]
      rfl

theorem textOf_eq_ok_iff : textOf d path = .ok s
    ↔ ∃ octets, d.content path = .ok octets
      ∧ Utf8.decode? octets = some s := by
  unfold textOf
  cases d.content path with
  | error why => simp [Except.bind]
  | ok octets => cases htext : Utf8.decode? octets <;> simp [Except.bind, htext]

/-- A text decides what is made of the path that it stands at. -/
theorem configured_of_content (hcontent : d.content path = .ok octets)
    (htext : Utf8.decode? octets = some s) :
    configured d path = (Config.ofToml s).mapError .text := by
  rw [configured, if_pos (pathExists_of_content hcontent),
    textOf_eq_ok_iff.mpr ⟨octets, hcontent, htext⟩]

theorem configured_eq_ok_iff :
    configured d path = .ok c ↔ Configures d path c := by
  constructor
  · intro h
    unfold configured at h
    split at h
    · split at h
      · cases h
      · next s htext =>
          obtain ⟨octets, hcontent, htext⟩ := textOf_eq_ok_iff.mp htext
          exact .said hcontent htext (mapError_eq_ok_iff.mp h)
    · next habsent =>
        cases h
        exact .absent (Bool.eq_false_of_not_eq_true habsent)
  · rintro (habsent | ⟨hcontent, htext, hconfig⟩)
    · rw [configured, habsent]
      rfl
    · rw [configured_of_content hcontent htext, hconfig]
      rfl

/-- Loading a configuration changes nothing. -/
theorem run_loadConfig (path : String) (env : Option String) (h : Host) :
    (loadConfig path env : StateM Host _).run h
      = ((configured h.disk path).map (·.withPassword env), h) := by
  rw [loadConfig, configured, Host.run_bind, Host.run_pathExists]
  dsimp only
  cases h.disk.pathExists path with
  | false => rfl
  | true =>
      rw [if_pos rfl, if_pos rfl, Host.run_bind, run_readText]
      cases textOf h.disk path <;> rfl

-- ============================================================= generating

variable {config : String} {skipExisting : Bool} {env given : Option String}
  {h : Host}

/-- Without a configuration nothing is done. -/
theorem run_generate_of_error {why : LoadFailure}
    (hwhy : configured h.disk config = .error why) :
    (generate config skipExisting env : StateM Host _).run h
      = (.error (.config why), h) := by
  rw [generate, Host.run_bind, run_loadConfig, hwhy]
  rfl

/-- With one, its plan is run, and every report is a line. -/
theorem run_generate_of_configures (hc : Configures h.disk config c) :
    (generate config skipExisting env : StateM Host _).run h
      = let a := ((c.withPassword env).plan skipExisting).account .lines h
        (a.result.mapError .provision, a.after) := by
  have hruns := Plan.runs_account ((c.withPassword env).plan skipExisting)
    .lines h
  have hrun := hruns.run_provisionAll
  rw [generate, Host.run_bind, run_loadConfig, configured_eq_ok_iff.mpr hc]
  show (Plan.provisionAll _ Plan.Reporter.lines.tell _ >>= _ :
    StateM Host _).run h = _
  rw [Host.run_bind]
  dsimp only
  rw [hrun]
  rfl

/-- The password of the environment takes the place of the one of the
configuration, and of nothing else. -/
theorem withPassword_eq (c : Config) (env : Option String) :
    c.withPassword env
      = { c with password := (Config.nonEmpty env).getD c.password } := by
  unfold Config.withPassword
  cases Config.nonEmpty env <;> rfl

-- ============================================================= inspecting

/-- A keystore that opens to something with a summary is shown. -/
theorem run_inspect {der : Bytes} {b : OpenedBundle} {s : Summary}
    (hcontent : h.disk.content path = .ok der)
    (hunlock : Bundle.unlock der (Config.inspectPassword given env) = .ok b)
    (hsummary : b.summary = .ok s) :
    (inspect path given env : StateM Host _).run h
      = (.ok (), { h with printed := h.printed ++ (s.text ++ "\n") }) := by
  have hread : (MonadHost.readOctets path : StateM Host _).run h
      = (h.disk.content path, h) := rfl
  rw [inspect, Host.run_bind, hread, hcontent]
  dsimp only
  rw [hunlock]
  dsimp only
  rw [hsummary]
  rfl

/-- Looking into a keystore takes the password that it was made with if that is
given, and also if none is given where it is from the environment or is the
usual one. -/
theorem inspectPassword_eq {env' : Option String}
    (h : given = some ((Config.nonEmpty env).getD c.password)
      ∨ given = none ∧ env' = env ∧ (Config.nonEmpty env ≠ none
        ∨ c.password = Config.defaultPassword)) :
    Config.inspectPassword given env'
      = (Config.nonEmpty env).getD c.password := by
  unfold Config.inspectPassword
  rcases h with rfl | ⟨rfl, rfl, hset | hdefault⟩
  · rfl
  · obtain ⟨password, hpassword⟩ := Option.ne_none_iff_exists'.mp hset
    rw [hpassword]
    rfl
  · rw [hdefault]
    rfl

-- ==================================================== one and the other

/-- Generating and looking into what was generated agree. Whatever the file of
the configuration gives, with the password from the environment going before
the one of the configuration, every keystore is, as it is reported as new, at
its path, opens under that password, and its certificate names the identity
with the subject of the configuration. Looking into it then, given that
password, shows a summary that ends well; and so it does without being given
one in the same environment, unless the password was in the file only.
Where the file gives no configuration, that is the error, and nothing is
printed or done to the disk. -/
theorem inspect_generate (config : String) (skipExisting : Bool)
    (env : Option String) (h : Host) :
    (∀ c, Configures h.disk config c →
      let password := (Config.nonEmpty env).getD c.password
      let a := ((c.withPassword env).plan skipExisting).account .lines h
      (generate config skipExisting env : StateM Host _).run h
        = (a.result.mapError .provision, a.after)
      ∧ a.after.printed = h.printed ++ a.lines
      ∧ ∀ n ∈ a.notices, n.outcome.status = .generated →
        ∃ spec ∈ c.identities, n.outcome
          = ⟨spec.commonName, Path.resolve c.workdir spec.outputPath,
            .generated⟩
        ∧ ∃ content b, n.host.disk.content n.outcome.path = .ok content
          ∧ Bundle.unlock content password = .ok b
          ∧ (∃ certificate, Certificate.parse b.certificate = .ok certificate
            ∧ certificate.Names
              ⟨c.orgUnit, c.organization, c.locality, c.state, c.country⟩
              spec.commonName)
          ∧ ∃ s shown, b.summary = .ok s
            ∧ s.text = shown ++ "key matches cert: true"
            ∧ ∀ h' : Host, h'.disk = n.host.disk → ∀ given env',
              (given = some password
                ∨ given = none ∧ env' = env ∧ (Config.nonEmpty env ≠ none
                  ∨ c.password = Config.defaultPassword)) →
              (inspect n.outcome.path given env' : StateM Host _).run h'
                = (.ok (), { h' with
                    printed := h'.printed ++ (s.text ++ "\n") }))
    ∧ (∀ octets s why, h.disk.content config = .ok octets →
      Utf8.decode? octets = some s → Config.ofToml s = .error why →
      (generate config skipExisting env : StateM Host _).run h
        = (.error (.config (.text why)), h))
    ∧ ((∀ c, ¬ Configures h.disk config c) →
      ∃ why, (generate config skipExisting env : StateM Host _).run h
        = (.error (.config why), h)) := by
  refine ⟨fun c hc => ?_, fun octets s why hcontent htext hwrong => ?_,
    fun hnone => ?_⟩
  · intro password a
    have ha := Plan.runs_account ((c.withPassword env).plan skipExisting)
      .lines h
    refine ⟨run_generate_of_configures hc, ha.printed, fun n hn hstatus => ?_⟩
    obtain ⟨spec, hspec, ho, content, b, hcontent, hunlock, hcertificate, s,
      hsummary, hmatches⟩ := ha.opened_of_generated hn hstatus
    obtain ⟨shown, hshown⟩ := Summary.text_of_keyMatches hmatches
    rw [withPassword_eq] at hspec ho hunlock hcertificate
    refine ⟨spec, hspec, ho, content, b, hcontent, hunlock, hcertificate, s,
      shown, hsummary, hshown, fun h' hdisk given env' hgiven => ?_⟩
    refine run_inspect (hdisk ▸ hcontent) ?_ hsummary
    rw [inspectPassword_eq hgiven]
    exact hunlock
  · refine run_generate_of_error ?_
    rw [configured_of_content hcontent htext, hwrong]
    rfl
  · cases hwhy : configured h.disk config with
    | error why => exact ⟨why, run_generate_of_error hwhy⟩
    | ok c => exact absurd (configured_eq_ok_iff.mp hwhy) (hnone c)

end CommandLine
end TlsKeystore
