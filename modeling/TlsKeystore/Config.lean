/-
What a run is configured with.

A configuration has nine fields. `Config.fields` lists the text of each
scalar one beside its name, for the reader and the template alike, so that
neither can leave one out.
-/
import TlsKeystore.X509.Issue

namespace TlsKeystore

/-- A keystore to make: the name of its owner, and where it is written. -/
structure IdentitySpec where
  commonName : String
  outputPath : String
deriving DecidableEq, Repr

/-- What a run is configured with. -/
structure Config where
  workdir : String
  password : String
  skipExisting : Bool
  orgUnit : String
  organization : String
  locality : String
  state : String
  country : String
  identities : List IdentitySpec
deriving DecidableEq, Repr

namespace Config

/-- The password where none is given. -/
def defaultPassword : String := "changeit"

/-- The configuration where no file gives one. -/
def standard : Config where
  workdir := "."
  password := defaultPassword
  skipExisting := false
  orgUnit := SubjectTemplate.standard.orgUnit
  organization := SubjectTemplate.standard.organization
  locality := SubjectTemplate.standard.locality
  state := SubjectTemplate.standard.state
  country := SubjectTemplate.standard.country
  identities :=
    [⟨"auth-service", "auth-service/src/main/resources/tls/auth-keystore.p12"⟩,
      ⟨"data-service", "data-service/src/main/resources/tls/data-keystore.p12"⟩]

/-- The subject that all certificates of a run share. -/
def subject (c : Config) : SubjectTemplate :=
  ⟨c.orgUnit, c.organization, c.locality, c.state, c.country⟩

/-- A text from the environment, where it is set to something. -/
def nonEmpty (env : Option String) : Option String := env.filter (· != "")

/-- A password from the environment goes before the one of the file. -/
def withPassword (c : Config) (env : Option String) : Config :=
  match nonEmpty env with
  | some password => { c with password }
  | none => c

/-- The password for looking into a keystore: as given, else from the environment,
else the usual one. -/
def inspectPassword (given env : Option String) : String :=
  (given <|> nonEmpty env).getD defaultPassword

end Config
end TlsKeystore
