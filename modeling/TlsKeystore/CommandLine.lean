/-
Running the program.

`generate` puts the keystores of a configuration in place, `inspect` shows
what is in one, `cfg` writes a configuration to begin with. A run ends well,
or is refused: for its words, or for what went wrong.
-/
import TlsKeystore.CommandLine.Help
import TlsKeystore.Config.Reader
import TlsKeystore.Config.Template
import TlsKeystore.Provision
import TlsKeystore.Text.Encoding

namespace TlsKeystore.CommandLine

/-- Why there is no configuration. -/
inductive LoadFailure where
  | file (why : FileError)
  | text (why : ConfigFailure)
deriving DecidableEq, Repr

def LoadFailure.message : LoadFailure → String
  | .file why => why.message
  | .text why => why.message

/-- Why a command has failed. -/
inductive CommandFailure where
  | config (why : LoadFailure)
  | provision (why : ProvisionFailure)
  | file (why : FileError)
  | bundle (why : OpenFailure)
  | certificate (why : SummaryFailure)
deriving DecidableEq, Repr

def CommandFailure.message : CommandFailure → String
  | .config why => "Failed to load configuration: " ++ why.message
  | .provision why => why.message
  | .file why => why.message
  | .bundle why => "Failed to open keystore: " ++ why.message
  | .certificate why => "Failed to read certificate: " ++ why.message

/-- Why a run does not end well. -/
inductive Refusal where
  | usage (why : UsageError)
  | failure (why : CommandFailure)
deriving DecidableEq, Repr

namespace Refusal

/-- What a refusal says first on the error channel. -/
def message : Refusal → String
  | .usage why => "error: " ++ why.message
  | .failure why => "Error: " ++ why.message

/-- The exit code of a refusal. -/
def code : Refusal → Nat
  | .usage _ => 2
  | .failure _ => 1

end Refusal

-- =============================================================== commands

variable {m : Type → Type} [Monad m] [MonadHost m]

/-- The text of a file. -/
def readText (path : String) : m (Except FileError String) := do
  return (← MonadHost.readOctets path).bind fun octets =>
    match Utf8.decode? octets with
    | some s => .ok s
    | none => .error ⟨.readFile, path, .notText⟩

/-- The configuration of a file, or the usual one where there is no such file. -/
def loadConfig (path : String) (env : Option String) : m (Except LoadFailure Config) := do
  let config : Except LoadFailure Config ←
    if ← MonadHost.pathExists path then do
      match ← readText path with
      | .error why => pure (.error (.file why))
      | .ok s => pure ((Config.ofToml s).mapError .text)
    else pure (.ok .standard)
  return config.map (·.withPassword env)

/-- Puts the keystores of a configuration in place, with a line for each. -/
def generate (config : String) (skipExisting : Bool) (env : Option String) :
    m (Except CommandFailure Unit) := do
  match ← loadConfig config env with
  | .error why => return .error (.config why)
  | .ok c =>
    let report (o : Outcome) : m Unit := MonadHost.print (o.line ++ "\n")
    return (← (c.plan skipExisting).provisionEach report).mapError .provision

/-- Shows what is in a keystore. -/
def inspect (path : String) (password env : Option String) :
    m (Except CommandFailure Unit) := do
  match ← MonadHost.readOctets path with
  | .error why => return .error (.file why)
  | .ok der =>
    match Bundle.unlock der (Config.inspectPassword password env) with
    | .error why => return .error (.bundle why)
    | .ok opened =>
      match opened.summary with
      | .error why => return .error (.certificate why)
      | .ok summary =>
        MonadHost.print (summary.text ++ "\n")
        return .ok ()

/-- Writes the usual configuration to a file, or shows it. -/
def template (writeTo : Option String) : m (Except CommandFailure Unit) := do
  let text := Config.standard.template
  match writeTo with
  | some path => return (← MonadHost.writeOctets path (Utf8.encode text)).mapError .file
  | none =>
    MonadHost.print (text ++ "\n")
    return .ok ()

/-- Runs a command. `env` is the password from the environment. -/
def Command.run (env : Option String) : Command → m (Except CommandFailure Unit)
  | .generate config skipExisting => CommandLine.generate config skipExisting env
  | .inspect path password => CommandLine.inspect path password env
  | .cfg writeTo => template writeTo

/-- Runs the words of a command line. -/
def run (words : List String) (env : Option String) : m (Except Refusal Unit) := do
  match read false words with
  | .ok c => return (← c.run env).mapError .failure
  | .error (.help t) =>
    MonadHost.print (Help.text t)
    return .ok ()
  | .error .version =>
    MonadHost.print Help.version
    return .ok ()
  | .error (.usage why) => return .error (.usage why)

end TlsKeystore.CommandLine
