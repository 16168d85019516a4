/-
Making the keystores of a plan, one after the other.

Each identity of a plan gets a new key and a bundle for it, written where
the plan says. A run stops at the first failure and keeps what it has made
until then; each outcome is reported before the next identity is looked
at. Where existing keystores are to be kept, whatever stands at the path of
one counts as it.
-/
import TlsKeystore.Bundle
import TlsKeystore.Config
import TlsKeystore.Host

namespace TlsKeystore

-- ================================================================ storing

/-- Why a bundle is not stored. -/
inductive StoreFailure where
  | directory (why : FileError)
  | file (why : FileError)
deriving DecidableEq, Repr

def StoreFailure.message : StoreFailure → String
  | .directory why => "Failed to create keystore directory: " ++ why.message
  | .file why => "Failed to write keystore: " ++ why.message

namespace Store

variable {m : Type → Type} [Monad m] [MonadHost m]

/-- A directory that is there is as good as a new one. -/
def settled (path : String) (made : Except FileFault Unit) : m (Except FileFault Unit) := do
  match made with
  | .ok () => return .ok ()
  | .error fault => return if ← MonadHost.isDirectory path then .ok () else .error fault

/-- Makes a directory. Where the one that it stands in is missing, that is made first,
and so on for up to `steps` of them. The empty path is there already. -/
def createWithin : (steps : Nat) → String → m (Except FileFault Unit)
  | 0, _ => return .ok ()
  | steps + 1, path => do
    if path == "" then return .ok ()
    match ← MonadHost.createDirectory path, Path.parent? path with
    | .error .missing, some above =>
      match ← createWithin steps above with
      | .error fault => return .error fault
      | .ok () => settled path (← MonadHost.createDirectory path)
    | made, _ => settled path made

/-- Makes a directory with all that it stands in. A path has no more names than
characters. -/
def createDirectories (path : String) : m (Except FileError Unit) := do
  return (← createWithin (path.length + 1) path).mapError (⟨.createDirectory, path, ·⟩)

/-- Makes the directory that a path stands in. -/
def ensureParent (path : String) : m (Except FileError Unit) :=
  match Path.parent? path with
  | some parent => createDirectories parent
  | none => return .ok ()

/-- Stores a bundle, in place of what was there. -/
def write (path : String) (der : Bytes) : m (Except StoreFailure Unit) := do
  match ← ensureParent (m := m) path with
  | .error why => return .error (.directory why)
  | .ok () => return (← MonadHost.writeOctets path der).mapError .file

end Store

-- ================================================================= plans

/-- What a run shall make. -/
structure Plan where
  identities : List IdentitySpec
  password : String
  subject : SubjectTemplate := .standard
  workdir : String := "."
  skipExisting : Bool := false
deriving DecidableEq, Repr

/-- The plan of a configuration. Existing keystores are kept if it says so, or the
caller does. -/
def Config.plan (c : Config) (skipExisting : Bool) : Plan where
  identities := c.identities
  password := c.password
  subject := c.subject
  workdir := c.workdir
  skipExisting := c.skipExisting || skipExisting

/-- What became of a keystore. -/
inductive Status where
  | generated
  | skipped
deriving DecidableEq, Repr

/-- A keystore that is in place. -/
structure Outcome where
  commonName : String
  path : String
  status : Status
deriving DecidableEq, Repr

/-- An outcome for the operator. -/
def Outcome.line (o : Outcome) : String :=
  match o.status with
  | .generated => "Generated keystore for " ++ o.commonName ++ " at " ++ o.path
  | .skipped => "Kept existing keystore for " ++ o.commonName ++ " at " ++ o.path

/-- Why a keystore is not in place. -/
inductive KeystoreFailure where
  | identity (why : IdentityFailure)
  | lock (why : LockFailure)
  | store (why : StoreFailure)
deriving DecidableEq, Repr

def KeystoreFailure.message : KeystoreFailure → String
  | .identity why => why.message
  | .lock why => why.message
  | .store why => why.message

/-- Where and why a run has stopped. -/
structure ProvisionFailure where
  commonName : String
  why : KeystoreFailure
deriving DecidableEq, Repr

def ProvisionFailure.message (f : ProvisionFailure) : String :=
  "Failed to provision keystore for " ++ f.commonName ++ ": " ++ f.why.message

namespace Plan

/-- A new bundle for a name. -/
def newBundle (p : Plan) (commonName : String) (now : Instant) :
    Draw (Except KeystoreFailure Bytes) := do
  match ← Identity.generate commonName p.subject now with
  | .error why => return .error (.identity why)
  | .ok identity =>
    let salts ← Pkcs12.Writer.drawSalts
    return (Bundle.lock identity commonName p.password salts).mapError .lock

variable {m : Type → Type} [Monad m] [MonadHost m]

/-- Where the keystore of an identity stands. -/
def pathOf (p : Plan) (spec : IdentitySpec) : String := Path.resolve p.workdir spec.outputPath

/-- Whether something is to be kept at a path. -/
def keeps (p : Plan) (path : String) : m Bool :=
  if p.skipExisting then MonadHost.pathExists path else return false

/-- Puts the keystore of one identity in place. -/
def provisionOne (p : Plan) (spec : IdentitySpec) : m (Except KeystoreFailure Outcome) := do
  let path := p.pathOf spec
  if ← p.keeps path then return .ok ⟨spec.commonName, path, .skipped⟩
  match ← MonadHost.draw (p.newBundle spec.commonName (← MonadHost.now)) with
  | .error why => return .error why
  | .ok der =>
    match ← Store.write path der with
    | .error why => return .error (.store why)
    | .ok () => return .ok ⟨spec.commonName, path, .generated⟩

/-- Puts keystores in place and reports each, until one fails. -/
def provisionAll (p : Plan) (report : Outcome → m Unit) :
    List IdentitySpec → m (Except ProvisionFailure Unit)
  | [] => return .ok ()
  | spec :: rest => do
    match ← p.provisionOne spec with
    | .error why => return .error ⟨spec.commonName, why⟩
    | .ok outcome =>
      report outcome
      p.provisionAll report rest

/-- Puts all keystores of the plan in place and reports each. -/
def provisionEach (p : Plan) (report : Outcome → m Unit) : m (Except ProvisionFailure Unit) :=
  p.provisionAll report p.identities

/-- Puts all keystores of the plan in place and lists what became of them. -/
def provision (p : Plan) : m (Except ProvisionFailure (List Outcome)) := do
  let report (o : Outcome) : StateT (List Outcome) m Unit := modify (· ++ [o])
  let (result, outcomes) ← (p.provisionEach report).run []
  return result.map fun () => outcomes

end Plan
end TlsKeystore
