/-
The machine that a run works on.

`MonadHost` lists what a run may ask of its machine: files, the clock,
random octets, a place to print to. All else is a function of the answers.
A `Host` is such a machine as a value, on which a run can be followed step
by step.
-/
import TlsKeystore.Disk
import TlsKeystore.Entropy
import TlsKeystore.X509.Issue

namespace TlsKeystore

/-- What a run may ask of its machine. -/
class MonadHost (m : Type → Type) where
  pathExists : (path : String) → m Bool
  isDirectory : (path : String) → m Bool
  createDirectory : (path : String) → m (Except FileFault Unit)
  writeOctets : (path : String) → (content : Bytes) → m (Except FileError Unit)
  readOctets : (path : String) → m (Except FileError Bytes)
  now : m Instant
  draw : {α : Type} → Draw α → m α
  print : (text : String) → m Unit

/-- A machine as a value. -/
structure Host where
  disk : Disk
  entropy : Entropy
  clock : Instant
  printed : String

namespace Host

/-- Puts a changed disk in place, where the change succeeds. -/
def change (f : Disk → Except FileFault Disk) : StateM Host (Except FileFault Unit) := fun h =>
  match f h.disk with
  | .ok disk => (.ok (), { h with disk })
  | .error fault => (.error fault, h)

/-- Takes random octets from the stream of the machine. -/
def draw {α : Type} (d : Draw α) : StateM Host α := fun h =>
  let (a, entropy) := d.run h.entropy
  (a, { h with entropy })

instance : MonadHost (StateM Host) where
  pathExists path := fun h => (h.disk.pathExists path, h)
  isDirectory path := fun h => (h.disk.isDirectory path, h)
  createDirectory path := change (·.createDirectory path)
  writeOctets path content := do
    return (← change (·.writeFile path content)).mapError (⟨.createFile, path, ·⟩)
  readOctets path := fun h => (h.disk.content path, h)
  now := fun h => (h.clock, h)
  draw := draw
  print text := fun h => ((), { h with printed := h.printed ++ text })

end Host

/-- A run that keeps a state of its own asks the same machine. -/
instance {σ : Type} {m : Type → Type} [Monad m] [MonadHost m] : MonadHost (StateT σ m) where
  pathExists path := StateT.lift (MonadHost.pathExists path)
  isDirectory path := StateT.lift (MonadHost.isDirectory path)
  createDirectory path := StateT.lift (MonadHost.createDirectory path)
  writeOctets path content := StateT.lift (MonadHost.writeOctets path content)
  readOctets path := StateT.lift (MonadHost.readOctets path)
  now := StateT.lift MonadHost.now
  draw d := StateT.lift (MonadHost.draw d)
  print text := StateT.lift (MonadHost.print text)

end TlsKeystore
