/-
A tree of directories and files, and how paths lead through it.

A disk maps places to directories and files, and knows the directory that
relative paths begin in. There are no links, so a place has one spelling
without dots; a path may reach it in many ways. A path is gone through name
by name, and each name but the last has to be a directory: `x/../y` leads
nowhere unless `x` is one.
-/
import TlsKeystore.Bytes
import TlsKeystore.FileError
import TlsKeystore.Path

namespace TlsKeystore

/-- What stands at a place. -/
inductive Disk.Node where
  | directory
  | file (content : Bytes)
deriving DecidableEq, Repr

/-- The names that lead to a place from the root, the innermost first. -/
abbrev Place := List String

/-- The places that are taken, and the directory in which relative paths begin. -/
structure Disk where
  nodes : List (Place × Disk.Node)
  here : Place
deriving DecidableEq, Repr

namespace Disk

/-- What stands at a place. The root is always a directory. -/
def node? (d : Disk) : Place → Option Node
  | [] => some .directory
  | p => d.nodes.lookup p

/-- The disk with something else at a place. -/
def put (d : Disk) (p : Place) (n : Node) : Disk :=
  { d with nodes := (p, n) :: d.nodes.filter (·.1 != p) }

/-- The disk with nothing at a place. -/
def erase (d : Disk) (p : Place) : Disk := { d with nodes := d.nodes.filter (·.1 != p) }

-- =================================================================== ways

/-- The size of the longest name, in octets. -/
def maxName : Nat := 255

/-- The size from which on a path is too long, in octets. -/
def maxPath : Nat := 4096

/-- Refuses paths that cannot be gone at all. -/
def usable (path : String) : Except FileFault Unit :=
  if path.toList.contains '\x00' then .error .nulInPath
  else if path == "" then .error .missing
  else if maxPath ≤ path.utf8ByteSize then .error .nameTooLong
  else .ok ()

/-- The place that a name leads to. -/
def step (d : Disk) (p : Place) (name : String) : Except FileFault Place :=
  if name == "." then .ok p
  else if name == ".." then .ok p.tail
  else if maxName < name.utf8ByteSize then .error .nameTooLong
  else if (d.node? (name :: p)).isSome then .ok (name :: p)
  else .error .missing

/-- The directory that a name leads to. -/
def enter (d : Disk) (p : Place) (name : String) : Except FileFault Place := do
  let q ← d.step p name
  if d.node? q = some .directory then return q else throw .notDirectory

/-- The directory that names lead to, one after the other. -/
def walk (d : Disk) : (p : Place) → List String → Except FileFault Place
  | p, [] => .ok p
  | p, name :: rest => do d.walk (← d.enter p name) rest

/-- The directory in which the last name of a path is looked up. -/
def base (d : Disk) (path : String) : Except FileFault Place := do
  usable path
  let r := Path.route path
  d.walk (if r.absolute then [] else d.here) r.names.dropLast

/-- The place of what a path leads to. Behind a slash at the end there must be a
directory in front of it. -/
def find (d : Disk) (path : String) : Except FileFault Place := do
  let p ← d.base path
  let r := Path.route path
  match r.names.getLast? with
  | none => return p
  | some name => if r.closed then d.enter p name else d.step p name

/-- What a path leads to. -/
def get? (d : Disk) (path : String) : Except FileFault Node := do
  match d.node? (← d.find path) with
  | some n => return n
  | none => throw .missing

/-- The last name of a path, where it can name something new. -/
def newName? (r : Path.Route) : Option String :=
  r.names.getLast?.filter fun name => name != "." && name != ".."

-- ============================================================= operations

/-- Whether a path leads to something. -/
def pathExists (d : Disk) (path : String) : Bool := (d.get? path).toOption.isSome

/-- Whether a path leads to a directory. -/
def isDirectory (d : Disk) (path : String) : Bool := (d.get? path).toOption == some .directory

/-- Makes one directory. -/
def createDirectory (d : Disk) (path : String) : Except FileFault Disk := do
  let p ← d.base path
  match newName? (Path.route path) with
  | none => throw .taken
  | some name =>
    if maxName < name.utf8ByteSize then throw .nameTooLong
    if (d.node? (name :: p)).isSome then throw .taken
    return d.put (name :: p) .directory

/-- Writes a file, over one that is there already. -/
def writeFile (d : Disk) (path : String) (content : Bytes) : Except FileFault Disk := do
  let p ← d.base path
  let r := Path.route path
  match newName? r with
  | none => throw .isDirectory
  | some name =>
    if r.closed then throw .isDirectory
    if maxName < name.utf8ByteSize then throw .nameTooLong
    if d.node? (name :: p) = some .directory then throw .isDirectory
    return d.put (name :: p) (.file content)

/-- Takes a file away. -/
def removeFile (d : Disk) (path : String) : Except FileFault Disk := do
  let p ← d.find path
  match d.node? p with
  | some (.file _) => return d.erase p
  | _ => throw .isDirectory

/-- The content of a file. A directory can be opened, but not read. -/
def content (d : Disk) (path : String) : Except FileError Bytes :=
  match d.get? path with
  | .error fault => .error ⟨.openFile, path, fault⟩
  | .ok .directory => .error ⟨.readFile, path, .isDirectory⟩
  | .ok (.file content) => .ok content

end Disk
end TlsKeystore
