/-
What a TOML text says, statement by statement, and the tables it adds up to.

A statement gives a value to a key, or opens a section. A section is
collected on its own and put into the document when the next one opens.
Tables remember how they came to be, since a table may be said only once,
while one that is merely passed through may still be opened, and one that
came about by a dotted key may be added to by dotted keys alone.
-/
import TlsKeystore.Toml.Binary64
import TlsKeystore.Toml.Chars

namespace TlsKeystore.Toml

/-- A value without parts. -/
inductive Scalar where
  | string (s : String)
  | integer (n : Int)
  | float (x : Binary64)
  | boolean (b : Bool)
  | dateTime
deriving DecidableEq, Repr

/-- How a table came to be: by a section of its own, on the way to another section,
by a dotted key, between braces. -/
inductive TableKind where
  | section
  | passed
  | dotted
  | inline
deriving DecidableEq, Repr

/-- A key with the mark of its place. -/
structure Key where
  name : String
  mark : Nat
deriving DecidableEq, Repr

/-- A value with the mark of its place. Tables that no section or brace begins have
no place of their own. -/
inductive Node where
  | scalar (mark : Nat) (value : Scalar)
  | array (mark : Nat) (items : List Node)
  | table (mark : Option Nat) (kind : TableKind) (entries : List (Key × Node))
  | tables (items : List Node)

/-- The keys of a table with their values, in the order in which they came. -/
abbrev Entries := List (Key × Node)

namespace Entries

/-- The value of a key. -/
def get? (es : Entries) (name : String) : Option Node :=
  (es.find? fun e => e.1.name == name).map (·.2)

/-- Replaces the value of a key where there is one, else adds it at the end. -/
def put (es : Entries) (key : Key) (value : Node) : Entries :=
  if es.any fun e => e.1.name == key.name then
    es.map fun e => if e.1.name == key.name then (e.1, value) else e
  else es ++ [(key, value)]

/-- The entries without a key. -/
def erase (es : Entries) (name : String) : Entries := es.filter fun e => e.1.name != name

end Entries

-- ======================================================== going into tables

/-- Who goes into a table: a section's header, a key in a section, or a key between
braces. -/
inductive Visitor where
  | header
  | assignment
  | braces
deriving DecidableEq, Repr

/-- The kind of the tables that a visitor makes on the way. -/
def Visitor.makes : Visitor → TableKind
  | .header => .passed
  | _ => .dotted

/-- Whether a visitor may go into a table; the fault where not. -/
def Visitor.enter (v : Visitor) (key : String) (kind : TableKind) : Except Cause Unit :=
  match v, kind with
  | .braces, .inline => .error (.repeatedKey key none)
  | _, .inline => .error .malformed
  | .header, _ => .ok ()
  | _, .section => .error (.repeatedKey key none)
  | _, _ => .ok ()

/-- Applies a change to the table at the end of a path, making the tables on the way
that are missing. The change also learns whether that table came about by a
dotted key. The last of several tables of one name stands for all of them. -/
def change {α : Type} (v : Visitor) (f : Bool → Entries → Except Cause (Entries × α)) :
    (path : List Key) → (isDotted : Bool) → Entries → Except Cause (Entries × α)
  | [], isDotted, es => f isDotted es
  | k :: ks, _, es =>
    match es.get? k.name with
    | none => do
      let (inner, a) ← change v f ks (v.makes == .dotted) []
      return (es ++ [(k, .table none v.makes inner)], a)
    | some (.table mark kind inner) => do
      v.enter k.name kind
      let (inner, a) ← change v f ks (kind == .dotted) inner
      return (es.put k (.table mark kind inner), a)
    | some (.tables items) =>
      match items.getLast? with
      | some (.table mark kind inner) => do
        let (inner, a) ← change v f ks (kind == .dotted) inner
        return (es.put k (.tables (items.dropLast ++ [.table mark kind inner])), a)
      | _ => .error .malformed
    | some _ => .error .malformed

/-- Adds a key and its value to the table at the end of a path. `table` is the table
that a fault names. -/
def assign (v : Visitor) (table : Option (List String)) (path : List Key) (key : Key)
    (value : Node) (es : Entries) : Except Cause Entries := do
  let add (isDotted : Bool) (es : Entries) : Except Cause (Entries × Unit) :=
    if isDotted == path.isEmpty then .error (.repeatedKey key.name none)
    else if (es.get? key.name).isSome then .error (.repeatedKey key.name table)
    else .ok (es ++ [(key, value)], ())
  let (es, _) ← change v add path false es
  return es

/-- The entries of a table between braces. -/
def bracedEntries : List (List Key × Key × Node) → Entries → Except Cause Entries
  | [], es => .ok es
  | (path, key, value) :: rest, es => do
    bracedEntries rest (← assign .braces none path key value es)

-- =============================================================== statements

/-- A statement. `path` leads to the table, `key` is the last key. `repeats` tells a
section that may stand several times. -/
inductive Statement where
  | assignment (mark : Nat) (path : List Key) (key : Key) (value : Node)
  | header (mark : Nat) (repeats : Bool) (path : List Key) (key : Key)

/-- A section that is being collected. -/
structure Section where
  mark : Nat
  repeats : Bool
  path : List Key
  key : Key
  entries : Entries

/-- A document on the way: what is finished, and the section that is open. Before the
first header the finished part itself is added to. -/
structure Draft where
  root : Entries := []
  current : Option Section := none

namespace Draft

/-- The document with the open section put in its place. -/
def close (d : Draft) : Except Cause Entries :=
  match d.current with
  | none => .ok d.root
  | some s => do
    let table := Node.table (some s.mark) .section s.entries
    let place (_ : Bool) (es : Entries) : Except Cause (Entries × Unit) :=
      if s.repeats then
        match es.get? s.key.name with
        | some (.tables items) => .ok (es.put s.key (.tables (items ++ [table])), ())
        | none => .ok (es ++ [(s.key, .tables [table])], ())
        | some _ => .error .malformed
      else .ok (es.put s.key table, ())
    let (root, _) ← change .header place s.path false d.root
    return root

/-- Makes room for a section: one that may stand once takes over what was passed
through on the way to others. -/
def room (repeats : Bool) (key : Key) (_ : Bool) (es : Entries) :
    Except Cause (Entries × Entries) :=
  match repeats, es.get? key.name with
  | false, none => .ok (es, [])
  | false, some (.table _ .passed inner) => .ok (es.erase key.name, inner)
  | true, none => .ok (es ++ [(key, .tables [])], [])
  | true, some (.tables _) => .ok (es, [])
  | _, _ => .error .malformed

/-- The draft after one more statement. -/
def add (d : Draft) : Statement → Except Cause Draft
  | .assignment _ path key value =>
    match d.current with
    | none => do
      return { d with root := ← assign .assignment (some []) path key value d.root }
    | some s => do
      let table := (s.path ++ [s.key]).map (·.name)
      let entries ← assign .assignment (some table) path key value s.entries
      return { d with current := some { s with entries } }
  | .header mark repeats path key => do
    let root ← d.close
    let (root, entries) ← change .header (room repeats key) path false root
    return { root, current := some { mark, repeats, path, key, entries } }

end Draft

/-- The mark of a statement. -/
def Statement.mark : Statement → Nat
  | .assignment mark _ _ _ => mark
  | .header mark _ _ _ => mark

/-- A fault of a header is not told apart from others. -/
def Statement.fault (s : Statement) (c : Cause) : Fault :=
  match s with
  | .assignment mark _ _ _ => ⟨mark, c⟩
  | .header mark _ _ _ => ⟨mark, .malformed⟩

/-- The document that statements add up to, from a draft. -/
def documentFrom : (d : Draft) → List Statement → Except Fault Entries
  | d, [] => d.close.mapError fun c => ⟨0, c⟩
  | d, s :: rest =>
    match d.add s with
    | .ok d => documentFrom d rest
    | .error c => .error (s.fault c)

end TlsKeystore.Toml
