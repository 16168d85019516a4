/-
Configurations from TOML text.

Fields are looked at in the order in which the text gives them, and the
first value of a wrong type is reported; only then the first field that is
missing, in the order of the fields. What the fields do not name is passed
over.
-/
import TlsKeystore.Config
import TlsKeystore.Text.Shown
import TlsKeystore.Toml.Parser

namespace TlsKeystore

open Toml

/-- What a text gives for a field. -/
inductive Config.Given where
  | integer (n : Int)
  | float (x : Binary64)
  | boolean (b : Bool)
  | string (s : String)
  | sequence
  | map
deriving DecidableEq, Repr

/-- What a field wants. -/
inductive Config.Wanted where
  | string
  | path
  | boolean
  | sequence
  | identity
deriving DecidableEq, Repr

/-- Why a well-formed text is no configuration. -/
inductive Config.Misfit where
  | missing (field : String)
  | wrongSort (given : Config.Given) (wanted : Config.Wanted)
  | wrongLength (n : Nat)
  | repeatedKey (key : String) (table : Option (List String))
deriving DecidableEq, Repr

/-- Why a text is no configuration: it is malformed in a line, or it does not fit at a
position. -/
inductive ConfigFailure where
  | malformed (line : Nat)
  | misfit (place : Position) (what : Config.Misfit)
deriving DecidableEq, Repr

namespace Config

-- =============================================================== messages

def quote (s : String) : String := String.ofList ['\x60'] ++ s ++ String.ofList ['\x60']

def Given.text : Given → String
  | .integer n => "integer " ++ quote (toString n)
  | .float x => "floating point " ++ quote x.text
  | .boolean b => "boolean " ++ quote (toString b)
  | .string s => "string " ++ Shown.quoted s
  | .sequence => "sequence"
  | .map => "map"

def Wanted.text : Wanted → String
  | .string => "a string"
  | .path => "path string"
  | .boolean => "a boolean"
  | .sequence => "a sequence"
  | .identity => "struct IdentitySpec"

def Misfit.text : Misfit → String
  | .missing field => "missing field " ++ quote field
  | .wrongSort given wanted => "invalid type: " ++ given.text ++ ", expected " ++ wanted.text
  | .wrongLength n =>
    "invalid length " ++ toString n ++ ", expected struct IdentitySpec with 2 elements"
  | .repeatedKey key none => "duplicate key " ++ quote key
  | .repeatedKey key (some []) => "duplicate key " ++ quote key ++ " in document root"
  | .repeatedKey key (some table) =>
    "duplicate key " ++ quote key ++ " in table " ++ quote (".".intercalate table)

end Config

def ConfigFailure.message : ConfigFailure → String
  | .malformed line => "TOML parse error at line " ++ toString line
  | .misfit place what =>
    "TOML parse error at line " ++ toString place.line ++ ", column " ++ toString place.column
      ++ ": " ++ what.text

namespace Config

-- ================================================================= values

/-- A misfit and the mark of its place. -/
structure Misplaced where
  mark : Nat
  what : Misfit
deriving DecidableEq, Repr

/-- Where a node stands; one without a place of its own stands at its key. -/
def place (key : Nat) : Node → Nat
  | .scalar mark _ => mark
  | .array mark _ => mark
  | .table mark _ _ => mark.getD key
  | .tables (.table (some mark) _ _ :: _) => mark
  | .tables _ => key

/-- What a node is. -/
def given : Node → Given
  | .scalar _ (.string s) => .string s
  | .scalar _ (.integer n) => .integer n
  | .scalar _ (.float x) => .float x
  | .scalar _ (.boolean b) => .boolean b
  | .scalar _ .dateTime => .map
  | .array _ _ => .sequence
  | .table _ _ _ => .map
  | .tables _ => .sequence

def wrongSort {α : Type} (mark : Nat) (n : Node) (wanted : Wanted) : Except Misplaced α :=
  .error ⟨mark, .wrongSort (given n) wanted⟩

def string (wanted : Wanted) (mark : Nat) : Node → Except Misplaced String
  | .scalar _ (.string s) => .ok s
  | n => wrongSort mark n wanted

def boolean (mark : Nat) : Node → Except Misplaced Bool
  | .scalar _ (.boolean b) => .ok b
  | n => wrongSort mark n .boolean

/-- A field that has been found, or the fault that it is missing. -/
def found {α : Type} (mark : Nat) (field : String) : Option α → Except Misplaced α
  | some a => .ok a
  | none => .error ⟨mark, .missing field⟩

-- ============================================================= identities

/-- The fields of an identity, as far as they have been found. -/
structure PartialSpec where
  commonName : Option String := none
  outputPath : Option String := none

def PartialSpec.add (p : PartialSpec) (key : Key) (n : Node) : Except Misplaced PartialSpec := do
  let mark := place key.mark n
  match key.name with
  | "common_name" => return { p with commonName := some (← string .string mark n) }
  | "output_path" => return { p with outputPath := some (← string .path mark n) }
  | _ => return p

def PartialSpec.addAll (p : PartialSpec) : Entries → Except Misplaced PartialSpec
  | [] => .ok p
  | (key, n) :: rest => do (← p.add key n).addAll rest

/-- An identity from a table, or from an array that begins with its two fields. -/
def identity (mark : Nat) (n : Node) : Except Misplaced IdentitySpec :=
  match n with
  | .table _ _ entries => do
    let p ← ({} : PartialSpec).addAll entries
    return ⟨← found mark "common_name" p.commonName, ← found mark "output_path" p.outputPath⟩
  | .array _ [] => .error ⟨mark, .wrongLength 0⟩
  | .array _ [a] => do
    let _ ← string .string (place mark a) a
    .error ⟨mark, .wrongLength 1⟩
  | .array _ (a :: b :: _) => do
    return ⟨← string .string (place mark a) a, ← string .path (place mark b) b⟩
  | n => wrongSort mark n .identity

def identityList (mark : Nat) : List Node → Except Misplaced (List IdentitySpec)
  | [] => .ok []
  | n :: rest => do
    let spec ← identity (place mark n) n
    return spec :: (← identityList mark rest)

def identitiesOf (mark : Nat) : Node → Except Misplaced (List IdentitySpec)
  | .array _ items => identityList mark items
  | .tables items => identityList mark items
  | n => wrongSort mark n .sequence

-- ========================================================= configurations

/-- The fields of a configuration, as far as they have been found. -/
structure Partial where
  workdir : Option String := none
  password : Option String := none
  skipExisting : Option Bool := none
  orgUnit : Option String := none
  organization : Option String := none
  locality : Option String := none
  state : Option String := none
  country : Option String := none
  identities : Option (List IdentitySpec) := none

def Partial.add (p : Partial) (key : Key) (n : Node) : Except Misplaced Partial := do
  let mark := place key.mark n
  match key.name with
  | "workdir" => return { p with workdir := some (← string .path mark n) }
  | "password" => return { p with password := some (← string .string mark n) }
  | "skip_existing" => return { p with skipExisting := some (← boolean mark n) }
  | "org_unit" => return { p with orgUnit := some (← string .string mark n) }
  | "organization" => return { p with organization := some (← string .string mark n) }
  | "locality" => return { p with locality := some (← string .string mark n) }
  | "state" => return { p with state := some (← string .string mark n) }
  | "country" => return { p with country := some (← string .string mark n) }
  | "identities" => return { p with identities := some (← identitiesOf mark n) }
  | _ => return p

def Partial.addAll (p : Partial) : Entries → Except Misplaced Partial
  | [] => .ok p
  | (key, n) :: rest => do (← p.add key n).addAll rest

/-- The configuration, once no field is missing. -/
def Partial.finish (mark : Nat) (p : Partial) : Except Misplaced Config := do
  return {
    workdir := ← found mark "workdir" p.workdir
    password := ← found mark "password" p.password
    skipExisting := ← found mark "skip_existing" p.skipExisting
    orgUnit := ← found mark "org_unit" p.orgUnit
    organization := ← found mark "organization" p.organization
    locality := ← found mark "locality" p.locality
    state := ← found mark "state" p.state
    country := ← found mark "country" p.country
    identities := ← found mark "identities" p.identities }

/-- The configuration that the entries of a document are. A missing field is reported
at `mark`. -/
def ofEntries (mark : Nat) (es : Entries) : Except Misplaced Config := do
  (← ({} : Partial).addAll es).finish mark

/-- The failure for a fault in a text. -/
def failureOf (text : List Char) (f : Fault) : ConfigFailure :=
  let place := position text f.mark
  match f.cause with
  | .malformed => .malformed place.line
  | .repeatedKey key table => .misfit place (.repeatedKey key table)

/-- The configuration that a text is. -/
def ofToml (s : String) : Except ConfigFailure Config :=
  let text := s.toList
  match parse text with
  | .error f => .error (failureOf text f)
  | .ok es =>
    match ofEntries text.length es with
    | .ok c => .ok c
    | .error m => .error (.misfit (position text m.mark) m.what)

end Config
end TlsKeystore
