/-
From text to statements, and to the document.

Every statement stands on a line of its own. `statements` reads as many as
there are and tells the fault that stopped it, if one did, so that a fault
in what the statements say is found before a later fault in how they are
written. Arrays and tables may nest to a fixed depth.
-/
import TlsKeystore.Toml.Document
import TlsKeystore.Toml.Number
import TlsKeystore.Toml.Quoted

namespace TlsKeystore.Toml

/-- How deep arrays and tables between braces may nest, and how many parts a key may
have, less one. -/
def maxDepth : Nat := 79

-- =================================================================== keys

/-- One part of a key. -/
def readKeyPart (s : List Char) : Except Fault (Found Key) :=
  match s with
  | '"' :: _ | '\'' :: _ => do
    let (cs, rest) ← readQuotedKey s
    return (⟨String.ofList cs, s.length⟩, rest)
  | _ =>
    match s.takeWhile isBare with
    | [] => malformedAt s
    | cs => .ok (⟨String.ofList cs, s.length⟩, s.dropWhile isBare)

/-- The parts of a key, with points between them and blanks around them. -/
def readKeyParts : (steps : Nat) → List Char → Except Fault (Found (List Key))
  | 0, s => malformedAt s
  | steps + 1, s => do
    let (k, rest) ← readKeyPart (skipBlank s)
    match skipBlank rest with
    | '.' :: rest =>
      let (ks, rest) ← readKeyParts steps rest
      return (k :: ks, rest)
    | rest => return ([k], rest)

/-- A key: the path to its table, and its last part. -/
def readKey (s : List Char) : Except Fault (Found (List Key × Key)) := do
  let (ks, rest) ← readKeyParts maxDepth s
  match ks.getLast? with
  | some k => return ((ks.dropLast, k), rest)
  | none => malformedAt s

-- ================================================================= values

/-- The items of an array, each read by `one`, to the closing bracket. -/
def readItems (one : List Char → Except Fault (Found Node)) :
    (steps : Nat) → List Char → Except Fault (Found (List Node))
  | 0, s => malformedAt s
  | steps + 1, s => do
    let s ← skipLines s.length s
    match s with
    | ']' :: rest => return ([], rest)
    | s =>
      let (item, rest) ← one s
      let rest ← skipLines rest.length rest
      match rest with
      | ']' :: rest => return ([item], rest)
      | ',' :: rest =>
        let (items, rest) ← readItems one steps rest
        return (item :: items, rest)
      | rest => malformedAt rest

/-- The pairs of a table between braces, each value read by `one`, to the closing
brace. A comma stands between pairs only. -/
def readPairs (one : List Char → Except Fault (Found Node)) :
    (steps : Nat) → List Char → Except Fault (Found (List (List Key × Key × Node)))
  | 0, s => malformedAt s
  | steps + 1, s => do
    let ((path, key), rest) ← readKey s
    match rest with
    | '=' :: rest =>
      let (value, rest) ← one (skipBlank rest)
      match skipBlank rest with
      | '}' :: rest => return ([(path, key, value)], rest)
      | ',' :: rest =>
        let (pairs, rest) ← readPairs one steps rest
        return ((path, key, value) :: pairs, rest)
      | rest => malformedAt rest
    | rest => malformedAt rest

/-- A table between braces, from behind the opening brace. -/
def readBraces (one : List Char → Except Fault (Found Node)) (s : List Char) :
    Except Fault (Found Entries) := do
  let (pairs, rest) ← match skipBlank s with
    | '}' :: rest => .ok ([], rest)
    | t => readPairs one t.length t
  match bracedEntries pairs [] with
  | .ok es => return (es, rest)
  | .error c => .error ⟨s.length, c⟩

/-- A number, a date or a time. -/
def readNumber (s : List Char) : Except Fault (Found Scalar) :=
  match dateTime? s with
  | some rest => .ok (.dateTime, rest)
  | none =>
    match float? s with
    | some (x, rest) => .ok (.float x, rest)
    | none =>
      match integer? s with
      | some (n, rest) => .ok (.integer n, rest)
      | none => malformedAt s

/-- A value without parts, by its first character. -/
def readScalar (s : List Char) : Except Fault (Found Scalar) :=
  match s with
  | '"' :: _ | '\'' :: _ => do
    let (cs, rest) ← readString s
    return (.string (String.ofList cs), rest)
  | 't' :: 'r' :: 'u' :: 'e' :: rest => .ok (.boolean true, rest)
  | 'f' :: 'a' :: 'l' :: 's' :: 'e' :: rest => .ok (.boolean false, rest)
  | _ => readNumber s

/-- A value with room for so many levels of arrays and tables. -/
def readValue : (depth : Nat) → List Char → Except Fault (Found Node)
  | 0, s =>
    match s with
    | '[' :: _ | '{' :: _ => malformedAt s
    | _ => do
      let (v, rest) ← readScalar s
      return (.scalar s.length v, rest)
  | depth + 1, s =>
    match s with
    | '[' :: rest => do
      let (items, rest) ← readItems (readValue depth) rest.length rest
      return (.array s.length items, rest)
    | '{' :: rest => do
      let (es, rest) ← readBraces (readValue depth) rest
      return (.table (some s.length) .inline es, rest)
    | _ => do
      let (v, rest) ← readScalar s
      return (.scalar s.length v, rest)

-- ============================================================= statements

/-- A key and its value, to the end of the line. -/
def readAssignment (s : List Char) : Except Fault (Found Statement) := do
  let ((path, key), rest) ← readKey s
  match rest with
  | '=' :: rest =>
    let (value, rest) ← readValue maxDepth (skipBlank rest)
    let rest ← restOfLine rest
    return (.assignment s.length path key value, rest)
  | rest => malformedAt rest

/-- The header of a section, to the end of the line. -/
def readHeader (s : List Char) : Except Fault (Found Statement) := do
  match s with
  | '[' :: '[' :: rest =>
    let ((path, key), rest) ← readKey rest
    match rest with
    | ']' :: ']' :: rest => return (.header s.length true path key, ← restOfLine rest)
    | rest => malformedAt rest
  | '[' :: rest =>
    let ((path, key), rest) ← readKey rest
    match rest with
    | ']' :: rest => return (.header s.length false path key, ← restOfLine rest)
    | rest => malformedAt rest
  | _ => malformedAt s

/-- What one line says: nothing, or a statement that may run over further lines. -/
def readLine (s : List Char) : Except Fault (Found (Option Statement)) :=
  match s with
  | [] => .ok (none, [])
  | '#' :: _ | '\n' :: _ | '\r' :: _ => do return (none, ← lineEnd (skipComment s))
  | '[' :: _ => do
    let (st, rest) ← readHeader s
    return (some st, rest)
  | _ => do
    let (st, rest) ← readAssignment s
    return (some st, rest)

/-- The statements of a text, and the fault that ends them before the text ends. -/
def statements : (steps : Nat) → List Char → List Statement × Option Fault
  | 0, _ => ([], none)
  | steps + 1, s =>
    match skipBlank s with
    | [] => ([], none)
    | s =>
      match readLine s with
      | .error e => ([], some e)
      | .ok (line, rest) =>
        let (sts, fault) := statements steps rest
        (line.toList ++ sts, fault)

/-- The text without a byte order mark. -/
def dropByteOrderMark : List Char → List Char
  | '\uFEFF' :: rest => rest
  | s => s

/-- The document of a text. -/
def parse (text : List Char) : Except Fault Entries :=
  let s := dropByteOrderMark text
  let (sts, fault) := statements (s.length + 1) s
  match documentFrom {} sts, fault with
  | .error e, _ => .error e
  | .ok _, some e => .error e
  | .ok es, none => .ok es

-- ============================================================= positions

/-- A line and a column, both counted from 1. -/
structure Position where
  line : Nat
  column : Nat
deriving DecidableEq, Repr

/-- The position of a mark in a text. The end of the text counts as its last
character. -/
def position (text : List Char) (mark : Nat) : Position :=
  let place := min (text.length - mark) (text.length - 1)
  let ahead := text.take place
  let line := ahead.reverse.takeWhile (· != '\n')
  ⟨ahead.count '\n' + 1, line.length + 1⟩

end TlsKeystore.Toml
