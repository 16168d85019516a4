/-
The characters of a TOML text, and the small pieces between its tokens.

Readers take characters from the front of a list. Where one fails it says
how many characters were left at the place of the fault, its mark; from
that the line can be told once the whole text is at hand.
-/
namespace TlsKeystore.Toml

/-- What is wrong with a text. A key that is given twice is told apart from all
else; `table` is the table that it stands in, where that is known. -/
inductive Cause where
  | malformed
  | repeatedKey (key : String) (table : Option (List String))
deriving DecidableEq, Repr

/-- A cause, and how many characters were left where it showed. -/
structure Fault where
  mark : Nat
  cause : Cause
deriving DecidableEq, Repr

/-- What a reader finds: a value, and the characters behind it. -/
abbrev Found (α : Type) := α × List Char

/-- A fault in front of the given characters. -/
def malformedAt {α : Type} (rest : List Char) : Except Fault α :=
  .error ⟨rest.length, .malformed⟩

-- ================================================================ classes

def isBlank (c : Char) : Bool := c == ' ' || c == '\t'

/-- What may stand in a comment: all but control characters, with tabs. -/
def isComment (c : Char) : Bool := c == '\t' || (0x20 ≤ c.toNat && c.toNat != 0x7F)

/-- What a key without quotes consists of. -/
def isBare (c : Char) : Bool := c.isAlphanum || c == '-' || c == '_'

-- ================================================================= pieces

/-- Drops blanks. -/
def skipBlank (s : List Char) : List Char := s.dropWhile isBlank

/-- Drops the comment at the front, if there is one. -/
def skipComment : List Char → List Char
  | '#' :: rest => rest.dropWhile isComment
  | s => s

/-- The end of a line, or of the text. -/
def lineEnd : List Char → Except Fault (List Char)
  | [] => .ok []
  | '\n' :: rest => .ok rest
  | '\r' :: '\n' :: rest => .ok rest
  | s => malformedAt s

/-- What may follow on a line that is done: blanks, a comment, the end. -/
def restOfLine (s : List Char) : Except Fault (List Char) :=
  lineEnd (skipComment (skipBlank s))

/-- Drops blanks, ends of lines and comments that end with their line. -/
def skipLines : (steps : Nat) → List Char → Except Fault (List Char)
  | 0, s => .ok s
  | steps + 1, s =>
    match skipBlank s with
    | '#' :: rest =>
      match rest.dropWhile isComment with
      | '\n' :: rest => skipLines steps rest
      | '\r' :: '\n' :: rest => skipLines steps rest
      | rest => malformedAt rest
    | '\n' :: rest => skipLines steps rest
    | '\r' :: '\n' :: rest => skipLines steps rest
    | '\r' :: rest => malformedAt ('\r' :: rest)
    | rest => .ok rest

end TlsKeystore.Toml
