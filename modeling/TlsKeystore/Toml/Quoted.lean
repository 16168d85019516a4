/-
The four notations of a string.

A string stands in double quotes, where a backslash begins an escape, or
in single quotes, where nothing does; three quotes in a row let it run
over several lines. `readString` reads any of the four. `write` picks the
plainest notation that a string can have: double quotes where no escape
is needed, single quotes where none can be, the long forms where quotes
or line ends are in the way, and escapes where nothing else helps.
-/
import TlsKeystore.Bytes
import TlsKeystore.Toml.Chars

namespace TlsKeystore.Toml

-- ================================================================ escapes

/-- The character behind a backslash, for escapes of one letter. -/
def escape? : Char → Option Char
  | 'b' => some '\x08'
  | 't' => some '\t'
  | 'n' => some '\n'
  | 'f' => some '\x0c'
  | 'r' => some '\r'
  | '"' => some '"'
  | '\\' => some '\\'
  | _ => none

/-- The character of a number in hexadecimal digits, where there is one. -/
def codePoint? (digits : List Char) : Option Char := do
  let values ← digits.mapM Bytes.hexValue?
  let n := values.foldl (fun n d => n * 16 + d) 0
  if h : n.isValidChar then some (Char.ofNatAux n h) else none

/-- Puts a character in front of what a reading gave. -/
def before (c : Char) : Except Fault (Found (List Char)) → Except Fault (Found (List Char))
  | .ok (cs, rest) => .ok (c :: cs, rest)
  | .error e => .error e

/-- Puts the character of an escape in front of a reading, or fails in front of
`s`. -/
def beforeEscape (c? : Option Char) (s : List Char) (r : Except Fault (Found (List Char))) :
    Except Fault (Found (List Char)) :=
  match c? with
  | some c => before c r
  | none => malformedAt s

-- ============================================================= double quotes

/-- What may stand between double quotes as itself. -/
def isPlain (c : Char) : Bool := isComment c && c != '"' && c != '\\'

/-- The rest of a string in double quotes. -/
def basicRest : List Char → Except Fault (Found (List Char))
  | '"' :: rest => .ok ([], rest)
  | '\\' :: 'u' :: a :: b :: c :: d :: rest =>
    beforeEscape (codePoint? [a, b, c, d]) ('\\' :: 'u' :: a :: b :: c :: d :: rest)
      (basicRest rest)
  | '\\' :: 'U' :: a :: b :: c :: d :: e :: f :: g :: h :: rest =>
    beforeEscape (codePoint? [a, b, c, d, e, f, g, h])
      ('\\' :: 'U' :: a :: b :: c :: d :: e :: f :: g :: h :: rest) (basicRest rest)
  | '\\' :: x :: rest => beforeEscape (escape? x) rest (basicRest rest)
  | c :: rest => if isPlain c then before c (basicRest rest) else malformedAt (c :: rest)
  | [] => malformedAt []

/-- Whether a backslash stands in front of nothing but blanks and a line end. -/
def endsLine (s : List Char) : Bool :=
  match skipBlank s with
  | '\n' :: _ => true
  | '\r' :: '\n' :: _ => true
  | _ => false

/-- The rest of a string in three double quotes. While `skipping`, blanks and line
ends are dropped, as they are behind a backslash that ends its line. -/
def longBasicRest : (skipping : Bool) → List Char → Except Fault (Found (List Char))
  | _, '"' :: '"' :: '"' :: '"' :: '"' :: rest => .ok (['"', '"'], rest)
  | _, '"' :: '"' :: '"' :: '"' :: rest => .ok (['"'], rest)
  | _, '"' :: '"' :: '"' :: rest => .ok ([], rest)
  | _, '"' :: rest => before '"' (longBasicRest false rest)
  | skipping, '\r' :: '\n' :: rest =>
    if skipping then longBasicRest true rest else before '\n' (longBasicRest false rest)
  | skipping, '\n' :: rest =>
    if skipping then longBasicRest true rest else before '\n' (longBasicRest false rest)
  | _, '\\' :: 'u' :: a :: b :: c :: d :: rest =>
    beforeEscape (codePoint? [a, b, c, d]) ('\\' :: 'u' :: a :: b :: c :: d :: rest)
      (longBasicRest false rest)
  | _, '\\' :: 'U' :: a :: b :: c :: d :: e :: f :: g :: h :: rest =>
    beforeEscape (codePoint? [a, b, c, d, e, f, g, h])
      ('\\' :: 'U' :: a :: b :: c :: d :: e :: f :: g :: h :: rest) (longBasicRest false rest)
  | _, '\\' :: x :: rest =>
    if x == '\n' then longBasicRest true rest
    else if endsLine (x :: rest) then longBasicRest true rest
    else beforeEscape (escape? x) rest (longBasicRest false rest)
  | skipping, c :: rest =>
    if skipping && isBlank c then longBasicRest true rest
    else if isPlain c then before c (longBasicRest false rest)
    else malformedAt (c :: rest)
  | _, [] => malformedAt []

-- ============================================================= single quotes

/-- The rest of a string in single quotes. -/
def literalRest : List Char → Except Fault (Found (List Char))
  | '\'' :: rest => .ok ([], rest)
  | c :: rest => if isComment c then before c (literalRest rest) else malformedAt (c :: rest)
  | [] => malformedAt []

/-- The rest of a string in three single quotes. -/
def longLiteralRest : List Char → Except Fault (Found (List Char))
  | '\'' :: '\'' :: '\'' :: '\'' :: '\'' :: rest => .ok (['\'', '\''], rest)
  | '\'' :: '\'' :: '\'' :: '\'' :: rest => .ok (['\''], rest)
  | '\'' :: '\'' :: '\'' :: rest => .ok ([], rest)
  | '\r' :: '\n' :: rest => before '\n' (longLiteralRest rest)
  | c :: rest =>
    if c == '\n' || isComment c then before c (longLiteralRest rest) else malformedAt (c :: rest)
  | [] => malformedAt []

-- ================================================================ reading

/-- Drops the line end at the front, if there is one. -/
def dropLineEnd : List Char → List Char
  | '\n' :: rest => rest
  | '\r' :: '\n' :: rest => rest
  | s => s

/-- A string that begins with a quote, in any of the four notations. -/
def readString : List Char → Except Fault (Found (List Char))
  | '"' :: '"' :: '"' :: rest => longBasicRest false (dropLineEnd rest)
  | '"' :: rest => basicRest rest
  | '\'' :: '\'' :: '\'' :: rest => longLiteralRest (dropLineEnd rest)
  | '\'' :: rest => literalRest rest
  | s => malformedAt s

/-- A key in quotes: one line, no long form. -/
def readQuotedKey : List Char → Except Fault (Found (List Char))
  | '"' :: rest => basicRest rest
  | '\'' :: rest => literalRest rest
  | s => malformedAt s

-- ================================================================ writing

/-- The longest run of a character. `run` is the one that is going on. -/
def longestRun (c : Char) : (run : Nat) → List Char → Nat
  | run, [] => run
  | run, x :: rest =>
    if x == c then longestRun c (run + 1) rest else max run (longestRun c 0 rest)

/-- A control character for which only an escape will do. -/
def isControl (c : Char) : Bool := (c.toNat < 0x20 && c != '\t' && c != '\n') || c.toNat == 0x7F

/-- A number as `width` upper-case hexadecimal digits. -/
def hexUpper : (width : Nat) → Nat → List Char
  | 0, _ => []
  | width + 1, n => hexUpper width (n / 16) ++ [(Bytes.hexDigit (n % 16)).toUpper]

/-- The characters of a string between double quotes. In the long form line ends
stand as they are; up to `quotes` double quotes in a row do so too. `run` is how
many stand there already. -/
def escaped (long : Bool) (quotes : Nat) : (run : Nat) → List Char → List Char
  | _, [] => []
  | run, c :: rest =>
    if c == '"' then
      if run < quotes then '"' :: escaped long quotes (run + 1) rest
      else '\\' :: '"' :: escaped long quotes 0 rest
    else
      let shown := match c with
        | '\x08' => ['\\', 'b']
        | '\t' => ['\\', 't']
        | '\n' => if long then ['\n'] else ['\\', 'n']
        | '\x0c' => ['\\', 'f']
        | '\r' => ['\\', 'r']
        | '\\' => ['\\', '\\']
        | c => if isControl c then '\\' :: 'u' :: hexUpper 4 c.toNat else [c]
      shown ++ escaped long quotes 0 rest

/-- The notations of a string. -/
inductive Notation where
  | basic
  | literal
  | longBasic
  | longLiteral
deriving DecidableEq, Repr

/-- The plainest notation of a string. -/
def plainest (s : List Char) : Notation :=
  let controls := s.any isControl
  let backslash := s.any (· == '\\')
  let lines := s.any (· == '\n')
  let doubles := longestRun '"' 0 s
  let singles := longestRun '\'' 0 s
  if !controls && !backslash && doubles == 0 && !lines then .basic
  else if !controls && singles == 0 && !lines then .literal
  else if !controls && !backslash && doubles ≤ 2 then .longBasic
  else if !controls && singles ≤ 2 then .longLiteral
  else if lines then .longBasic
  else .basic

/-- A string in a notation. The long forms begin with a line end where the string has
one. -/
def writeAs (n : Notation) (s : List Char) : List Char :=
  let first := if s.any (· == '\n') then ['\n'] else []
  match n with
  | .basic => '"' :: escaped false 0 0 s ++ ['"']
  | .literal => '\'' :: s ++ ['\'']
  | .longBasic => ['"', '"', '"'] ++ first ++ escaped true 2 0 s ++ ['"', '"', '"']
  | .longLiteral => ['\'', '\'', '\''] ++ first ++ s ++ ['\'', '\'', '\'']

/-- A string in its plainest notation. -/
def write (s : String) : List Char := writeAs (plainest s.toList) s.toList

end TlsKeystore.Toml
