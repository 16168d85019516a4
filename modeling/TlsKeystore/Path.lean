/-
Paths as text.

A path is a text with slashes in it. Nothing here looks at a disk:
`resolve` puts a path behind a work directory, `parent?` tells the directory
that a path stands in as far as the text tells it, and `route` takes a path
apart into the names that are gone through.
-/
namespace TlsKeystore.Path

-- =============================================================== segments

/-- The texts between the slashes, one more than there are slashes. -/
def segments : List Char → List (List Char)
  | [] => [[]]
  | c :: rest =>
    match c == '/', segments rest with
    | true, ss => [] :: ss
    | false, s :: ss => (c :: s) :: ss
    | false, [] => [[c]]

/-- Texts with slashes between them. -/
def joined : List (List Char) → List Char
  | [] => []
  | [s] => s
  | s :: ss => s ++ '/' :: joined ss

/-- Whether a path begins at the root. -/
def isAbsolute (path : String) : Bool := path.toList.head? == some '/'

/-- Whether a path ends with a slash. -/
def endsWithSlash (path : String) : Bool := path.toList.getLast? == some '/'

-- ================================================================ resolve

/-- A path as seen from a work directory: an absolute one as it is, another one behind
the work directory and a slash, where that does not end with one already. -/
def resolve (workdir path : String) : String :=
  if isAbsolute path then path
  else if workdir == "" || endsWithSlash workdir then workdir ++ path
  else workdir ++ "/" ++ path

-- ================================================================ parents

/-- A segment that leads nowhere. -/
def isIdle (s : List Char) : Bool := s == [] || s == ['.']

/-- The path of a first segment and others, which are given in reverse. The root
keeps its slash. -/
def assemble (first : List Char) : (others : List (List Char)) → String
  | [] => if first == [] then "/" else String.ofList first
  | others => String.ofList (joined (first :: others.reverse))

/-- The directory that a path stands in, by its text alone: without the last segment,
idle ones aside. The root and the empty path stand in none, a single name in the
empty path. -/
def parent? (path : String) : Option String :=
  match segments path.toList with
  | [] => none
  | first :: others =>
    match others.reverse.dropWhile isIdle with
    | _ :: above => some (assemble first (above.dropWhile isIdle))
    | [] => if first == [] then none else some ""

-- ================================================================= routes

/-- A path taken apart: whether it begins at the root, its names, and whether a slash
follows the last. -/
structure Route where
  absolute : Bool
  names : List String
  closed : Bool
deriving DecidableEq, Repr

/-- The way that a path describes. -/
def route (path : String) : Route where
  absolute := isAbsolute path
  names := ((segments path.toList).filter (· != [])).map String.ofList
  closed := endsWithSlash path

end TlsKeystore.Path
