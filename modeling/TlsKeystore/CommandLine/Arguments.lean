/-
The commands of the program, their arguments, and how they are read.

Words are read from left to right. A value that stands in a word of its own
is looked at only when the next argument begins, or the words end; until
then its argument is pending. `--help` and `--version` end the reading at
once. Behind `--` all words are taken as they are.
-/
namespace TlsKeystore.CommandLine

/-- What there is help on: the program, and each of its commands. -/
inductive Topic where
  | program
  | generate
  | inspect
  | cfg
  | help
deriving DecidableEq, Repr

/-- The arguments that commands may have. -/
inductive Argument where
  | help
  | version
  | config
  | skipExisting
  | password
  | writeTo
  | path
deriving DecidableEq, Repr

/-- A command with its arguments. -/
inductive Command where
  | generate (config : String) (skipExisting : Bool)
  | inspect (path : String) (password : Option String)
  | cfg (writeTo : Option String)
deriving DecidableEq, Repr

/-- What is wrong with the words of a command line. -/
inductive UsageError where
  | unknownCommand (word : String)
  | unexpectedArgument (word : String)
  | unexpectedValue (value : String) (argument : Argument)
  | missingValue (argument : Argument)
  | repeatedArgument (argument : Argument)
  | missingArguments
deriving DecidableEq, Repr

/-- Why no command is run: help or the version is asked for, or the words are
wrong. -/
inductive Halt where
  | help (topic : Topic)
  | version
  | usage (why : UsageError)
deriving DecidableEq, Repr

-- ============================================================== arguments

namespace Argument

/-- The name behind two dashes. An argument without one is told by its position. -/
def long? : Argument → Option String
  | .help => some "help"
  | .version => some "version"
  | .config => some "config"
  | .skipExisting => some "skip-existing"
  | .password => some "password"
  | .writeTo => some "write-to"
  | .path => none

/-- The letter behind one dash. -/
def short? : Argument → Option Char
  | .help => some 'h'
  | .version => some 'V'
  | .config => some 'c'
  | .skipExisting => none
  | .password => some 'p'
  | .writeTo => some 'w'
  | .path => none

/-- What the value of an argument is called, where it has one. -/
def value? : Argument → Option String
  | .config => some "CONFIG"
  | .password => some "PASSWORD"
  | .writeTo => some "WRITE_TO"
  | .path => some "PATH"
  | _ => none

/-- Whether the value may be the empty text. No path is empty. -/
def mayBeEmpty : Argument → Bool
  | .config => false
  | .writeTo => false
  | .path => false
  | _ => true

/-- An argument as it is written, with its value. -/
def label (a : Argument) : String :=
  let name := match a.long? with
    | some long => ["--" ++ long]
    | none => []
  let value := match a.value? with
    | some value => ["<" ++ value ++ ">"]
    | none => []
  " ".intercalate (name ++ value)

end Argument

def UsageError.message : UsageError → String
  | .unknownCommand word => "unrecognized subcommand '" ++ word ++ "'"
  | .unexpectedArgument word => "unexpected argument '" ++ word ++ "' found"
  | .unexpectedValue value a =>
    "unexpected value '" ++ value ++ "' for '" ++ a.label ++ "' found; no more were expected"
  | .missingValue a => "a value is required for '" ++ a.label ++ "' but none was supplied"
  | .repeatedArgument a => "the argument '" ++ a.label ++ "' cannot be used multiple times"
  | .missingArguments => "the following required arguments were not provided:"

namespace Topic

/-- The commands in the order in which they are listed. -/
def commands : List Topic := [.generate, .inspect, .cfg, .help]

def name : Topic → String
  | .program => "keystore-gen"
  | .generate => "generate"
  | .inspect => "inspect"
  | .cfg => "cfg"
  | .help => "help"

/-- The command of a name. -/
def ofName? (name : String) : Option Topic := commands.find? (·.name == name)

/-- The arguments that have a name, in the order in which they are listed. -/
def options : Topic → List Argument
  | .program => [.help, .version]
  | .generate => [.config, .skipExisting, .help]
  | .inspect => [.password, .help]
  | .cfg => [.writeTo, .help]
  | .help => []

/-- The argument that has none. -/
def positional? : Topic → Option Argument
  | .inspect => some .path
  | _ => none

end Topic

-- ================================================================== words

/-- The forms of a word. -/
inductive Word where
  | separator
  | long (name : String) (value : Option String)
  | short (letters : List Char)
  | plain
deriving DecidableEq, Repr

/-- The form of a word. A single dash is a plain word. -/
def Word.of (word : String) : Word :=
  match word.toList with
  | ['-', '-'] => .separator
  | '-' :: '-' :: rest =>
    let name := String.ofList (rest.takeWhile (· != '='))
    match rest.dropWhile (· != '=') with
    | [] => .long name none
    | _ :: value => .long name (some (String.ofList value))
  | '-' :: c :: rest => .short (c :: rest)
  | _ => .plain

-- ================================================================ reading

/-- The arguments that have been read, and the one whose value has not been looked at
or has not come yet. -/
structure Progress where
  found : List (Argument × String) := []
  pending : Option (Argument × Option String) := none
deriving DecidableEq, Repr

namespace Progress

/-- Takes an argument down. -/
def record (p : Progress) (a : Argument) (value : String) : Except Halt Progress :=
  if p.found.any (·.1 == a) then .error (.usage (.repeatedArgument a))
  else if value == "" && !a.mayBeEmpty then .error (.usage (.missingValue a))
  else .ok { p with found := p.found ++ [(a, value)] }

/-- Looks at the pending argument. -/
def settle (p : Progress) : Except Halt Progress :=
  match p.pending with
  | none => .ok p
  | some (a, none) => .error (.usage (.missingValue a))
  | some (a, some value) => { p with pending := none }.record a value

/-- Takes down an argument that is complete. -/
def complete (p : Progress) (t : Topic) (a : Argument) (value : String) :
    Except Halt Progress := do
  let p ← p.settle
  match a with
  | .help => throw (.help t)
  | .version => throw .version
  | a => p.record a value

/-- Leaves an argument pending. -/
def await (p : Progress) (a : Argument) (value : Option String) : Except Halt Progress := do
  return { ← p.settle with pending := some (a, value) }

/-- Reads a name behind two dashes, with the text behind an equals sign. -/
def readLong (p : Progress) (t : Topic) (name : String) (value : Option String) :
    Except Halt Progress :=
  match t.options.find? (·.long? == some name) with
  | none => .error (.usage (.unexpectedArgument ("--" ++ name)))
  | some a =>
    match a.value?, value with
    | some _, some value => p.complete t a value
    | some _, none => p.await a none
    | none, some value => .error (.usage (.unexpectedValue value a))
    | none, none => p.complete t a ""

/-- Reads letters behind one dash. The value of the first that has one is what
follows it, less an equals sign. -/
def readShort (t : Topic) : Progress → List Char → Except Halt Progress
  | p, [] => .ok p
  | p, c :: rest =>
    match t.options.find? (·.short? == some c) with
    | none => .error (.usage (.unexpectedArgument (String.ofList ['-', c])))
    | some a =>
      match a.value?, rest with
      | none, _ => do readShort t (← p.complete t a "") rest
      | some _, [] => p.await a none
      | some _, '=' :: value => p.complete t a (String.ofList value)
      | some _, value => p.complete t a (String.ofList value)

/-- Reads a word that is told by its position. -/
def readPositional (p : Progress) (t : Topic) (word : String) : Except Halt Progress :=
  match t.positional? with
  | none => .error (.usage (.unexpectedArgument word))
  | some a =>
    if p.found.any (·.1 == a) || p.pending.any (·.1 == a) then
      .error (.usage (.unexpectedArgument word))
    else p.await a (some word)

/-- Reads a plain word: the value that is waited for, or one told by its position. -/
def readPlain (p : Progress) (t : Topic) (word : String) : Except Halt Progress :=
  match p.pending with
  | some (a, none) => .ok { p with pending := some (a, some word) }
  | _ => p.readPositional t word

/-- Reads the words of a command. -/
def readAll (t : Topic) : (asTheyAre : Bool) → Progress → List String → Except Halt Progress
  | _, p, [] => p.settle
  | true, p, word :: rest => do readAll t true (← p.readPositional t word) rest
  | false, p, word :: rest =>
    match Word.of word with
    | .separator => readAll t true p rest
    | .long name value => do readAll t false (← p.readLong t name value) rest
    | .short letters => do readAll t false (← readShort t p letters) rest
    | .plain => do readAll t false (← p.readPlain t word) rest

end Progress

-- =============================================================== commands

/-- The configuration file that is looked for. -/
def defaultConfig : String := "keystore-gen.toml"

/-- What a request for help is answered with. Commands have no commands below
them. -/
def helpOn : List String → Halt
  | [] => .help .program
  | name :: rest =>
    match Topic.ofName? name, rest with
    | none, _ => .usage (.unknownCommand name)
    | some t, [] => .help t
    | some _, below :: _ => .usage (.unknownCommand below)

/-- The command that a topic and the words behind it give. -/
def readCommand (t : Topic) (words : List String) : Except Halt Command := do
  if t = .help then throw (helpOn words)
  let found := (← Progress.readAll t false {} words).found
  match t with
  | .inspect =>
    match found.lookup .path with
    | some path => return .inspect path (found.lookup .password)
    | none => throw (.usage .missingArguments)
  | .cfg => return .cfg (found.lookup .writeTo)
  | _ =>
    return .generate ((found.lookup .config).getD defaultConfig)
      (found.lookup .skipExisting).isSome

/-- The command of a command line. Without one, keystores are generated. -/
def read : (asTheyAre : Bool) → List String → Except Halt Command
  | _, [] => .ok (.generate defaultConfig false)
  | true, word :: _ =>
    .error (.usage (match Topic.ofName? word with
      | some _ => .unexpectedArgument word
      | none => .unknownCommand word))
  | false, word :: rest =>
    match Word.of word with
    | .separator => read true rest
    | .long name value => do
      let _ ← ({} : Progress).readLong .program name value
      read false rest
    | .short letters => do
      let _ ← Progress.readShort .program {} letters
      read false rest
    | .plain =>
      match Topic.ofName? word with
      | some t => readCommand t rest
      | none => .error (.usage (.unknownCommand word))

end TlsKeystore.CommandLine
