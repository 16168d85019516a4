/-
The help texts.

A text says what its topic is for and how it is used, and lists the
arguments in columns: each list is aligned on its own.
-/
import TlsKeystore.CommandLine.Arguments

namespace TlsKeystore.CommandLine

namespace Topic

/-- What a topic is for. -/
def about : Topic → String
  | .program => "Generate self-signed PKCS#12 keystores for the lab services"
  | .generate => "Generate a keystore for every configured identity"
  | .inspect => "Show the certificate inside a keystore"
  | .cfg => "Generate configuration template"
  | .help => "Print this message or the help of the given subcommand(s)"

/-- How a topic is used, behind the name of the program. -/
def usage : Topic → String
  | .program => "[COMMAND]"
  | .generate => "generate [OPTIONS]"
  | .inspect => "inspect [OPTIONS] <PATH>"
  | .cfg => "cfg [OPTIONS]"
  | .help => "help [COMMAND]..."

end Topic

/-- What an argument is for. -/
def Argument.about : Argument → String
  | .help => "Print help"
  | .version => "Print version"
  | .config =>
    "Path to the configuration file, defaults are used if it does not exist [default: "
      ++ defaultConfig ++ "]"
  | .skipExisting => "Keep keystores that already exist"
  | .password => "Keystore password, falls back to KEYSTORE_PASSWORD and then the default"
  | .writeTo => "Write to file"
  | .path => "Path to the keystore"

namespace Help

/-- A list with a title: what is listed, and what is said about it. -/
structure Listing where
  title : String
  rows : List (String × String)

/-- The names of an argument. A missing letter leaves its room. -/
def names (a : Argument) : String :=
  (match a.short? with
    | some c => String.ofList ['-', c] ++ ", "
    | none => "    ") ++ a.label

/-- The lists of a topic, empty ones included. -/
def listings (t : Topic) : List Listing :=
  [⟨"Commands", if t = .program then Topic.commands.map fun c => (c.name, c.about) else []⟩,
    ⟨"Arguments",
      if t = .help then [("[COMMAND]...", "Print help for the subcommand(s)")]
      else t.positional?.toList.map fun a => (a.label, a.about)⟩,
    ⟨"Options", t.options.map fun a => (names a, a.about)⟩]

/-- A text filled up with blanks. -/
def padded (width : Nat) (s : String) : String :=
  s ++ String.ofList (List.replicate (width - s.length) ' ')

/-- The lines of a list, with an empty line in front of them. -/
def Listing.text (l : Listing) : String :=
  let width := (l.rows.map (·.1.length)).foldl max 0
  let line (row : String × String) : String :=
    "  " ++ padded width row.1 ++ "  " ++ row.2 ++ "\n"
  "\n" ++ l.title ++ ":\n" ++ String.join (l.rows.map line)

/-- The help on a topic. -/
def text (t : Topic) : String :=
  t.about ++ "\n\nUsage: " ++ Topic.program.name ++ " " ++ t.usage ++ "\n"
    ++ String.join (((listings t).filter fun l => !l.rows.isEmpty).map Listing.text)

/-- The line that tells the version. -/
def version : String := Topic.program.name ++ " 0.1.0\n"

end Help
end TlsKeystore.CommandLine
