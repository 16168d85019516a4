/-
Configurations as TOML text, with a comment above every field.
-/
import TlsKeystore.Config
import TlsKeystore.Toml.Quoted

namespace TlsKeystore.Config

/-- The value of a field as it is written. -/
inductive FieldValue where
  | text (s : String)
  | flag (b : Bool)
  | identities (specs : List IdentitySpec)
deriving DecidableEq, Repr

/-- A field with what it is for. -/
structure Field where
  name : String
  doc : String
  value : FieldValue
deriving DecidableEq, Repr

/-- The nine fields in their order. -/
def fields (c : Config) : List Field :=
  [⟨"workdir", "Directory that relative keystore paths are resolved against", .text c.workdir⟩,
    ⟨"password",
      "Keystore password. The KEYSTORE_PASSWORD environment variable takes precedence",
      .text c.password⟩,
    ⟨"skip_existing", "Keep keystores that already exist instead of regenerating them",
      .flag c.skipExisting⟩,
    ⟨"org_unit", "Organizational unit of every certificate subject", .text c.orgUnit⟩,
    ⟨"organization", "Organization of every certificate subject", .text c.organization⟩,
    ⟨"locality", "Locality of every certificate subject", .text c.locality⟩,
    ⟨"state", "State or province of every certificate subject", .text c.state⟩,
    ⟨"country", "Country code of every certificate subject", .text c.country⟩,
    ⟨"identities", "Keystores to generate, one per service", .identities c.identities⟩]

/-- An identity between braces. -/
def writeSpec (spec : IdentitySpec) : List Char :=
  "\x7b common_name = ".toList ++ Toml.write spec.commonName ++ ", output_path = ".toList
    ++ Toml.write spec.outputPath ++ " \x7d".toList

/-- Items with commas between them. -/
def separated : List (List Char) → List Char
  | [] => []
  | [item] => item
  | item :: rest => item ++ ", ".toList ++ separated rest

def FieldValue.write : FieldValue → List Char
  | .text s => Toml.write s
  | .flag b => (toString b).toList
  | .identities specs => '[' :: separated (specs.map writeSpec) ++ [']']

/-- A comment, and the field on the line after it. -/
def Field.write (f : Field) : List Char :=
  "# ".toList ++ f.doc.toList ++ '\n' :: f.name.toList ++ " = ".toList ++ f.value.write ++ ['\n']

/-- The text of a configuration. -/
def template (c : Config) : String := String.ofList (c.fields.flatMap Field.write)

end TlsKeystore.Config
