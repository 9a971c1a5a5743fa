import Searchbar.Schema.Basic

/-!
# Declarations of a schema

A schema is declared in a document. A **declaration** is what the document says, before anything is
checked: names of types are texts, and choices and suggestions may stand where they make no sense.
-/

namespace Searchbar

/-- **A declared suggestion**: a candidate for the value of a number or string option. -/
structure SuggestionConfig where
  name : String
  description : Option String := none
  deriving DecidableEq

/-- **A declared option.** -/
structure OptionConfig where
  name : String
  title : Option String := none
  typeName : String
  multiple : Bool := false
  default : Option String := none
  choices : List String := []
  suggestions : List SuggestionConfig := []
  deriving DecidableEq

/-- **A declared schema.** -/
structure SchemaConfig where
  options : List OptionConfig := []
  deriving DecidableEq

/-- Why a file could not be read. -/
inductive ReadFailure where
  | notFound
  | notDirectory
  | isDirectory
  | nameTooLong
  | nameWithNul
  | notText
  | other (reason : String)
  deriving DecidableEq

namespace ReadFailure

def message : ReadFailure → String
  | notFound => "No such file or directory (os error 2)"
  | notDirectory => "Not a directory (os error 20)"
  | isDirectory => "Is a directory (os error 21)"
  | nameTooLong => "File name too long (os error 36)"
  | nameWithNul => "file name contained an unexpected NUL byte"
  | notText => "stream did not contain valid UTF-8"
  | other reason => reason

end ReadFailure

/-- The two formats in which a schema is declared in a file. -/
inductive Format where
  | yaml
  | toml
  deriving DecidableEq

/-- **Why a document declares no schema.** -/
inductive ConfigError where
  /-- The document is not of its format, or not of the shape of a declaration. -/
  | malformed (format : Format)
  | unknownType (name typeName : String)
  | invalidDefault (name expected default : String)
  | choicesNotAllowed (name : String)
  | suggestionsNotAllowed (name : String)
  | unsupportedFormat (path : String)
  | unreadable (path : String) (failure : ReadFailure)
  | schema (e : SchemaError)
  deriving DecidableEq

namespace ConfigError

def message : ConfigError → String
  | malformed .yaml => "YAML parse error"
  | malformed .toml => "TOML parse error"
  | unknownType name typeName => "unknown type " ++ Text.quoted typeName ++ " for option " ++ name
  | invalidDefault name expected default =>
    "default " ++ Text.quoted default ++ " is not a valid " ++ expected ++ " value for option " ++ name
  | choicesNotAllowed name => "option " ++ name ++ " declares choices but is not an enum"
  | suggestionsNotAllowed name =>
    "option " ++ name ++ " declares suggestions but is not a number or string"
  | unsupportedFormat path => "unsupported schema file format: " ++ path
  | unreadable path failure => "failed to read " ++ path ++ ": " ++ failure.message
  | schema e => e.message

end ConfigError

namespace SuggestionConfig

/-- The candidate that a suggestion declares. -/
def candidate (s : SuggestionConfig) : Candidate := ⟨s.name, s.description⟩

end SuggestionConfig

namespace OptionConfig

/-- The kind that the declared type names, with the declared choices and without a source. -/
def kind? (c : OptionConfig) : Option OptionKind :=
  if c.typeName = "number" then some (.number none)
  else if c.typeName = "string" then some (.string none)
  else if c.typeName = "boolean" then some .boolean
  else if c.typeName = "enum" then some (.enum c.choices)
  else none

/-- The source of the declared suggestions, which has the given identity. -/
def source? (c : OptionConfig) (id : Nat) : Option Source :=
  if c.suggestions.isEmpty then none
  else some (.listed id (c.suggestions.map SuggestionConfig.candidate))

/-- **The option that a declaration describes.** Its type is looked at first, then its choices, its
suggestions and its default. -/
def build (c : OptionConfig) (id : Nat) : Except ConfigError OptionSpec :=
  match c.kind? with
  | none => .error (.unknownType c.name c.typeName)
  | some kind =>
    if !c.choices.isEmpty && c.typeName ≠ "enum" then .error (.choicesNotAllowed c.name)
    else if !c.suggestions.isEmpty && !kind.takesSource then .error (.suggestionsNotAllowed c.name)
    else
      let kind := ((c.source? id).map fun source => kind.withSource source).getD kind
      match c.default.filter fun text => (kind.read? text).isNone with
      | some text => .error (.invalidDefault c.name kind.name text)
      | none => .ok ⟨c.name, c.title, c.multiple, c.default, kind⟩

end OptionConfig

namespace SchemaConfig

/-- **The schema that a declaration describes.** All options are looked at on their own before their
names are. The sources get identities from `firstId` on, one per option. -/
def build (c : SchemaConfig) (firstId : Nat) : Except ConfigError Schema := do
  let options ← (c.options.zipIdx firstId).mapM fun p => p.1.build p.2
  (Schema.ofOptions options).mapError .schema

end SchemaConfig

end Searchbar
