import Searchbar.Schema.Basic

/-!
# Options described for a reader

The description names every field of an option. Of a source it only says whether there is one.
-/

namespace Searchbar

namespace OptionKind

/-- The kind with its fields. -/
def description (kind : OptionKind) : String :=
  let withSource (name : String) (source : Option Source) : String :=
    name ++ " \x7b suggestions: " ++ (if source.isSome then "true" else "false") ++ " \x7d"
  match kind with
  | number source => withSource "Number" source
  | string source => withSource "String" source
  | enum choices => "Enum \x7b choices: " ++ Text.quotedList choices ++ " \x7d"
  | boolean => "Boolean"

end OptionKind

namespace OptionSpec

/-- **The option with its fields**, on one line. -/
def description (spec : OptionSpec) : String :=
  "OptionSpec \x7b name: " ++ Text.quoted spec.name ++
    ", title: " ++ Text.quotedOption spec.title ++
    ", multiple: " ++ (if spec.multiple then "true" else "false") ++
    ", default: " ++ Text.quotedOption spec.default ++
    ", kind: " ++ spec.kind.description ++ " \x7d"

end OptionSpec

end Searchbar
