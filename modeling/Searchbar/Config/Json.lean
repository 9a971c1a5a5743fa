import Searchbar.Config.Medium
import Searchbar.Json.Fields

/-!
# Declarations in JSON

What is absent or empty is not written, the flag and the list of options apart.
-/

namespace Searchbar

/-- How JSON writes the parts of a declaration. -/
def Json.medium : Medium Json where
  string? := Json.string?
  optional? := Json.optionalString?
  flag? := Json.bool?
  items? := Json.items?
  components? := Json.components? true

namespace SuggestionConfig

/-- A declared suggestion in JSON. -/
def toJson (s : SuggestionConfig) : Json :=
  .obj (("name", .str s.name) :: s.description.toList.map fun d => ("description", Json.str d))

end SuggestionConfig

namespace OptionConfig

/-- A declared option in JSON. -/
def toJson (c : OptionConfig) : Json :=
  let text (name : String) (s : Option String) : List (String × Json) :=
    s.toList.map fun s => (name, Json.str s)
  let list (name : String) (items : List Json) : List (String × Json) :=
    if items.isEmpty then [] else [(name, .arr items)]
  .obj <|
    [("name", .str c.name)] ++ text "title" c.title ++
      [("type", .str c.typeName), ("multiple", .bool c.multiple)] ++ text "default" c.default ++
      list "choices" (c.choices.map Json.str) ++
      list "suggestions" (c.suggestions.map SuggestionConfig.toJson)

end OptionConfig

namespace SchemaConfig

/-- A declared schema in JSON. -/
def toJson (c : SchemaConfig) : Json :=
  .obj [("options", .arr (c.options.map OptionConfig.toJson))]

/-- **The declaration that a JSON value spells.** -/
def ofJson? (j : Json) : Option SchemaConfig := ofDoc? Json.medium j

end SchemaConfig

end Searchbar
