import Searchbar.Config.Medium
import Searchbar.Toml.Reader

/-!
# Declarations in TOML

A text field takes a string and nothing else, and what is absent is left out. A record may also be
given as an array of its components in their order; what stands behind the last one is passed over.
-/

namespace Searchbar.Toml

namespace Value

/-- The text of a string. -/
def string? : Value → Option String
  | text s => some s
  | _ => none

/-- A truth value. -/
def flag? : Value → Option Bool
  | flag b => some b
  | _ => none

/-- The items of a list. -/
def items? : Value → Option (List Value)
  | array items => some items
  | tables rows => some (rows.map (.table .header))
  | _ => none

/-- The components of a record. -/
def components? (names : List String) (v : Value) : Option (List (String × Value)) :=
  match v with
  | table _ entries => if entries.all fun e => names.contains e.1 then some entries else none
  | _ => v.items?.map fun items => names.zip items

end Value

/-- How TOML writes the parts of a declaration. -/
def medium : Medium Value where
  string? := Value.string?
  optional? v := v.string?.map some
  flag? := Value.flag?
  items? := Value.items?
  components? := Value.components?

end Searchbar.Toml

namespace Searchbar

/-- **The declaration that a TOML text holds.** -/
def SchemaConfig.ofToml? (text : String) : Option SchemaConfig :=
  (Toml.Entries.ofText? text).bind fun es => SchemaConfig.ofDoc? Toml.medium (.table .header es)

end Searchbar
