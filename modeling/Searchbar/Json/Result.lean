import Searchbar.Json.Fields
import Searchbar.Result

/-!
# Search results in JSON

A value is a record of its type and its value. What an option holds is an object with one field,
which says whether it is a single value or a list. A search result is a record of its terms and
its options.
-/

namespace Searchbar

namespace Value

/-- A value in JSON. -/
def toJson : Value → Json
  | number x => .obj [("type", .str "number"), ("value", Json.ofBinary64 x)]
  | string s => .obj [("type", .str "string"), ("value", .str s)]
  | enum s => .obj [("type", .str "enum"), ("value", .str s)]
  | boolean b => .obj [("type", .str "boolean"), ("value", .bool b)]

/-- The value of the named type that a JSON value spells. -/
def ofTyped? (type : String) (j : Json) : Option Value :=
  if type = "number" then j.binary64?.map number
  else if type = "string" then j.string?.map string
  else if type = "enum" then j.string?.map enum
  else if type = "boolean" then j.bool?.map boolean
  else none

/-- The name of a type. In an array it has to be a string; an object may also give it as a case. -/
def typeName? : Json → Json → Option String
  | .arr _, type => type.string?
  | _, type => type.caseName?

/-- **The value that a JSON value spells.** -/
def ofJson? (j : Json) : Option Value := do
  let fields ← j.components? false ["type", "value"]
  let type ← (fields.lookup "type").bind (typeName? j)
  ofTyped? type (← fields.lookup "value")

end Value

namespace Stored

/-- What an option holds in JSON. -/
def toJson : Stored → Json
  | single v => .obj [("single", v.toJson)]
  | multi vs => .obj [("multi", .arr (vs.map Value.toJson))]

/-- **What an option holds**, from JSON. -/
def ofJson? : Json → Option Stored
  | .obj [(case, j)] =>
    if case = "single" then (Value.ofJson? j).map single
    else if case = "multi" then (j.items?.bind fun items => items.mapM Value.ofJson?).map multi
    else none
  | _ => none

end Stored

namespace SearchResult

/-- A search result in JSON. -/
def toJson (r : SearchResult) : Json :=
  .obj [("free_text", .arr (r.terms.map Json.str)),
        ("options", .obj (r.options.entries.map fun e => (e.1, e.2.toJson)))]

/-- The options of a result, from JSON. A repeated name keeps what it was last given. -/
def optionsOfJson? : Json → Option (NameMap Stored)
  | .obj fields =>
    (fields.mapM fun f => (Stored.ofJson? f.2).map fun stored => (f.1, stored)).map NameMap.ofList
  | _ => none

/-- **The search result that a JSON value spells.** -/
def ofJson? (j : Json) : Option SearchResult := do
  let fields ← j.components? false ["free_text", "options"]
  let terms ← (← (← fields.lookup "free_text").items?).mapM Json.string?
  let options ← optionsOfJson? (← fields.lookup "options")
  return ⟨terms, options⟩

end SearchResult

end Searchbar
