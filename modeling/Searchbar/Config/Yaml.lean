import Searchbar.Config.Medium
import Searchbar.Yaml.Node

/-!
# Declarations in YAML

A text field takes every scalar as it is written, so that a number or a truth value needs no
quotation marks. What is plain and empty stands for an absent text, an empty list and a record
without fields; only an absent text may also be written as a word for null. A flag is one of the
words for the truth values.
-/

namespace Searchbar.Yaml

/-- The words for null. -/
def isNull (text : String) : Bool := ["null", "Null", "NULL", "~"].contains text

/-- The tag of null. -/
def nullTag : TagBytes := .ofText "tag:yaml.org,2002:null"

/-- The tag of truth values. -/
def boolTag : TagBytes := .ofText "tag:yaml.org,2002:bool"

namespace Node

/-- Whether a node is plain and empty. -/
def isBlank : Node → Bool
  | scalar "" .plain _ => true
  | _ => false

/-- The text of a scalar. -/
def string? : Node → Option String
  | scalar text _ _ => some text
  | _ => none

/-- A text that may be absent. Only a plain scalar stands for an absent text; one that is tagged as
null has to be a word for null, and one with another tag is present. -/
def optional? : Node → Option (Option String)
  | scalar text .plain none => some (if text.isEmpty || isNull text then none else some text)
  | scalar text .plain (some tag) =>
    if tag = nullTag then (if isNull text then some none else none) else some (some text)
  | scalar text _ _ => some (some text)
  | _ => none

/-- A flag. A literal block stands for one only if it is tagged so. -/
def flag? : Node → Option Bool
  | scalar text style tag =>
    if style = .plain || (style = .literal && tag = some boolTag) then
      if ["true", "True", "TRUE"].contains text then some true
      else if ["false", "False", "FALSE"].contains text then some false
      else none
    else none
  | _ => none

/-- The items of a list. -/
def items? : Node → Option (List Node)
  | sequence items => some items
  | n => if n.isBlank then some [] else none

/-- The entries of a record. -/
def entries? : Node → Option (List (Node × Node))
  | mapping entries => some entries
  | n => if n.isBlank then some [] else none

end Node

namespace Document

/-- The components of a record, whose names may be aliases. -/
def components? (d : Document) (names : List String) (n : Node) : Option (List (String × Node)) := do
  let fields ← (← n.entries?).mapM fun e => do return (← (← d.follow? e.1).string?, e.2)
  if (fields.all fun f => names.contains f.1) && (fields.map Prod.fst).Nodup then some fields
  else none

/-- How a document of YAML writes the parts of a declaration: every part may be an alias. -/
def medium (d : Document) : Medium Node where
  string? n := (d.follow? n).bind Node.string?
  optional? n := (d.follow? n).bind Node.optional?
  flag? n := (d.follow? n).bind Node.flag?
  items? n := (d.follow? n).bind Node.items?
  components? names n := (d.follow? n).bind (d.components? names)

end Document

end Searchbar.Yaml

namespace Searchbar

/-- How deep a declaration is nested: a text in a suggestion of an option. -/
def SchemaConfig.depth : Nat := 6

/-- **The declaration that a YAML text holds.** -/
def SchemaConfig.ofYaml? (text : String) : Option SchemaConfig := do
  let d ← Yaml.Document.ofText? text
  let config ← ofDoc? d.medium d.root
  if d.isModest depth then some config else none

end Searchbar
