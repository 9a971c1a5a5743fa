import Searchbar.Json.Basic
import Searchbar.Text.Quoted

/-!
# Writing JSON

Two texts of a JSON value: `Json.compact` has no blanks, and `Json.pretty` puts every item and
field on a line of its own, two spaces further in than what holds it. A string escapes only the
quotation mark, the backslash and the control characters below the space.
-/

namespace Searchbar.Json

/-- One character of a string. -/
def stringChar (c : Char) : List Char :=
  if c = '"' then ['\\', '"']
  else if c = '\\' then ['\\', '\\']
  else if c = '\x08' then ['\\', 'b']
  else if c = '\t' then ['\\', 't']
  else if c = '\n' then ['\\', 'n']
  else if c = '\x0c' then ['\\', 'f']
  else if c = '\r' then ['\\', 'r']
  else if c.toNat < 0x20 then
    let ds := Nat.toDigits 16 c.toNat
    '\\' :: 'u' :: (List.replicate (4 - ds.length) '0' ++ ds)
  else [c]

/-- A string in quotation marks. -/
def stringText (s : String) : String :=
  String.ofList ('"' :: s.toList.flatMap stringChar ++ ['"'])

/-- A value that holds no other values. A string without text is written as the empty string. -/
def scalarText : Json → String
  | null => "null"
  | bool true => "true"
  | bool false => "false"
  | num n => String.ofList n.chars
  | str s => stringText s
  | _ => "\"\""

mutual

/-- **The text without blanks.** -/
def compact : Json → String
  | arr items => "[" ++ compactItems items ++ "]"
  | obj fields => "\x7b" ++ compactFields fields ++ "\x7d"
  | scalar => scalarText scalar

/-- Items with commas between them. -/
def compactItems : List Json → String
  | [] => ""
  | [item] => compact item
  | item :: rest => compact item ++ "," ++ compactItems rest

/-- Fields with commas between them. -/
def compactFields : List (String × Json) → String
  | [] => ""
  | [(name, value)] => stringText name ++ ":" ++ compact value
  | (name, value) :: rest => stringText name ++ ":" ++ compact value ++ "," ++ compactFields rest

end

/-- The start of a line `level` steps in. -/
def indent (level : Nat) : String := "\n" ++ String.ofList (List.replicate (2 * level) ' ')

mutual

/-- The text on several lines, of a value that stands `level` steps in. -/
def prettyAt (level : Nat) : Json → String
  | arr [] => "[]"
  | arr items => "[" ++ prettyItems (level + 1) items ++ indent level ++ "]"
  | obj [] => "\x7b\x7d"
  | obj fields => "\x7b" ++ prettyFields (level + 1) fields ++ indent level ++ "\x7d"
  | scalar => scalarText scalar

/-- Items on lines of their own. -/
def prettyItems (level : Nat) : List Json → String
  | [] => ""
  | [item] => indent level ++ prettyAt level item
  | item :: rest => indent level ++ prettyAt level item ++ "," ++ prettyItems level rest

/-- Fields on lines of their own. -/
def prettyFields (level : Nat) : List (String × Json) → String
  | [] => ""
  | [(name, value)] => indent level ++ stringText name ++ ": " ++ prettyAt level value
  | (name, value) :: rest =>
    indent level ++ stringText name ++ ": " ++ prettyAt level value ++ "," ++
      prettyFields level rest

end

/-- **The text on several lines.** -/
def pretty (j : Json) : String := prettyAt 0 j

end Searchbar.Json
