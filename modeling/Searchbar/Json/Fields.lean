import Searchbar.Json.Number
import Searchbar.Json.Reader

/-!
# Records in JSON

A record is an object with a field per component, or an array of the components in their order,
where the last ones may be left out. A field must not be repeated. Fields that the record does not
have are passed over, unless the record is strict.
-/

namespace Searchbar.Json

/-- The text of a string. -/
def string? : Json → Option String
  | str s => some s
  | _ => none

/-- The text of a string, or `none` for `null`. -/
def optionalString? : Json → Option (Option String)
  | null => some none
  | str s => some (some s)
  | _ => none

/-- A truth value. -/
def bool? : Json → Option Bool
  | bool b => some b
  | _ => none

/-- A natural number of 64 bits. -/
def nat? : Json → Option Nat
  | num n => n.toNat?
  | _ => none

/-- A number. -/
def binary64? : Json → Option Binary64
  | num n => n.toBinary64?
  | _ => none

/-- The items of an array. -/
def items? : Json → Option (List Json)
  | arr items => some items
  | _ => none

/-- **The components of a record** with the given names that are present. -/
def components? (strict : Bool) (names : List String) : Json → Option (List (String × Json))
  | obj fields =>
    let known := fields.filter fun f => names.contains f.1
    if strict && known.length < fields.length then none
    else if (known.map Prod.fst).Nodup then some known
    else none
  | arr items => if items.length ≤ names.length then some (names.zip items) else none
  | _ => none

/-- How deep arrays and objects may be nested in a value that is read. -/
def depthLimit : Nat := 127

mutual

/-- **Whether every part of a value can be read on its own**: numbers are in range, strings spell a
text, and arrays and objects are nested at most `room` deep. -/
def isReadable (room : Nat) : Json → Bool
  | num n => n.toBinary64?.isSome
  | unpaired => false
  | arr items => 0 < room && areReadable (room - 1) items
  | obj fields => 0 < room && areReadableFields (room - 1) fields
  | _ => true

def areReadable (room : Nat) : List Json → Bool
  | [] => true
  | item :: rest => isReadable room item && areReadable room rest

def areReadableFields (room : Nat) : List (String × Json) → Bool
  | [] => true
  | (_, value) :: rest => isReadable room value && areReadableFields room rest

end

/-- The name of a case that holds nothing: a string, or an object whose only field has that name
and is `null`. -/
def caseName? : Json → Option String
  | str s => some s
  | obj [(name, null)] => some name
  | _ => none

end Searchbar.Json
