import Searchbar.Number.Layout

/-!
# Option values

The value of an option has one of four types. What an option holds after a search is either one
value, or a list of values for an option that may be given more than once.
-/

namespace Searchbar

/-- **A typed option value.** -/
inductive Value where
  | number (x : Binary64)
  | string (s : String)
  | enum (s : String)
  | boolean (b : Bool)
  deriving DecidableEq

namespace Value

/-- The word typed for a true boolean. -/
def yes : String := "yes"

/-- The word typed for a false boolean. -/
def no : String := "no"

/-- The value as it would be typed, without quotation marks. -/
def text : Value → String
  | number x => x.text
  | string s => s
  | enum s => s
  | boolean true => yes
  | boolean false => no

/-- The number of a number value. -/
def number? : Value → Option Binary64
  | number x => some x
  | _ => none

/-- The truth value of a boolean value. -/
def boolean? : Value → Option Bool
  | boolean b => some b
  | _ => none

/-- The text of a string or enum value. -/
def string? : Value → Option String
  | string s => some s
  | enum s => some s
  | _ => none

/-- Equality with numbers compared by value. -/
def sameValue : Value → Value → Bool
  | number x, number y => x.sameValue y
  | v, w => v == w

end Value

/-- **What an option holds**: one value, or values in the order they were given. -/
inductive Stored where
  | single (v : Value)
  | multi (vs : List Value)
  deriving DecidableEq

namespace Stored

/-- All values held. -/
def values : Stored → List Value
  | single v => [v]
  | multi vs => vs

@[simp] theorem values_single (v : Value) : (single v).values = [v] := rfl

@[simp] theorem values_multi (vs : List Value) : (multi vs).values = vs := rfl

/-- Equality with numbers compared by value. -/
def sameValue : Stored → Stored → Bool
  | single v, single w => v.sameValue w
  | multi vs, multi ws => vs.length == ws.length && (vs.zip ws).all fun p => p.1.sameValue p.2
  | _, _ => false

end Stored

end Searchbar
