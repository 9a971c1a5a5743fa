/-!
# Characters by their numbers

Escapes name a character by its code point in hexadecimal digits, and some characters are named by
what they are for.
-/

namespace Searchbar.Text

/-- The apostrophe. -/
def apostrophe : Char := '\x27'

/-- The byte order mark, which may stand at the start of a text without being a part of it. -/
def isByteOrderMark (c : Char) : Bool := c.toNat = 0xFEFF

/-- The digits of `n` in lower-case hexadecimal. -/
def hex (n : Nat) : String :=
  String.ofList (Nat.toDigits 16 n)

/-- The value of a hexadecimal digit, in either case. -/
def hexValue? (c : Char) : Option Nat :=
  if c.isDigit then some (c.toNat - '0'.toNat)
  else if 'a' ≤ c ∧ c ≤ 'f' then some (c.toNat - 'a'.toNat + 10)
  else if 'A' ≤ c ∧ c ≤ 'F' then some (c.toNat - 'A'.toNat + 10)
  else none

/-- The number that hexadecimal digits spell. -/
def hexNumber? (cs : List Char) : Option Nat :=
  cs.foldlM (fun n c => (hexValue? c).map fun d => 16 * n + d) 0

/-- The character whose code point is spelled by the first `size` characters, if there are so
many. -/
def charOfHex? (size : Nat) (cs : List Char) : Option Char := do
  let digits := cs.take size
  if digits.length < size then none
  else
    let n ← hexNumber? digits
    if h : n.isValidChar then some (Char.ofNatAux n h) else none

end Searchbar.Text
