import Searchbar.Number.Binary64

/-!
# Decimal numerals

A **decimal** is a whole number of units, the unit being a power of ten. The module reads decimals
from text and takes them to the nearest `binary64` number.

* `Decimal.magnitude` rounds a decimal to the format, whatever the size of its exponent.
* `Binary64.ofText?` reads the number a user has typed: a sign, digits with at most one point and
  at least one digit, an exponent; or, in any case of letters, one of the words for infinity and
  for what is not a number.
-/

namespace Searchbar

/-- **A decimal**, `digits * 10 ^ exponent`. -/
structure Decimal where
  digits : Nat
  exponent : Int
  deriving DecidableEq

namespace Decimal

/-- How many decimal digits `n` has. -/
def digitCount (n : Nat) : Nat := (Nat.toDigits 10 n).length

/-- The magnitude of the `binary64` number nearest to a decimal. A decimal that is at least
`10 ^ 310` is infinite and one below `10 ^ (-330)` is zero, so powers of ten stay small. -/
def magnitude (d : Decimal) : Nat :=
  let top := d.exponent + digitCount d.digits
  if d.digits = 0 then 0
  else if 310 < top then Binary64.infinity
  else if top < -330 then 0
  else nearest (d.digits * Nat.pow 10 d.exponent.toNat) (Nat.pow 10 (-d.exponent).toNat)

/-- The whole number that a list of decimal digits spells. -/
def ofDigits (cs : List Char) : Nat :=
  cs.foldl (fun n c => 10 * n + (c.toNat - '0'.toNat)) 0

/-- An exponent: nothing, or the letter `e`, perhaps a sign, and at least one digit. -/
def exponentOfChars? (cs : List Char) : Option Int :=
  let whole (ds : List Char) : Option Nat :=
    if !ds.isEmpty && ds.all Char.isDigit then some (ofDigits ds) else none
  match cs with
  | [] => some 0
  | mark :: rest =>
    if mark = 'e' ∨ mark = 'E' then
      match rest with
      | '-' :: ds => (whole ds).map fun n => -(n : Int)
      | '+' :: ds => (whole ds).map fun n => (n : Int)
      | ds => (whole ds).map fun n => (n : Int)
    else none

/-- **A decimal numeral without sign**: digits around at most one point, of which there is at least
one digit, and then an exponent. -/
def ofChars? (cs : List Char) : Option Decimal :=
  let whole := cs.takeWhile Char.isDigit
  let rest := cs.dropWhile Char.isDigit
  let (fraction, rest) :=
    match rest with
    | '.' :: more => (more.takeWhile Char.isDigit, more.dropWhile Char.isDigit)
    | _ => ([], rest)
  if whole.isEmpty && fraction.isEmpty then none
  else (exponentOfChars? rest).map fun e =>
    ⟨ofDigits (whole ++ fraction), e - (fraction.length : Int)⟩

end Decimal

namespace Binary64

/-- The magnitude that an unsigned text spells. -/
def magnitudeOfChars? (cs : List Char) : Option Nat :=
  match Decimal.ofChars? cs with
  | some d => some d.magnitude
  | none =>
    let word := String.ofList (cs.map Char.toLower)
    if word = "inf" ∨ word = "infinity" then some infinity
    else if word = "nan" then some notANumber
    else none

/-- **The number that a text spells**, a sign in front being optional. -/
def ofText? (s : String) : Option Binary64 :=
  match s.toList with
  | '-' :: cs => (magnitudeOfChars? cs).map (ofMagnitude true)
  | '+' :: cs => (magnitudeOfChars? cs).map (ofMagnitude false)
  | cs => (magnitudeOfChars? cs).map (ofMagnitude false)

end Binary64

end Searchbar
