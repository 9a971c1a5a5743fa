import Searchbar.Json.Basic

/-!
# The numbers that numerals mean

A numeral is a natural number of 64 bits if it has neither sign, point nor exponent and is small
enough. As a `binary64` number it is read in two steps: the leading digits that fit into 64 bits
make a whole number, which is rounded to the format, and one more operation of the format scales
it by a power of ten. A numeral of up to fifteen digits and a small exponent is read exactly; a
longer one may miss the nearest number by one place. A numeral beyond the largest finite number
has no meaning.
-/

namespace Searchbar

/-- The first number that does not fit into 64 bits. -/
def wordLimit : Nat := 0x10000000000000000

/-- The value of a decimal digit. -/
def digitValue (c : Char) : Nat := c.toNat - '0'.toNat

namespace Binary64

/-- `x * 10 ^ e` by one operation of the format, for an exponent that a power of ten in the format
has. A larger exponent is out of range unless `x` is zero; a smaller one is reached in steps of
`10 ^ 308`, and three of them take every 64-bit number to zero. -/
def scaled? : Nat → Binary64 → Int → Option Binary64
  | 0, x, _ => some x
  | fuel + 1, x, e =>
    if e.natAbs ≤ 308 then
      if 0 ≤ e then
        let y := x.mul (ofNat (Nat.pow 10 e.natAbs))
        if y.isFinite then some y else none
      else some (x.div (ofNat (Nat.pow 10 e.natAbs)))
    else if x.magnitude = 0 then some x
    else if 0 ≤ e then none
    else scaled? fuel (x.div (ofNat (Nat.pow 10 308))) (e + 308)

end Binary64

namespace Json.Numeral

/-- Whether the numeral has neither a point nor an exponent. -/
def isWhole (n : Numeral) : Bool := n.fraction.isEmpty && n.exponent.isNone

/-- **The natural number of 64 bits** that a numeral spells. -/
def toNat? (n : Numeral) : Option Nat :=
  let v := Decimal.ofDigits n.whole
  if !n.negative && n.isWhole && v < wordLimit then some v else none

/-- The digits before the point as far as they fit into 64 bits, and how many were left out. Once a
digit is left out, so are all that follow. -/
def wholeDigits (cs : List Char) : Nat × Nat :=
  let step (s : Nat × Nat) (c : Char) : Nat × Nat :=
    let w := 10 * s.1 + digitValue c
    if s.2 = 0 ∧ w < wordLimit then (w, 0) else (s.1, s.2 + 1)
  cs.foldl step (0, 0)

/-- The digits after the point that still fit behind `v`, and how many they are. -/
def fractionDigits (v : Nat) : List Char → Nat × Nat
  | [] => (v, 0)
  | c :: cs =>
    let w := 10 * v + digitValue c
    if w < wordLimit then
      let (u, taken) := fractionDigits w cs
      (u, taken + 1)
    else (v, 0)

/-- The largest exponent that is looked at: a larger one decides by itself. -/
def exponentLimit : Nat := 2147483647

/-- **The `binary64` number** that a numeral spells, if it is in range. -/
def toBinary64? (n : Numeral) : Option Binary64 :=
  let (whole, left) := wholeDigits n.whole
  let (digits, taken) := fractionDigits whole n.fraction
  let start : Int := (left : Int) - (taken : Int)
  let scaled (e : Int) : Option Binary64 :=
    (Binary64.scaled? 4 (Binary64.ofNat digits) e).map fun x =>
      Binary64.ofMagnitude n.negative x.magnitude
  match n.exponent with
  | none => scaled start
  | some (negative, ds) =>
    let e := Decimal.ofDigits ds
    if exponentLimit < e then
      if digits ≠ 0 ∧ !negative then none else some (Binary64.ofMagnitude n.negative 0)
    else scaled (if negative then start - e else start + e)

end Json.Numeral

end Searchbar
