import Searchbar.Number.Shortest

/-!
# Decimals as text

A number is typed in a query positionally, never with an exponent, and a whole number without a
point: `Binary64.text` is that layout of the number's shortest decimal. The digits before and
after the point are there on their own for other layouts.
-/

namespace Searchbar

namespace Decimal

/-- The digits of a decimal, most significant first. -/
def digitChars (d : Decimal) : List Char := Nat.toDigits 10 d.digits

/-- How many of the digits stand before the point. -/
def point (d : Decimal) : Int := d.digitChars.length + d.exponent

/-- The digits before the point, `0` if there are none. -/
def wholePart (d : Decimal) : List Char :=
  let cs := d.digitChars
  if d.point ≤ 0 then ['0']
  else cs.take d.point.toNat ++ List.replicate (d.point.toNat - cs.length) '0'

/-- The digits after the point. -/
def fractionPart (d : Decimal) : List Char :=
  List.replicate (-d.point).toNat '0' ++ d.digitChars.drop d.point.toNat

/-- **Positional text**, with a point only if digits follow it. -/
def positional (d : Decimal) : List Char :=
  let fraction := d.fractionPart
  d.wholePart ++ (if fraction.isEmpty then [] else '.' :: fraction)

end Decimal

namespace Binary64

/-- A text with a minus sign in front if the number is negative. -/
def signed (x : Binary64) (cs : List Char) : String :=
  String.ofList (if x.negative then '-' :: cs else cs)

/-- **The number as it is typed.** -/
def text (x : Binary64) : String :=
  if x.isNaN then "NaN"
  else if !x.isFinite then x.signed "inf".toList
  else x.signed (x.shortest .up).positional

/-- The encoding in sixteen hexadecimal digits. -/
def bitsText (x : Binary64) : String :=
  let cs := Nat.toDigits 16 x.bits
  String.ofList (List.replicate (16 - cs.length) '0' ++ cs)

end Binary64

end Searchbar
