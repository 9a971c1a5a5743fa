import Searchbar.Number.Layout

/-!
# JSON values

A JSON value as it is read or written. Numbers are kept as they are spelled, since what a number
means depends on the place it stands in: an offset has to be a natural number of 64 bits, an
option's number is a `binary64` number.
-/

namespace Searchbar

/-- **The spelling of a number**: a sign, the digits before and after the point, and an exponent
with its sign. Without a point there are no digits after it. -/
structure Json.Numeral where
  negative : Bool
  whole : List Char
  fraction : List Char
  exponent : Option (Bool × List Char)
  deriving DecidableEq

/-- **A JSON value.** -/
inductive Json where
  | null
  | bool (b : Bool)
  | num (n : Json.Numeral)
  | str (s : String)
  /-- A string whose escapes name one half of a surrogate pair without the other, or an object with
  such a string for a name. It is well-formed, so it can be passed over, but it spells nothing. -/
  | unpaired
  | arr (items : List Json)
  | obj (fields : List (String × Json))

namespace Json.Numeral

/-- The numeral of a natural number. -/
def ofNat (n : Nat) : Numeral := ⟨false, Nat.toDigits 10 n, [], none⟩

/-- The numeral of a finite number. A point is always written, and an exponent where the positional
text would be long. -/
def ofBinary64 (x : Binary64) : Numeral :=
  let d := x.shortest .even
  if x.magnitude = 0 ∨ (-5 < d.point ∧ d.point ≤ 16) then
    ⟨x.negative, d.wholePart, (if d.fractionPart.isEmpty then ['0'] else d.fractionPart), none⟩
  else
    let e := d.point - 1
    ⟨x.negative, d.digitChars.take 1, d.digitChars.drop 1,
      some (decide (e < 0), Nat.toDigits 10 e.natAbs)⟩

/-- The characters of a numeral. The sign of an exponent is always written. -/
def chars (n : Numeral) : List Char :=
  (if n.negative then ['-'] else []) ++ n.whole ++
    (if n.fraction.isEmpty then [] else '.' :: n.fraction) ++
    match n.exponent with
    | none => []
    | some (negative, ds) => 'e' :: (if negative then '-' else '+') :: ds

end Json.Numeral

namespace Json

/-- The natural number `n`. -/
def ofNat (n : Nat) : Json := num (Numeral.ofNat n)

/-- A number. What is not finite has no numeral and is written as `null`. -/
def ofBinary64 (x : Binary64) : Json :=
  if x.isFinite then num (Numeral.ofBinary64 x) else null

/-- An optional value, `null` if absent. -/
def ofOption {α : Type} (f : α → Json) : Option α → Json
  | none => null
  | some a => f a

end Json

end Searchbar
