/-!
# Numbers of the format `binary64`

The numbers of a query are those of the IEEE 754 interchange format `binary64`, held by sign and
**magnitude**, the lower 63 bits of the encoding. The magnitude orders the numbers of one sign, so
one comparison tells the finite numbers from infinity and from the rest, and rounding a ratio is
one formula for subnormal numbers, normal numbers, the step to the next binade and overflow.

* `nearest num den` is the magnitude of the format's number nearest to `num / den`, a tie going to
  the even magnitude.
* `Binary64.significand` and `Binary64.exponent` read a finite number as `m * 2 ^ q`.
-/

namespace Searchbar

/-- **A `binary64` number**: its sign and the lower 63 bits of its encoding. -/
structure Binary64 where
  negative : Bool
  magnitude : Nat
  magnitude_lt : magnitude < 0x8000000000000000
  deriving DecidableEq

namespace Binary64

/-- The magnitude of infinity. Finite numbers lie below it, and what lies above is not a number. -/
def infinity : Nat := 0x7FF0000000000000

/-- The magnitude given to what is not a number. -/
def notANumber : Nat := 0x7FF8000000000000

/-- How many magnitudes a binade has, which is also the weight of the leading bit that normal numbers
do not store. -/
def binade : Nat := 0x10000000000000

/-- The number of the given sign and magnitude, a magnitude too large for the format taken down to
the largest one. -/
def ofMagnitude (negative : Bool) (magnitude : Nat) : Binary64 :=
  ⟨negative, min magnitude 0x7FFFFFFFFFFFFFFF, by omega⟩

@[simp] theorem ofMagnitude_magnitude (x : Binary64) :
    ofMagnitude x.negative x.magnitude = x := by
  have h := x.magnitude_lt
  cases x
  simp only [ofMagnitude, mk.injEq, true_and]
  simp only at h
  omega

/-- A finite number. -/
def isFinite (x : Binary64) : Bool := x.magnitude < infinity

/-- Neither finite nor infinite. -/
def isNaN (x : Binary64) : Bool := infinity < x.magnitude

/-- Equality of values: the two zeros are equal, and what is not a number equals nothing. -/
def sameValue (x y : Binary64) : Bool :=
  !x.isNaN && !y.isNaN && ((x.magnitude == 0 && y.magnitude == 0) || x == y)

/-- The encoding in 64 bits. -/
def bits (x : Binary64) : Nat :=
  (if x.negative then 0x8000000000000000 else 0) + x.magnitude

/-- The integer `m` of the finite absolute value `m * 2 ^ q`. -/
def significand (x : Binary64) : Nat :=
  if x.magnitude < binade then x.magnitude else x.magnitude % binade + binade

/-- The exponent `q` of the finite absolute value `m * 2 ^ q`. -/
def exponent (x : Binary64) : Int :=
  (max (x.magnitude / binade) 1 : Nat) - 1075

/-- The numerator of a finite absolute value. -/
def numerator (x : Binary64) : Nat := x.significand * Nat.pow 2 x.exponent.toNat

/-- The denominator of a finite absolute value, a power of two. -/
def denominator (x : Binary64) : Nat := Nat.pow 2 (-x.exponent).toNat

end Binary64

/-! ### Rounding -/

/-- `num / den` as the nearest integer, a tie going to the even one. -/
def roundDiv (num den : Nat) : Nat :=
  let q := num / den
  let r := num % den
  if 2 * r < den then q else if den < 2 * r then q + 1 else q + q % 2

/-- The exponent of the last place that the format keeps of `num / den`. The two binary logarithms
place the ratio between `2 ^ (e - 1)` and `2 ^ (e + 1)`; a comparison with `2 ^ e` decides. -/
def lastPlace (num den : Nat) : Int :=
  let e : Int := (num.log2 : Int) - (den.log2 : Int)
  let q := if num * Nat.pow 2 (-e).toNat < den * Nat.pow 2 e.toNat then e - 53 else e - 52
  max q (-1074)

/-- **Rounding to the format**: the magnitude of the number nearest to `num / den`, a tie going to
the even magnitude. A significand that rounds up to the next power of two carries into the next
binade by itself, and a ratio beyond the largest finite number becomes infinity. -/
def nearest (num den : Nat) : Nat :=
  if num = 0 then 0
  else
    let q := lastPlace num den
    let m := roundDiv (num * Nat.pow 2 (-q).toNat) (den * Nat.pow 2 q.toNat)
    min Binary64.infinity ((q + 1074).toNat * Binary64.binade + m)

namespace Binary64

/-- The whole number `n` in the format. -/
def ofNat (n : Nat) : Binary64 := ofMagnitude false (nearest n 1)

/-- The product of finite numbers, rounded. -/
def mul (x y : Binary64) : Binary64 :=
  ofMagnitude (x.negative != y.negative)
    (nearest (x.numerator * y.numerator) (x.denominator * y.denominator))

/-- The quotient of a finite number by one that is finite and not zero, rounded. -/
def div (x y : Binary64) : Binary64 :=
  ofMagnitude (x.negative != y.negative)
    (nearest (x.numerator * y.denominator) (x.denominator * y.numerator))

end Binary64

end Searchbar
