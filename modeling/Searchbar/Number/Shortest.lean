import Searchbar.Number.Decimal

/-!
# The fewest digits that read back

A finite `binary64` number is written with the fewest decimal digits from which it can be read
again. For each number of digits, from one up, the module takes the two neighbours of the value
on the grid of that many digits and keeps those that read back; the first grid with a hit decides,
and of two hits the nearer one is taken. Seventeen digits always suffice; should no grid have a
hit, the exact decimal expansion is written.

Every decimal that is returned has been read back, so `magnitude_shortest_of_hit` needs no
estimate of the grids.
-/

namespace Searchbar

/-- Which neighbour is taken when both are equally near: the larger, or the one with an even last
digit. -/
inductive Tie where
  | up
  | even
  deriving DecidableEq

namespace Decimal

/-- The decimal without `n` or fewer trailing zeros. -/
def trim : Nat → Decimal → Decimal
  | 0, d => d
  | n + 1, d =>
    if d.digits ≠ 0 ∧ d.digits % 10 = 0 then trim n ⟨d.digits / 10, d.exponent + 1⟩ else d

end Decimal

namespace Binary64

/-- How many digits a positive finite number has before the point; zero or less when it starts
with zeros after the point. -/
def pointPosition (x : Binary64) : Int :=
  let num := x.numerator
  let den := x.denominator
  if den ≤ num then Decimal.digitCount (num / den)
  else 1 - (Decimal.digitCount (den / num) : Int)

/-- The decimal, if it is read back as `x`. -/
def readsBack? (x : Binary64) (d : Decimal) : Option Decimal :=
  let d := d.trim 20
  if d.magnitude = x.magnitude then some d else none

/-- The nearest decimal of `n` digits that is read back as `x`, if there is one. -/
def onGrid? (tie : Tie) (x : Binary64) (n : Nat) : Option Decimal :=
  let unit := x.pointPosition - n
  let num := x.numerator * Nat.pow 10 (-unit).toNat
  let den := x.denominator * Nat.pow 10 unit.toNat
  let below := num / den
  let rest := num % den
  let lower := x.readsBack? ⟨below, unit⟩
  let upper := x.readsBack? ⟨below + 1, unit⟩
  let takeUpper :=
    den < 2 * rest || (2 * rest == den && (tie == .up || below % 2 == 1))
  match lower, upper with
  | some l, some u => some (if takeUpper then u else l)
  | some l, none => some l
  | none, u => u

/-- The exact decimal expansion of a finite absolute value. -/
def expansion (x : Binary64) : Decimal :=
  let q := x.exponent
  ⟨x.significand * Nat.pow 2 q.toNat * Nat.pow 5 (-q).toNat, min q 0⟩

/-- **The shortest decimal** of a finite absolute value. -/
def shortest (tie : Tie) (x : Binary64) : Decimal :=
  if x.magnitude = 0 then ⟨0, 0⟩
  else ((List.range 17).findSome? fun i => x.onGrid? tie (i + 1)).getD x.expansion

theorem magnitude_of_readsBack? {x : Binary64} {d d' : Decimal} (h : x.readsBack? d = some d') :
    d'.magnitude = x.magnitude := by
  simp only [readsBack?] at h
  split at h
  · next hd => cases h; exact hd
  · cases h

/-- A decimal found on a grid reads back. -/
theorem magnitude_of_onGrid? {tie : Tie} {x : Binary64} {n : Nat} {d : Decimal}
    (h : x.onGrid? tie n = some d) : d.magnitude = x.magnitude := by
  simp only [onGrid?] at h
  split at h
  · next l u hl hu =>
    cases h
    split
    · exact magnitude_of_readsBack? hu
    · exact magnitude_of_readsBack? hl
  · next l hl _ => cases h; exact magnitude_of_readsBack? hl
  · exact magnitude_of_readsBack? h

/-- **What was read back reads back**: unless the shortest decimal is the exact expansion, it has
the magnitude of the number it was made from. -/
theorem magnitude_shortest_of_hit {tie : Tie} {x : Binary64}
    (h : ((List.range 17).findSome? fun i => x.onGrid? tie (i + 1)).isSome) (h0 : x.magnitude ≠ 0) :
    (x.shortest tie).magnitude = x.magnitude := by
  obtain ⟨d, hd⟩ := Option.isSome_iff_exists.mp h
  obtain ⟨i, _, hi⟩ := List.exists_of_findSome?_eq_some hd
  simp only [shortest, h0, if_false, hd, Option.getD_some]
  exact magnitude_of_onGrid? hi

end Binary64

end Searchbar
