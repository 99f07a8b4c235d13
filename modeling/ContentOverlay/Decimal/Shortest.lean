import ContentOverlay.Decimal.Binary64

/-!
# The shortest decimal of a double

Every finite double is the nearest double of a whole interval of numbers.  Of the decimals in that
interval this file takes one with the fewest digits, and of those the nearest to the double; of two
that are equally near, the larger.

A decimal `d · 10 ^ k` lies on the *grid* of scale `k`.  If any point of a grid lies in the interval
then one of the two neighbours of the double on that grid does, so it is enough to look at those,
from the coarsest grid on.  All comparisons are between natural numbers.
-/

set_option autoImplicit false

namespace ContentOverlay
namespace Binary64

/-- The interval of the numbers that round to a double, with the double itself, over a common
denominator. -/
structure Interval where
  /-- The lower end. -/
  low : Nat
  /-- The double. -/
  mid : Nat
  /-- The upper end. -/
  high : Nat
  /-- The denominator of the three. -/
  den : Nat
  /-- Whether the ends themselves round to the double: its significand is even. -/
  closed : Bool

/-- The interval of a finite positive magnitude.  The lower neighbour of a power of two is only half
as far away as the upper one, except at the bottom of the range. -/
def interval (magnitude : Nat) : Interval :=
  let m := significand magnitude
  let e := exponent magnitude - 2
  let up := Nat.pow 2 e.toNat
  let halved := m = fractionBound ∧ -1074 < exponent magnitude
  { low := (4 * m - if halved then 1 else 2) * up
    mid := 4 * m * up
    high := (4 * m + 2) * up
    den := Nat.pow 2 (-e).toNat
    closed := m % 2 = 0 }

namespace Interval

/-- The interval in units of `10 ^ scale`. -/
def onGrid (i : Interval) (scale : Int) : Interval :=
  let up := Nat.pow 10 (-scale).toNat
  { i with
    low := i.low * up
    mid := i.mid * up
    high := i.high * up
    den := i.den * Nat.pow 10 scale.toNat }

/-- Whether the number `n` lies in the interval. -/
def contains (i : Interval) (n : Nat) : Bool :=
  let n := n * i.den
  if i.closed then i.low ≤ n && n ≤ i.high else i.low < n && n < i.high

/-- The nearest number at a double that lies between the numbers `n` and `n + 1`, the larger one at
a tie. -/
def nearer (i : Interval) (n : Nat) : Nat := if 2 * (i.mid % i.den) < i.den then n else n + 1

/-- The neighbour of the double that lies in the interval, the nearer one when both do. -/
def neighbour? (i : Interval) : Option Nat :=
  let n := i.mid / i.den
  match i.contains n, i.contains (n + 1) with
  | true, true => some (i.nearer n)
  | true, false => some n
  | false, true => some (n + 1)
  | false, false => none

end Interval

/-- Looks for a neighbour on grid after grid, each ten times as fine as the one before. -/
def firstHit (i : Interval) : Nat → Int → Nat × Int
  | 0, scale => (let g := i.onGrid scale; g.nearer (g.mid / g.den), scale)
  | grids + 1, scale =>
    match (i.onGrid scale).neighbour? with
    | some n => (n, scale)
    | none => firstHit i grids (scale - 1)

/-- A scale that is above a finite positive magnitude. -/
def scaleAbove (magnitude : Nat) : Int :=
  (((significand magnitude).log2 : Int) + exponent magnitude + 1) * 30103 / 100000 + 1

/-- The shortest decimal of a finite positive magnitude, as `digits · 10 ^ scale`. -/
def shortest (magnitude : Nat) : Nat × Int :=
  firstHit (interval magnitude) 24 (scaleAbove magnitude)

end Binary64
end ContentOverlay
