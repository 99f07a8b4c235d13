/-!
# Binary floating-point numbers of 64 bits

A double is its bit pattern.  This file gives the pattern its meaning in exact arithmetic: a finite
double is `± significand · 2 ^ exponent`, and every positive rational has a nearest double.

## What is here

* `Binary64` — a bit pattern, with its parts: sign, exponent field, fraction.
* `significand`, `exponent` — the finite value as a natural number times a power of two.
* `equal` — the comparison of the IEEE standard: a NaN differs from everything, and the two zeros
  are equal.
* `nearest` — the magnitude of the double nearest to a quotient of natural numbers, a tie going to
  the even neighbour.  Quotients beyond the largest double give infinity.

The finite magnitudes in order are the bit patterns in order, so a rounding that carries into the
next power of two, or from the subnormals into the normals, needs no case of its own.
-/

set_option autoImplicit false

namespace ContentOverlay

/-- A floating-point number, as its bit pattern. -/
structure Binary64 where
  /-- The pattern: sign, eleven exponent bits, 52 fraction bits. -/
  bits : UInt64
deriving DecidableEq

namespace Binary64

/-! ## The parts of a pattern -/

/-- `2 ^ 63`: the sign bit alone. -/
def signBit : Nat := 9223372036854775808

/-- `2 ^ 52`: the first number that the fraction bits do not hold. -/
def fractionBound : Nat := 4503599627370496

/-- The pattern without the sign, as a number. -/
def magnitude (x : Binary64) : Nat := x.bits.toNat % signBit

/-- Whether the sign bit is set. -/
def negative (x : Binary64) : Bool := signBit ≤ x.bits.toNat

/-- The magnitude of infinity. -/
def infinity : Nat := 2047 * fractionBound

/-- Not a number: the largest exponent field with a fraction. -/
def isNaN (x : Binary64) : Bool := infinity < x.magnitude

/-- One of the two infinities. -/
def isInfinite (x : Binary64) : Bool := x.magnitude = infinity

/-- One of the two zeros. -/
def isZero (x : Binary64) : Bool := x.magnitude = 0

/-- The double of a sign and a magnitude. -/
def ofMagnitude (negative : Bool) (magnitude : Nat) : Binary64 :=
  ⟨UInt64.ofNat (if negative then signBit + magnitude else magnitude)⟩

/-- The usual NaN. -/
def nan : Binary64 := ofMagnitude false (infinity + fractionBound / 2)

/-- The natural number that a finite magnitude multiplies with a power of two. -/
def significand (magnitude : Nat) : Nat :=
  if magnitude < fractionBound then magnitude else magnitude % fractionBound + fractionBound

/-- The exponent of that power of two. -/
def exponent (magnitude : Nat) : Int :=
  if magnitude < fractionBound then -1074 else (magnitude / fractionBound : Nat) - 1075

/-! ## Comparison -/

/-- Equality of numbers: never with a NaN, and always between zeros. -/
def equal (x y : Binary64) : Bool :=
  !x.isNaN && !y.isNaN && (x.bits == y.bits || (x.isZero && y.isZero))

/-! ## Rounding -/

/-- The integer nearest to `num / den`, a tie going to the even one. -/
def roundedQuotient (num den : Nat) : Nat :=
  let q := num / den
  let r := num % den
  if 2 * r < den then q else if den < 2 * r then q + 1 else q + q % 2

/-- The largest `k` with `2 ^ k ≤ num / den`, for positive numbers. -/
def floorLog2 (num den : Nat) : Int :=
  let k : Int := (num.log2 : Int) - den.log2
  if den * Nat.pow 2 k.toNat ≤ num * Nat.pow 2 (-k).toNat then k else k - 1

/-- The magnitude of the double nearest to `num / den`. -/
def nearest (num den : Nat) : Nat :=
  if num = 0 then 0
  else
    let e := max (-1074) (floorLog2 num den - 52)
    let m := roundedQuotient (num * Nat.pow 2 (-e).toNat) (den * Nat.pow 2 e.toNat)
    min infinity ((e + 1074).toNat * fractionBound + m)

/-- The magnitude of the double nearest to `digits · 10 ^ scale`.  Numbers of more than four hundred
places before or behind the point are far outside the finite range and are settled without
computing the power. -/
def nearestDecimal (digits : Nat) (scale : Int) : Nat :=
  if digits = 0 then 0
  else
    let places : Int := (Nat.toDigits 10 digits).length + scale
    if places < -400 then 0
    else if 400 < places then infinity
    else nearest (digits * Nat.pow 10 scale.toNat) (Nat.pow 10 (-scale).toNat)

end Binary64
end ContentOverlay
