import ContentOverlay.Decimal.Integer
import ContentOverlay.Decimal.Shortest

/-!
# Doubles as text

A double is written positionally, never with an exponent and without a point when it is whole:
`0.000001`, `100000000000000000000`, `-0`, `inf`, `NaN`.  The digits are the shortest that read
back.

The reader takes any decimal numeral, with or without a sign, a point and an exponent, and the words
`inf`, `infinity` and `nan` in any case.  It gives the nearest double, a tie going to the even one.
-/

set_option autoImplicit false

namespace ContentOverlay
namespace Binary64

/-! ## Writing -/

/-- `digits · 10 ^ scale` in positional notation. -/
def positional (digits : Nat) (scale : Int) : List Char :=
  let ds := Nat.toDigits 10 digits
  if 0 ≤ scale then ds ++ List.replicate scale.toNat '0'
  else
    let places := (-scale).toNat
    if places < ds.length then
      ds.take (ds.length - places) ++ '.' :: ds.drop (ds.length - places)
    else '0' :: '.' :: List.replicate (places - ds.length) '0' ++ ds

/-- The text of a double. -/
def write (x : Binary64) : String :=
  if x.isNaN then "NaN"
  else
    let body :=
      if x.isInfinite then ['i', 'n', 'f']
      else if x.isZero then ['0']
      else let (digits, scale) := shortest x.magnitude; positional digits scale
    String.ofList (if x.negative then '-' :: body else body)

/-! ## Reading -/

/-- Why a text is no double. -/
inductive Fault where
  | empty
  | literal
deriving DecidableEq

/-- The words for a fault. -/
def Fault.message : Fault → String
  | .empty => "cannot parse float from empty string"
  | .literal => "invalid float literal"

/-- A sign at the front (whether it is a minus), and the rest. -/
def splitSign : List Char → Bool × List Char
  | '-' :: cs => (true, cs)
  | '+' :: cs => (false, cs)
  | cs => (false, cs)

/-- The exponent at the front of a text: a letter `e` and a whole number.  No text at all is the
exponent zero. -/
def exponentPart : List Char → Option Int
  | [] => some 0
  | c :: cs =>
    if c = 'e' ∨ c = 'E' then
      let (minus, cs) := splitSign cs
      match Decimal.digitsOf cs with
      | ([], _) => none
      | (ds, []) => some (if minus then -(Decimal.number ds : Int) else Decimal.number ds)
      | _ => none
    else none

/-- The digits and the scale of an unsigned numeral. -/
def numeral (cs : List Char) : Option (Nat × Int) :=
  let (whole, cs) := Decimal.digitsOf cs
  let (fraction, cs) := match cs with
    | '.' :: cs => Decimal.digitsOf cs
    | cs => ([], cs)
  if whole = [] ∧ fraction = [] then none
  else (exponentPart cs).map fun e => (Decimal.number (whole ++ fraction), e - fraction.length)

/-- The magnitude of an unsigned numeral or word. -/
def readMagnitude (cs : List Char) : Option Nat :=
  match numeral cs with
  | some (digits, scale) => some (nearestDecimal digits scale)
  | none =>
    let word := String.ofList (cs.map Char.toLower)
    if word = "inf" ∨ word = "infinity" then some infinity
    else if word = "nan" then some nan.magnitude
    else none

/-- Reads a double. -/
def read (text : String) : Except Fault Binary64 :=
  let cs := text.toList
  if cs = [] then .error .empty
  else
    let (negative, cs) := splitSign cs
    match readMagnitude cs with
    | some magnitude => .ok (ofMagnitude negative magnitude)
    | none => .error .literal

end Binary64
end ContentOverlay
