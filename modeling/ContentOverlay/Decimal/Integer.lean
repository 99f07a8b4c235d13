/-!
# Whole numbers in decimal

A whole number is a text of ASCII digits, with an optional sign in front.  The reader goes through
the digits from left to right and stops at the first problem, so a text with two faults has one
answer.
-/

set_option autoImplicit false

namespace ContentOverlay
namespace Decimal

/-- The value of an ASCII digit. -/
def digit? (c : Char) : Option Nat :=
  if '0' ≤ c ∧ c ≤ '9' then some (c.toNat - '0'.toNat) else none

/-- The number that a list of digit values writes. -/
def number (digits : List Nat) : Nat := digits.foldl (fun acc d => acc * 10 + d) 0

/-- The values of the ASCII digits at the front, and what follows them. -/
def digitsOf (cs : List Char) : List Nat × List Char :=
  ((cs.takeWhile (digit? · |>.isSome)).filterMap digit?, cs.dropWhile (digit? · |>.isSome))

/-- Why a text is no whole number of 64 bits. -/
inductive IntegerFault where
  | empty
  | digit
  | tooLarge
  | tooSmall
deriving DecidableEq

/-- The words for a fault. -/
def IntegerFault.message : IntegerFault → String
  | .empty => "cannot parse integer from empty string"
  | .digit => "invalid digit found in string"
  | .tooLarge => "number too large to fit in target type"
  | .tooSmall => "number too small to fit in target type"

/-- Whether a number fits in 64 bits with a sign. -/
def fits (n : Int) : Bool := -9223372036854775808 ≤ n && n < 9223372036854775808

/-- Appends digits to a number of the given sign.  At each character the digit is looked at first,
then the tenfold, then the sum; a number that leaves the 64 bit range is told at once. -/
def appendDigits (negative : Bool) (acc : Int) : List Char → Except IntegerFault Int
  | [] => .ok acc
  | c :: rest =>
    let overflow := if negative then IntegerFault.tooSmall else .tooLarge
    match digit? c with
    | none => .error .digit
    | some d =>
      if !fits (acc * 10) then .error overflow
      else
        let next := if negative then acc * 10 - d else acc * 10 + d
        if fits next then appendDigits negative next rest else .error overflow

/-- Reads a whole number of 64 bits. -/
def readInteger (text : String) : Except IntegerFault Int64 :=
  match text.toList with
  | [] => .error .empty
  | ['+'] | ['-'] => .error .digit
  | '+' :: cs => (appendDigits false 0 cs).map Int64.ofInt
  | '-' :: cs => (appendDigits true 0 cs).map Int64.ofInt
  | cs => (appendDigits false 0 cs).map Int64.ofInt

/-- Writes a whole number of 64 bits. -/
def writeInteger (n : Int64) : String := ToString.toString n.toInt

end Decimal
end ContentOverlay
