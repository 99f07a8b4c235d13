/-!
# JSON documents

A document as a tree.  The fields of an object keep their order and no name occurs twice, which is
for whoever builds the tree to see to.
-/

set_option autoImplicit false

namespace ContentOverlay

/-- A JSON document. -/
inductive Json where
  | null
  | boolean (truth : Bool)
  /-- The number `digits / 10 ^ places`.  Only one without decimal places is an integer. -/
  | number (digits : Int) (places : Nat)
  | string (text : String)
  | array (items : List Json)
  | object (fields : List (String × Json))

namespace Json

/-- The document for an integer. -/
def ofInt (n : Int) : Json := number n 0

/-- The text of a string. -/
def text? : Json → Option String
  | string text => some text
  | _ => none

/-- `2 ^ 64`: the first number that 64 bits do not hold. -/
def wordBound : Nat := 18446744073709551616

/-- An integer that is not negative and below a bound. -/
def below? (bound : Nat) : Json → Option Nat
  | number digits 0 => if 0 ≤ digits ∧ digits < bound then some digits.toNat else none
  | _ => none

/-- A field of an object's fields. -/
def field? (fields : List (String × Json)) (name : String) : Option Json := fields.lookup name

end Json
end ContentOverlay
