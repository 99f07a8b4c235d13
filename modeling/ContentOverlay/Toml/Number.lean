import ContentOverlay.Decimal.Integer
import ContentOverlay.Decimal.Notation
import ContentOverlay.Text.Hex
import ContentOverlay.Toml.Lexical

/-!
# Numbers

Integers of 64 bits in four bases, and decimals with a fraction or an exponent.  Between two digits
of a number there may be an underscore.

A decimal that is too large to be finite is refused when it is positive.
-/

set_option autoImplicit false

namespace ContentOverlay
namespace Toml

/-! ## Digits -/

/-- Whether a character is a decimal digit. -/
def isDigit (c : Char) : Bool := (Decimal.digit? c).isSome

/-- The digits that follow another one, each perhaps after an underscore, and what follows them. -/
def moreDigits (ok : Char → Bool) : List Char → List Char × List Char
  | '_' :: c :: rest =>
    if ok c then
      let (more, rest) := moreDigits ok rest
      (c :: more, rest)
    else ([], '_' :: c :: rest)
  | c :: rest =>
    if ok c then
      let (more, rest) := moreDigits ok rest
      (c :: more, rest)
    else ([], c :: rest)
  | [] => ([], [])

/-- Reads digits, one at least. -/
def digits (ok : Char → Bool) : Read (List Char)
  | c :: rest =>
    if ok c then
      let (more, rest) := moreDigits ok rest
      some (c :: more, rest)
    else none
  | [] => none

/-- Reads a sign, if there is one, as it stands. -/
def sign : List Char → List Char × List Char
  | '+' :: rest => (['+'], rest)
  | '-' :: rest => (['-'], rest)
  | cs => ([], cs)

/-! ## Integers -/

/-- Reads a whole number in decimal, without underscores.  Only zero begins with a zero. -/
def whole : Read (List Char) := fun cs =>
  let (s, cs) := sign cs
  match cs with
  | '0' :: rest => some (s ++ ['0'], rest)
  | cs => (digits isDigit cs).map fun p => (s ++ p.1, p.2)

/-- Whether a character is a digit in a base of at most 16. -/
def isDigitOf (base : Nat) (c : Char) : Bool := (Hex.value? c).any (· < base)

/-- The number that digits write in a base. -/
def numberIn (base : Nat) (ds : List Char) : Nat :=
  ds.foldl (fun acc c => acc * base + (Hex.value? c).getD 0) 0

/-- `2 ^ 63`: the first number that is too large for an integer. -/
def integerBound : Nat := 9223372036854775808

/-- Reads the digits of a number that is not negative and has 64 bits with its sign. -/
def basedInteger (base : Nat) : Read Int := fun cs =>
  match digits (isDigitOf base) cs with
  | some (ds, rest) =>
    if numberIn base ds < integerBound then some ((numberIn base ds : Int), rest) else none
  | none => none

/-- Reads an integer. -/
def integer : Read Int
  | '0' :: 'x' :: rest => basedInteger 16 rest
  | '0' :: 'o' :: rest => basedInteger 8 rest
  | '0' :: 'b' :: rest => basedInteger 2 rest
  | cs =>
    match whole cs with
    | some (ds, rest) =>
      match Decimal.readInteger (String.ofList ds) with
      | .ok n => some (n.toInt, rest)
      | .error _ => none
    | none => none

/-! ## Decimals -/

/-- Reads an exponent. -/
def exponent : Read (List Char)
  | c :: rest =>
    if c = 'e' ∨ c = 'E' then
      let (s, rest) := sign rest
      (digits isDigit rest).map fun p => ('e' :: s ++ p.1, p.2)
    else none
  | [] => none

/-- Reads a fraction. -/
def fraction : Read (List Char)
  | '.' :: rest => (digits isDigit rest).map fun p => ('.' :: p.1, p.2)
  | _ => none

/-- Reads what makes a whole number a decimal: an exponent, or a fraction and perhaps an exponent
after it. -/
def decimalPart : Read (List Char) := fun cs =>
  match exponent cs with
  | some p => some p
  | none =>
    match fraction cs with
    | none => none
    | some (f, rest) =>
      match exponent rest with
      | some (e, rest) => some (f ++ e, rest)
      | none => some (f, rest)

/-- The decimal of a text, unless it is too large. -/
def finite? (ds : List Char) : Option Binary64 :=
  match Binary64.read (String.ofList ds) with
  | .ok x => if x = Binary64.ofMagnitude false Binary64.infinity then none else some x
  | .error _ => none

/-- Reads one of the decimals that have names. -/
def namedDecimal : Read Binary64 := fun cs =>
  let (s, cs) := sign cs
  match cs with
  | 'i' :: 'n' :: 'f' :: rest => some (Binary64.ofMagnitude (s == ['-']) Binary64.infinity, rest)
  | 'n' :: 'a' :: 'n' :: rest => some (Binary64.nan, rest)
  | _ => none

/-- Reads a decimal. -/
def decimal : Read Binary64 := fun cs =>
  match whole cs with
  | none => namedDecimal cs
  | some (w, rest) =>
    match decimalPart rest with
    | none => none
    | some (d, rest) => (finite? (w ++ d)).map (·, rest)

end Toml
end ContentOverlay
