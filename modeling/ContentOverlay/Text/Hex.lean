/-!
# Hexadecimal digits

Identifiers are written in lower-case hexadecimal and read in either case.
-/

set_option autoImplicit false

namespace ContentOverlay
namespace Hex

/-- The value of a hexadecimal digit of either case. -/
def value? (c : Char) : Option Nat :=
  if '0' ≤ c ∧ c ≤ '9' then some (c.toNat - '0'.toNat)
  else if 'a' ≤ c ∧ c ≤ 'f' then some (c.toNat - 'a'.toNat + 10)
  else if 'A' ≤ c ∧ c ≤ 'F' then some (c.toNat - 'A'.toNat + 10)
  else none

/-- The lower-case digit of a value below 16. -/
def digit (n : Nat) : Char := Nat.digitChar (n % 16)

/-- The last `count` hexadecimal digits of `n`, first digit first. -/
def digits (count n : Nat) : List Char :=
  match count with
  | 0 => []
  | count + 1 => digits count (n / 16) ++ [digit n]

/-- The number that a string of hexadecimal digits writes, when all its characters are digits. -/
def number? (cs : List Char) : Option Nat :=
  cs.foldlM (fun acc c => (value? c).map (acc * 16 + ·)) 0

end Hex
end ContentOverlay
