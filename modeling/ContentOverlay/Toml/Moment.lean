import ContentOverlay.Calendar.Civil
import ContentOverlay.Toml.Number

/-!
# Dates and times

A moment has the form of RFC 3339, in full or only in part: a date, a time of day, or both, and then
perhaps an offset from universal time.  Only the form and the ranges of the parts are looked at.
-/

set_option autoImplicit false

namespace ContentOverlay
namespace Toml

/-- Reads a number of exactly so many digits. -/
def fixed (count : Nat) : Read Nat := fun cs =>
  let ds := cs.take count
  if ds.length = count ∧ ds.all isDigit then some (numberIn 10 ds, cs.drop count) else none

/-- Reads a number of two digits, of at most `most`. -/
def twoDigits (most : Nat) : Read Nat := fun cs =>
  match fixed 2 cs with
  | some (n, rest) => if n ≤ most then some (n, rest) else none
  | none => none

/-- Reads a date. -/
def date : Read Unit := fun cs => do
  let (year, cs) ← fixed 4 cs
  let (_, cs) ← symbol '-' cs
  let (month, cs) ← fixed 2 cs
  let (_, cs) ← symbol '-' cs
  let (day, cs) ← fixed 2 cs
  if Calendar.isDay ⟨year, month, day⟩ then some ((), cs) else none

/-- What follows a fraction of a second, if there is one. -/
def skipFraction : List Char → List Char
  | '.' :: c :: rest => if isDigit c then rest.dropWhile isDigit else '.' :: c :: rest
  | cs => cs

/-- Reads a time of day, which may be in a leap second. -/
def time : Read Unit := fun cs => do
  let (_, cs) ← twoDigits 23 cs
  let (_, cs) ← symbol ':' cs
  let (_, cs) ← twoDigits 59 cs
  let (_, cs) ← symbol ':' cs
  let (_, cs) ← twoDigits 60 cs
  return ((), skipFraction cs)

/-- Reads an offset from universal time. -/
def offset : Read Unit
  | c :: rest =>
    if c = 'Z' ∨ c = 'z' then some ((), rest)
    else if c = '+' ∨ c = '-' then do
      let (_, rest) ← twoDigits 23 rest
      let (_, rest) ← symbol ':' rest
      let (_, rest) ← twoDigits 59 rest
      return ((), rest)
    else none
  | [] => none

/-- What follows the time of day after a date, and its offset, where there are such. -/
def timeOfDate : List Char → List Char
  | c :: rest =>
    if c = 'T' ∨ c = 't' ∨ c = ' ' then
      match time rest with
      | none => c :: rest
      | some (_, rest) =>
        match offset rest with
        | none => rest
        | some (_, rest) => rest
    else c :: rest
  | [] => []

/-- Reads a date, a date with a time, or a time. -/
def moment : Read Unit := fun cs =>
  match date cs with
  | some (_, rest) => some ((), timeOfDate rest)
  | none => time cs

end Toml
end ContentOverlay
