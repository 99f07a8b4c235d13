import ContentOverlay.Calendar.DateTime
import ContentOverlay.Decimal.Integer

/-!
# Dates as text

A date is written in the form of RFC 3339: local date and time, as many fraction digits as needed in
steps of three, and the offset to the nearest minute, as in `2005-03-14T09:26:53.589+01:00`.

## What is here

* `write?` — the text of a date that has a local time.  A year outside `0000` to `9999` is written
  with a sign.
* `read` — the date of a text.  Years have four digits; the separator is `T`, `t` or a blank; the
  offset is `Z`, `z`, or a sign with hours and minutes below 24 hours; a second `60` is a leap
  second; fraction digits after the ninth are dropped.

A refused text has one of four faults, and the first in reading order decides.  A date that the
calendar does not have is noticed after its day, a time that the day does not have after its
fraction, and an offset of 24 hours or more after the end of the text.
-/

set_option autoImplicit false

namespace ContentOverlay
namespace Rfc3339

/-! ## Writing -/

/-- A number with at least `width` digits, filled up with zeros. -/
def padded (width n : Nat) : List Char :=
  let ds := Nat.toDigits 10 n
  List.replicate (width - ds.length) '0' ++ ds

/-- A year, with a sign unless it has the usual four digits. -/
def writeYear (year : Int) : List Char :=
  if 0 ≤ year ∧ year ≤ 9999 then padded 4 year.toNat
  else (if year < 0 then '-' else '+') :: padded 4 year.natAbs

/-- The fraction of a second: none, or three, six or nine digits. -/
def writeFraction (nanos : Nat) : List Char :=
  if nanos = 0 then []
  else if nanos % 1000000 = 0 then '.' :: padded 3 (nanos / 1000000)
  else if nanos % 1000 = 0 then '.' :: padded 6 (nanos / 1000)
  else '.' :: padded 9 nanos

/-- The offset, rounded to the nearest minute, half a minute away from zero. -/
def writeOffset (offset : Int) : List Char :=
  let minutes := (offset.natAbs + 30) / 60
  (if offset < 0 then '-' else '+') :: (padded 2 (minutes / 60) ++ ':' :: padded 2 (minutes % 60))

/-- The characters of a date: its local date and time, and its offset. -/
def characters (d : DateTime) : List Char :=
  let date := d.localDate
  let second := d.secondOfDay % 60 + d.nanos / 1000000000
  writeYear date.year ++ '-' :: padded 2 date.month ++ '-' :: padded 2 date.day ++
  'T' :: padded 2 (d.secondOfDay / 3600) ++ ':' :: padded 2 (d.secondOfDay / 60 % 60) ++
  ':' :: padded 2 second ++ writeFraction (d.nanos % 1000000000) ++ writeOffset d.offset

/-- The text of a date, which needs a local time. -/
def write? (d : DateTime) : Option String :=
  if d.hasLocal then some (String.ofList (characters d)) else none

/-! ## Reading -/

/-- Why a text is no date. -/
inductive Fault where
  | premature
  | trailing
  | invalid
  | outOfRange
deriving DecidableEq

/-- The words for a fault. -/
def Fault.message : Fault → String
  | .premature => "premature end of input"
  | .trailing => "trailing input"
  | .invalid => "input contains invalid characters"
  | .outOfRange => "input is out of range"

/-- What a reader of a part of a text gives: the part's meaning and the rest. -/
abbrev Reader (α : Type) := List Char → Except Fault (α × List Char)

/-- Reads one of some characters. -/
def oneOf (allowed : List Char) : Reader Unit
  | [] => .error .premature
  | c :: cs => if c ∈ allowed then .ok ((), cs) else .error .invalid

/-- Reads `count` more digits of a number that begins with `acc`. -/
def moreDigits (acc : Nat) : Nat → Reader Nat
  | 0, cs => .ok (acc, cs)
  | _ + 1, [] => .error .premature
  | count + 1, c :: cs =>
    match Decimal.digit? c with
    | some d => moreDigits (acc * 10 + d) count cs
    | none => .error .invalid

/-- Reads exactly `count` digits. -/
def fixedDigits (count : Nat) : Reader Nat := moreDigits 0 count

/-- Reads the optional fraction of a second, in nanoseconds. -/
def fraction : Reader Nat
  | '.' :: cs =>
    match Decimal.digitsOf cs with
    | ([], []) => .error .premature
    | ([], _) => .error .invalid
    | (ds, rest) =>
      let kept := ds.take 9
      .ok (Decimal.number kept * Nat.pow 10 (9 - kept.length), rest)
  | cs => .ok (0, cs)

/-- Two characters that should be digits: too few are told before wrong ones. -/
def twoDigits : Reader (Nat × Nat)
  | a :: b :: cs =>
    match Decimal.digit? a, Decimal.digit? b with
    | some m, some n => .ok ((m, n), cs)
    | _, _ => .error .invalid
  | [a] => if a.utf8Size < 2 then .error .premature else .error .invalid
  | [] => .error .premature

/-- Reads the offset, in seconds.  The hours may be any two digits here. -/
def offset : Reader Int
  | [] => .error .premature
  | c :: cs =>
    if c = 'Z' ∨ c = 'z' then .ok (0, cs)
    else if c = '+' ∨ c = '-' ∨ c = Char.ofNat 0x2212 then do
      let ((h₁, h₀), cs) ← twoDigits cs
      let ((), cs) ← oneOf [':'] cs
      let ((m₁, m₀), cs) ← twoDigits cs
      if 6 ≤ m₁ then throw .outOfRange
      let seconds : Int := ((h₁ * 10 + h₀) * 60 + (m₁ * 10 + m₀)) * 60
      return (if c = '+' then seconds else -seconds, cs)
    else .error .invalid

/-- The length of the date and time without fraction and offset.  A text with fewer bytes is too
short, whatever it holds. -/
def fixedLength : Nat := 19

/-- Reads a date. -/
def read (text : String) : Except Fault DateTime := do
  if text.utf8ByteSize < fixedLength then throw .premature
  let (year, cs) ← fixedDigits 4 text.toList
  let ((), cs) ← oneOf ['-'] cs
  let (month, cs) ← fixedDigits 2 cs
  let ((), cs) ← oneOf ['-'] cs
  let (day, cs) ← fixedDigits 2 cs
  let date : Calendar.Civil := ⟨year, month, day⟩
  if !Calendar.isDay date then throw .outOfRange
  let ((), cs) ← oneOf ['t', 'T', ' '] cs
  let (hour, cs) ← fixedDigits 2 cs
  let ((), cs) ← oneOf [':'] cs
  let (minute, cs) ← fixedDigits 2 cs
  let ((), cs) ← oneOf [':'] cs
  let (second, cs) ← fixedDigits 2 cs
  let (second, leap) := if second = 60 then (59, 1000000000) else (second, 0)
  let (nanos, cs) ← fraction cs
  if 24 ≤ hour ∨ 60 ≤ minute ∨ 60 ≤ second then throw .outOfRange
  let (east, cs) ← offset cs
  if cs ≠ [] then throw .trailing
  let secondOfDay := hour * 3600 + minute * 60 + second
  let seconds := Calendar.daysOfCivil date * 86400 + secondOfDay - east
  match DateTime.of? seconds (leap + nanos) east with
  | some d => return d
  | none => throw .outOfRange

end Rfc3339
end ContentOverlay
