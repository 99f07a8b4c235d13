import ContentOverlay.Stream.Pace

/-!
# Streams to read from

A reader hands out the bytes of a source a few at a time.  It may give fewer than it was asked for,
and it may refuse to go on from some position.  A read that gives nothing means the end.

## What is here

* `Reader` — what is still to come, how much was taken, and how the reader behaves.
* `read` — one call.
* `readUpTo` — calls until a number of bytes has come or the source ends.
* `readExactly` — the same, where an early end is a fault.
* `readAll` — everything up to the end.

Every byte that was taken counts in the position, also when the call after it fails.
-/

set_option autoImplicit false

namespace ContentOverlay

/-- A source of bytes. -/
structure Reader where
  /-- The bytes still to come. -/
  rest : List UInt8
  /-- How many bytes were taken. -/
  position : Nat
  /-- How many bytes come at a time. -/
  pace : Pace
  /-- The position from which on every call is refused. -/
  refusesAt : Option Nat

namespace Reader

open Pace (capped)

/-- A reader that gives all it is asked for. -/
def ofBytes (bytes : List UInt8) : Reader := ⟨bytes, 0, (none : Option Nat), none⟩

/-- What may go wrong when a number of bytes is needed. -/
inductive Fault where
  /-- The source refused a call. -/
  | refused
  /-- The source ended early. -/
  | ended
deriving DecidableEq

/-- One call: up to `count` bytes, or `none` when it is refused. -/
def read (r : Reader) (count : Nat) : Option (List UInt8) × Reader :=
  if r.refusesAt.any (· ≤ r.position) then (none, r)
  else
    let taken := r.rest.take
      (capped (capped count (r.pace.most r.position)) (r.refusesAt.map (· - r.position)))
    (some taken, { r with
      rest := r.rest.drop taken.length
      position := r.position + taken.length })

/-- Calls until `count` bytes have come, the source ends, or a call is refused.  Each call but the
last gives a byte at least, so `calls` of them are enough when `count ≤ calls`. -/
def collect (acc : List (List UInt8)) (count : Nat) (r : Reader) :
    (calls : Nat) → Except Unit (List UInt8) × Reader
  | 0 => (.ok acc.reverse.flatten, r)
  | calls + 1 =>
    if count = 0 then (.ok acc.reverse.flatten, r)
    else match r.read count with
      | (none, r) => (.error (), r)
      | (some [], r) => (.ok acc.reverse.flatten, r)
      | (some taken, r) => collect (taken :: acc) (count - taken.length) r calls

/-- Up to `count` bytes: fewer only when the source ends. -/
def readUpTo (r : Reader) (count : Nat) : Except Fault (List UInt8) × Reader :=
  match collect [] count r count with
  | (.ok bytes, r) => (.ok bytes, r)
  | (.error (), r) => (.error .refused, r)

/-- Exactly `count` bytes. -/
def readExactly (r : Reader) (count : Nat) : Except Fault (List UInt8) × Reader :=
  match r.readUpTo count with
  | (.ok bytes, r) => if bytes.length = count then (.ok bytes, r) else (.error .ended, r)
  | (.error fault, r) => (.error fault, r)

/-- Everything up to the end of the source.  Asking for one byte more than there are makes the
reader say that it has ended. -/
def readAll (r : Reader) : Except Fault (List UInt8) × Reader := r.readUpTo (r.rest.length + 1)

end Reader
end ContentOverlay
