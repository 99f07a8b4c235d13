import ContentOverlay.Stream.Pace

/-!
# Streams to write to

A writer takes the bytes it is given, but perhaps only a few per call, and only until it is full.  A
full writer refuses, or it says that it took nothing, which is as bad.

`write` is one call and `writeAll` calls until everything is taken.  Writing nothing makes no call,
so it succeeds even on a full writer.
-/

set_option autoImplicit false

namespace ContentOverlay

/-- A sink of bytes. -/
structure Writer where
  /-- The bytes that were taken. -/
  taken : Array UInt8
  /-- How many more bytes fit; `none` for no limit. -/
  room : Option Nat
  /-- How many bytes it takes at a time. -/
  pace : Pace
  /-- Whether a full writer says that it took nothing, where it would otherwise refuse. -/
  silent : Bool

namespace Writer

open Pace (capped)

/-- A writer that takes everything. -/
def unlimited : Writer := ⟨#[], none, (none : Option Nat), false⟩

/-- The bytes that reached the writer. -/
def bytes (w : Writer) : List UInt8 := w.taken.toList

/-- Why bytes were not written. -/
inductive Fault where
  /-- The writer refused a call. -/
  | refused
  /-- A call took nothing. -/
  | tookNothing
deriving DecidableEq

/-- One call: how many of the bytes were taken, or `none` when it is refused. -/
def write (w : Writer) (data : List UInt8) : Option Nat × Writer :=
  if w.room = some 0 then (if w.silent then some 0 else none, w)
  else
    let count := capped (capped data.length (w.pace.most w.taken.size)) w.room
    (some count, { w with
      taken := w.taken ++ data.take count
      room := w.room.map (· - count) })

/-- Calls until all of `data` is taken or a call fails.  Each call takes a byte at least, so `calls`
of them are enough when `data.length ≤ calls`. -/
def push (data : List UInt8) (w : Writer) : (calls : Nat) → Except Fault Unit × Writer
  | 0 => (.ok (), w)
  | calls + 1 =>
    if data = [] then (.ok (), w)
    else match w.write data with
      | (none, w) => (.error .refused, w)
      | (some 0, w) => (.error .tookNothing, w)
      | (some count, w) => push (data.drop count) w calls

/-- Writes all of `data`. -/
def writeAll (w : Writer) (data : List UInt8) : Except Fault Unit × Writer :=
  push data w data.length

end Writer
end ContentOverlay
