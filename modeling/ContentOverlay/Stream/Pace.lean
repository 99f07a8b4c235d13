/-!
# How many bytes at a time

Neither a reader nor a writer has to deal with all the bytes that a call is about.  How many it
takes on may change from call to call.
-/

set_option autoImplicit false

namespace ContentOverlay

/-- How many bytes a call moves at most.  No two calls that move something are made at the same
position of a stream, so this may be another number for each of them. -/
structure Pace where
  /-- The most bytes that a call at this position moves; `none` for no such limit. -/
  most : Nat → Option Nat

namespace Pace

/-- The same number for every call. -/
instance : Coe (Option Nat) Pace := ⟨fun bound => ⟨fun _ => bound⟩⟩

/-- A bound that may be absent, applied to a number. -/
def capped (n : Nat) : Option Nat → Nat
  | none => n
  | some bound => min n bound

end Pace
end ContentOverlay
