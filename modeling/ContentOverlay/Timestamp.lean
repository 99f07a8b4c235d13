/-!
# Timestamps

A timestamp counts milliseconds from the start of 1970, in 64 bits.
-/

set_option autoImplicit false

namespace ContentOverlay

/-- Milliseconds since the start of 1970. -/
structure Timestamp where
  millis : UInt64
deriving DecidableEq

namespace Timestamp

/-- The start of 1970. -/
def epoch : Timestamp := ⟨0⟩

/-- Whether one time is before another. -/
def isBefore (a b : Timestamp) : Bool := a.millis < b.millis

/-- The time that passed since an earlier moment, in seconds and nanoseconds. -/
def since? (later earlier : Timestamp) : Option (Nat × Nat) :=
  if later.isBefore earlier then none
  else
    let d := later.millis.toNat - earlier.millis.toNat
    some (d / 1000, d % 1000 * 1000000)

/-- The text of a timestamp. -/
def text (t : Timestamp) : String := s!"{t.millis.toNat}ms"

end Timestamp
end ContentOverlay
