import Mathlib
import ContentOverlay.Stream.Pace

/-!
# A pace that gets on

A call can be held up only by a bound of zero.  A pace without such a bound is *positive*.
-/

set_option autoImplicit false

namespace ContentOverlay
namespace Pace

/-- Every call may move something. -/
def IsPositive (pace : Pace) : Prop := ∀ position, pace.most position ≠ some 0

/-- There is no bound. -/
theorem isPositive_none : IsPositive (none : Option Nat) := fun _ h => by cases h

theorem capped_pos {n : Nat} {bound : Option Nat} (hn : 0 < n) (hb : bound ≠ some 0) :
    0 < capped n bound := by
  cases bound with
  | none => exact hn
  | some k => exact Nat.lt_min.2 ⟨hn, Nat.pos_of_ne_zero fun h => hb (congrArg some h)⟩

theorem capped_le (n : Nat) (bound : Option Nat) : capped n bound ≤ n := by
  cases bound with
  | none => exact Nat.le_refl n
  | some k => exact Nat.min_le_left n k

/-- Between one and three bytes at a time. -/
def dribble : Pace := ⟨fun position => some (position % 3 + 1)⟩

theorem dribble_isPositive : dribble.IsPositive :=
  fun _ h => absurd (Option.some.inj h) (Nat.succ_ne_zero _)

end Pace
end ContentOverlay
