/-!
# The life of a state

A state is born *existing* (it has a persistent form) or *new*.  A state that overlays another one
says what its owner is about to do: modify the item or remove it.  It goes *stale* when the
persistent item changes or disappears meanwhile.  *Undefined* is where every state ends.

Each status has a code, by which it travels, and a name.
-/

set_option autoImplicit false

namespace ContentOverlay

/-- Where a state is in its life. -/
inductive Status where
  /-- Discarded or disposed of. -/
  | undefined
  /-- Equal to the persistent item. -/
  | existing
  /-- An overlay with changes. -/
  | existingModified
  /-- An overlay that marks its item for removal. -/
  | existingRemoved
  /-- Not persistent yet. -/
  | new
  /-- An overlay whose persistent item was modified elsewhere. -/
  | staleModified
  /-- An overlay whose persistent item was destroyed elsewhere. -/
  | staleDestroyed
deriving DecidableEq

namespace Status

/-- All statuses, in the order of their codes. -/
def all : List Status :=
  [undefined, existing, existingModified, existingRemoved, new, staleModified, staleDestroyed]

/-- The code of a status. -/
def code : Status → Int
  | undefined => 0
  | existing => 1
  | existingModified => 2
  | existingRemoved => 3
  | new => 4
  | staleModified => 5
  | staleDestroyed => 6

/-- The status of a code. -/
def ofCode? (code : Int) : Option Status := all.find? (·.code == code)

/-- The name of a status. -/
def name : Status → String
  | undefined => "UNDEFINED"
  | existing => "EXISTING"
  | existingModified => "EXISTING_MODIFIED"
  | existingRemoved => "EXISTING_REMOVED"
  | new => "NEW"
  | staleModified => "STALE_MODIFIED"
  | staleDestroyed => "STALE_DESTROYED"

/-- The statuses with which a state of its own may begin. -/
def isFresh (s : Status) : Bool := s = existing ∨ s = new

/-- The statuses with which an overlay may begin. -/
def isCopyOnWrite (s : Status) : Bool := s = existingModified ∨ s = existingRemoved

/-- Whether a state differs from what is persistent. -/
def isTransient (s : Status) : Bool := s ≠ existing

/-- Whether the persistent item of an overlay has changed. -/
def isStale (s : Status) : Bool := s = staleModified ∨ s = staleDestroyed

/-- The status of nothing in particular. -/
def default : Status := undefined

theorem ofCode?_code (s : Status) : ofCode? s.code = some s := by cases s <;> rfl

theorem code_injective {s t : Status} (h : s.code = t.code) : s = t := by
  have hs := ofCode?_code s
  rw [h, ofCode?_code] at hs
  exact (Option.some.inj hs).symm

end Status
end ContentOverlay
