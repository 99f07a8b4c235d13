/-!
# Registries of listeners

A registry holds the identities of listeners, each once.  It does not keep a listener alive: an
entry whose listener has died stays until it is removed, until the registry is cleared, or until the
next *snapshot*, which drops dead entries and gives the live ones.

Which listeners are alive is not for a registry to say, so every operation that depends on it takes
it as an argument.
-/

set_option autoImplicit false

namespace ContentOverlay

/-- The registered identities, in the order of their registration. -/
structure Registry (α : Type) where
  entries : List α
deriving DecidableEq

namespace Registry

variable {α : Type}

/-- No entries. -/
def empty : Registry α := ⟨[]⟩

/-- How many entries there are, dead ones included. -/
def size (r : Registry α) : Nat := r.entries.length

/-- The entries whose listeners are alive. -/
def live (alive : α → Bool) (r : Registry α) : List α := r.entries.filter alive

/-- How many listeners are registered and alive. -/
def count (alive : α → Bool) (r : Registry α) : Nat := (r.live alive).length

/-- What a snapshot leaves: the live entries. -/
def pruned (alive : α → Bool) (r : Registry α) : Registry α := ⟨r.live alive⟩

variable [DecidableEq α]

/-- Whether there is an entry, alive or dead. -/
def mem (r : Registry α) (a : α) : Bool := r.entries.contains a

/-- Whether a listener is registered and alive. -/
def has (alive : α → Bool) (r : Registry α) (a : α) : Bool := r.mem a && alive a

/-- Registers a listener, unless it is registered already. -/
def add (r : Registry α) (a : α) : Registry α := if r.mem a then r else ⟨r.entries ++ [a]⟩

/-- Removes the entry of a listener. -/
def remove (r : Registry α) (a : α) : Registry α := ⟨r.entries.filter (· ≠ a)⟩

end Registry
end ContentOverlay
