import ContentOverlay.Registry

/-!
# Who keeps listeners alive

A registry together with what its listeners live by: the handles that their owners hold, and the
snapshots that somebody keeps.  A listener is identified by its name, which is given once.

`Custody.act` carries out one action and answers it.  Giving up the last handle kills a listener
unless a kept snapshot still has it; the entry in the registry stays.  Who has a listener can add it
to the registry, so that one whose handle was given up may still be added out of a kept snapshot.
-/

set_option autoImplicit false

namespace ContentOverlay

/-- A registry, the handles on listeners and the snapshots that are kept. -/
structure Custody where
  /-- The listeners that were ever created. -/
  created : List String
  /-- The listeners whose handle is held. -/
  held : List String
  /-- The kept snapshots, each under a name of its own. -/
  kept : List (String × List String)
  registry : Registry String

namespace Custody

/-- Nothing there. -/
def empty : Custody := ⟨[], [], [], Registry.empty⟩

/-- What a listener can be held by. -/
inductive Holder where
  | handle
  /-- The snapshot that is kept under this name. -/
  | kept (name : String)

/-- Whether this has the listener. -/
def has (c : Custody) (l : String) : Holder → Bool
  | .handle => c.held.contains l
  | .kept name => c.kept.any fun s => s.1 = name && s.2.contains l

/-- Whether a handle or a kept snapshot has the listener. -/
def isAlive (c : Custody) (l : String) : Bool :=
  c.held.contains l || c.kept.any fun s => s.2.contains l

/-- What can be done. -/
inductive Action where
  | create (listener : String)
  /-- Gives up the handle. -/
  | drop (listener : String)
  /-- Adds a listener by what holds it. -/
  | add (listener : String) (holder : Holder := .handle)
  | remove (listener : String)
  | contains (listener : String)
  | clear
  /-- Takes a snapshot, to be kept under a name if one is given. -/
  | snapshot (keepAs : Option String)
  /-- Lets go of a kept snapshot. -/
  | release (keptAs : String)

/-- What comes of it. -/
inductive Answer where
  | done
  | flag (b : Bool)
  /-- The listeners of a snapshot. -/
  | listeners (names : List String)
  /-- There never was such a listener, or it is not held by what it should be added by. -/
  | noSuchListener
  /-- The name is taken. -/
  | alreadyCreated

/-- Keeps a snapshot.  An earlier one under the same name is let go. -/
def keep (c : Custody) (name : String) (listeners : List String) : Custody :=
  { c with kept := (name, listeners) :: c.kept.filter (·.1 ≠ name) }

/-- Carries out an action. -/
def act (c : Custody) : Action → Custody × Answer
  | .create l =>
    if c.created.contains l then (c, .alreadyCreated)
    else ({ c with created := l :: c.created, held := l :: c.held }, .done)
  | .drop l => ({ c with held := c.held.filter (· ≠ l) }, .flag (c.held.contains l))
  | .add l holder =>
    if c.has l holder then ({ c with registry := c.registry.add l }, .done)
    else (c, .noSuchListener)
  | .remove l =>
    if c.created.contains l then
      ({ c with registry := c.registry.remove l }, .flag (c.registry.mem l))
    else (c, .noSuchListener)
  | .contains l =>
    if c.created.contains l then (c, .flag (c.registry.has c.isAlive l)) else (c, .noSuchListener)
  | .clear => ({ c with registry := Registry.empty }, .done)
  | .snapshot keepAs =>
    let listeners := c.registry.live c.isAlive
    let c := { c with registry := c.registry.pruned c.isAlive }
    match keepAs with
    | some name => (c.keep name listeners, .listeners listeners)
    | none => (c, .listeners listeners)
  | .release name =>
    ({ c with kept := c.kept.filter (·.1 ≠ name) }, .flag (c.kept.any (·.1 = name)))

end Custody
end ContentOverlay
