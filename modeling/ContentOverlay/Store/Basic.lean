import ContentOverlay.Config.Basic
import ContentOverlay.Store.State

/-!
# The store of states

All states that were ever constructed, the names under which clients hold them, and the clients'
listeners.  The store also has a clock, from which a state takes the time of its construction.

## Who is alive

A state lives as long as somebody holds it: a name, a running pass over its listeners, or a living
state that overlays it.  A client's listener lives as long as its handle is held or a running pass
still has it in its audience.  The observer of an overlay lives and dies with the overlay and its
link to the target, unless a running pass has it in its audience.  What the running passes hold is
not part of the store, and is given as `Holding`.

A dead state is never heard of again, so it stays where it is.
-/

set_option autoImplicit false

namespace ContentOverlay

/-- A listener that a client created. -/
structure Listener where
  name : String
  /-- Whether it keeps a note of everything it is shown, and not only of what it is told. -/
  verbose : Bool
  /-- Whether the client still holds it. -/
  held : Bool
deriving DecidableEq

/-- What running passes hold. -/
structure Holding where
  /-- The states whose listeners are being told. -/
  sources : List StateId
  /-- The listeners that are being told. -/
  audience : List ListenerId

/-- What is held when no pass is running. -/
def Holding.nothing : Holding := ⟨[], []⟩

/-- The states, their names, and the clients' listeners. -/
structure Store where
  config : Config
  /-- The present time, which a state gets when it is constructed. -/
  clock : Timestamp
  /-- All states, each at the place of its identity. -/
  states : List State
  /-- The names under which states are held, each once. -/
  names : List (String × StateId)
  /-- For each name that was given up, the state it last stood for. -/
  dropped : List (String × StateId)
  listeners : List Listener

namespace Store

/-- No states and no listeners. -/
def empty (config : Config) (clock : Timestamp) : Store := ⟨config, clock, [], [], [], []⟩

/-- The clock has another time. -/
def elapse (st : Store) (time : Timestamp) : Store := { st with clock := time }

/-! ## States and names -/

/-- The state with this identity. -/
def state? (st : Store) (id : StateId) : Option State := st.states[id]?

/-- The identity of the state with this name. -/
def named? (st : Store) (name : String) : Option StateId := st.names.lookup name

/-- Changes a state. -/
def update (st : Store) (id : StateId) (f : State → State) : Store :=
  { st with states := st.states.modify id f }

/-- Gives a state a name.  Whatever had the name before loses it. -/
def bind (st : Store) (name : String) (id : StateId) : Store :=
  { st with names := (name, id) :: st.names.filter (·.1 ≠ name) }

/-- Gives up a name, if it is in use. -/
def unbind (st : Store) (name : String) : Store :=
  match st.named? name with
  | none => st
  | some id =>
    { st with
      names := st.names.filter (·.1 ≠ name)
      dropped := (name, id) :: st.dropped.filter (·.1 ≠ name) }

/-- The names of a state. -/
def namesOf (st : Store) (id : StateId) : List String :=
  (st.names.filter (·.2 = id)).map (·.1)

/-! ## Listeners -/

/-- The listener of this name, held or not. -/
def listener? (st : Store) (name : String) : Option Listener :=
  st.listeners.find? (·.name = name)

/-- Whether a listener of this name was ever created. -/
def knows (st : Store) (name : String) : Bool := (st.listener? name).isSome

/-- Whether a client holds the listener of this name. -/
def holds (st : Store) (name : String) : Bool := (st.listener? name).any (·.held)

/-- Creates a listener. -/
def enrol (st : Store) (name : String) (verbose : Bool) : Store :=
  { st with listeners := ⟨name, verbose, true⟩ :: st.listeners }

/-- Gives up the handle on a listener. -/
def release (st : Store) (name : String) : Store :=
  { st with
    listeners := st.listeners.map fun l => if l.name = name then { l with held := false } else l }

/-! ## Life -/

/-- Whether a name or a running pass holds a state. -/
def isHeld (st : Store) (h : Holding) (id : StateId) : Bool :=
  st.names.any (·.2 = id) || h.sources.contains id

/-- The overlay of one state over another, if the first overlays the second. -/
def overlays (st : Store) (overlay target : StateId) : Bool :=
  (st.state? overlay).any (·.target = some target)

/-- Whether a state is alive. -/
def isAlive (st : Store) (h : Holding) (id : StateId) : Bool :=
  st.isHeld h id || (List.range st.states.length).any fun o => st.overlays o id && st.isHeld h o

/-- Whether the observer of an overlay lives by the overlay. -/
def hasObserver (st : Store) (h : Holding) (overlay : StateId) : Bool :=
  st.isAlive h overlay && (st.state? overlay).any (·.target.isSome)

/-- Whether a listener is alive. -/
def isListening (st : Store) (h : Holding) (l : ListenerId) : Bool :=
  h.audience.contains l ||
    match l with
    | .client name => st.holds name
    | .observer overlay => st.hasObserver h overlay

/-! ## Construction -/

/-- Adds a state, under a name. -/
def insert (st : Store) (name : String) (s : State) : Store :=
  { st with states := st.states ++ [s] }.bind name st.states.length

/-- Adds an overlay of a state, under a name, and registers its observer with the target. -/
def insertOverlay (st : Store) (name : String) (target : StateId) (status : Status) (s : State) :
    Store :=
  (st.update target (State.withRegistry (·.add (.observer st.states.length)))).insert name
    (s.copyOver target status)

/-! ## Disposal -/

/-- Cuts a state off from everything.  If it overlaid another one, its observer is no longer among
the listeners of that one. -/
def dispose (st : Store) (id : StateId) : Store :=
  match st.state? id with
  | none => st
  | some s =>
    let st := st.update id State.severed
    match s.target with
    | none => st
    | some target => st.update target (State.withRegistry (·.remove (.observer id)))

end Store
end ContentOverlay
