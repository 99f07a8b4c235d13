import ContentOverlay.Error
import ContentOverlay.Store.State

/-!
# Actions and answers

What a client, or one of its listeners, can do to the states; how that can fail; and what it is
answered.

Most actions are about one state, which is given by its name.  Some can be done by listeners alone,
while they are being told of an event: they are about the state that emits it.

A `Request` is an action, or the creation of a listener together with its *script*: what the
listener will do when it is told of events.  Each entry of the script is used once, for the first
event of its sort that is still to come, so every script comes to an end.
-/

set_option autoImplicit false

namespace ContentOverlay

/-- The base version that a new state is given. -/
inductive BaseVersion where
  | given (text : String)
  /-- The one that holds without a configuration. -/
  | standard
  /-- The one that is configured. -/
  | configured
deriving DecidableEq

/-! ## Failures -/

/-- Why a request was not carried out. -/
inductive Failure where
  | error (e : Error)
  /-- A record could not be written; so many of its bytes reached the sink. -/
  | writing (e : Record.Error) (written : Nat)
  | noSuchState
  | noSuchListener
  | notAProperty
  /-- The request makes no sense where it stands. -/
  | malformed
  /-- Everything that is under way is broken off. -/
  | broken

/-! ## Actions -/

/-- How the bytes of a state are to be written. -/
structure Sink where
  /-- Whether the buffer for binary values has its usual size and not the configured one. -/
  usualBuffer : Bool
  /-- Where the bytes go. -/
  writer : Writer

/-- What can be done. -/
inductive Action where
  /-- Constructs the state of a property, under a name. -/
  | newProperty (state : String) (name : Name) (parent : Option NodeId) (status : Status)
      (base : BaseVersion)
  /-- Constructs the state of a node. -/
  | newNode (state : String) (item : ItemId) (parent : Option NodeId) (status : Status)
      (base : BaseVersion)
  /-- Constructs an overlay of a state. -/
  | overlay (state : String) (target : String) (status : Status)
  /-- Constructs the state of a property from the byte form of its record. -/
  | restore (state : String) (parent : Option NodeId) (status : Status) (bytes : List UInt8)
  /-- Gives up the name of a state. -/
  | drop (state : String)
  /-- Asks whether the state that lost this name lives on. -/
  | isAlive (state : String)
  /-- Gives another name to the target of a state. -/
  | bindTarget (state : String) (other : String)
  | setStatus (state : String) (status : Status)
  | setStatusCode (state : String) (code : Int)
  | setParent (state : String) (parent : Option NodeId)
  | setKind (state : String) (kind : Kind)
  | setDefinition (state : String) (definition : Option DefinitionId)
  | setValues (state : String) (values : Option (List Value))
  /-- Gives a state the values of another one. -/
  | shareValues (state : String) (source : String)
  | discard (state : String)
  | dispose (state : String)
  /-- Tells the listeners of a state of an event. -/
  | notify (state : String) (event : Event)
  /-- Gives up the handle on a listener. -/
  | dropListener (listener : String)
  | add (state : String) (listener : String)
  | remove (state : String) (listener : String)
  | has (state : String) (listener : String)
  | count (state : String)
  | statusOf (state : String)
  | describe (state : String)
  | encode (state : String) (sink : Sink)
  /-- Removes the listener itself from the emitting state. -/
  | removeSelf
  | addHere (listener : String)
  | removeHere (listener : String)
  /-- Tells the listeners of the emitting state of another event. -/
  | notifyHere (event : Event)
  /-- Breaks off everything that is under way. -/
  | breakOff
  /-- A request that was not understood. -/
  | refused (why : Failure)

/-- What is asked for. -/
inductive Request where
  | act (action : Action)
  /-- Creates a listener with a script. -/
  | listen (listener : String) (verbose : Bool) (script : List (Event × List Request))

/-- What a listener will do: for each event still to come, the requests it will make. -/
abbrev Script := List (Event × List Request)

/-- The requests for an event, and the script without them. -/
def Script.take? (event : Event) : Script → Option (List Request × Script)
  | [] => none
  | entry :: script =>
    if entry.1 = event then some (entry.2, script)
    else (take? event script).map fun p => (p.1, entry :: p.2)

/-! ## Answers -/

/-- What a client can see of the state that is overlaid by another one. -/
structure TargetView where
  /-- Its first name, if it has one. -/
  name : Option String
  /-- Whether it was last modified at the same time. -/
  sameTime : Bool

/-- What a client can see of the data of a property. -/
structure PropertyView where
  name : Name
  kind : Kind
  definition : Option DefinitionId
  /-- The values with their texts. -/
  values : Option (List Value.Shown)

/-- What a client can see of a state. -/
structure Description where
  item : ItemId
  isNode : Bool
  status : Status
  parent : Option NodeId
  baseVersion : String
  target : Option TargetView
  property : Option PropertyView

/-- What a request is answered. -/
inductive Answer where
  | done
  | flag (b : Bool)
  /-- There is nothing to tell. -/
  | nothing
  | count (n : Nat)
  | status (s : Status)
  | description (d : Description)
  | bytes (bs : List UInt8)
  | failed (why : Failure)

/-! ## Calls -/

/-- What a listener can see of the state that emits an event, its status apart. -/
structure EmitterView where
  item : ItemId
  parent : Option NodeId
  isNode : Bool
  isOverlay : Bool
  baseVersion : String

/-- A listener was told of an event. -/
structure Call where
  listener : String
  event : Event
  /-- The status of the emitting state at that moment. -/
  status : Status
  /-- What the listener saw, if it keeps a note of it. -/
  view : Option EmitterView
  /-- What its requests were answered. -/
  did : List Answer

end ContentOverlay
