import ContentOverlay.Identity
import ContentOverlay.Registry
import ContentOverlay.Status
import ContentOverlay.Timestamp
import ContentOverlay.Value.Basic

/-!
# States of items

A state is what the repository currently believes about one item: where the item belongs, which
version it is based on, where it is in its life, and, for a property, its values.

A state either stands for itself or *overlays* another one, its target.  Then its owner works on a
copy, and the state watches the target through an *observer*: a listener of its own, which is
registered with the target and marks the overlay as stale when the target is modified or destroyed.

States are identified by numbers, in the order of their construction.  Listeners are either created
by clients, which name them, or they are the observer of an overlay.
-/

set_option autoImplicit false

namespace ContentOverlay

/-- What can happen to an item, as far as listeners are told. -/
inductive Event where
  | created
  | modified
  | destroyed
  | discarded
deriving DecidableEq

/-- What an event is called. -/
def Event.label : Event → String
  | created => "created"
  | modified => "modified"
  | destroyed => "destroyed"
  | discarded => "discarded"

/-- All events. -/
def Event.all : List Event := [.created, .modified, .destroyed, .discarded]

/-- The event that is called so. -/
def Event.ofLabel? (label : String) : Option Event := Event.all.find? (·.label == label)

/-- The identity of a state: how many states were constructed before it. -/
abbrev StateId := Nat

/-- The identity of a listener. -/
inductive ListenerId where
  /-- The listener that a client created under this name. -/
  | client (name : String)
  /-- The observer of this overlay. -/
  | observer (overlay : StateId)
deriving DecidableEq

/-! ## What a state holds -/

/-- The data of a property. -/
structure PropertyData where
  name : Name
  kind : Kind
  definition : Option DefinitionId
  /-- The values; `none` when they are absent. -/
  values : Option (List Value)

/-- The data of a property that has only a name yet: no kind, and a sequence of no values. -/
def PropertyData.ofName (name : Name) : PropertyData := ⟨name, .undefined, none, some []⟩

/-- What the state of an item holds beyond what all states have. -/
inductive Payload where
  | node
  | property (data : PropertyData)

namespace Payload

/-- Whether the item is a node. -/
def isNode : Payload → Bool
  | node => true
  | property _ => false

/-- The data of a property. -/
def property? : Payload → Option PropertyData
  | node => none
  | property data => some data

/-- Changes the data of a property; a node has none. -/
def change (f : PropertyData → PropertyData) : Payload → Payload
  | node => node
  | property data => property (f data)

end Payload

/-- The state of an item. -/
structure State where
  item : ItemId
  parent : Option NodeId
  lastModified : Timestamp
  baseVersion : String
  payload : Payload
  status : Status
  /-- Whether the listeners are being told that the state is discarded. -/
  discarding : Bool
  /-- The state that this one overlays. -/
  target : Option StateId
  /-- The listeners of this state. -/
  registry : Registry ListenerId

namespace State

/-- A state that stands for itself. -/
def fresh (item : ItemId) (parent : Option NodeId) (status : Status) (time : Timestamp)
    (baseVersion : String) (payload : Payload) : State :=
  ⟨item, parent, time, baseVersion, payload, status, false, none, Registry.empty⟩

/-- A copy of a state that overlays it.  It has no listeners yet. -/
def copyOver (target : StateId) (status : Status) (s : State) : State :=
  ⟨s.item, s.parent, s.lastModified, s.baseVersion, s.payload, status, false, some target,
    Registry.empty⟩

/-- Gives a state another status. -/
def withStatus (status : Status) (s : State) : State := { s with status := status }

/-- Changes the listeners of a state. -/
def withRegistry (f : Registry ListenerId → Registry ListenerId) (s : State) : State :=
  { s with registry := f s.registry }

/-- Changes the data of a property's state. -/
def withData (f : PropertyData → PropertyData) (s : State) : State :=
  { s with payload := s.payload.change f }

/-- Cuts a state off from everything: no listeners, no target, and a status that says so. -/
def severed (s : State) : State :=
  { s with registry := Registry.empty, target := none, status := .undefined }

/-- The status that the observer of an overlay gives to it on an event of the target. -/
def markOf : Event → Option Status
  | .modified => some .staleModified
  | .destroyed => some .staleDestroyed
  | .created => none
  | .discarded => none

/-- What the observer of a state does on an event of the target.  Once the state has given up its
target it does nothing any more. -/
def observed (event : Event) (s : State) : State :=
  match s.target, markOf event with
  | some _, some status => s.withStatus status
  | _, _ => s

end State
end ContentOverlay
