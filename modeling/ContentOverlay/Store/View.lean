import ContentOverlay.Record.Writing
import ContentOverlay.Store.Action
import ContentOverlay.Store.Basic

/-!
# What can be seen of a state

The description of a state, and the byte form of the record of a property's state.  A value that has
no text can be neither described nor written.
-/

set_option autoImplicit false

namespace ContentOverlay
namespace Store

/-- The least of some texts. -/
def leastText : List String → Option String
  | [] => none
  | t :: ts =>
    match leastText ts with
    | none => some t
    | some u => some (if u < t then u else t)

/-- What a client can see of the data of a property, if all its values can be shown. -/
def viewOf? (data : PropertyData) : Option PropertyView :=
  let view := fun values => ⟨data.name, data.kind, data.definition, values⟩
  match data.values with
  | none => some (view none)
  | some values => (Value.allShown? values).map fun shown => view (some shown)

/-- What a client can see of a state whose data it sees like this. -/
def descriptionOf (st : Store) (s : State) (property : Option PropertyView) : Description where
  item := s.item
  isNode := s.payload.isNode
  status := s.status
  parent := s.parent
  baseVersion := s.baseVersion
  target := s.target.map fun t =>
    ⟨leastText (st.namesOf t), (st.state? t).any (·.lastModified = s.lastModified)⟩
  property := property

/-- Describes a state. -/
def describe (st : Store) (s : State) : Except Failure Description :=
  match s.payload.property? with
  | none => .ok (st.descriptionOf s none)
  | some data =>
    match viewOf? data with
    | some view => .ok (st.descriptionOf s (some view))
    | none => .error .broken

/-- The record of a property. -/
def recordOf (data : PropertyData) : Record := ⟨data.name, data.kind, data.values⟩

/-- Writes the record of a property. -/
def encode (st : Store) (data : PropertyData) (sink : Sink) : Except Failure (List UInt8) :=
  let capacity := if sink.usualBuffer then Record.defaultCapacity else st.config.capacity
  match Record.encode capacity (recordOf data) sink.writer with
  | (.ok (), w) => .ok w.bytes
  | (.error (.error e), w) => .error (.writing e w.taken.size)
  | (.error .bufferTooLarge, _) => .error .broken
  | (.error .noText, _) => .error .broken

end Store
end ContentOverlay
