import ContentOverlay.Record.Reading
import ContentOverlay.Store.Action
import ContentOverlay.Store.Basic

/-!
# Constructing states

A state that stands for itself begins *existing* or *new*.  An overlay begins as *modified* or
*removed*, and its target must not overlay another state itself.  A state that is restored from the
byte form of a record begins like one that stands for itself, with the configured base version.

A construction that is refused leaves no trace.
-/

set_option autoImplicit false

namespace ContentOverlay
namespace Store

/-- The text of a base version. -/
def baseText (st : Store) : BaseVersion → String
  | .given text => text
  | .standard => Config.defaultBaseVersion
  | .configured => st.config.baseVersion

/-- Constructs a state that stands for itself. -/
def construct (st : Store) (as : String) (item : ItemId) (parent : Option NodeId)
    (status : Status) (base : BaseVersion) (payload : Payload) : Except Failure Store :=
  if status.isFresh then
    .ok (st.insert as (State.fresh item parent status st.clock (st.baseText base) payload))
  else .error (.error (.illegalStatus status .fresh))

/-- Constructs the state of a property that has the given data. -/
def constructProperty (st : Store) (as : String) (parent : Option NodeId) (status : Status)
    (base : BaseVersion) (data : PropertyData) : Except Failure Store :=
  st.construct as (.property ⟨parent, data.name⟩) parent status base (.property data)

/-- Constructs an overlay of a state, which must not overlay another one itself. -/
def constructOverlay (st : Store) (as : String) (target : StateId) (s : State) (status : Status) :
    Except Failure Store :=
  if status.isCopyOnWrite then
    if s.target.isSome then .error (.error (.nestedOverlay s.item))
    else .ok (st.insertOverlay as target status s)
  else .error (.error (.illegalStatus status .overlay))

/-- Constructs the state of a property from the byte form of its record. -/
def restore (st : Store) (as : String) (parent : Option NodeId) (status : Status)
    (bytes : List UInt8) : Except Failure Store :=
  match (Record.decode (Reader.ofBytes bytes)).1 with
  | .error e => .error (.error (.record e))
  | .ok record =>
    st.constructProperty as parent status .configured
      ⟨record.name, record.kind, none, record.values⟩

end Store
end ContentOverlay
