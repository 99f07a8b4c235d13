import ContentOverlay.Store.Construction
import ContentOverlay.Store.Pass
import ContentOverlay.Store.View

/-!
# Carrying out an action

`Store.perform` carries out one action.  It either fails, and then the store is as it was, or it
gives the store after the action.  An action that tells listeners of an event does not tell them
here: it gives the *pass* that does, with the listeners of this moment as its audience.

Of several things that are wrong with an action the first one counts, where a listener or another
state comes before the state that the action is about.
-/

set_option autoImplicit false

namespace ContentOverlay

/-- A listener that is being told of an event, and the state that emits it. -/
structure Caller where
  listener : String
  emitter : StateId

/-- What comes of an action. -/
inductive Outcome where
  | answered (answer : Answer) (store : Store)
  /-- Listeners are to be told; then the answer is that it is done. -/
  | passing (pass : Pass) (store : Store)

namespace Store

/-! ## What an action is about -/

/-- The state of this name, with its identity. -/
def find (st : Store) (name : String) : Except Failure (StateId × State) :=
  match st.named? name with
  | none => .error .noSuchState
  | some id =>
    match st.state? id with
    | none => .error .noSuchState
    | some s => .ok (id, s)

/-- The state of this name, its identity and its data, if it is the state of a property. -/
def findProperty (st : Store) (name : String) : Except Failure (StateId × State × PropertyData) :=
  match st.find name with
  | .error why => .error why
  | .ok (id, s) =>
    match s.payload.property? with
    | none => .error .notAProperty
    | some data => .ok (id, s, data)

/-- A listener that was ever created. -/
def known (st : Store) (listener : String) : Except Failure ListenerId :=
  if st.knows listener then .ok (.client listener) else .error .noSuchListener

/-- A listener that a client holds. -/
def inHand (st : Store) (listener : String) : Except Failure ListenerId :=
  if st.holds listener then .ok (.client listener) else .error .noSuchListener

/-- The listener that acts. -/
def acting : Option Caller → Except Failure Caller
  | some c => .ok c
  | none => .error .malformed

/-! ## The actions -/

/-- An action on the state of this name. -/
def onState (st : Store) (name : String) (f : State → State) : Except Failure Outcome := do
  let (id, _) ← st.find name
  return .answered .done (st.update id f)

/-- An action on the state of the property of this name. -/
def onProperty (st : Store) (name : String) (f : PropertyData → PropertyData) :
    Except Failure Outcome := do
  let (id, _, _) ← st.findProperty name
  return .answered .done (st.update id (State.withData f))

/-- A question that leaves the store as it is. -/
def reply (st : Store) (answer : Answer) : Except Failure Outcome := .ok (.answered answer st)

/-- Registers a listener with a state. -/
def register (st : Store) (id : StateId) (l : ListenerId) : Except Failure Outcome :=
  .ok (.answered .done (st.update id (State.withRegistry (·.add l))))

/-- Removes the entry of a listener from a state, and answers whether there was one. -/
def unregister (st : Store) (id : StateId) (l : ListenerId) : Except Failure Outcome :=
  .ok (.answered (.flag ((st.state? id).any (·.registry.mem l)))
    (st.update id (State.withRegistry (·.remove l))))

/-- Carries out an action, given what the running passes hold and which listener acts, if one
does. -/
def perform (h : Holding) (caller : Option Caller) (st : Store) :
    Action → Except Failure Outcome
  | .newProperty as name parent status base => do
    return .answered .done (← st.constructProperty as parent status base (.ofName name))
  | .newNode as item parent status base => do
    return .answered .done (← st.construct as item parent status base .node)
  | .overlay as target status => do
    let (id, s) ← st.find target
    return .answered .done (← st.constructOverlay as id s status)
  | .restore as parent status bytes => do
    return .answered .done (← st.restore as parent status bytes)
  | .drop name => .ok (.answered (.flag (st.named? name).isSome) (st.unbind name))
  | .isAlive name =>
    match st.dropped.lookup name with
    | none => st.reply .nothing
    | some id => st.reply (.flag (st.isAlive h id))
  | .bindTarget name other => do
    let (_, s) ← st.find name
    match s.target with
    | none => st.reply .nothing
    | some target => return .answered .done (st.bind other target)
  | .setStatus name status => st.onState name (State.withStatus status)
  | .setStatusCode name code => do
    let (id, _) ← st.find name
    let status ← (Status.ofCode code).mapError Failure.error
    return .answered .done (st.update id (State.withStatus status))
  | .setParent name parent => st.onState name fun s => { s with parent := parent }
  | .setKind name kind => st.onProperty name fun d => { d with kind := kind }
  | .setDefinition name definition =>
    st.onProperty name fun d => { d with definition := definition }
  | .setValues name values => st.onProperty name fun d => { d with values := values }
  | .shareValues name source => do
    let (_, _, data) ← st.findProperty source
    st.onProperty name fun d => { d with values := data.values }
  | .discard name => do
    let (id, s) ← st.find name
    match st.discard? h id s with
    | none => st.reply .done
    | some (p, st) => return .passing p st
  | .dispose name => do
    let (id, _) ← st.find name
    return .answered .done (st.dispose id)
  | .notify name event => do
    let (id, s) ← st.find name
    let (p, st) := st.pass h id s event false
    return .passing p st
  | .dropListener listener => do
    return .answered (.flag (st.holds listener)) (st.release listener)
  | .add name listener => do
    let l ← st.inHand listener
    let (id, _) ← st.find name
    st.register id l
  | .remove name listener => do
    let l ← st.known listener
    let (id, _) ← st.find name
    st.unregister id l
  | .has name listener => do
    let l ← st.known listener
    let (_, s) ← st.find name
    st.reply (.flag (s.registry.has (st.isListening h) l))
  | .count name => do
    let (_, s) ← st.find name
    st.reply (.count (s.registry.count (st.isListening h)))
  | .statusOf name => do
    let (_, s) ← st.find name
    st.reply (.status s.status)
  | .describe name => do
    let (_, s) ← st.find name
    st.reply (.description (← st.describe s))
  | .encode name sink => do
    let (_, _, data) ← st.findProperty name
    st.reply (.bytes (← st.encode data sink))
  | .removeSelf => do
    let c ← acting caller
    st.unregister c.emitter (.client c.listener)
  | .addHere listener => do
    let c ← acting caller
    st.register c.emitter (← st.inHand listener)
  | .removeHere listener => do
    let c ← acting caller
    st.unregister c.emitter (← st.known listener)
  | .notifyHere event => do
    let c ← acting caller
    match st.state? c.emitter with
    | none => throw .noSuchState
    | some s =>
      let (p, st) := st.pass h c.emitter s event false
      return .passing p st
  | .breakOff => do
    let _ ← acting caller
    throw .broken
  | .refused why => .error why

end Store
end ContentOverlay
