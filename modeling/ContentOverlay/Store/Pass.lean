import ContentOverlay.Store.Basic

/-!
# Passes over the listeners of a state

A *pass* tells the listeners of a state of an event: those that are registered and alive when it
begins, which it keeps alive until it ends.  A state is discarded by a pass, after which it is
undefined.
-/

set_option autoImplicit false

namespace ContentOverlay

/-- Listeners to be told of an event of a state. -/
structure Pass where
  source : StateId
  event : Event
  /-- Those that are to be told. -/
  audience : List ListenerId
  /-- Whether the state is discarded by it. -/
  discards : Bool

namespace Store

/-- Begins to tell the listeners of a state of an event: those that are alive now.  The entries of
the others are removed. -/
def pass (st : Store) (h : Holding) (id : StateId) (s : State) (event : Event) (discards : Bool) :
    Pass × Store :=
  (⟨id, event, s.registry.live (st.isListening h), discards⟩,
    st.update id (State.withRegistry (·.pruned (st.isListening h))))

/-- Begins to discard a state, unless that is under way or done. -/
def discard? (st : Store) (h : Holding) (id : StateId) (s : State) : Option (Pass × Store) :=
  if s.discarding || s.status = .undefined then none
  else some ((st.update id fun s => { s with discarding := true }).pass h id s .discarded true)

/-- Ends a pass: a discarded state is now undefined. -/
def finishPass (st : Store) (p : Pass) : Store :=
  if p.discards then
    st.update p.source fun s => { s with status := .undefined, discarding := false }
  else st

/-- Breaks a pass off: the state keeps its status, and can be discarded again. -/
def abandonPass (st : Store) (p : Pass) : Store :=
  if p.discards then st.update p.source fun s => { s with discarding := false } else st

end Store
end ContentOverlay
