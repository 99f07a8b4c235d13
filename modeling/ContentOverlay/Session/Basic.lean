import ContentOverlay.Store.Perform

/-!
# Sessions

Listeners may do everything while they are told of an event, also tell others of further events.  So
passes nest, and what is under way is a stack of *frames*: a frame is either a list of requests that
somebody makes one after the other, or a pass that tells one listener after the other.

`Session.advance` makes one step: it carries out one request, tells one listener, or ends a frame.

A request that breaks off ends all frames at once.  What was done until then remains, and the calls
keep the answers that they have, but no state becomes undefined by a pass that was broken off.
-/

set_option autoImplicit false

namespace ContentOverlay

/-- Something that is under way. -/
inductive Frame where
  /-- Requests that are made by a client, or by a listener in the call with this number.  The
  answers so far have the last one first. -/
  | requests (caller : Option (Caller × Nat)) (todo : List Request) (answers : List Answer)
  /-- A pass, with the listeners that are still to be told. -/
  | pass (p : Pass) (pending : List ListenerId)

/-- The store, and what is under way in it. -/
structure Session where
  store : Store
  /-- What the clients' listeners will do. -/
  scripts : List (String × Script)
  /-- What is under way, the innermost first. -/
  frames : List Frame
  /-- The calls to clients' listeners, in their order. -/
  log : List Call

namespace Session

/-- What a frame holds. -/
def heldBy : Frame → Holding
  | .requests _ _ _ => Holding.nothing
  | .pass p _ => ⟨[p.source], p.audience⟩

/-- What the running passes hold. -/
def holding (s : Session) : Holding :=
  ⟨s.frames.flatMap fun f => (heldBy f).sources, s.frames.flatMap fun f => (heldBy f).audience⟩

/-! ## Scripts -/

/-- The next requests of a listener on an event, and the scripts without them. -/
def takeRequests (listener : String) (event : Event) :
    List (String × Script) → Option (List Request × List (String × Script))
  | [] => none
  | entry :: scripts =>
    if entry.1 = listener then
      (Script.take? event entry.2).map fun p => (p.1, (entry.1, p.2) :: scripts)
    else (takeRequests listener event scripts).map fun p => (p.1, entry :: p.2)

/-! ## Answers and ends -/

/-- Answers the request that the innermost frame has made. -/
def answer (a : Answer) : List Frame → List Frame
  | .requests caller todo answers :: rest => .requests caller todo (a :: answers) :: rest
  | rest => rest

/-- Gives a call the answers to its requests. -/
def fillIn (log : List Call) (call : Nat) (answers : List Answer) : List Call :=
  log.modify call fun c => { c with did := answers.reverse }

/-- Breaks a frame off. -/
def abandon (st : Store) : Frame → Store
  | .requests _ _ _ => st
  | .pass p _ => st.abandonPass p

/-- The log when a frame is broken off. -/
def logAbandoned (log : List Call) : Frame → List Call
  | .requests (some (_, call)) _ answers => fillIn log call answers
  | .requests none _ _ => log
  | .pass _ _ => log

/-- Breaks everything off.  The client is answered that its request was broken. -/
def breakOff (s : Session) : Session :=
  { s with
    store := s.frames.foldl abandon s.store
    frames := [.requests none [] [.failed .broken]]
    log := s.frames.foldl logAbandoned s.log }

/-! ## Telling a listener -/

/-- What a listener that keeps notes sees of a state. -/
def viewOf (l : Option Listener) (s : State) : Option EmitterView :=
  if l.any (·.verbose) then
    some ⟨s.item, s.parent, s.payload.isNode, s.target.isSome, s.baseVersion⟩
  else none

/-- The call of a client's listener. -/
def callOf (st : Store) (listener : String) (p : Pass) (s : State) : Call :=
  ⟨listener, p.event, s.status, viewOf (st.listener? listener) s, []⟩

/-- Tells a client's listener.  What it does now is pushed on the frames. -/
def tell (s : Session) (listener : String) (p : Pass) : Session :=
  match s.store.state? p.source with
  | none => s
  | some emitter =>
    let log := s.log ++ [callOf s.store listener p emitter]
    match takeRequests listener p.event s.scripts with
    | none => { s with log := log }
    | some (todo, scripts) =>
      { s with
        scripts := scripts
        frames := .requests (some (⟨listener, p.source⟩, s.log.length)) todo [] :: s.frames
        log := log }

/-- Tells a listener of the event of a pass. -/
def deliver (s : Session) (p : Pass) : ListenerId → Session
  | .client listener => s.tell listener p
  | .observer overlay => { s with store := s.store.update overlay (State.observed p.event) }

/-! ## One step -/

/-- What becomes of the session when an action has an outcome. -/
def conclude (s : Session) : Except Failure Outcome → Session
  | .ok (.answered a store) => { s with store := store, frames := answer a s.frames }
  | .ok (.passing p store) => { s with store := store, frames := .pass p p.audience :: s.frames }
  | .error .broken => s.breakOff
  | .error why => { s with frames := answer (.failed why) s.frames }

/-- Carries out a request of the innermost frame. -/
def carryOut (s : Session) (caller : Option Caller) : Request → Session
  | .act action => s.conclude (s.store.perform s.holding caller action)
  | .listen listener verbose script =>
    if s.store.knows listener then { s with frames := answer (.failed .malformed) s.frames }
    else
      { s with
        store := s.store.enrol listener verbose
        scripts := (listener, script) :: s.scripts
        frames := answer .done s.frames }

/-- Ends the requests of a listener: its call gets the answers. -/
def finishCall (s : Session) (call : Nat) (answers : List Answer) (rest : List Frame) : Session :=
  { s with frames := rest, log := fillIn s.log call answers }

/-- Ends a pass. -/
def finishPass (s : Session) (p : Pass) (rest : List Frame) : Session :=
  { s with store := s.store.finishPass p, frames := answer .done rest }

/-- One step, unless nothing is left to be done. -/
def advance (s : Session) : Option Session :=
  match s.frames with
  | [] => none
  | .requests none [] _ :: _ => none
  | .requests (some (_, call)) [] answers :: rest => some (s.finishCall call answers rest)
  | .requests caller (r :: todo) answers :: rest =>
    some (({ s with frames := .requests caller todo answers :: rest } : Session).carryOut
      (caller.map (·.1)) r)
  | .pass p [] :: rest => some (s.finishPass p rest)
  | .pass p (l :: pending) :: rest =>
    some (({ s with frames := .pass p pending :: rest } : Session).deliver p l)

end Session
end ContentOverlay
