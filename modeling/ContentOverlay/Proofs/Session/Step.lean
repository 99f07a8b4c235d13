import ContentOverlay.Proofs.Store.Steady
import ContentOverlay.Session.Run

/-!
# What one step can do

`Step` lists the six things that a step of a session can be, with what each of them does to the
frames, to the flags of the states and to what the clients' listeners heard.  `step_of_advance` says
that there is nothing else, and every invariant of sessions is derived from it.

A broken request ends all frames at once.  What that does to the store is said by
`state?_foldl_abandon`: the states under discard lose their flag and nothing else changes.

Steps come to an end, since each of them leaves less to be done: `advance_induction` is the induction
on what is left.
-/

set_option autoImplicit false

namespace ContentOverlay
namespace Session

/-! ## What was heard -/

/-- What the clients' listeners heard, in its order. -/
def heard (log : List Call) : List (String × Event) := log.map fun c => (c.listener, c.event)

/-- What is heard when a listener is told of an event.  The observer of an overlay is nobody's
listener but the overlay's own. -/
def hears (event : Event) : ListenerId → List (String × Event)
  | .client name => [(name, event)]
  | .observer _ => []

/-- What the clients' listeners hear by the next step. -/
def hearing (s : Session) : List (String × Event) :=
  match s.frames with
  | .pass p (l :: _) :: _ => hears p.event l
  | _ => []

@[simp] theorem heard_append (log log' : List Call) :
    heard (log ++ log') = heard log ++ heard log' :=
  List.map_append

/-- Answers to the requests of a call are no part of what was heard. -/
@[simp] theorem heard_fillIn (log : List Call) (call : Nat) (answers : List Answer) :
    heard (fillIn log call answers) = heard log := by
  apply List.ext_getElem?
  intro i
  unfold heard fillIn
  rw [List.getElem?_map, List.getElem?_map, List.getElem?_modify]
  split <;> cases log[i]? <;> rfl

@[simp] theorem heard_foldl_logAbandoned (fs : List Frame) (log : List Call) :
    heard (fs.foldl logAbandoned log) = heard log := by
  induction fs generalizing log with
  | nil => rfl
  | cons f fs ih =>
    rw [List.foldl_cons, ih]
    unfold logAbandoned
    split
    · exact heard_fillIn ..
    · rfl
    · rfl

/-! ## States under discard -/

/-- The state that a frame discards. -/
def discardee : Frame → Option StateId
  | .requests _ _ _ => none
  | .pass p _ => if p.discards then some p.source else none

/-- The states that some frames discard. -/
def discardees (fs : List Frame) : List StateId := fs.filterMap discardee

@[simp] theorem discardees_nil : discardees [] = [] := rfl

@[simp] theorem discardees_requests (caller : Option (Caller × Nat)) (todo : List Request)
    (answers : List Answer) (fs : List Frame) :
    discardees (.requests caller todo answers :: fs) = discardees fs := rfl

theorem discardees_pass (p : Pass) (pending : List ListenerId) (fs : List Frame) :
    discardees (.pass p pending :: fs) =
      if p.discards then p.source :: discardees fs else discardees fs := by
  unfold discardees discardee
  by_cases h : p.discards <;> simp [h]

@[simp] theorem discardees_answer (a : Answer) (fs : List Frame) :
    discardees (answer a fs) = discardees fs := by
  unfold answer
  split <;> rfl

/-- A pass that discards the state is under way. -/
def IsDiscarding (s : Session) (id : StateId) : Prop :=
  ∃ p pending, Frame.pass p pending ∈ s.frames ∧ p.discards = true ∧ p.source = id

theorem isDiscarding_iff {s : Session} {id : StateId} :
    s.IsDiscarding id ↔ id ∈ discardees s.frames := by
  rw [IsDiscarding, discardees]
  rw [List.mem_filterMap]
  refine ⟨?_, ?_⟩
  · rintro ⟨p, pending, hm, hd, rfl⟩
    exact ⟨_, hm, by simp [discardee, hd]⟩
  · rintro ⟨f, hm, hf⟩
    cases f with
    | requests => cases hf
    | pass p pending =>
      by_cases hd : p.discards
      · exact ⟨p, pending, hm, hd, by simpa [discardee, hd] using hf⟩
      · simp [discardee, hd] at hf

/-- **What breaking off does to the store.**  The states under discard lose their flag. -/
theorem state?_foldl_abandon (fs : List Frame) (st : Store) (id : StateId) :
    (fs.foldl abandon st).state? id = (st.state? id).map fun x =>
      if id ∈ discardees fs then { x with discarding := false } else x := by
  induction fs generalizing st with
  | nil => simp
  | cons f fs ih =>
    rw [List.foldl_cons, ih]
    cases f with
    | requests => rfl
    | pass p pending =>
      rw [discardees_pass]
      unfold abandon Store.abandonPass
      dsimp only
      by_cases hd : p.discards
      · rw [if_pos hd, if_pos hd, Store.state?_update]
        by_cases hid : id = p.source
        · cases st.state? id <;> simp [hid]
        · simp [hid]
      · rw [if_neg hd, if_neg hd]

/-! ## Steps -/

/-- What one step of a session can be. -/
inductive Step (s t : Session) : Prop
  /-- A request is answered at once. -/
  | answers {caller : Option (Caller × Nat)} {r : Request} {todo : List Request}
      {answers : List Answer} {rest : List Frame} (a : Answer)
      (before : s.frames = .requests caller (r :: todo) answers :: rest)
      (after : t.frames = .requests caller todo (a :: answers) :: rest)
      (steady : s.store.Steady t.store) (log : t.log = s.log)
  /-- A request begins a pass. -/
  | begins {caller : Option (Caller × Nat)} {r : Request} {todo : List Request}
      {answers : List Answer} {rest : List Frame} {p : Pass}
      (before : s.frames = .requests caller (r :: todo) answers :: rest)
      (after : t.frames = .pass p p.audience :: .requests caller todo answers :: rest)
      (begins : s.store.Begins p t.store) (log : t.log = s.log)
  /-- A request breaks everything off. -/
  | breaks {caller : Option (Caller × Nat)} {r : Request} {todo : List Request}
      {answers : List Answer} {rest : List Frame}
      (before : s.frames = .requests caller (r :: todo) answers :: rest)
      (after : t = breakOff { s with frames := .requests caller todo answers :: rest })
  /-- A listener has made all its requests. -/
  | returns {caller : Caller} {call : Nat} {answers : List Answer} {rest : List Frame}
      (before : s.frames = .requests (some (caller, call)) [] answers :: rest)
      (after : t = s.finishCall call answers rest)
  /-- A listener is told, and may have requests to make. -/
  | tells {p : Pass} {l : ListenerId} {pending : List ListenerId} {rest : List Frame}
      (before : s.frames = .pass p (l :: pending) :: rest)
      (after : t.frames = .pass p pending :: rest ∨
        ∃ caller todo, t.frames = .requests (some caller) todo [] :: .pass p pending :: rest)
      (steady : s.store.Steady t.store)
      (log : (s.store.state? p.source).isSome → heard t.log = heard s.log ++ hears p.event l)
  /-- A pass has told all its listeners. -/
  | ends {p : Pass} {rest : List Frame}
      (before : s.frames = .pass p [] :: rest)
      (after : t = s.finishPass p rest)

/-- A request is answered, begins a pass, or breaks everything off. -/
theorem step_carryOut {s : Session} {caller : Option (Caller × Nat)} {r : Request}
    {todo : List Request} {answers : List Answer} {rest : List Frame}
    (hs : s.frames = .requests caller (r :: todo) answers :: rest) (who : Option Caller) :
    Step s (carryOut { s with frames := .requests caller todo answers :: rest } who r) := by
  cases r with
  | act action =>
    have hp := Store.perform_proper
      (holding { s with frames := .requests caller todo answers :: rest }) who s.store action
    unfold carryOut conclude
    dsimp only
    split
    · next ho => exact .answers _ hs rfl (hp _ ho) rfl
    · next ho => exact .begins hs rfl (hp _ ho) rfl
    · exact .breaks hs rfl
    · exact .answers _ hs rfl (.refl _) rfl
  | listen name verbose script =>
    rw [carryOut]
    dsimp only
    split
    · exact .answers _ hs rfl (.refl _) rfl
    · exact .answers _ hs rfl (.of_states_eq rfl) rfl

theorem step_deliver {s : Session} {p : Pass} {l : ListenerId} {pending : List ListenerId}
    {rest : List Frame} (hs : s.frames = .pass p (l :: pending) :: rest) :
    Step s (deliver { s with frames := .pass p pending :: rest } p l) := by
  cases l with
  | client name =>
    rw [deliver, tell]
    dsimp only
    split
    · next hn => exact .tells hs (.inl rfl) (.refl _) (by simp [hn])
    · split
      · exact .tells hs (.inl rfl) (.refl _) fun _ => heard_append ..
      · exact .tells hs (.inr ⟨_, _, rfl⟩) (.refl _) fun _ => heard_append ..
  | observer overlay =>
    exact .tells hs (.inl rfl) (Store.steady_update _ _ (State.steady_observed p.event))
      fun _ => (List.append_nil _).symm

theorem step_of_advance {s t : Session} (h : s.advance = some t) : Step s t := by
  unfold advance at h
  split at h
  · cases h
  · cases h
  · next hs => exact .returns hs (Option.some.inj h).symm
  · next hs => exact Option.some.inj h ▸ step_carryOut hs _
  · next hs => exact .ends hs (Option.some.inj h).symm
  · next hs => exact Option.some.inj h ▸ step_deliver hs

/-- A session is done for if all that come out of its next step are. -/
theorem advance_induction {P : Session → Prop}
    (h : ∀ s, (∀ t, s.advance = some t → P t) → P s) (s : Session) : P s :=
  h s fun t ht =>
    have := advance_decreases ht
    advance_induction h t
termination_by (s.work, s.load)
decreasing_by exact this

/-! ## Requests -/

section
variable {s : Session} {caller : Option (Caller × Nat)} {todo : List Request}
  {answers : List Answer} {rest : List Frame}

theorem advance_requests {r : Request}
    (hs : s.frames = .requests caller (r :: todo) answers :: rest) :
    s.advance = some (carryOut { s with frames := .requests caller todo answers :: rest }
      (caller.map (·.1)) r) := by
  rw [advance, hs]
  cases caller <;> rfl

/-- Requests hold nothing, and what they have left to do does not matter. -/
theorem holding_requests (hs : s.frames = .requests caller todo answers :: rest)
    (todo' : List Request) :
    holding { s with frames := .requests caller todo' answers :: rest } = s.holding := by
  rw [holding, holding, hs]
  rfl

end

end Session
end ContentOverlay
