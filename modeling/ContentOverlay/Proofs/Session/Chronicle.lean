import ContentOverlay.Proofs.Session.Sound
import ContentOverlay.Proofs.Store.Deed

/-!
# Chronicles of sessions

A chronicle is a session together with everything that was done in it so far.  Passes are numbered:
the number of a pass is the place in the chronicle at which it begins, so that of two passes the one
with the lower number began first.  The passes that are under way are kept as a stack of numbers.

In which order a pass tells its listeners is not a promise of anybody, and neither is how much time
a step takes.  A chronicle goes on by the steps of its session, by requests of the client, by time
that passes, and by a running pass taking the listeners that it has left in another order; what is
proved of chronicles holds for every order and at all times.

* `Session.deed?` is what the next step of a session does.
* `Chronicle.Move` and `Chronicle.Later` say how chronicles go on.
* `turn_of_advance` says what a step does to the frames and to the store, by its deed.
-/

set_option autoImplicit false

namespace ContentOverlay

/-! ## What a step does -/

/-- What the next step of a session does.  A pass that tells somebody or ends is the innermost one,
which has this number. -/
def Session.deed? (number : Nat) (s : Session) : Option Deed :=
  match s.frames with
  | .requests caller (.act action :: _) _ :: _ =>
    match s.store.perform s.holding (caller.map (·.1)) action with
    | .ok (.answered _ _) => action.deed? s.store (caller.map (·.1))
    | .ok (.passing p _) => some (.begins p)
    | .error .broken => some .breaks
    | .error _ => none
  | .pass p (l :: _) :: _ => some (.tells number p l)
  | .pass p [] :: _ => some (.ends number p)
  | _ => none

/-- What the clients' listeners hear by a deed. -/
def Deed.hears : Deed → List (String × Event)
  | tells _ p l => Session.hears p.event l
  | _ => []

/-- A session, and what was done in it. -/
structure Chronicle where
  session : Session
  /-- The numbers of the passes that are under way, the innermost first. -/
  running : List Nat
  /-- What was done, in its order. -/
  deeds : List Deed

namespace Chronicle

/-- The chronicle of a session in which nothing has happened yet. -/
def blank (config : Config) (clock : Timestamp) : Chronicle := ⟨.start config clock, [], []⟩

/-- The number of the innermost pass. -/
def innermost (c : Chronicle) : Nat := c.running.headD 0

/-- What the next step does. -/
def next? (c : Chronicle) : Option Deed := c.session.deed? c.innermost

/-- The numbers of the passes that are under way after a deed. -/
def runningAfter (c : Chronicle) : Option Deed → List Nat
  | some (.begins _) => c.deeds.length :: c.running
  | some (.ends _ _) => c.running.tail
  | some .breaks => []
  | _ => c.running

/-- The chronicle after a step of its session. -/
def extend (c : Chronicle) (t : Session) : Chronicle :=
  ⟨t, c.runningAfter c.next?, c.deeds ++ c.next?.toList⟩

/-- How a chronicle goes on, if the client may make these requests. -/
inductive Move (may : Request → Prop) (c : Chronicle) : Chronicle → Prop
  | submit (r : Request) (allowed : may r) (idle : c.session.advance = none) :
      Move may c { c with session := c.session.submit r }
  | advance {t : Session} (step : c.session.advance = some t) : Move may c (c.extend t)
  /-- The innermost pass will tell its listeners in another order. -/
  | reorder {p : Pass} {pending pending' : List ListenerId} {rest : List Frame}
      (before : c.session.frames = .pass p pending :: rest) (perm : pending'.Perm pending) :
      Move may c { c with session := { c.session with frames := .pass p pending' :: rest } }
  /-- Time passes.  A clock may also be set back. -/
  | elapse (time : Timestamp) :
      Move may c { c with session := { c.session with store := c.session.store.elapse time } }

/-- How chronicles go on. -/
abbrev Later (may : Request → Prop) : Chronicle → Chronicle → Prop :=
  Relation.ReflTransGen (Move may)

/-- All that the client can ask for. -/
def Any : Request → Prop := fun _ => True

/-- The client makes a request. -/
def ask (c : Chronicle) (r : Request) : Chronicle := { c with session := c.session.submit r }

/-- The clock is at another time. -/
def elapse (c : Chronicle) (time : Timestamp) : Chronicle :=
  { c with session := { c.session with store := c.session.store.elapse time } }

/-- The chronicle after the next step, or the same one when nothing is left to be done. -/
def next (c : Chronicle) : Chronicle :=
  match c.session.advance with
  | none => c
  | some t => c.extend t

/-- The chronicle after so many steps. -/
def steps (c : Chronicle) : Nat → Chronicle
  | 0 => c
  | k + 1 => c.next.steps k

section
variable {may : Request → Prop} {c c' : Chronicle}

theorem Later.ask (h : Later may c c') {r : Request} (allowed : may r)
    (idle : c'.session.advance = none) : Later may c (c'.ask r) :=
  .tail h (.submit r allowed idle)

theorem Later.elapse (h : Later may c c') (time : Timestamp) : Later may c (c'.elapse time) :=
  .tail h (.elapse time)

theorem Later.next (h : Later may c c') : Later may c c'.next := by
  rw [Chronicle.next]
  cases ha : c'.session.advance with
  | none => exact h
  | some t => exact .tail h (.advance ha)

theorem Later.steps (h : Later may c c') (k : Nat) : Later may c (c'.steps k) := by
  induction k generalizing c' with
  | zero => exact h
  | succ k ih => exact ih h.next

end

/-- A node's state is about to be modified.  It has a listener, which answers this by an action, and
the observer of an overlay, which comes after it. -/
def answering (action : Action) : Chronicle :=
  let state := ((blank .default .epoch).ask
    (.act (.newNode "x" (.node ⟨0⟩) none .existing .standard))).next
  let listening := (state.ask (.listen "a" false [(.modified, [.act action])])).next
  let added := (listening.ask (.act (.add "x" "a"))).next
  let overlaid := (added.ask (.act (.overlay "o" "x" .existingModified))).next
  overlaid.ask (.act (.notify "x" .modified))

/-- The pass that tells of this modification. -/
def modification : Pass := ⟨0, .modified, [.client "a", .observer 1], false⟩

theorem later_answering {may : Request → Prop} (hact : ∀ action, may (.act action))
    {action : Action} (hlisten : may (.listen "a" false [(.modified, [.act action])])) :
    Later may (blank .default .epoch) (answering action) := by
  have blank : Later may (blank .default .epoch) (blank .default .epoch) := .refl
  have state := (blank.ask
    (r := .act (.newNode "x" (.node ⟨0⟩) none .existing .standard)) (hact _) rfl).next
  have listening := (state.ask hlisten rfl).next
  have added := (listening.ask (r := .act (.add "x" "a")) (hact _) rfl).next
  have overlaid := (added.ask (r := .act (.overlay "o" "x" .existingModified)) (hact _) rfl).next
  exact overlaid.ask (r := .act (.notify "x" .modified)) (hact _) rfl

end Chronicle

/-! ## The store after a step -/

namespace State

variable {live : ListenerId → Bool} {id : StateId}

/-- The observer of a state is told. -/
theorem undergoes_observed (n : Nat) (p : Pass) (x : State) :
    x.Undergoes live (some (.tells n p (.observer id))) id (x.observed p.event) := by
  unfold observed
  split
  · next t v ht hm =>
    exact .of_status rfl rfl (by simp [Deed.gives, ht, hm, withStatus]) (by simp) rfl
  · next hn =>
    refine .of_status rfl rfl ?_ (by simp) rfl
    cases ht : x.target with
    | none => simp [Deed.gives]
    | some t =>
      cases hm : markOf p.event with
      | none => simp [Deed.gives, hm]
      | some v => exact absurd hm (hn t v ht)

end State

namespace Store

variable {st st' : Store} {h : Holding} {p : Pass}

theorem undergoes_observed (n : Nat) (p : Pass) (o : StateId) :
    st.Undergoes h (some (.tells n p (.observer o))) (st.update o (State.observed p.event)) := by
  refine undergoes_update (State.undergoes_observed n p) ?_ (by simp)
  rintro i hi _ ⟨⟩
  exact Ne.symm hi

/-- A client's listener is told, which by itself does nothing to the states. -/
theorem undergoes_told (n : Nat) (p : Pass) (name : String) :
    st.Undergoes h (some (.tells n p (.client name))) st := by
  refine undergoes_same ?_ (by simp)
  rintro i _ ⟨⟩
  exact not_false

theorem undergoes_finishPass (n : Nat) (p : Pass) :
    st.Undergoes h (some (.ends n p)) (st.finishPass p) := by
  rw [finishPass]
  by_cases hd : p.discards
  · rw [if_pos hd]
    refine undergoes_update (fun y => ?_) ?_ (by simp)
    · exact .of_status rfl rfl (by simp [Deed.gives, hd]) (by simp) rfl
    · rintro i hi _ ⟨⟩
      exact fun hp => hi hp.2.symm
  · rw [if_neg hd]
    refine undergoes_same ?_ (by simp)
    rintro i _ ⟨⟩
    exact fun hp => hd hp.1

theorem names_foldl_abandon (fs : List Frame) (st : Store) :
    (fs.foldl Session.abandon st).names = st.names := by
  induction fs generalizing st with
  | nil => rfl
  | cons f fs ih =>
    rw [List.foldl_cons, ih]
    cases f with
    | requests => rfl
    | pass p pending =>
      rw [Session.abandon, abandonPass]
      split <;> rfl

theorem undergoes_breaks (fs : List Frame) :
    st.Undergoes h (some .breaks) (fs.foldl Session.abandon st) where
  states := by
    intro i x hx
    rw [Session.state?_foldl_abandon, hx]
    refine ⟨_, rfl, ?_⟩
    split
    · exact .of_status rfl rfl rfl (by simp) rfl
    · exact .of_status rfl rfl rfl (by simp) rfl
  fresh := by
    intro i y hn hy
    rw [Session.state?_foldl_abandon, hn] at hy
    cases hy
  overlaid := by
    intro o t v hd
    cases hd
  named := by
    intro i hn
    rw [names_foldl_abandon] at hn
    exact .inl hn

end Store

/-! ## The frames after a step -/

/-- A deed that is about passes. -/
def Deed.OfPass : Deed → Prop
  | begins _ => True
  | tells _ _ _ => True
  | ends _ _ => True
  | breaks => True
  | _ => False

theorem Action.not_ofPass {st : Store} {caller : Option Caller} {action : Action} {d : Deed}
    (hd : d ∈ action.deed? st caller) : ¬ d.OfPass := by
  cases action <;> simp only [Action.deed?, Option.mem_def, Option.map_eq_some_iff,
    Option.bind_eq_some_iff, reduceCtorEq] at hd
  case setStatusCode =>
    obtain ⟨_, _, _, _, rfl⟩ := hd
    exact id
  all_goals
    obtain ⟨_, _, rfl⟩ := hd
    exact id

namespace Session

/-- What one step of a session can be, by what it does. -/
inductive Turn (n : Nat) (s t : Session) : Option Deed → Prop
  /-- A request is answered at once. -/
  | answers {caller : Option (Caller × Nat)} {r : Request} {todo : List Request}
      {answers : List Answer} {rest : List Frame} {d : Option Deed} (a : Answer)
      (before : s.frames = .requests caller (r :: todo) answers :: rest)
      (after : t.frames = .requests caller todo (a :: answers) :: rest)
      (apart : ∀ e ∈ d, ¬ e.OfPass) (undergoes : s.store.Undergoes s.holding d t.store) :
      Turn n s t d
  /-- A request begins a pass. -/
  | begins {caller : Option (Caller × Nat)} {r : Request} {todo : List Request}
      {answers : List Answer} {rest : List Frame} {p : Pass}
      (before : s.frames = .requests caller (r :: todo) answers :: rest)
      (after : t.frames = .pass p p.audience :: .requests caller todo answers :: rest)
      (starts : s.store.Starts s.holding (caller.map (·.1)) p t.store) :
      Turn n s t (some (.begins p))
  /-- A request breaks everything off. -/
  | breaks {caller : Option (Caller × Nat)} {r : Request} {todo : List Request}
      {answers : List Answer} {rest : List Frame}
      (before : s.frames = .requests caller (r :: todo) answers :: rest)
      (after : t.frames = [.requests none [] [.failed .broken]])
      (undergoes : s.store.Undergoes s.holding (some .breaks) t.store) :
      Turn n s t (some .breaks)
  /-- A listener has made all its requests. -/
  | returns {call : Caller × Nat} {answers : List Answer} {rest : List Frame}
      (before : s.frames = .requests (some call) [] answers :: rest)
      (after : t.frames = rest) (store : t.store = s.store) : Turn n s t none
  /-- A listener is told, and may have requests to make. -/
  | tells {p : Pass} {l : ListenerId} {pending : List ListenerId} {rest : List Frame}
      (before : s.frames = .pass p (l :: pending) :: rest)
      (after : t.frames = .pass p pending :: rest ∨ ∃ name call todo,
        t.frames = .requests (some (⟨name, p.source⟩, call)) todo [] :: .pass p pending :: rest)
      (undergoes : s.store.Undergoes s.holding (some (.tells n p l)) t.store) :
      Turn n s t (some (.tells n p l))
  /-- A pass has told all its listeners. -/
  | ends {p : Pass} {rest : List Frame}
      (before : s.frames = .pass p [] :: rest) (after : t.frames = answer .done rest)
      (undergoes : s.store.Undergoes s.holding (some (.ends n p)) t.store) :
      Turn n s t (some (.ends n p))

variable {s t : Session}

theorem turn_carryOut {caller : Option (Caller × Nat)} {r : Request} {todo : List Request}
    {answers : List Answer} {rest : List Frame} (n : Nat)
    (hs : s.frames = .requests caller (r :: todo) answers :: rest) :
    Turn n s (carryOut { s with frames := .requests caller todo answers :: rest }
      (caller.map (·.1)) r) (s.deed? n) := by
  cases r with
  | act action =>
    have hp := Store.perform_performs s.holding (caller.map (·.1)) s.store action
    rw [carryOut, deed?, hs]
    dsimp only
    rw [holding_requests hs]
    unfold conclude
    cases ho : s.store.perform s.holding (caller.map (·.1)) action with
    | ok o =>
      cases o with
      | answered a st => exact .answers _ hs rfl (fun e he => Action.not_ofPass he) (hp _ ho)
      | passing p st => exact .begins hs rfl (hp _ ho)
    | error why =>
      cases why
      case broken => exact .breaks hs rfl (Store.undergoes_breaks _)
      all_goals exact .answers _ hs rfl (fun e he => by cases he) Store.undergoes_self
  | listen name verbose script =>
    rw [carryOut, deed?, hs]
    dsimp only
    split
    · exact .answers _ hs rfl (fun e he => by cases he) Store.undergoes_self
    · exact .answers _ hs rfl (fun e he => by cases he) (Store.Undergoes.of_states_eq rfl .inl)

theorem turn_deliver {p : Pass} {l : ListenerId} {pending : List ListenerId} {rest : List Frame}
    (n : Nat) (hs : s.frames = .pass p (l :: pending) :: rest) :
    Turn n s (deliver { s with frames := .pass p pending :: rest } p l) (s.deed? n) := by
  rw [deed?, hs]
  cases l with
  | client name =>
    rw [deliver, tell]
    dsimp only
    split
    · exact .tells hs (.inl rfl) (Store.undergoes_told n p name)
    · split
      · exact .tells hs (.inl rfl) (Store.undergoes_told n p name)
      · exact .tells hs (.inr ⟨_, _, _, rfl⟩) (Store.undergoes_told n p name)
  | observer o => exact .tells hs (.inl rfl) (Store.undergoes_observed n p o)

/-- **What a step does.** -/
theorem turn_of_advance (n : Nat) (h : s.advance = some t) : Turn n s t (s.deed? n) := by
  unfold advance at h
  split at h
  · cases h
  · cases h
  · next hs =>
    obtain rfl := Option.some.inj h
    rw [deed?, hs]
    exact .returns hs rfl rfl
  · next hs => exact Option.some.inj h ▸ turn_carryOut n hs
  · next hs =>
    obtain rfl := Option.some.inj h
    rw [deed?, hs]
    exact .ends hs rfl (Store.undergoes_finishPass n _)
  · next hs => exact Option.some.inj h ▸ turn_deliver n hs

/-- What is done to a state or a registry is done by an action that is answered at once. -/
theorem action_of_deed? {n : Nat} {d : Deed} (hd : s.deed? n = some d) (hpass : ¬ d.OfPass) :
    ∃ caller action todo answers rest a st,
      s.frames = .requests caller (.act action :: todo) answers :: rest ∧
      s.store.perform s.holding (caller.map (·.1)) action = .ok (.answered a st) ∧
      action.deed? s.store (caller.map (·.1)) = some d := by
  unfold deed? at hd
  split at hd
  · next hs =>
    split at hd
    · next ho => exact ⟨_, _, _, _, _, _, _, hs, ho, hd⟩
    all_goals cases hd
    all_goals exact absurd trivial hpass
  all_goals cases hd
  all_goals exact absurd trivial hpass

/-- The pass that ends by the next step is the innermost frame, and has told everybody. -/
theorem frames_of_ends {n k : Nat} {p : Pass} (hd : s.deed? n = some (.ends k p)) :
    k = n ∧ ∃ rest, s.frames = .pass p [] :: rest := by
  unfold deed? at hd
  split at hd
  · split at hd
    · exact absurd trivial (Action.not_ofPass hd)
    all_goals cases hd
  · cases hd
  · next hs =>
    cases hd
    exact ⟨rfl, _, hs⟩
  · cases hd

/-- When the pass of a discard returns, the request is answered, and the state is undefined and not
being discarded, whatever its listeners did. -/
theorem advance_returns {p : Pass} {rest : List Frame} (hs : s.frames = .pass p [] :: rest)
    (hsrc : (s.store.state? p.source).isSome) (hd : p.discards = true) :
    ∃ u, s.advance = some u ∧ u.frames = answer .done rest ∧
      ∃ y, u.store.state? p.source = some y ∧ y.status = .undefined ∧ y.discarding = false := by
  obtain ⟨y, hy⟩ := Option.isSome_iff_exists.1 hsrc
  refine ⟨s.finishPass p rest, by rw [advance, hs], rfl,
    { y with status := .undefined, discarding := false }, ?_, rfl, rfl⟩
  rw [finishPass, Store.finishPass, if_pos hd, Store.state?_update_self, hy]
  rfl

/-- A pass that begins is to tell those listeners of its state who are alive. -/
theorem Turn.source {n : Nat} {p : Pass} (ht : Turn n s t (some (.begins p))) :
    ∃ x, s.store.state? p.source = some x ∧
      p.audience = x.registry.live (s.store.isListening s.holding) ∧
      (p.discards = true → p.event = .discarded ∧ x.status ≠ .undefined) := by
  cases ht with
  | answers _ _ _ apart => exact absurd trivial (apart _ rfl)
  | begins _ _ starts => exact starts.source

end Session

namespace Chronicle

theorem turn {c : Chronicle} {t : Session} (ht : c.session.advance = some t) :
    Session.Turn c.innermost c.session t c.next? :=
  Session.turn_of_advance c.innermost ht

variable (c : Chronicle)

@[simp] theorem runningAfter_tells (n : Nat) (p : Pass) (l : ListenerId) :
    c.runningAfter (some (.tells n p l)) = c.running := rfl

@[simp] theorem runningAfter_ends (n : Nat) (p : Pass) :
    c.runningAfter (some (.ends n p)) = c.running.tail := rfl

theorem runningAfter_apart {d : Deed} (hd : ¬ d.OfPass) : c.runningAfter (some d) = c.running := by
  cases d <;> first | rfl | exact absurd trivial hd

end Chronicle
end ContentOverlay
