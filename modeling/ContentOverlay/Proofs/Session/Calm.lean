import ContentOverlay.Proofs.Session.Links

/-!
# Calm sessions

Listeners may be content to take notes, to look at states and to add or remove listeners.  If they
all are, then no pass is ever begun while another one is under way, and nothing is broken off by a
listener.  What is under way has one of four shapes.

* `Request.IsQuiet` is said of requests of the client that create no other listeners than these.
* `Calm` is the invariant, and `calm_of_later` carries it along a chronicle.
* `Session.CalmTurn` says what a step of a calm session does to the pass that is under way.
-/

set_option autoImplicit false

namespace ContentOverlay

/-! ## Gentle requests -/

/-- An action that looks at a state, or adds or removes a listener. -/
def Action.IsGentle : Action → Prop
  | add _ _ => True
  | remove _ _ => True
  | has _ _ => True
  | count _ => True
  | statusOf _ => True
  | removeSelf => True
  | addHere _ => True
  | removeHere _ => True
  | _ => False

/-- A request that looks at a state, or adds or removes a listener. -/
def Request.IsGentle : Request → Prop
  | act action => action.IsGentle
  | listen _ _ _ => False

/-- A listener with this script will make gentle requests only. -/
def Script.IsGentle (script : Script) : Prop := ∀ e ∈ script, ∀ r ∈ e.2, r.IsGentle

/-- The client may do everything, but the listeners that it creates are gentle. -/
def Request.IsQuiet : Request → Prop
  | act _ => True
  | listen _ _ script => Script.IsGentle script

/-- A deed that adds or removes a listener. -/
def Deed.IsGentle : Deed → Prop
  | adds _ _ => True
  | removes _ _ => True
  | _ => False

theorem Action.IsGentle.deed {action : Action} (h : action.IsGentle) {st : Store}
    {caller : Option Caller} {d : Deed} (hd : action.deed? st caller = some d) : d.IsGentle := by
  cases action <;> simp only [Action.IsGentle] at h <;>
    simp only [Action.deed?, Option.map_eq_some_iff, reduceCtorEq] at hd
  all_goals
    obtain ⟨_, _, rfl⟩ := hd
    trivial

theorem Script.IsGentle.take {event : Event} {script script' : Script} {todo : List Request}
    (h : Script.IsGentle script) (ht : Script.take? event script = some (todo, script')) :
    (∀ r ∈ todo, r.IsGentle) ∧ Script.IsGentle script' := by
  induction script generalizing script' with
  | nil => cases ht
  | cons entry script ih =>
    have htail : Script.IsGentle script := fun e he => h e (List.mem_cons_of_mem _ he)
    rw [Script.take?] at ht
    split at ht
    · cases ht
      exact ⟨h entry List.mem_cons_self, htail⟩
    · simp only [Option.map_eq_some_iff, Prod.mk.injEq, Prod.exists] at ht
      obtain ⟨_, rest, ht, rfl, rfl⟩ := ht
      obtain ⟨htodo, hrest⟩ := ih htail ht
      refine ⟨htodo, fun e he => ?_⟩
      rcases List.mem_cons.1 he with rfl | he
      · exact h e List.mem_cons_self
      · exact hrest e he

/-! ## What comes of a gentle action -/

namespace Store

/-- Nothing was broken off, and no pass begins. -/
def IsMild : Except Failure Outcome → Prop
  | .ok (.answered _ _) => True
  | .ok (.passing _ _) => False
  | .error .broken => False
  | .error _ => True

/-- A part of an action that breaks nothing off. -/
def Holds {α : Type} (a : Except Failure α) : Prop := a ≠ .error .broken

variable {st : Store} {α : Type}

theorem isMild_bind {a : Except Failure α} {f : α → Except Failure Outcome} (ha : Holds a)
    (hf : ∀ x, IsMild (f x)) : IsMild (a >>= f) := by
  cases a with
  | ok x => exact hf x
  | error why =>
    cases why
    case broken => exact absurd rfl ha
    all_goals trivial

theorem holds_find (name : String) : Holds (st.find name) := by
  unfold find Holds
  split
  · simp
  · split <;> simp

theorem holds_inHand (listener : String) : Holds (st.inHand listener) := by
  unfold inHand Holds
  split <;> simp

theorem holds_known (listener : String) : Holds (st.known listener) := by
  unfold known Holds
  split <;> simp

theorem holds_acting (caller : Option Caller) : Holds (acting caller) := by
  unfold acting Holds
  split <;> simp

/-- **A gentle action breaks nothing off and begins no pass.** -/
theorem isMild_perform (st : Store) {action : Action} (h : action.IsGentle) (held : Holding)
    (caller : Option Caller) : IsMild (st.perform held caller action) := by
  cases action <;> simp only [Action.IsGentle] at h
  case add =>
    exact isMild_bind (holds_inHand _) fun _ => isMild_bind (holds_find _) fun _ => trivial
  case remove =>
    exact isMild_bind (holds_known _) fun _ => isMild_bind (holds_find _) fun _ => trivial
  case has => exact isMild_bind (holds_known _) fun _ => isMild_bind (holds_find _) fun _ => trivial
  case count | statusOf => exact isMild_bind (holds_find _) fun _ => trivial
  case removeSelf => exact isMild_bind (holds_acting _) fun _ => trivial
  case addHere =>
    exact isMild_bind (holds_acting _) fun _ => isMild_bind (holds_inHand _) fun _ => trivial
  case removeHere =>
    exact isMild_bind (holds_acting _) fun _ => isMild_bind (holds_known _) fun _ => trivial

theorem not_passing_of_gentle {action : Action} (h : action.IsGentle) {held : Holding}
    {caller : Option Caller} {p : Pass} {st' : Store} :
    st.perform held caller action ≠ .ok (.passing p st') := by
  intro ho
  have hmild := st.isMild_perform h held caller
  rw [ho] at hmild
  exact hmild

theorem not_broken_of_gentle {action : Action} (h : action.IsGentle) {held : Holding}
    {caller : Option Caller} : st.perform held caller action ≠ .error .broken := by
  intro ho
  have hmild := st.isMild_perform h held caller
  rw [ho] at hmild
  exact hmild

end Store

/-! ## Calm sessions -/

namespace Session

/-- What is under way in a calm session: nothing, requests of the client, a pass that one of them
has begun, or gentle requests of a listener that this pass tells. -/
inductive IsCalm : List Frame → Prop
  | blank : IsCalm []
  | client {todo : List Request} {answers : List Answer} (quiet : ∀ r ∈ todo, r.IsQuiet) :
      IsCalm [.requests none todo answers]
  | telling {p : Pass} {pending : List ListenerId} {todo : List Request} {answers : List Answer}
      (quiet : ∀ r ∈ todo, r.IsQuiet) :
      IsCalm [.pass p pending, .requests none todo answers]
  | called {call : Caller × Nat} {asks : List Request} {replies : List Answer} {p : Pass}
      {pending : List ListenerId} {todo : List Request} {answers : List Answer}
      (gentle : ∀ r ∈ asks, r.IsGentle) (quiet : ∀ r ∈ todo, r.IsQuiet) :
      IsCalm [.requests (some call) asks replies, .pass p pending, .requests none todo answers]

/-- What is under way is calm, and so is what listeners are going to do. -/
structure Calm (s : Session) : Prop where
  frames : IsCalm s.frames
  scripts : ∀ e ∈ s.scripts, Script.IsGentle e.2

theorem gentle_takeRequests {listener : String} {event : Event}
    {scripts scripts' : List (String × Script)} {todo : List Request}
    (h : ∀ e ∈ scripts, Script.IsGentle e.2)
    (ht : takeRequests listener event scripts = some (todo, scripts')) :
    (∀ r ∈ todo, r.IsGentle) ∧ ∀ e ∈ scripts', Script.IsGentle e.2 := by
  induction scripts generalizing scripts' with
  | nil => cases ht
  | cons entry scripts ih =>
    have hhead := h entry List.mem_cons_self
    have htail : ∀ e ∈ scripts, Script.IsGentle e.2 := fun e he => h e (List.mem_cons_of_mem _ he)
    rw [takeRequests] at ht
    split at ht <;> simp only [Option.map_eq_some_iff, Prod.mk.injEq, Prod.exists] at ht
    · obtain ⟨_, script, ht, rfl, rfl⟩ := ht
      obtain ⟨htodo, hscript⟩ := hhead.take ht
      exact ⟨htodo, List.forall_mem_cons.2 ⟨hscript, htail⟩⟩
    · obtain ⟨_, rest, ht, rfl, rfl⟩ := ht
      obtain ⟨htodo, hrest⟩ := ih htail ht
      exact ⟨htodo, List.forall_mem_cons.2 ⟨hhead, hrest⟩⟩

variable {s t : Session} {n : Nat}

/-- **A step of a calm session is calm.** -/
theorem Calm.advance (h : Calm s) (ht : s.advance = some t) : Calm t := by
  obtain ⟨hframes, hscripts⟩ := h
  generalize hs : s.frames = fs at hframes
  rw [Session.advance, hs] at ht
  cases hframes with
  | blank => cases ht
  | @client todo answers quiet =>
    cases todo with
    | nil => cases ht
    | cons r todo =>
      obtain rfl := Option.some.inj ht
      have hquiet : ∀ r ∈ todo, r.IsQuiet := fun r hr => quiet r (List.mem_cons_of_mem _ hr)
      cases r with
      | act action =>
        rw [carryOut]
        unfold conclude
        split
        · exact ⟨.client hquiet, hscripts⟩
        · exact ⟨.telling hquiet, hscripts⟩
        · exact ⟨.client fun r hr => absurd hr List.not_mem_nil, hscripts⟩
        · exact ⟨.client hquiet, hscripts⟩
      | listen listener verbose script =>
        rw [carryOut]
        split
        · exact ⟨.client hquiet, hscripts⟩
        · exact ⟨.client hquiet,
            List.forall_mem_cons.2 ⟨quiet _ List.mem_cons_self, hscripts⟩⟩
  | @telling p pending todo answers quiet =>
    cases pending with
    | nil =>
      obtain rfl := Option.some.inj ht
      exact ⟨.client quiet, hscripts⟩
    | cons l pending =>
      obtain rfl := Option.some.inj ht
      cases l with
      | observer o => exact ⟨.telling quiet, hscripts⟩
      | client name =>
        rw [deliver, tell]
        split
        · exact ⟨.telling quiet, hscripts⟩
        · dsimp only
          split
          · exact ⟨.telling quiet, hscripts⟩
          · next hr =>
            obtain ⟨hgentle, hrest⟩ := gentle_takeRequests hscripts hr
            exact ⟨.called hgentle quiet, hrest⟩
  | @called call asks replies p pending todo answers gentle quiet =>
    cases asks with
    | nil =>
      obtain rfl := Option.some.inj ht
      exact ⟨.telling quiet, hscripts⟩
    | cons r asks =>
      obtain rfl := Option.some.inj ht
      have hr := gentle r List.mem_cons_self
      have hasks : ∀ r ∈ asks, r.IsGentle := fun r hr => gentle r (List.mem_cons_of_mem _ hr)
      cases r with
      | listen => exact absurd hr id
      | act action =>
        rw [carryOut]
        unfold conclude
        split
        · exact ⟨.called hasks quiet, hscripts⟩
        · next ho => exact absurd ho (Store.not_passing_of_gentle hr)
        · next ho => exact absurd ho (Store.not_broken_of_gentle hr)
        · exact ⟨.called hasks quiet, hscripts⟩

/-- What a step of a calm session does to the pass that is under way. -/
inductive CalmTurn (n : Nat) (s t : Session) : Option Deed → Prop
  /-- The client does something while no pass is under way. -/
  | outside {d : Option Deed} (before : Chronicle.passesOf s.frames = [])
      (after : Chronicle.passesOf t.frames = []) (apart : ∀ e ∈ d, e.OfPass → e = .breaks) :
      CalmTurn n s t d
  | begins {p : Pass} (before : Chronicle.passesOf s.frames = [])
      (after : Chronicle.passesOf t.frames = [(p, p.audience)]) : CalmTurn n s t (some (.begins p))
  /-- A listener does something gentle. -/
  | within {d : Option Deed} (same : Chronicle.passesOf t.frames = Chronicle.passesOf s.frames)
      (gentle : ∀ e ∈ d, e.IsGentle) : CalmTurn n s t d
  | tells {p : Pass} {l : ListenerId} {pending : List ListenerId}
      (before : Chronicle.passesOf s.frames = [(p, l :: pending)])
      (after : Chronicle.passesOf t.frames = [(p, pending)]) :
      CalmTurn n s t (some (.tells n p l))
  | ends {p : Pass} (before : Chronicle.passesOf s.frames = [(p, [])])
      (after : Chronicle.passesOf t.frames = []) : CalmTurn n s t (some (.ends n p))

/-- The listener of a calm session does something gentle. -/
theorem gentle_of_called (n : Nat) {call : Caller × Nat} {r : Request} {asks : List Request}
    {replies : List Answer} {rest : List Frame}
    (hs : s.frames = .requests (some call) (r :: asks) replies :: rest) (hr : r.IsGentle) :
    ∀ e ∈ s.deed? n, e.IsGentle := by
  intro e he
  rw [Option.mem_def, deed?, hs] at he
  cases r with
  | listen => exact absurd hr id
  | act action =>
    dsimp only at he
    split at he
    · exact Action.IsGentle.deed hr he
    · next ho => exact absurd ho (Store.not_passing_of_gentle hr)
    · next ho => exact absurd ho (Store.not_broken_of_gentle hr)
    · cases he

/-- **What a step of a calm session does.** -/
theorem Calm.turn (h : Calm s) (ht : s.advance = some t) : CalmTurn n s t (s.deed? n) := by
  have hturn := turn_of_advance n ht
  have hframes := h.frames
  generalize hd : s.deed? n = d at hturn
  cases hturn with
  | answers _ before after apart =>
    rw [before] at hframes
    cases hframes with
    | client =>
      exact .outside (by rw [before]; rfl) (by rw [after]; rfl) fun e he hp =>
        absurd hp (apart e he)
    | called gentle =>
      have hgentle := gentle_of_called n before (gentle _ List.mem_cons_self)
      exact .within (by rw [before, after]; rfl) (hd ▸ hgentle)
  | begins before after =>
    rw [before] at hframes
    cases hframes with
    | client => exact .begins (by rw [before]; rfl) (by rw [after]; rfl)
    | called gentle =>
      exact absurd (gentle_of_called n before (gentle _ List.mem_cons_self) _ hd) id
  | breaks before after =>
    rw [before] at hframes
    cases hframes with
    | client => exact .outside (by rw [before]; rfl) (by rw [after]; rfl) (by simp)
    | called gentle =>
      exact absurd (gentle_of_called n before (gentle _ List.mem_cons_self) _ hd) id
  | returns before after =>
    rw [before] at hframes
    cases hframes with
    | called => exact .within (by rw [before, after]; rfl) (by simp)
  | tells before after =>
    rw [before] at hframes
    cases hframes with
    | telling =>
      refine .tells (by rw [before]; rfl) ?_
      rcases after with after | ⟨_, _, _, after⟩ <;> rw [after] <;> rfl
  | ends before after =>
    rw [before] at hframes
    cases hframes with
    | telling =>
      exact .ends (by rw [before]; rfl) (by rw [after, Chronicle.passesOf_answer]; rfl)

end Session

/-! ## Along a chronicle -/

namespace Chronicle

open Session

variable {config : Config} {clock : Timestamp} {c c' : Chronicle}

theorem calm_blank (config : Config) (clock : Timestamp) : Calm (blank config clock).session where
  frames := .blank
  scripts := by
    intro e he
    cases he

theorem calm_of_move (h : Calm c.session) (hm : Move Request.IsQuiet c c') : Calm c'.session := by
  cases hm with
  | submit r allowed =>
    refine ⟨.client fun r' hr => ?_, h.scripts⟩
    rw [List.mem_singleton.1 hr]
    exact allowed
  | advance step => exact h.advance step
  | reorder before perm =>
    have hframes := h.frames
    rw [before] at hframes
    cases hframes with
    | telling quiet => exact ⟨.telling quiet, h.scripts⟩
  | elapse => exact ⟨h.frames, h.scripts⟩

/-- **A chronicle is calm** if the client makes quiet requests only. -/
theorem calm_of_later (h : Later Request.IsQuiet (blank config clock) c) : Calm c.session := by
  induction h with
  | refl => exact calm_blank config clock
  | tail _ hm ih => exact calm_of_move ih hm

end Chronicle
end ContentOverlay
