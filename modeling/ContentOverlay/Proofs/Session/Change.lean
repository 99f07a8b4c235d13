import ContentOverlay.Proofs.Session.Chronicle

/-!
# What exactly a step changes

A deed says of a step what matters to whoever follows a status, a target or a pass.  The account
here is complete: it has the store after the step, field by field.  Besides the deed it names the
setter that was called, if one was, and the state that was constructed.

* `Write` is the call of a setter.
* `Store.Change` lists everything that a step can make of a store.  What a step leaves alone is read
  off this list.
* `perform_changes` is the specification of `Store.perform` in these terms, and `change_of_advance`
  says it of a step of a session.
-/

set_option autoImplicit false

namespace ContentOverlay

/-! ## Setters and constructors -/

/-- A field that has a setter, with the value that it is given. -/
inductive Write.Field where
  | parent (parent : Option NodeId)
  | kind (kind : Kind)
  | definition (definition : Option DefinitionId)
  | values (values : Option (List Value))

/-- A setter of a state was called.  The setter of the status is not meant. -/
structure Write where
  id : StateId
  field : Write.Field

/-- What a setter does to its state. -/
def Write.Field.on : Write.Field → State → State
  | parent p => fun s => { s with parent := p }
  | kind k => State.withData fun d => { d with kind := k }
  | definition id => State.withData fun d => { d with definition := id }
  | values vs => State.withData fun d => { d with values := vs }

namespace Action

/-- The setter that an action calls, if it succeeds. -/
def write? (st : Store) : Action → Option Write
  | setParent name parent => (st.named? name).map fun id => ⟨id, .parent parent⟩
  | setKind name kind => (st.named? name).map fun id => ⟨id, .kind kind⟩
  | setDefinition name definition => (st.named? name).map fun id => ⟨id, .definition definition⟩
  | setValues name values => (st.named? name).map fun id => ⟨id, .values values⟩
  | shareValues name source =>
    match st.findProperty source with
    | .error _ => none
    | .ok (_, _, data) => (st.named? name).map fun id => ⟨id, .values data.values⟩
  | _ => none

/-- The state that an action constructs, if it succeeds. -/
def constructs? (st : Store) : Action → Option State
  | newProperty _ name parent status base =>
    some (.fresh (.property ⟨parent, name⟩) parent status st.clock (st.baseText base)
      (.property (.ofName name)))
  | newNode _ item parent status base =>
    some (.fresh item parent status st.clock (st.baseText base) .node)
  | overlay _ target status =>
    match st.find target with
    | .error _ => none
    | .ok (id, s) => some (s.copyOver id status)
  | restore _ parent status bytes =>
    match (Record.decode (Reader.ofBytes bytes)).1 with
    | .error _ => none
    | .ok record =>
      some (.fresh (.property ⟨parent, record.name⟩) parent status st.clock
        (st.baseText .configured) (.property ⟨record.name, record.kind, none, record.values⟩))
  | _ => none

end Action

/-- A deed that changes no state and nobody's registration. -/
def Deed.IsIdle : Deed → Prop
  | discards _ => True
  | tells _ _ (.client _) => True
  | _ => False

/-! ## Changes of stores -/

namespace Store

/-- What a step can make of a store: the deed that it does, the setter that it calls, the state that
it constructs, and the store afterwards. -/
inductive Change (h : Holding) (st : Store) :
    Option Deed → Option Write → Option State → Store → Prop
  /-- At most names of states change. -/
  | rests {d : Option Deed} {st' : Store} (idle : ∀ e ∈ d, e.IsIdle)
      (states : st'.states = st.states) (listeners : st'.listeners = st.listeners) :
      Change h st d none none st'
  | enrols {listener : String} {verbose : Bool} (unknown : st.knows listener = false) :
      Change h st none none none (st.enrol listener verbose)
  | releases {listener : String} : Change h st none none none (st.release listener)
  | constructs {name : String} {item : ItemId} {parent : Option NodeId} {status : Status}
      {time : Timestamp} {base : String} {payload : Payload} :
      Change h st none none (some (.fresh item parent status time base payload))
        (st.insert name (.fresh item parent status time base payload))
  | overlays {name : String} {target : StateId} {status : Status} {x : State}
      (found : st.state? target = some x) (top : x.target = none) :
      Change h st (some (.overlays st.states.length target status)) none
        (some (x.copyOver target status)) (st.insertOverlay name target status x)
  | sets {id : StateId} {status : Status} :
      Change h st (some (.sets id status)) none none (st.update id (State.withStatus status))
  | writes {w : Write} : Change h st none (some w) none (st.update w.id w.field.on)
  | disposes {id : StateId} {x : State} (found : st.state? id = some x) :
      Change h st (some (.disposes id)) none none (st.dispose id)
  | adds {id : StateId} {listener : String} (held : st.holds listener = true) :
      Change h st (some (.adds id listener)) none none
        (st.update id (State.withRegistry (·.add (.client listener))))
  | removes {id : StateId} {listener : String} :
      Change h st (some (.removes id listener)) none none
        (st.update id (State.withRegistry (·.remove (.client listener))))
  /-- The entries of dead listeners are removed, and the flag is set if the state is discarded. -/
  | begins {p : Pass} {x : State} (found : st.state? p.source = some x)
      (audience : p.audience = x.registry.live (st.isListening h)) :
      Change h st (some (.begins p)) none none
        ((st.begun p).update p.source (State.withRegistry (·.pruned (st.isListening h))))
  | marks {n : Nat} {p : Pass} {o : StateId} :
      Change h st (some (.tells n p (.observer o))) none none
        (st.update o (State.observed p.event))
  | ends {n : Nat} {p : Pass} : Change h st (some (.ends n p)) none none (st.finishPass p)
  | breaks {fs : List Frame} :
      Change h st (some .breaks) none none (fs.foldl Session.abandon st)

variable {st st' : Store} {h : Holding} {caller : Option Caller} {id : StateId} {x : State}

theorem change_self {d : Option Deed} (idle : ∀ e ∈ d, e.IsIdle) : st.Change h d none none st :=
  .rests idle rfl rfl

theorem listeners_unbind (name : String) : (st.unbind name).listeners = st.listeners := by
  rw [unbind]
  split <;> rfl

/-! ## What is left alone

Most changes leave most fields of states as they are.  These lemmas are about whatever can be seen
of a state. -/

section
variable {α : Type} {see : State → α} {i : StateId}

theorem map_state?_update {f : State → State} (hf : ∀ x, see (f x) = see x) :
    ((st.update id f).state? i).map see = (st.state? i).map see := by
  rw [state?_update]
  split
  · rw [Option.map_map]
    congr 1
    funext x
    exact hf x
  · rfl

theorem map_state?_observed {event : Event}
    (hstatus : ∀ (x : State) (v : Status), see (x.withStatus v) = see x) :
    ((st.update id (State.observed event)).state? i).map see = (st.state? i).map see := by
  refine map_state?_update fun x => ?_
  rw [State.observed]
  split
  · exact hstatus x _
  · rfl

theorem map_state?_begun {p : Pass}
    (hflag : ∀ (x : State) (b : Bool), see { x with discarding := b } = see x) :
    ((st.begun p).state? i).map see = (st.state? i).map see := by
  rw [begun]
  split
  · exact map_state?_update fun x => hflag x true
  · rfl

theorem map_state?_finishPass {p : Pass}
    (hended : ∀ x : State, see { x with status := .undefined, discarding := false } = see x) :
    ((st.finishPass p).state? i).map see = (st.state? i).map see := by
  rw [finishPass]
  split
  · exact map_state?_update hended
  · rfl

theorem map_state?_foldl_abandon {fs : List Frame}
    (hflag : ∀ (x : State) (b : Bool), see { x with discarding := b } = see x) :
    ((fs.foldl Session.abandon st).state? i).map see = (st.state? i).map see := by
  rw [Session.state?_foldl_abandon, Option.map_map]
  congr 1
  funext x
  rw [Function.comp_apply]
  split
  · exact hflag x false
  · rfl

end

/-! ## Passes -/

theorem change_pass (hx : st.state? id = some x) (event : Event) :
    st.Change h (some (.begins (st.pass h id x event false).1)) none none
      (st.pass h id x event false).2 := by
  have hbegun : st.begun (st.pass h id x event false).1 = st := if_neg Bool.false_ne_true
  have hchange := Change.begins (h := h) (p := (st.pass h id x event false).1) hx rfl
  rw [hbegun] at hchange
  exact hchange

theorem change_discard? (hx : st.state? id = some x) {p : Pass}
    (hd : st.discard? h id x = some (p, st')) :
    st.Change h (some (.begins p)) none none st' := by
  rw [discard?] at hd
  split at hd
  · cases hd
  · have hlive : (st.update id fun s => { s with discarding := true }).isListening h =
        st.isListening h :=
      funext (isListening_update (f := fun s => { s with discarding := true }) (fun _ => rfl) h)
    simp only [pass, hlive, Option.some.injEq, Prod.mk.injEq] at hd
    obtain ⟨rfl, rfl⟩ := hd
    exact .begins hx rfl

/-! ## The actions -/

/-- What comes of an action, in full. -/
def Alters (h : Holding) (caller : Option Caller) (st : Store) (action : Action) : Outcome → Prop
  | .answered _ st' =>
    st.Change h (action.deed? st caller) (action.write? st) (action.constructs? st) st'
  | .passing p st' => st.Change h (some (.begins p)) none none st'

theorem holds_of_inHand {listener : String} {l : ListenerId} (hl : st.inHand listener = .ok l) :
    st.holds listener = true := by
  rw [inHand] at hl
  split at hl
  · next hh => exact hh
  · cases hl

theorem find_of_findProperty {name : String} {data : PropertyData}
    (hx : st.findProperty name = .ok (id, x, data)) :
    st.find name = .ok (id, x) ∧ x.payload = .property data := by
  rw [findProperty] at hx
  split at hx
  · cases hx
  · next i y hy =>
    cases hp : y.payload with
    | node =>
      simp only [hp, Payload.property?] at hx
      cases hx
    | property data' =>
      simp only [hp, Payload.property?] at hx
      cases hx
      exact ⟨hy, hp⟩

theorem change_construct {name : String} {item : ItemId} {parent : Option NodeId}
    {status : Status} {base : BaseVersion} {payload : Payload} :
    Gives (st.Change h none none
        (some (.fresh item parent status st.clock (st.baseText base) payload)))
      (st.construct name item parent status base payload) := by
  rw [construct]
  split
  · exact gives_ok .constructs
  · exact gives_error _

theorem change_constructOverlay {name : String} {status : Status} (hx : st.state? id = some x) :
    Gives (st.Change h (some (.overlays st.states.length id status)) none
        (some (x.copyOver id status)))
      (st.constructOverlay name id x status) := by
  rw [constructOverlay]
  split
  · split
    · exact gives_error _
    · next ht => exact gives_ok (.overlays hx (by simpa using ht))
  · exact gives_error _

/-- A setter of a property is called. -/
theorem onProperty_alters (field : Write.Field) {action : Action} {name : String}
    {f : PropertyData → PropertyData} (hf : field.on = State.withData f)
    (hd : action.deed? st caller = none) (hc : action.constructs? st = none)
    (hw : ∀ {id}, st.named? name = some id → action.write? st = some ⟨id, field⟩) :
    Gives (st.Alters h caller action) (st.onProperty name f) := by
  refine gives_bind ?_
  rintro ⟨id, x, data⟩ hx
  refine gives_ok ?_
  rw [Alters, hd, hc, hw (named?_of_find (find_of_findProperty hx).1), ← hf]
  exact .writes

/-- A question leaves the store as it is. -/
theorem reply_alters {action : Action} {a : Answer} (hd : ∀ e ∈ action.deed? st caller, e.IsIdle)
    (hw : action.write? st = none) (hc : action.constructs? st = none) :
    Gives (st.Alters h caller action) (st.reply a) := by
  refine gives_ok ?_
  rw [Alters, hw, hc]
  exact change_self hd

/-- **What an action changes.** -/
theorem perform_changes (h : Holding) (caller : Option Caller) (st : Store) (action : Action) :
    Gives (st.Alters h caller action) (perform h caller st action) := by
  cases action with
  | newProperty | newNode => exact gives_bind fun _ hst => gives_ok (change_construct _ hst)
  | overlay as target status =>
    refine gives_bind fun (id, x) hx => gives_bind fun st' hst => gives_ok ?_
    rw [Alters, Action.deed?, named?_of_find hx, Action.constructs?, hx]
    exact change_constructOverlay (state?_of_find hx) st' hst
  | restore as parent status bytes =>
    refine gives_bind fun st' hst => gives_ok ?_
    rw [Store.restore] at hst
    rw [Alters, Action.constructs?]
    cases hr : (Record.decode (Reader.ofBytes bytes)).1 with
    | error =>
      rw [hr] at hst
      cases hst
    | ok record =>
      simp only [hr] at hst ⊢
      exact change_construct _ hst
  | drop name =>
    exact gives_ok (.rests (by simp [Action.deed?]) (unbind_states name) (listeners_unbind name))
  | isAlive name =>
    simp only [perform]
    split <;> exact reply_alters (by simp [Action.deed?]) rfl rfl
  | bindTarget name other =>
    refine gives_bind fun (i, x) _ => ?_
    dsimp only
    split
    · exact reply_alters (by simp [Action.deed?]) rfl rfl
    · exact gives_ok (.rests (by simp [Action.deed?]) rfl rfl)
  | setStatus name status =>
    refine gives_bind fun (id, _) hx => gives_ok ?_
    rw [Alters, Action.deed?, named?_of_find hx]
    exact .sets
  | setStatusCode name code =>
    refine gives_bind fun (id, _) hx => gives_bind fun status hs => gives_ok ?_
    rw [Alters, Action.deed?, named?_of_find hx, Option.bind_some, ofCode?_of_mapError hs]
    exact .sets
  | setParent name parent =>
    refine gives_bind fun (id, _) hx => gives_ok ?_
    rw [Alters, Action.write?, named?_of_find hx]
    exact .writes (w := ⟨id, .parent parent⟩)
  | setKind name kind =>
    exact onProperty_alters (.kind kind) rfl rfl rfl fun hn => by
      rw [Action.write?, hn]; rfl
  | setDefinition name definition =>
    exact onProperty_alters (.definition definition) rfl rfl rfl fun hn => by
      rw [Action.write?, hn]; rfl
  | setValues name values =>
    exact onProperty_alters (.values values) rfl rfl rfl fun hn => by
      rw [Action.write?, hn]; rfl
  | shareValues name source =>
    refine gives_bind ?_
    rintro ⟨i, x, data⟩ hx
    exact onProperty_alters (.values data.values) rfl rfl rfl fun hn => by
      rw [Action.write?, hx, hn]; rfl
  | discard name =>
    refine gives_bind fun (id, x) hx => ?_
    dsimp only
    split
    · exact reply_alters (by simp [Action.deed?, named?_of_find hx, Deed.IsIdle]) rfl rfl
    · next hd => exact gives_ok (change_discard? (state?_of_find hx) hd)
  | dispose name =>
    refine gives_bind fun (id, x) hx => gives_ok ?_
    rw [Alters, Action.deed?, named?_of_find hx]
    exact .disposes (state?_of_find hx)
  | notify name event =>
    exact gives_bind fun (id, _) hx => gives_ok (change_pass (state?_of_find hx) event)
  | dropListener => exact gives_ok .releases
  | add name listener =>
    refine gives_bind fun l hl => gives_bind fun (id, _) hx => gives_ok ?_
    obtain rfl := eq_client_of_inHand hl
    rw [Alters, Action.deed?, named?_of_find hx]
    exact .adds (holds_of_inHand hl)
  | remove name listener =>
    refine gives_bind fun l hl => gives_bind fun (id, _) hx => gives_ok ?_
    obtain rfl := eq_client_of_known hl
    rw [Alters, Action.deed?, named?_of_find hx]
    exact .removes
  | has =>
    exact gives_bind fun _ _ => gives_bind fun _ _ => reply_alters (by simp [Action.deed?]) rfl rfl
  | count | statusOf => exact gives_bind fun _ _ => reply_alters (by simp [Action.deed?]) rfl rfl
  | describe | encode =>
    exact gives_bind fun _ _ => gives_bind fun _ _ => reply_alters (by simp [Action.deed?]) rfl rfl
  | removeSelf =>
    refine gives_bind fun c hc => gives_ok ?_
    obtain rfl := eq_some_of_acting hc
    exact .removes
  | addHere listener =>
    refine gives_bind fun c hc => gives_bind fun l hl => gives_ok ?_
    obtain rfl := eq_some_of_acting hc
    obtain rfl := eq_client_of_inHand hl
    exact .adds (holds_of_inHand hl)
  | removeHere listener =>
    refine gives_bind fun c hc => gives_bind fun l hl => gives_ok ?_
    obtain rfl := eq_some_of_acting hc
    obtain rfl := eq_client_of_known hl
    exact .removes
  | notifyHere event =>
    refine gives_bind fun c hc => ?_
    split
    · exact gives_error _
    · next hx => exact gives_ok (change_pass hx event)
  | breakOff => exact gives_bind fun _ _ => gives_error _
  | refused => exact gives_error _

end Store

/-! ## Steps -/

namespace Session

variable {s t : Session}

/-- What the next step reads off the action that it carries out, if that is answered at once. -/
def ofAnswered {α : Type} (s : Session) (f : Action → Option α) : Option α :=
  match s.frames with
  | .requests caller (.act action :: _) _ :: _ =>
    match s.store.perform s.holding (caller.map (·.1)) action with
    | .ok (.answered _ _) => f action
    | _ => none
  | _ => none

/-- The setter that the next step calls. -/
def write? (s : Session) : Option Write := s.ofAnswered fun action => action.write? s.store

/-- The state that the next step constructs. -/
def constructs? (s : Session) : Option State :=
  s.ofAnswered fun action => action.constructs? s.store

theorem change_carryOut {caller : Option (Caller × Nat)} {r : Request} {todo : List Request}
    {answers : List Answer} {rest : List Frame} (n : Nat)
    (hs : s.frames = .requests caller (r :: todo) answers :: rest) :
    s.store.Change s.holding (s.deed? n) s.write? s.constructs?
      (carryOut { s with frames := .requests caller todo answers :: rest }
        (caller.map (·.1)) r).store := by
  rw [write?, constructs?, ofAnswered, ofAnswered, deed?, hs]
  cases r with
  | act action =>
    have hp := Store.perform_changes s.holding (caller.map (·.1)) s.store action
    rw [carryOut]
    dsimp only
    rw [holding_requests hs]
    unfold conclude
    cases ho : s.store.perform s.holding (caller.map (·.1)) action with
    | ok o =>
      cases o with
      | answered a st => exact hp _ ho
      | passing p st => exact hp _ ho
    | error why =>
      cases why
      case broken => exact .breaks
      all_goals exact Store.change_self (by simp)
  | listen listener verbose script =>
    rw [carryOut]
    dsimp only
    split
    · exact Store.change_self (by simp)
    · next hk => exact .enrols (Bool.eq_false_iff.2 hk)

theorem change_deliver {p : Pass} {l : ListenerId} {pending : List ListenerId} {rest : List Frame}
    (n : Nat) (hs : s.frames = .pass p (l :: pending) :: rest) :
    s.store.Change s.holding (s.deed? n) s.write? s.constructs?
      (deliver { s with frames := .pass p pending :: rest } p l).store := by
  rw [write?, constructs?, ofAnswered, ofAnswered, deed?, hs]
  cases l with
  | client name =>
    have hidle : ∀ e ∈ some (Deed.tells n p (.client name)), e.IsIdle := by simp [Deed.IsIdle]
    rw [deliver, tell]
    dsimp only
    split
    · exact Store.change_self hidle
    · split <;> exact Store.change_self hidle
  | observer o => exact .marks

/-- **What a step changes.** -/
theorem change_of_advance (n : Nat) (h : s.advance = some t) :
    s.store.Change s.holding (s.deed? n) s.write? s.constructs? t.store := by
  unfold advance at h
  split at h
  · cases h
  · cases h
  · next hs =>
    obtain rfl := Option.some.inj h
    rw [write?, constructs?, ofAnswered, ofAnswered, deed?, hs]
    exact Store.change_self (by simp)
  · next hs => exact Option.some.inj h ▸ change_carryOut n hs
  · next hs =>
    obtain rfl := Option.some.inj h
    rw [write?, constructs?, ofAnswered, ofAnswered, deed?, hs]
    exact .ends
  · next hs => exact Option.some.inj h ▸ change_deliver n hs

end Session

namespace Chronicle

/-- What a step of a chronicle changes. -/
theorem change {c : Chronicle} {t : Session} (ht : c.session.advance = some t) :
    c.session.store.Change c.session.holding c.next? c.session.write? c.session.constructs?
      t.store :=
  Session.change_of_advance c.innermost ht

end Chronicle
end ContentOverlay
