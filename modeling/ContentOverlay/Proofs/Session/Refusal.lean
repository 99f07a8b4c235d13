import ContentOverlay.Proofs.Session.Subscription
import ContentOverlay.Proofs.Store.Restoring

/-!
# Requests that fail

A request that fails is answered with what is wrong, and nothing else happens: no state, no registry
and no listener is touched, and the listeners do what they would have done.  This holds of every
request that does not break everything off (`eq_answered_of_failed`), because whatever is wrong with
an action is found out before anything is done.

* `Session.answered` is a session in which nothing was done but giving an answer, and
  `Session.Refuses` says that this is what the next step does, with an error.
* `refuses_iff` reads the errors of a step off the action that it carries out.
* `Store.Overlaid` says what an overlay changes: it is new itself, and its observer is registered
  with the target.
* `refusals_leave_no_trace` puts this together for the constructions and for the codes of statuses.
-/

set_option autoImplicit false

namespace ContentOverlay

/-- The answer, if there is one, does not say that something failed. -/
def Outcome.Succeeds : Outcome → Prop
  | .answered (.failed _) _ => False
  | _ => True

theorem Status.ofCode?_eq_none_iff {code : Int} :
    Status.ofCode? code = none ↔ code < 0 ∨ 6 < code := by
  simp only [Status.ofCode?, Status.all, Status.code, List.find?_eq_none, List.forall_mem_cons,
    beq_iff_eq]
  simp only [List.not_mem_nil, false_implies, implies_true, and_true]
  omega

namespace Store

variable {st : Store} {h : Holding} {caller : Option Caller} {id : StateId} {x : State}
  {as name : String} {status : Status}

/-! ## What is wrong with an action -/

/-- What fails in an action fails the whole action. -/
theorem perform_succeeds (h : Holding) (caller : Option Caller) (st : Store) (action : Action) :
    Gives Outcome.Succeeds (perform h caller st action) := by
  cases action with
  | newProperty | newNode | restore | setStatus | setParent | setKind | setDefinition | setValues
  | dispose | notify | count | statusOf | removeSelf =>
    exact gives_bind fun _ _ => gives_ok trivial
  | overlay | setStatusCode | shareValues | add | remove | has | describe | encode | addHere
  | removeHere =>
    exact gives_bind fun _ _ => gives_bind fun _ _ => gives_ok trivial
  | drop | dropListener => exact gives_ok trivial
  | isAlive =>
    simp only [perform]
    split <;> exact gives_ok trivial
  | bindTarget | discard =>
    refine gives_bind ?_
    rintro ⟨_, x⟩ _
    dsimp only
    split <;> exact gives_ok trivial
  | notifyHere =>
    refine gives_bind fun c _ => ?_
    split
    · exact gives_error _
    · exact gives_ok trivial
  | breakOff => exact gives_bind fun _ _ => gives_error _
  | refused => exact gives_error _

/-- An action that constructs a state of its own with this status.  Where the state is restored, the
bytes are those of a record. -/
inductive Founds (status : Status) : Action → Prop
  | newProperty {as : String} {name : Name} {parent : Option NodeId} {base : BaseVersion} :
      Founds status (.newProperty as name parent status base)
  | newNode {as : String} {item : ItemId} {parent : Option NodeId} {base : BaseVersion} :
      Founds status (.newNode as item parent status base)
  | restore {as : String} {parent : Option NodeId} {bytes : List UInt8} {record : Record}
      (decodes : (Record.decode (Reader.ofBytes bytes)).1 = .ok record) :
      Founds status (.restore as parent status bytes)

theorem construct_eq (st : Store) (as : String) (item : ItemId) (parent : Option NodeId)
    (status : Status) (base : BaseVersion) (payload : Payload) :
    ∃ st', st.construct as item parent status base payload =
      if status = .existing ∨ status = .new then .ok st'
      else .error (.error (.illegalStatus status .fresh)) := by
  simp only [construct, Status.isFresh_iff]
  exact ⟨_, rfl⟩

theorem perform_founds {action : Action} (hf : Founds status action) (h : Holding)
    (caller : Option Caller) (st : Store) :
    perform h caller st action = .error (.error (.illegalStatus status .fresh)) ↔
      ¬ (status = .existing ∨ status = .new) := by
  have hconstruct : ∃ a : Except Failure Store, perform h caller st action =
      a.map (.answered .done) ∧ ∃ st', a = if status = .existing ∨ status = .new then .ok st'
        else .error (.error (.illegalStatus status .fresh)) := by
    cases hf with
    | newProperty => exact ⟨_, rfl, construct_eq _ _ _ _ _ _ _⟩
    | newNode => exact ⟨_, rfl, construct_eq _ _ _ _ _ _ _⟩
    | restore decodes =>
      refine ⟨_, perform_restore h caller st _ _ _ _, ?_⟩
      rw [Store.restore, decodes]
      exact construct_eq _ _ _ _ _ _ _
  obtain ⟨a, hperform, st', ha⟩ := hconstruct
  rw [hperform, ha]
  split
  · next hs => exact iff_of_false (by simp [Except.map]) (not_not.2 hs)
  · next hs => exact iff_of_true rfl hs

theorem perform_setStatusCode_iff {code : Int} (hx : st.find name = .ok (id, x)) :
    perform h caller st (.setStatusCode name code) = .error (.error (.unknownStatusCode code)) ↔
      code < 0 ∨ 6 < code := by
  rw [← Status.ofCode?_eq_none_iff]
  simp only [perform, hx]
  change ((Status.ofCode code).mapError Failure.error >>= fun status =>
    .ok (Outcome.answered .done (st.update id (State.withStatus status)))) = _ ↔ _
  rw [Status.ofCode]
  cases hc : Status.ofCode? code with
  | none => exact iff_of_true rfl rfl
  | some status =>
    refine iff_of_false ?_ (by simp)
    rintro ⟨⟩

/-! ## Overlays -/

theorem perform_overlay (hx : st.find name = .ok (id, x)) (h : Holding)
    (caller : Option Caller) (as : String) (status : Status) :
    perform h caller st (.overlay as name status) =
      (st.constructOverlay as id x status).map (.answered .done) := by
  simp only [perform, hx]
  rfl

/-- The check of the status comes before the look at the target. -/
theorem constructOverlay_eq (st : Store) (as : String) (id : StateId) (x : State)
    (status : Status) : st.constructOverlay as id x status =
      if status = .existingModified ∨ status = .existingRemoved then
        if x.target = none then .ok (st.insertOverlay as id status x)
        else .error (.error (.nestedOverlay x.item))
      else .error (.error (.illegalStatus status .overlay)) := by
  simp only [constructOverlay, Status.isCopyOnWrite, decide_eq_true_eq]
  cases x.target <;> simp

/-- The overlay is new and its observer is registered with the target.  Whatever was there before is
as it was, apart from this entry and from what had the name of the overlay. -/
structure Overlaid (st : Store) (as : String) (id : StateId) (x : State) (status : Status)
    (st' : Store) : Prop where
  absent : st.state? st.states.length = none
  overlay : st'.state? st.states.length = some (x.copyOver id status)
  unregistered : ∀ {i y}, st.state? i = some y → .observer st.states.length ∉ y.registry.entries
  registered : st'.state? id =
    some { x with registry := ⟨x.registry.entries ++ [.observer st.states.length]⟩ }
  others : ∀ i, i ≠ id → i ≠ st.states.length → st'.state? i = st.state? i
  name : st'.named? as = some st.states.length
  names : ∀ name, name ≠ as → st'.named? name = st.named? name
  listeners : st'.listeners = st.listeners

theorem named?_bind_of_ne (hne : name ≠ as) (i : StateId) :
    (st.bind as i).named? name = st.named? name := by
  rw [named?, bind, List.lookup_cons, beq_false_of_ne hne]
  exact lookup_filter_ne hne.symm _

theorem overlaid_insertOverlay (hx : st.state? id = some x)
    (hfree : ∀ {i y}, st.state? i = some y → .observer st.states.length ∉ y.registry.entries) :
    st.Overlaid as id x status (st.insertOverlay as id status x) where
  absent := st.state?_length
  overlay := by rw [state?_insertOverlay, if_pos rfl]
  unregistered := hfree
  registered := by
    have hid : id ≠ st.states.length := by
      rintro rfl
      rw [state?_length] at hx
      cases hx
    have hadd : x.registry.add (.observer st.states.length) =
        ⟨x.registry.entries ++ [.observer st.states.length]⟩ :=
      if_neg (Registry.mem_eq_true_iff.not.2 (hfree hx))
    rw [state?_insertOverlay, if_neg hid, if_pos rfl, hx, Option.map_some, State.withRegistry, hadd]
  others := by
    intro i hid hi
    rw [state?_insertOverlay, if_neg hi, if_neg hid]
  name := by
    rw [insertOverlay, named?_insert, length_update]
  names := fun name hne => named?_bind_of_ne hne _
  listeners := rfl

end Store

namespace Session

variable {s t : Session} {caller : Option (Caller × Nat)} {r : Request} {action : Action}
  {todo : List Request} {answers : List Answer} {rest : List Frame} {why : Failure} {e : Error}

/-! ## Steps that fail -/

/-- This is the request that the next step carries out. -/
def Asks (s : Session) (r : Request) : Prop :=
  ∃ caller todo answers rest, s.frames = .requests caller (r :: todo) answers :: rest

/-- The session in which the next request has got its answer, and nothing else was done. -/
def answered (s : Session) (a : Answer) : Session :=
  match s.frames with
  | .requests caller (_ :: todo) answers :: rest =>
    { s with frames := .requests caller todo (a :: answers) :: rest }
  | _ => s

/-- The next request is refused with this error, and nothing else is done. -/
def Refuses (s : Session) (e : Error) : Prop :=
  s.advance = some (s.answered (.failed (.error e)))

theorem answered_eq (hs : s.frames = .requests caller (r :: todo) answers :: rest) (a : Answer) :
    s.answered a = { s with frames := .requests caller todo (a :: answers) :: rest } := by
  rw [answered, hs]

theorem conclude_error (s : Session) (hne : why ≠ .broken) :
    s.conclude (.error why) = { s with frames := answer (.failed why) s.frames } := by
  cases why
  case broken => exact absurd rfl hne
  all_goals rfl

/-- Only an action that failed is answered by a failure. -/
theorem eq_error_of_conclude {o : Except Failure Outcome} (ho : Store.Gives Outcome.Succeeds o)
    (hs : s.frames = .requests caller todo answers :: rest) (hne : why ≠ .broken)
    (hf : (s.conclude o).frames = .requests caller todo (.failed why :: answers) :: rest) :
    o = .error why := by
  cases o with
  | error why' =>
    by_cases hb : why' = .broken
    · subst hb
      cases hf
      exact absurd rfl hne
    · rw [conclude_error s hb, hs] at hf
      cases hf
      rfl
  | ok o =>
    cases o with
    | answered a st =>
      rw [conclude, hs] at hf
      cases hf
      exact absurd (ho _ rfl) not_false
    | passing p st => cases hf

theorem advance_act (hs : s.frames = .requests caller (.act action :: todo) answers :: rest) :
    s.advance = some (conclude { s with frames := .requests caller todo answers :: rest }
      (s.store.perform s.holding (caller.map (·.1)) action)) := by
  rw [advance_requests hs, carryOut]
  dsimp only
  rw [holding_requests hs]

/-- **The next step refuses an action exactly if the action fails with the error.** -/
theorem refuses_iff (hs : s.frames = .requests caller (.act action :: todo) answers :: rest) :
    s.Refuses e ↔
      s.store.perform s.holding (caller.map (·.1)) action = .error (.error e) := by
  rw [Refuses, answered_eq hs, advance_act hs, Option.some.injEq]
  refine ⟨fun h => ?_, fun h => by rw [h]; rfl⟩
  exact eq_error_of_conclude (Store.perform_succeeds _ _ _ _) rfl (by simp)
    (congrArg Session.frames h)

/-- **A request that fails leaves no trace.** -/
theorem eq_answered_of_failed (ha : s.Asks r) (ht : s.advance = some t) (hne : why ≠ .broken)
    (hf : t.frames = (s.answered (.failed why)).frames) : t = s.answered (.failed why) := by
  obtain ⟨caller, todo, answers, rest, hs⟩ := ha
  rw [answered_eq hs] at hf ⊢
  cases r with
  | act action =>
    rw [advance_act hs, Option.some.injEq] at ht
    subst ht
    rw [eq_error_of_conclude (Store.perform_succeeds _ _ _ _) rfl hne hf, conclude_error _ hne]
    rfl
  | listen listener verbose script =>
    rw [advance_requests hs, Option.some.injEq, carryOut] at ht
    subst ht
    split at hf
    · next hk =>
      rw [if_pos hk]
      exact congrArg (fun fs => { s with frames := fs }) hf
    · cases hf

/-! ## Steps that overlay -/

section
variable {as target : String} {status : Status} {id : StateId} {x : State}

theorem advance_overlay (hl : Linked s.frames s.store)
    (hs : s.frames = .requests caller (.act (.overlay as target status) :: todo) answers :: rest)
    (hx : s.store.find target = .ok (id, x))
    (hok : s.store.constructOverlay as id x status = .ok (s.store.insertOverlay as id status x)) :
    ∃ st', s.advance = some { s.answered .done with store := st' } ∧
      s.store.Overlaid as id x status st' := by
  refine ⟨_, ?_, Store.overlaid_insertOverlay (Store.state?_of_find hx) fun {i y} hy hm => ?_⟩
  · rw [advance_act hs, Store.perform_overlay hx, hok, answered_eq hs]
    rfl
  · obtain ⟨z, hz, -⟩ := hl.observers hy hm
    rw [Store.state?_length] at hz
    cases hz

/-- **When a state is overlaid, and why it is not.** -/
theorem overlay_iff (hl : Linked s.frames s.store)
    (ha : s.Asks (.act (.overlay as target status))) (hx : s.store.find target = .ok (id, x)) :
    (s.Refuses (.illegalStatus status .overlay) ↔
      ¬ (status = .existingModified ∨ status = .existingRemoved)) ∧
    (s.Refuses (.nestedOverlay x.item) ↔
      (status = .existingModified ∨ status = .existingRemoved) ∧ x.target ≠ none) ∧
    ((∃ st', s.advance = some { s.answered .done with store := st' } ∧
        s.store.Overlaid as id x status st') ↔
      (status = .existingModified ∨ status = .existingRemoved) ∧ x.target = none) := by
  obtain ⟨caller, todo, answers, rest, hs⟩ := ha
  have hrefuses : ∀ e, s.Refuses e ↔ (s.store.constructOverlay as id x status).map
      (Outcome.answered .done) = .error (.error e) := by
    intro e
    rw [refuses_iff hs, Store.perform_overlay hx]
  have hnotDone : ∀ {e st'}, s.Refuses e → s.advance ≠
      some { s.answered .done with store := st' } := by
    intro e st' hr hd
    rw [Refuses] at hr
    rw [hr, answered_eq hs, answered_eq hs] at hd
    cases hd
  have hoverlay := Store.constructOverlay_eq s.store as id x status
  by_cases hstatus : status = .existingModified ∨ status = .existingRemoved
  · rw [if_pos hstatus] at hoverlay
    by_cases ht : x.target = none
    · rw [if_pos ht] at hoverlay
      have hdone := advance_overlay hl hs hx hoverlay
      have hnot : ∀ e, ¬ s.Refuses e := by
        rintro e hr
        obtain ⟨st', hd, -⟩ := hdone
        exact hnotDone hr hd
      exact ⟨iff_of_false (hnot _) (not_not.2 hstatus),
        iff_of_false (hnot _) fun h => h.2 ht, iff_of_true hdone ⟨hstatus, ht⟩⟩
    · rw [if_neg ht] at hoverlay
      have hr : s.Refuses (.nestedOverlay x.item) := (hrefuses _).2 (by rw [hoverlay]; rfl)
      refine ⟨iff_of_false ?_ (not_not.2 hstatus), iff_of_true hr ⟨hstatus, ht⟩,
        iff_of_false ?_ fun h => ht h.2⟩
      · rw [hrefuses, hoverlay]
        rintro ⟨⟩
      · rintro ⟨st', hd, -⟩
        exact hnotDone hr hd
  · rw [if_neg hstatus] at hoverlay
    have hr : s.Refuses (.illegalStatus status .overlay) := (hrefuses _).2 (by rw [hoverlay]; rfl)
    refine ⟨iff_of_true hr hstatus, iff_of_false ?_ fun h => hstatus h.1,
      iff_of_false ?_ fun h => hstatus h.1⟩
    · rw [hrefuses, hoverlay]
      rintro ⟨⟩
    · rintro ⟨st', hd, -⟩
      exact hnotDone hr hd

end

end Session

namespace Chronicle

open Session

variable {config : Config} {clock : Timestamp} {c : Chronicle}

/-- **What is refused, and that it leaves no trace.**  A request that fails without breaking
everything off is answered so, and this is all that happens.

A state of its own is refused for its status exactly if that is not *existing* or *new*, and a code
of a status is refused exactly if it is not one of 0 to 6.  An overlay is refused for its status
exactly if that is not *modified* or *removed*, whatever its target is; with another status it is
refused exactly if its target has a target at that moment, by the name of this item.  Otherwise the
state is overlaid, and nothing that was there before changes but the registry of the target, which
gets one entry more. -/
theorem refusals_leave_no_trace (h : Later Any (blank config clock) c) :
    (∀ (r : Request) (t : Session) (why : Failure), c.session.Asks r →
      c.session.advance = some t → why ≠ .broken →
      t.frames = (c.session.answered (.failed why)).frames →
      t = c.session.answered (.failed why)) ∧
    (∀ (action : Action) (status : Status), c.session.Asks (.act action) →
      Store.Founds status action →
      (c.session.Refuses (.illegalStatus status .fresh) ↔
        ¬ (status = .existing ∨ status = .new))) ∧
    (∀ (name : String) (code : Int) (id : StateId) (x : State),
      c.session.Asks (.act (.setStatusCode name code)) →
      c.session.store.find name = .ok (id, x) →
      (c.session.Refuses (.unknownStatusCode code) ↔ code < 0 ∨ 6 < code)) ∧
    ∀ (as target : String) (status : Status) (id : StateId) (x : State),
      c.session.Asks (.act (.overlay as target status)) →
      c.session.store.find target = .ok (id, x) →
      (c.session.Refuses (.illegalStatus status .overlay) ↔
        ¬ (status = .existingModified ∨ status = .existingRemoved)) ∧
      (c.session.Refuses (.nestedOverlay x.item) ↔
        (status = .existingModified ∨ status = .existingRemoved) ∧ x.target ≠ none) ∧
      ((∃ st, c.session.advance = some { c.session.answered .done with store := st } ∧
          c.session.store.Overlaid as id x status st) ↔
        (status = .existingModified ∨ status = .existingRemoved) ∧ x.target = none) := by
  refine ⟨fun r t why ha ht hne hf => eq_answered_of_failed ha ht hne hf, ?_, ?_, ?_⟩
  · rintro action status ⟨caller, todo, answers, rest, hs⟩ hf
    rw [refuses_iff hs, Store.perform_founds hf]
  · rintro name code id x ⟨caller, todo, answers, rest, hs⟩ hx
    rw [refuses_iff hs, Store.perform_setStatusCode_iff hx]
  · exact fun as target status id x ha hx => overlay_iff (valid_of_later h).linked ha hx

/-- A state and its overlay.  A node's state cannot begin undefined, and no status has the code 7.
An overlay of the overlay is refused for its status, or else for its target; the state itself is
overlaid once more. -/
theorem refusals_leave_no_trace_overlaid :
    (overlaid.ask (.act (.newNode "n" (.node ⟨1⟩) none .undefined .standard))).session.Refuses
      (.illegalStatus .undefined .fresh) ∧
    (overlaid.ask (.act (.setStatusCode "o" 7))).session.Refuses (.unknownStatusCode 7) ∧
    (overlaid.ask (.act (.overlay "p" "o" .new))).session.Refuses (.illegalStatus .new .overlay) ∧
    (overlaid.ask (.act (.overlay "p" "o" .existingModified))).session.Refuses
      (.nestedOverlay (.node ⟨0⟩)) ∧
    ∃ st x, overlaid.session.store.find "x" = .ok (0, x) ∧
      overlaid.session.store.Overlaid "p" 0 x .existingRemoved st := by
  have asks : ∀ r, (overlaid.ask r).session.Asks r := fun r => ⟨none, [], [], [], rfl⟩
  have traceless := fun action : Action =>
    refusals_leave_no_trace (later_overlaid.ask (r := .act action) trivial rfl)
  obtain ⟨-, founds, -⟩ := traceless (.newNode "n" (.node ⟨1⟩) none .undefined .standard)
  obtain ⟨-, -, code, -⟩ := traceless (.setStatusCode "o" 7)
  obtain ⟨-, -, -, illegal⟩ := traceless (.overlay "p" "o" .new)
  obtain ⟨-, -, -, nested⟩ := traceless (.overlay "p" "o" .existingModified)
  obtain ⟨-, -, -, done⟩ := traceless (.overlay "p" "x" .existingRemoved)
  obtain ⟨st, -, hst⟩ := (done "p" "x" .existingRemoved 0 _ (asks _) rfl).2.2.2 ⟨.inr rfl, rfl⟩
  exact ⟨(founds _ _ (asks _) .newNode).2 (by decide), (code _ _ _ _ (asks _) rfl).2 (by decide),
    (illegal _ _ _ _ _ (asks _) rfl).1.2 (by decide),
    (nested _ _ _ _ _ (asks _) rfl).2.1.2 ⟨.inl rfl, Option.some_ne_none _⟩, st, _, rfl, hst⟩

end Chronicle
end ContentOverlay
