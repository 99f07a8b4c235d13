import ContentOverlay.Proofs.Session.Calm
import ContentOverlay.Proofs.Session.Handles

/-!
# Cascades of discards

A listener that is told that a state is discarded may answer this by discarding others, or the same
one again, and their listeners may do likewise.

* `Request.Cascades` is said of the requests that make up such a cascade: to discard a state, to
  look at one, or to add or remove a listener.
* A state is *spent* if it is undefined or being discarded.  Whatever happens in a cascade, spent
  states stay spent and no state or listener is new (`Store.Abides`), and every pass that begins
  discards a state that was not spent (`Store.Discards`).
* `Session.Cascading` is the invariant, and `Session.CascadeTurn` says what a step does.
-/

set_option autoImplicit false

namespace ContentOverlay

/-! ## Requests -/

/-- An action that discards a state, looks at one, or adds or removes a listener. -/
def Action.Cascades : Action → Prop
  | discard _ => True
  | action => action.IsGentle

/-- A request that discards a state, looks at one, or adds or removes a listener. -/
def Request.Cascades : Request → Prop
  | act action => action.Cascades
  | listen _ _ _ => False

/-- A listener with this script makes such requests when it is told that a state is discarded.  On
other events it may do everything. -/
def Script.Cascades (script : Script) : Prop :=
  ∀ e ∈ script, e.1 = .discarded → ∀ r ∈ e.2, r.Cascades

theorem Action.Cascades.cases {action : Action} (h : action.Cascades) :
    (∃ name, action = .discard name) ∨ action.IsGentle := by
  cases action
  case discard name => exact .inl ⟨name, rfl⟩
  all_goals exact .inr h

theorem Deed.IsGentle.not_ofPass {d : Deed} (h : d.IsGentle) : ¬ d.OfPass := by
  cases d <;> first | exact id | exact absurd h id

/-- The requests that are taken from a script are those of an entry for the event. -/
theorem Script.mem_of_take? {event : Event} {script script' : Script} {todo : List Request}
    (h : Script.take? event script = some (todo, script')) :
    (event, todo) ∈ script ∧ script' ⊆ script := by
  induction script generalizing script' with
  | nil => cases h
  | cons entry script ih =>
    rw [take?] at h
    split at h
    · next he =>
      cases h
      rw [← he]
      exact ⟨List.mem_cons_self, List.subset_cons_self ..⟩
    · simp only [Option.map_eq_some_iff, Prod.mk.injEq, Prod.exists] at h
      obtain ⟨_, rest, h, rfl, rfl⟩ := h
      obtain ⟨hmem, hsub⟩ := ih h
      exact ⟨List.mem_cons_of_mem _ hmem, List.cons_subset_cons _ hsub⟩

theorem Session.mem_of_takeRequests {listener : String} {event : Event}
    {scripts scripts' : List (String × Script)} {todo : List Request}
    (h : takeRequests listener event scripts = some (todo, scripts')) :
    (∃ e ∈ scripts, (event, todo) ∈ e.2) ∧ ∀ e' ∈ scripts', ∃ e ∈ scripts, e'.2 ⊆ e.2 := by
  induction scripts generalizing scripts' with
  | nil => cases h
  | cons entry scripts ih =>
    rw [takeRequests] at h
    split at h <;> simp only [Option.map_eq_some_iff, Prod.mk.injEq, Prod.exists] at h
    · obtain ⟨_, script, h, rfl, rfl⟩ := h
      obtain ⟨hmem, hsub⟩ := Script.mem_of_take? h
      refine ⟨⟨entry, List.mem_cons_self, hmem⟩, fun e' he' => ?_⟩
      rcases List.mem_cons.1 he' with rfl | he'
      · exact ⟨entry, List.mem_cons_self, hsub⟩
      · exact ⟨e', List.mem_cons_of_mem _ he', List.Subset.refl _⟩
    · obtain ⟨_, rest, h, rfl, rfl⟩ := h
      obtain ⟨⟨e, he, hmem⟩, hrest⟩ := ih h
      refine ⟨⟨e, List.mem_cons_of_mem _ he, hmem⟩, fun e' he' => ?_⟩
      rcases List.mem_cons.1 he' with rfl | he'
      · exact ⟨e', List.mem_cons_self, List.Subset.refl _⟩
      · obtain ⟨e, he, hsub⟩ := hrest e' he'
        exact ⟨e, List.mem_cons_of_mem _ he, hsub⟩

/-! ## Spent states -/

/-- Whether a state is undefined or being discarded. -/
def State.isSpent (x : State) : Bool := x.discarding || x.status = .undefined

namespace Store

variable {st st' : Store} {h : Holding} {id i : StateId} {x : State} {p : Pass}

/-- Whether the state of this identity is undefined or being discarded. -/
def isSpent (st : Store) (id : StateId) : Bool := (st.state? id).any State.isSpent

/-- The listeners that there are. -/
def crowd (st : Store) : List ListenerId :=
  st.listeners.map (.client ·.name) ++ (List.range st.states.length).map .observer

/-- From one store to the next no state or listener is new, and spent states stay spent. -/
structure Abides (st st' : Store) : Prop where
  states : st'.states.length = st.states.length
  listeners : st'.listeners = st.listeners
  spent : ∀ id, st.isSpent id = true → st'.isSpent id = true

theorem Abides.crowd (ha : st.Abides st') : st'.crowd = st.crowd := by
  rw [Store.crowd, Store.crowd, ha.states, ha.listeners]

theorem Abides.refl (st : Store) : st.Abides st := ⟨rfl, rfl, fun _ h => h⟩

theorem Abides.trans {st'' : Store} (ha : st.Abides st') (hb : st'.Abides st'') :
    st.Abides st'' where
  states := hb.states.trans ha.states
  listeners := hb.listeners.trans ha.listeners
  spent := fun id h => hb.spent id (ha.spent id h)

/-- A change of one state by which it does not cease to be spent. -/
theorem abides_update {f : State → State} (hf : ∀ x, st.state? id = some x → x.isSpent = true →
    (f x).isSpent = true) : st.Abides (st.update id f) where
  states := length_update ..
  listeners := rfl
  spent := by
    intro i hi
    rw [isSpent, Option.any_eq_true] at hi ⊢
    obtain ⟨x, hx, hspent⟩ := hi
    rw [state?_update, hx]
    by_cases hid : i = id
    · subst hid
      exact ⟨f x, if_pos rfl, hf x hx hspent⟩
    · exact ⟨x, if_neg hid, hspent⟩

theorem abides_withRegistry (st : Store) (id : StateId)
    (f : Registry ListenerId → Registry ListenerId) :
    st.Abides (st.update id (State.withRegistry f)) :=
  abides_update fun _ _ h => h

/-- The observer of an overlay does nothing when the target is discarded. -/
theorem abides_observed (st : Store) (id : StateId) :
    st.Abides (st.update id (State.observed .discarded)) := by
  refine abides_update fun x _ h => ?_
  rw [State.observed]
  cases x.target <;> exact h

/-- The end of a pass by which a state is discarded. -/
theorem abides_finishPass (st : Store) (p : Pass) : st.Abides (st.finishPass p) := by
  rw [finishPass]
  split
  · exact abides_update fun _ _ _ => rfl
  · exact .refl st

/-! ## Actions -/

/-- **A gentle action abides.** -/
theorem abides_of_gentle {action : Action} (hg : action.IsGentle) (h : Holding)
    (caller : Option Caller) (st : Store) :
    Gives (fun o : Outcome => st.Abides o.store) (st.perform h caller action) := by
  have hadd : ∀ {id l}, Gives (fun o : Outcome => st.Abides o.store) (st.register id l) :=
    gives_ok (st.abides_withRegistry _ _)
  have hremove : ∀ {id l}, Gives (fun o : Outcome => st.Abides o.store) (st.unregister id l) :=
    gives_ok (st.abides_withRegistry _ _)
  have hreply : ∀ {a}, Gives (fun o : Outcome => st.Abides o.store) (st.reply a) :=
    gives_ok (.refl st)
  cases action <;> simp only [Action.IsGentle] at hg
  case add => exact gives_bind fun _ _ => gives_bind fun _ _ => hadd
  case remove => exact gives_bind fun _ _ => gives_bind fun _ _ => hremove
  case has => exact gives_bind fun _ _ => gives_bind fun _ _ => hreply
  case count | statusOf => exact gives_bind fun _ _ => hreply
  case removeSelf => exact gives_bind fun _ _ => hremove
  case addHere => exact gives_bind fun _ _ => gives_bind fun _ _ => hadd
  case removeHere => exact gives_bind fun _ _ => gives_bind fun _ _ => hremove

/-- A pass begins by which a state is discarded that was not spent. -/
structure Discards (h : Holding) (st : Store) (p : Pass) (st' : Store) : Prop where
  event : p.event = .discarded
  discards : p.discards = true
  abides : st.Abides st'
  unspent : st.isSpent p.source = false
  spent : st'.isSpent p.source = true
  audience : ∃ x, st.state? p.source = some x ∧ p.audience = x.registry.live (st.isListening h)

theorem discards_of_discard? (hx : st.state? id = some x)
    (hd : st.discard? h id x = some (p, st')) : st.Discards h p st' := by
  rw [discard?] at hd
  split at hd
  · cases hd
  · next hn =>
    have hlive : (st.update id fun s => { s with discarding := true }).isListening h =
        st.isListening h :=
      funext (isListening_update (f := fun s => { s with discarding := true }) (fun _ => rfl) h)
    have hset : st.Abides (st.update id fun s => { s with discarding := true }) :=
      abides_update fun _ _ _ => rfl
    simp only [pass, hlive, Option.some.injEq, Prod.mk.injEq] at hd
    obtain ⟨rfl, rfl⟩ := hd
    refine ⟨rfl, rfl, hset.trans (abides_withRegistry _ _ _), ?_, ?_, ⟨x, hx, rfl⟩⟩
    · rw [isSpent, hx]
      exact Bool.eq_false_iff.2 hn
    · rw [isSpent, state?_update_self, state?_update_self, hx]
      rfl

/-- **What comes of a request to discard a state.**  Either there is no state of this name, or it is
spent, or a pass begins. -/
theorem perform_discard_cases (h : Holding) (caller : Option Caller) (st : Store) (name : String) :
    (∃ why, st.find name = .error why ∧ why ≠ .broken ∧
      st.perform h caller (.discard name) = .error why) ∨
    (∃ id, st.named? name = some id ∧ st.isSpent id = true ∧
      st.perform h caller (.discard name) = .ok (.answered .done st)) ∨
    ∃ p st', st.named? name = some p.source ∧ st.Discards h p st' ∧
      st.perform h caller (.discard name) = .ok (.passing p st') := by
  cases hfind : st.find name with
  | error why =>
    refine .inl ⟨why, rfl, fun he => holds_find name (he ▸ hfind), ?_⟩
    simp only [perform, hfind, Bind.bind, Except.bind]
  | ok found =>
    obtain ⟨id, x⟩ := found
    have hx := state?_of_find hfind
    have hn := named?_of_find hfind
    cases hd : st.discard? h id x with
    | none =>
      refine .inr (.inl ⟨id, hn, ?_, perform_discard_of_none hfind caller hd⟩)
      rw [discard?] at hd
      split at hd
      · next hspent =>
        rw [isSpent, hx]
        exact hspent
      · cases hd
    | some found =>
      obtain ⟨p, st'⟩ := found
      have hdiscards := discards_of_discard? hx hd
      have hsource : p.source = id := by
        rw [discard?] at hd
        split at hd
        · cases hd
        · cases hd
          rfl
      exact .inr (.inr ⟨p, st', hsource ▸ hn, hdiscards, perform_discard_of_some hfind caller hd⟩)

end Store

/-! ## Sessions -/

namespace Session

variable {m : Nat} {s t u : Session} {crowd : List ListenerId}

/-- What is under way in a cascade: requests that cascade, and passes that discard.  These tell
listeners that there are. -/
def InCascade (crowd : List ListenerId) : Frame → Prop
  | .requests _ todo _ => ∀ r ∈ todo, r.Cascades
  | .pass p _ => p.event = .discarded ∧ p.discards = true ∧ ∀ l ∈ p.audience, l ∈ crowd

theorem inCascade_answer {fs : List Frame} (h : ∀ f ∈ fs, InCascade crowd f) (a : Answer) :
    ∀ f ∈ answer a fs, InCascade crowd f := by
  unfold answer
  split
  · exact List.forall_mem_cons.2 ⟨(List.forall_mem_cons.1 h).1, (List.forall_mem_cons.1 h).2⟩
  · exact h

/-- What is under way is a cascade, and listeners will go on with it.  They make at most so many
requests when they are told that a state is discarded. -/
structure Cascading (m : Nat) (s : Session) : Prop where
  frames : ∀ f ∈ s.frames, InCascade s.store.crowd f
  scripts : ∀ e ∈ s.scripts, ∀ entry ∈ e.2, entry.1 = .discarded →
    entry.2.length ≤ m ∧ ∀ r ∈ entry.2, r.Cascades

/-- No state or listener is new, spent states stay spent, and no script is longer than before. -/
structure Abides (s t : Session) : Prop where
  store : s.store.Abides t.store
  scripts : ∀ e' ∈ t.scripts, ∃ e ∈ s.scripts, e'.2 ⊆ e.2

theorem Abides.of_scripts_eq (hst : s.store.Abides t.store) (hs : t.scripts = s.scripts) :
    s.Abides t where
  store := hst
  scripts := fun e he => ⟨e, hs ▸ he, List.Subset.refl _⟩

/-- What a step of a cascade can be, by its deed. -/
inductive CascadeTurn (m : Nat) (s t : Session) : Option Deed → Prop
  /-- A request is answered at once.  If it is to discard a state, that is spent. -/
  | answers {caller : Option (Caller × Nat)} {r : Request} {todo : List Request}
      {answers : List Answer} {rest : List Frame} {d : Option Deed} (a : Answer)
      (before : s.frames = .requests caller (r :: todo) answers :: rest)
      (after : t.frames = .requests caller todo (a :: answers) :: rest)
      (apart : ∀ e ∈ d, ¬ e.OfPass)
      (spent : ∀ id, d = some (.discards id) → s.store.isSpent id = true)
      (abides : s.Abides t) : CascadeTurn m s t d
  /-- A pass begins that discards a state. -/
  | begins {caller : Option (Caller × Nat)} {r : Request} {todo : List Request}
      {answers : List Answer} {rest : List Frame} {p : Pass}
      (before : s.frames = .requests caller (r :: todo) answers :: rest)
      (after : t.frames = .pass p p.audience :: .requests caller todo answers :: rest)
      (discards : s.store.Discards s.holding p t.store) (abides : s.Abides t) :
      CascadeTurn m s t (some (.begins p))
  /-- A listener has made all its requests. -/
  | returns {call : Caller × Nat} {answers : List Answer} {rest : List Frame}
      (before : s.frames = .requests (some call) [] answers :: rest) (after : t.frames = rest)
      (abides : s.Abides t) : CascadeTurn m s t none
  /-- A listener is told, and may have requests to make. -/
  | tells {n : Nat} {p : Pass} {l : ListenerId} {pending : List ListenerId} {rest : List Frame}
      (before : s.frames = .pass p (l :: pending) :: rest)
      (after : t.frames = .pass p pending :: rest ∨ ∃ call todo,
        t.frames = .requests (some call) todo [] :: .pass p pending :: rest ∧
          todo.length ≤ m ∧ ∀ r ∈ todo, r.Cascades)
      (abides : s.Abides t) : CascadeTurn m s t (some (.tells n p l))
  /-- A pass has told all its listeners. -/
  | ends {n : Nat} {p : Pass} {rest : List Frame} (before : s.frames = .pass p [] :: rest)
      (after : t.frames = answer .done rest) (abides : s.Abides t) :
      CascadeTurn m s t (some (.ends n p))

theorem CascadeTurn.abides {d : Option Deed} (h : CascadeTurn m s t d) : s.Abides t := by
  cases h <;> assumption

section
variable {caller : Option (Caller × Nat)} {r : Request} {todo : List Request}
  {answers : List Answer} {rest : List Frame}

/-- A request that fails, but breaks nothing off. -/
theorem cascadeTurn_failed (hs : s.frames = .requests caller (r :: todo) answers :: rest)
    {why : Failure} (hwhy : why ≠ .broken) :
    CascadeTurn m s
      (conclude { s with frames := .requests caller todo answers :: rest } (.error why)) none := by
  cases why
  case broken => exact absurd rfl hwhy
  all_goals exact .answers _ hs rfl (by simp) (by simp) (.of_scripts_eq (.refl _) rfl)

theorem cascadeTurn_carryOut (n : Nat) (h : Cascading m s)
    (hs : s.frames = .requests caller (r :: todo) answers :: rest) :
    CascadeTurn m s (carryOut { s with frames := .requests caller todo answers :: rest }
      (caller.map (·.1)) r) (s.deed? n) := by
  have hframe : InCascade s.store.crowd (.requests caller (r :: todo) answers) :=
    h.frames _ (hs ▸ List.mem_cons_self)
  have hr : r.Cascades := hframe r List.mem_cons_self
  cases r with
  | listen => exact absurd hr id
  | act action =>
    rw [carryOut, deed?, hs]
    dsimp only
    rw [holding_requests hs]
    rcases hr.cases with ⟨name, rfl⟩ | hgentle
    · rcases s.store.perform_discard_cases s.holding (caller.map (·.1)) name with
        ⟨why, -, hwhy, ho⟩ | ⟨id, hn, hspent, ho⟩ | ⟨p, st, -, hdiscards, ho⟩
      · rw [ho]
        cases why
        case broken => exact absurd rfl hwhy
        all_goals exact cascadeTurn_failed hs (by simp)
      · have hd : Action.deed? s.store (caller.map (·.1)) (.discard name) =
            some (.discards id) := by
          rw [Action.deed?, hn]
          rfl
        rw [ho]
        dsimp only
        rw [hd]
        refine .answers _ hs rfl (by simp [Deed.OfPass]) ?_ (.of_scripts_eq (.refl _) rfl)
        rintro _ ⟨⟩
        exact hspent
      · rw [ho]
        exact .begins hs rfl hdiscards (.of_scripts_eq hdiscards.abides rfl)
    · cases ho : s.store.perform s.holding (caller.map (·.1)) action with
      | ok o =>
        cases o with
        | answered a st =>
          have habides := Store.abides_of_gentle hgentle s.holding (caller.map (·.1)) s.store _ ho
          refine .answers _ hs rfl (fun e he => (hgentle.deed he).not_ofPass) ?_
            (.of_scripts_eq habides rfl)
          intro id hd
          exact absurd (hgentle.deed hd) not_false
        | passing p st => exact absurd ho (Store.not_passing_of_gentle hgentle)
      | error why =>
        cases why
        case broken => exact absurd ho (Store.not_broken_of_gentle hgentle)
        all_goals exact cascadeTurn_failed hs (by simp)

end

theorem cascadeTurn_deliver {p : Pass} {l : ListenerId} {pending : List ListenerId}
    {rest : List Frame} (n : Nat) (h : Cascading m s)
    (hs : s.frames = .pass p (l :: pending) :: rest) :
    CascadeTurn m s (deliver { s with frames := .pass p pending :: rest } p l) (s.deed? n) := by
  obtain ⟨hevent, -, -⟩ : InCascade s.store.crowd (.pass p (l :: pending)) :=
    h.frames _ (hs ▸ List.mem_cons_self)
  rw [deed?, hs]
  cases l with
  | client name =>
    rw [deliver, tell]
    dsimp only
    split
    · exact .tells hs (.inl rfl) (.of_scripts_eq (.refl _) rfl)
    · split
      · exact .tells hs (.inl rfl) (.of_scripts_eq (.refl _) rfl)
      · next ht =>
        obtain ⟨⟨e, he, hentry⟩, hscripts⟩ := mem_of_takeRequests ht
        exact .tells hs (.inr ⟨_, _, rfl, h.scripts e he _ hentry hevent⟩) ⟨.refl _, hscripts⟩
  | observer o =>
    refine .tells hs (.inl rfl) (.of_scripts_eq ?_ rfl)
    rw [deliver, hevent]
    exact Store.abides_observed ..

/-- **What a step of a cascade does.** -/
theorem Cascading.turn (n : Nat) (h : Cascading m s) (ht : s.advance = some t) :
    CascadeTurn m s t (s.deed? n) := by
  unfold advance at ht
  split at ht
  · cases ht
  · cases ht
  · next hs =>
    obtain rfl := Option.some.inj ht
    rw [deed?, hs]
    exact .returns hs rfl (.of_scripts_eq (.refl _) rfl)
  · next hs => exact Option.some.inj ht ▸ cascadeTurn_carryOut n h hs
  · next hs =>
    obtain rfl := Option.some.inj ht
    rw [deed?, hs]
    exact .ends hs rfl (.of_scripts_eq (Store.abides_finishPass ..) rfl)
  · next hs => exact Option.some.inj ht ▸ cascadeTurn_deliver n h hs

/-- Who is listening in a cascade is one of the listeners that there are. -/
theorem Cascading.mem_crowd (h : Cascading m s) {l : ListenerId}
    (hl : s.store.isListening s.holding l = true) : l ∈ s.store.crowd := by
  unfold Store.isListening at hl
  rcases Bool.or_eq_true_iff.1 hl with haudience | hl
  · obtain ⟨f, hf, hl⟩ := List.mem_flatMap.1 (List.contains_iff_mem.1 haudience)
    cases f with
    | requests => cases hl
    | pass p pending =>
      obtain ⟨-, -, hp⟩ := h.frames _ hf
      exact hp l hl
  · rw [Store.crowd, List.mem_append]
    cases l with
    | client name =>
      change s.store.holds name = true at hl
      rw [Store.holds, Option.any_eq_true] at hl
      obtain ⟨listener, hfound, -⟩ := hl
      refine .inl (List.mem_map.2 ⟨listener, List.mem_of_find?_eq_some hfound, ?_⟩)
      have hname := List.find?_some hfound
      rw [of_decide_eq_true hname]
    | observer o =>
      change s.store.hasObserver s.holding o = true at hl
      rw [Store.hasObserver, Bool.and_eq_true, Option.any_eq_true] at hl
      obtain ⟨-, x, hx, -⟩ := hl
      have ho : o < s.store.states.length := (List.getElem?_eq_some_iff.1 hx).1
      exact .inr (List.mem_map.2 ⟨o, List.mem_range.2 ho, rfl⟩)

/-- **A step of a cascade leads to one of the same cascade.** -/
theorem Cascading.advance (h : Cascading m s) (ht : s.advance = some t) : Cascading m t := by
  have hturn := h.turn 0 ht
  have habides := hturn.abides
  refine ⟨?_, fun e' he' entry hentry => ?_⟩
  · rw [habides.store.crowd]
    have hframes := h.frames
    generalize s.deed? 0 = d at hturn
    cases hturn with
    | answers a before after =>
      rw [before, List.forall_mem_cons] at hframes
      rw [after, List.forall_mem_cons]
      exact ⟨fun r hr => hframes.1 r (List.mem_cons_of_mem _ hr), hframes.2⟩
    | begins before after discards =>
      rw [before, List.forall_mem_cons] at hframes
      rw [after, List.forall_mem_cons, List.forall_mem_cons]
      refine ⟨⟨discards.event, discards.discards, fun l hl => h.mem_crowd ?_⟩,
        fun r hr => hframes.1 r (List.mem_cons_of_mem _ hr), hframes.2⟩
      obtain ⟨x, -, haudience⟩ := discards.audience
      rw [haudience] at hl
      exact (Registry.mem_live.1 hl).2
    | returns before after =>
      rw [before, List.forall_mem_cons] at hframes
      rw [after]
      exact hframes.2
    | tells before after =>
      rw [before, List.forall_mem_cons] at hframes
      rcases after with after | ⟨call, todo, after, -, htodo⟩
      · rw [after, List.forall_mem_cons]
        exact hframes
      · rw [after, List.forall_mem_cons, List.forall_mem_cons]
        exact ⟨htodo, hframes⟩
    | ends before after =>
      rw [before, List.forall_mem_cons] at hframes
      rw [after]
      exact inCascade_answer hframes.2 _
  · obtain ⟨e, he, hsub⟩ := habides.scripts e' he'
    exact h.scripts e he entry (hsub hentry)

end Session
end ContentOverlay
