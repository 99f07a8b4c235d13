import ContentOverlay.Proofs.Session.Change
import ContentOverlay.Proofs.Session.Links

/-!
# Names and handles

Clients hold states by names and listeners by handles.  A name stands for one state at a time, so
that giving it up is the loss of one name of one state.  A listener whose handle was given up is
never held again, since no other listener is created under its name.

* `Store.NamedOnce` says that no name is used twice; `perform_namedOnce` and `namedOnce_of_later`
  keep it so, and `named_unbind_iff` says who has a name when one was given up.
* `Change.knows` and `Change.held_before` are about listeners.
* `holding_of_idle` and `next_ask` are about the moments at which nothing is left to be done.
-/

set_option autoImplicit false

namespace ContentOverlay

/-- The store that comes of an action. -/
def Outcome.store : Outcome → Store
  | answered _ st => st
  | passing _ st => st

namespace Store

variable {st st' : Store} {h : Holding} {caller : Option Caller} {id : StateId} {name : String}

/-! ## Names -/

/-- No name stands for two states. -/
def NamedOnce (st : Store) : Prop := (st.names.map (·.1)).Nodup

theorem NamedOnce.of_names_eq (hn : st.NamedOnce) (he : st'.names = st.names) : st'.NamedOnce := by
  rw [NamedOnce, he]
  exact hn

theorem NamedOnce.filter (hn : st.NamedOnce) (p : String × StateId → Bool) :
    ((st.names.filter p).map (·.1)).Nodup :=
  hn.sublist (List.filter_sublist.map _)

theorem NamedOnce.bind (hn : st.NamedOnce) (name : String) (id : StateId) :
    (st.bind name id).NamedOnce := by
  refine List.nodup_cons.2 ⟨fun hm => ?_, hn.filter _⟩
  obtain ⟨entry, hentry, he⟩ := List.mem_map.1 hm
  have hne := (List.mem_filter.1 hentry).2
  rw [he] at hne
  simp at hne

theorem NamedOnce.insert (hn : st.NamedOnce) (name : String) (x : State) :
    (st.insert name x).NamedOnce := by
  rw [Store.insert]
  exact NamedOnce.bind hn name _

theorem NamedOnce.insertOverlay (hn : st.NamedOnce) (name : String) (target : StateId)
    (status : Status) (x : State) : (st.insertOverlay name target status x).NamedOnce := by
  refine NamedOnce.insert ?_ name _
  exact hn

theorem NamedOnce.unbind (hn : st.NamedOnce) (name : String) : (st.unbind name).NamedOnce := by
  rw [Store.unbind]
  split
  · exact hn
  · exact hn.filter _

/-- Whose name a name is. -/
theorem named?_eq_some_iff (hn : st.NamedOnce) :
    st.named? name = some id ↔ (name, id) ∈ st.names := by
  rw [named?, List.lookup_eq_some_iff]
  constructor
  · rintro ⟨before, after, he, -⟩
    rw [he]
    exact List.mem_append_right _ List.mem_cons_self
  · intro hm
    obtain ⟨before, after, he⟩ := List.append_of_mem hm
    refine ⟨before, after, he, fun entry hentry => ?_⟩
    rw [NamedOnce, he, List.map_append, List.nodup_append] at hn
    have hne := hn.2.2 _ (List.mem_map_of_mem hentry) name (by simp)
    simpa using Ne.symm hne

/-- When the last name of a state is given up, the others have the names that they had. -/
theorem named_unbind_iff (hn : st.NamedOnce) (hlast : st.namesOf id = [name]) (i : StateId) :
    (st.unbind name).names.any (·.2 = i) = true ↔ i ≠ id ∧ st.names.any (·.2 = i) = true := by
  have hnames : ∀ other, (other, id) ∈ st.names ↔ other = name := by
    intro other
    rw [← List.mem_singleton, ← hlast, namesOf]
    simp
  have hnamed : st.named? name = some id := (named?_eq_some_iff hn).2 ((hnames name).2 rfl)
  have hmem : ∀ entry, entry ∈ (st.unbind name).names ↔ entry ∈ st.names ∧ entry.1 ≠ name := by
    intro entry
    rw [unbind, hnamed]
    simp
  simp only [List.any_eq_true, decide_eq_true_eq, hmem]
  constructor
  · rintro ⟨⟨other, i⟩, ⟨hm, hne⟩, rfl⟩
    refine ⟨?_, _, hm, rfl⟩
    rintro rfl
    exact hne ((hnames other).1 hm)
  · rintro ⟨hi, ⟨other, i⟩, hm, rfl⟩
    refine ⟨_, ⟨hm, ?_⟩, rfl⟩
    rintro rfl
    have hi' := (named?_eq_some_iff hn).2 hm
    rw [hnamed] at hi'
    exact hi (Option.some.inj hi').symm

theorem names_dispose (id : StateId) : (st.dispose id).names = st.names := by
  rw [dispose]
  split
  · rfl
  · split <;> rfl

theorem names_discard? {x : State} {p : Pass} (hd : st.discard? h id x = some (p, st')) :
    st'.names = st.names := by
  rw [discard?] at hd
  split at hd
  · cases hd
  · cases hd
    rfl

/-- An action after which no name is used twice. -/
abbrev Tidy (a : Except Failure Outcome) : Prop := Gives (fun o => o.store.NamedOnce) a

section
variable (hn : st.NamedOnce)
include hn

theorem construct_namedOnce {item : ItemId} {parent : Option NodeId} {status : Status}
    {base : BaseVersion} {payload : Payload} :
    Gives NamedOnce (st.construct name item parent status base payload) := by
  rw [construct]
  split
  · exact gives_ok (hn.insert _ _)
  · exact gives_error _

theorem restore_namedOnce {parent : Option NodeId} {status : Status} {bytes : List UInt8} :
    Gives NamedOnce (st.restore name parent status bytes) := by
  rw [restore]
  split
  · exact gives_error _
  · exact construct_namedOnce hn

theorem constructOverlay_namedOnce {x : State} {status : Status} :
    Gives NamedOnce (st.constructOverlay name id x status) := by
  rw [constructOverlay]
  split
  · split
    · exact gives_error _
    · exact gives_ok (hn.insertOverlay _ _ _ _)
  · exact gives_error _

theorem onState_tidy {f : State → State} : Tidy (st.onState name f) :=
  gives_bind fun _ _ => gives_ok hn

theorem onProperty_tidy {f : PropertyData → PropertyData} : Tidy (st.onProperty name f) :=
  gives_bind fun _ _ => gives_ok hn

/-- **An action keeps names apart.** -/
theorem perform_namedOnce (h : Holding) (caller : Option Caller) (action : Action) :
    Tidy (perform h caller st action) := by
  cases action with
  | newProperty | newNode => exact gives_bind fun _ hst => gives_ok (construct_namedOnce hn _ hst)
  | overlay =>
    exact gives_bind fun _ _ => gives_bind fun _ hst =>
      gives_ok (constructOverlay_namedOnce hn _ hst)
  | restore => exact gives_bind fun _ hst => gives_ok (restore_namedOnce hn _ hst)
  | drop name => exact gives_ok (hn.unbind name)
  | isAlive name =>
    simp only [perform]
    split <;> exact gives_ok hn
  | bindTarget name other =>
    refine gives_bind ?_
    rintro ⟨-, x⟩ -
    dsimp only
    split
    · exact gives_ok hn
    · exact gives_ok (hn.bind other _)
  | setStatus | setParent => exact onState_tidy hn
  | setStatusCode => exact gives_bind fun _ _ => gives_bind fun _ _ => gives_ok hn
  | setKind | setDefinition | setValues => exact onProperty_tidy hn
  | shareValues => exact gives_bind fun _ _ => onProperty_tidy hn
  | discard name =>
    refine gives_bind ?_
    rintro ⟨id, x⟩ -
    dsimp only
    split
    · exact gives_ok hn
    · next hd => exact gives_ok (hn.of_names_eq (names_discard? hd))
  | dispose =>
    refine gives_bind ?_
    rintro ⟨id, x⟩ -
    exact gives_ok (hn.of_names_eq (names_dispose id))
  | notify => exact gives_bind fun _ _ => gives_ok hn
  | dropListener => exact gives_ok hn
  | add | remove => exact gives_bind fun _ _ => gives_bind fun _ _ => gives_ok hn
  | has => exact gives_bind fun _ _ => gives_bind fun _ _ => gives_ok hn
  | count | statusOf => exact gives_bind fun _ _ => gives_ok hn
  | describe | encode => exact gives_bind fun _ _ => gives_bind fun _ _ => gives_ok hn
  | removeSelf => exact gives_bind fun _ _ => gives_ok hn
  | addHere | removeHere => exact gives_bind fun _ _ => gives_bind fun _ _ => gives_ok hn
  | notifyHere =>
    refine gives_bind fun c _ => ?_
    split
    · exact gives_error _
    · exact gives_ok hn
  | breakOff => exact gives_bind fun _ _ => gives_error _
  | refused => exact gives_error _

end

/-! ## Handles on listeners -/

theorem listener?_of_listeners_eq (he : st'.listeners = st.listeners) (listener : String) :
    st'.listener? listener = st.listener? listener := by
  rw [listener?, listener?, he]

theorem listener?_enrol {listener : String} (hk : st.knows name = true)
    (hu : st.knows listener = false) (verbose : Bool) :
    (st.enrol listener verbose).listener? name = st.listener? name := by
  have hne : listener ≠ name := by
    rintro rfl
    rw [hk] at hu
    cases hu
  rw [listener?, enrol, List.find?_cons_of_neg (by simpa using hne)]
  rfl

theorem listener?_release (listener : String) :
    (st.release listener).listener? name = (st.listener? name).map fun l =>
      if l.name = listener then { l with held := false } else l := by
  rw [listener?, release, List.find?_map, listener?]
  congr 2
  funext l
  rw [Function.comp_apply]
  split <;> rfl

theorem listeners_dispose (id : StateId) : (st.dispose id).listeners = st.listeners := by
  rw [dispose]
  split
  · rfl
  · split <;> rfl

theorem listeners_begun (p : Pass) : (st.begun p).listeners = st.listeners := by
  rw [begun]
  split <;> rfl

theorem listeners_finishPass (p : Pass) : (st.finishPass p).listeners = st.listeners := by
  rw [finishPass]
  split <;> rfl

theorem listeners_foldl_abandon (fs : List Frame) (st : Store) :
    (fs.foldl Session.abandon st).listeners = st.listeners := by
  induction fs generalizing st with
  | nil => rfl
  | cons f fs ih =>
    rw [List.foldl_cons, ih]
    cases f with
    | requests => rfl
    | pass p pending =>
      rw [Session.abandon, abandonPass]
      split <;> rfl

section
variable {d : Option Deed} {w : Option Write} {made : Option State}

/-- What a step makes of a listener that there was: at most its handle is given up. -/
theorem Change.listener? (hc : st.Change h d w made st') (hk : st.knows name = true) :
    st'.listener? name = st.listener? name ∨
      st'.listener? name = (st.listener? name).map fun l => { l with held := false } := by
  cases hc with
  | rests _ _ listeners => exact .inl (listener?_of_listeners_eq listeners name)
  | enrols unknown => exact .inl (listener?_enrol hk unknown _)
  | @releases listener =>
    rw [listener?_release]
    cases hl : st.listener? name with
    | none => exact .inl rfl
    | some l =>
      rw [Option.map_some, Option.map_some]
      split
      · exact .inr rfl
      · exact .inl rfl
  | disposes => exact .inl (listener?_of_listeners_eq (listeners_dispose _) name)
  | begins => exact .inl (listener?_of_listeners_eq (listeners_begun _) name)
  | ends => exact .inl (listener?_of_listeners_eq (listeners_finishPass _) name)
  | breaks => exact .inl (listener?_of_listeners_eq (listeners_foldl_abandon _ _) name)
  | constructs | overlays | sets | writes | adds | removes | marks => exact .inl rfl

theorem Change.knows (hc : st.Change h d w made st') (hk : st.knows name = true) :
    st'.knows name = true := by
  rw [Store.knows]
  rcases hc.listener? hk with he | he
  · rw [he]
    exact hk
  · rw [he, Option.isSome_map]
    exact hk

/-- **A listener that is held was held before**, unless it is new. -/
theorem Change.held_before (hc : st.Change h d w made st') (hk : st.knows name = true)
    (hh : st'.holds name = true) : st.holds name = true := by
  rw [holds] at hh ⊢
  rcases hc.listener? hk with he | he
  · rwa [he] at hh
  · rw [he, Option.any_map] at hh
    simp at hh

end

theorem knows_of_holds (hh : st.holds name = true) : st.knows name = true := by
  rw [holds, Option.any_eq_true] at hh
  obtain ⟨l, hl, -⟩ := hh
  rw [knows, hl]
  rfl

end Store

/-! ## Steps -/

namespace Session

variable {s t : Session}

theorem namedOnce_carryOut (hn : s.store.NamedOnce) (caller : Option Caller) (r : Request) :
    (s.carryOut caller r).store.NamedOnce := by
  cases r with
  | act action =>
    have hp := Store.perform_namedOnce hn s.holding caller action
    rw [carryOut]
    unfold conclude
    split
    · next ho => exact hp _ ho
    · next ho => exact hp _ ho
    · exact hn.of_names_eq (Store.names_foldl_abandon _ _)
    · exact hn
  | listen listener verbose script =>
    rw [carryOut]
    split <;> exact hn

theorem namedOnce_of_advance (hn : s.store.NamedOnce) (ht : s.advance = some t) :
    t.store.NamedOnce := by
  unfold advance at ht
  split at ht
  · cases ht
  · cases ht
  · exact Option.some.inj ht ▸ hn
  · next caller r todo answers rest _ =>
    rw [← Option.some.inj ht]
    exact namedOnce_carryOut
      (s := { s with frames := .requests caller todo answers :: rest }) hn _ r
  · refine Option.some.inj ht ▸ hn.of_names_eq ?_
    rw [finishPass, Store.finishPass]
    split <;> rfl
  · refine Option.some.inj ht ▸ hn.of_names_eq ?_
    unfold deliver
    split
    · unfold tell
      split
      · rfl
      · dsimp only
        split <;> rfl
    · rfl

/-- What the next step does when it is an action that is answered at once. -/
theorem deed?_of_answered {caller : Option (Caller × Nat)} {action : Action} {todo : List Request}
    {answers : List Answer} {rest : List Frame} {a : Answer} {st : Store} (n : Nat)
    (hs : s.frames = .requests caller (.act action :: todo) answers :: rest)
    (hp : s.store.perform s.holding (caller.map (·.1)) action = .ok (.answered a st)) :
    s.deed? n = action.deed? s.store (caller.map (·.1)) := by
  rw [deed?, hs]
  dsimp only
  rw [hp]

/-- When nothing is left to be done, nothing is held by passes. -/
theorem holding_of_idle (hs : Sound s.frames s.store) (idle : s.advance = none) :
    s.holding = Holding.nothing := by
  rw [holding]
  rcases frames_of_idle hs.grounded idle with hf | ⟨answers, hf⟩ <;> rw [hf] <;> rfl

end Session

/-! ## Along a chronicle -/

namespace Chronicle

open Session

variable {config : Config} {clock : Timestamp} {may : Request → Prop} {c : Chronicle}

theorem namedOnce_of_later (h : Later may (blank config clock) c) :
    c.session.store.NamedOnce := by
  induction h with
  | refl => exact List.nodup_nil
  | tail _ hm ih =>
    rcases hm.still_or_advance with hstill | ⟨u, hu, rfl⟩
    · obtain ⟨_, hstore⟩ := hstill.store
      rw [hstore]
      exact ih
    · exact namedOnce_of_advance ih hu

/-- The client asks for an action that is answered at once. -/
theorem next_ask {action : Action} {a : Answer} {st : Store}
    (hp : c.session.store.perform Holding.nothing none action = .ok (.answered a st)) :
    (c.ask (.act action)).next.session.store = st ∧
    (c.ask (.act action)).next.session.advance = none ∧
    (c.ask (.act action)).next.session.lastAnswer = a ∧
    (c.ask (.act action)).next.deeds =
      c.deeds ++ (action.deed? c.session.store none).toList := by
  have hu : (c.ask (.act action)).session.advance =
      some ⟨st, c.session.scripts, [.requests none [] [a]], []⟩ := by
    rw [ask, submit, advance_requests rfl, carryOut]
    change some (Session.conclude _ (c.session.store.perform Holding.nothing none action)) = _
    rw [hp]
    rfl
  have hs : (c.session.submit (.act action)).frames = [.requests none [.act action] []] := rfl
  have hd : (c.ask (.act action)).next? = action.deed? c.session.store none :=
    deed?_of_answered _ hs hp
  rw [next, hu]
  exact ⟨rfl, rfl, rfl, congrArg (c.deeds ++ Option.toList ·) hd⟩

end Chronicle
end ContentOverlay
