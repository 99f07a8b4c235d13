import ContentOverlay.Proofs.Store.Listening

/-!
# Deeds

A *deed* is something that is done to states or to those who listen to them: an overlay is
constructed, a state is given a status or disposed of, a listener is registered or removed, a pass
begins, tells somebody or ends.  What a deed makes of a state can be said without looking into
stores, and this is all that is needed to follow a state through a session.

* `Action.deed?` reads off an action what it does if it succeeds at once.
* `Deed.gives`, `Deed.registers` and `Deed.Unregisters` say which status, entry or loss of an entry
  a deed means for a state, and `Deed.Concerns` whether it is about the state at all.
* `State.Undergoes` says what becomes of a state by a deed, and `Store.Undergoes` of a store.
* `perform_performs` is the specification of `Store.perform` in these terms.
-/

set_option autoImplicit false

namespace ContentOverlay

/-- Something that is done to states or to those who listen to them.  Passes have numbers. -/
inductive Deed where
  /-- An overlay of a target is constructed, with this status. -/
  | overlays (overlay target : StateId) (status : Status)
  | sets (id : StateId) (status : Status)
  | disposes (id : StateId)
  /-- A state is to be discarded, but it is undefined or being discarded. -/
  | discards (id : StateId)
  /-- A client's listener is registered with a state. -/
  | adds (id : StateId) (listener : String)
  | removes (id : StateId) (listener : String)
  | begins (p : Pass)
  | tells (number : Nat) (p : Pass) (l : ListenerId)
  | ends (number : Nat) (p : Pass)
  /-- All passes are broken off. -/
  | breaks

/-- What an action does, if it succeeds and begins no pass. -/
def Action.deed? (st : Store) (caller : Option Caller) : Action → Option Deed
  | .overlay _ target status => (st.named? target).map fun t => .overlays st.states.length t status
  | .setStatus name status => (st.named? name).map fun id => .sets id status
  | .setStatusCode name code =>
    (st.named? name).bind fun id => (Status.ofCode? code).map fun status => .sets id status
  | .discard name => (st.named? name).map .discards
  | .dispose name => (st.named? name).map .disposes
  | .add name listener => (st.named? name).map fun id => .adds id listener
  | .remove name listener => (st.named? name).map fun id => .removes id listener
  | .removeSelf => caller.map fun c => .removes c.emitter c.listener
  | .addHere listener => caller.map fun c => .adds c.emitter listener
  | .removeHere listener => caller.map fun c => .removes c.emitter listener
  | _ => none

namespace Deed

/-- The status that a deed gives to a state, which has this target. -/
def gives (id : StateId) (target : Option StateId) : Deed → Option Status
  | sets i status => if i = id then some status else none
  | disposes i => if i = id then some .undefined else none
  | tells _ p (.observer o) => if o = id ∧ target.isSome then State.markOf p.event else none
  | ends _ p => if p.discards ∧ p.source = id then some .undefined else none
  | _ => none

/-- The listener that a deed registers with a state. -/
def registers (id : StateId) : Deed → Option ListenerId
  | adds i listener => if i = id then some (.client listener) else none
  | overlays o t _ => if t = id then some (.observer o) else none
  | _ => none

/-- A deed removes the entry of a listener from the registry of a state. -/
def Unregisters (id : StateId) (l : ListenerId) : Deed → Prop
  | removes i listener => i = id ∧ l = .client listener
  | disposes i => i = id ∨ l = .observer i
  | _ => False

/-- A deed is about the status, the target or the registry of a state. -/
def Concerns (id : StateId) : Deed → Prop
  | overlays _ target _ => target = id
  | sets i _ => i = id
  | disposes i => i = id
  | adds i _ => i = id
  | removes i _ => i = id
  | tells _ _ (.observer o) => o = id
  | ends _ p => p.discards ∧ p.source = id
  | _ => False

section
variable {d : Deed} {id : StateId}

theorem gives_eq_none (h : ¬ d.Concerns id) (target : Option StateId) :
    d.gives id target = none := by
  cases d
  case sets | disposes | ends => exact if_neg h
  case tells n p l =>
    cases l with
    | client => rfl
    | observer o => exact if_neg fun hi => h hi.1
  all_goals rfl

theorem registers_eq_none (h : ¬ d.Concerns id) : d.registers id = none := by
  cases d
  case overlays | adds => exact if_neg h
  all_goals rfl

end

/-- An observer is registered when its overlay is constructed. -/
theorem eq_overlays_of_registers {e : Deed} {id o : StateId}
    (h : e.registers id = some (.observer o)) : ∃ v, e = overlays o id v := by
  cases e
  case overlays o' t v =>
    rw [registers, Option.ite_none_right_eq_some] at h
    obtain ⟨rfl, h⟩ := h
    cases h
    exact ⟨v, rfl⟩
  case adds i listener => simp [registers] at h
  all_goals cases h

end Deed

/-! ## States -/

/-- What becomes of a state by a deed, or by something that is no deed.  An entry of a registry may
be lost to a pass only if its listener is not alive. -/
structure State.Undergoes (live : ListenerId → Bool) (d : Option Deed) (id : StateId)
    (x y : State) : Prop where
  target : d ≠ some (.disposes id) → y.target = x.target
  severed : d = some (.disposes id) → y.target = none ∧ y.registry.entries = []
  status : y.status = (d.bind (·.gives id x.target)).getD x.status
  entries : ∀ l ∈ y.registry.entries, l ∈ x.registry.entries ∨ d.bind (·.registers id) = some l
  gained : ∀ l, d.bind (·.registers id) = some l → l ∈ y.registry.entries
  kept : ∀ l ∈ x.registry.entries, live l = true → (∀ e ∈ d, ¬ e.Unregisters id l) →
    l ∈ y.registry.entries

namespace State

variable {live : ListenerId → Bool} {d : Option Deed} {id : StateId} {x y : State}

/-- A state to which nothing was done, as far as deeds are concerned. -/
theorem Undergoes.of_eq (ht : y.target = x.target) (hs : y.status = x.status)
    (hr : y.registry = x.registry) : x.Undergoes live none id y where
  target := fun _ => ht
  severed := by
    intro h
    cases h
  status := hs
  entries := fun l hl => .inl (hr ▸ hl)
  gained := by
    intro l h
    cases h
  kept := fun l hl _ _ => hr ▸ hl

/-- A deed that is about other states. -/
theorem Undergoes.spared (hd : ∀ e ∈ d, ¬ e.Concerns id) : x.Undergoes live d id x where
  target := fun _ => rfl
  severed := fun h => absurd rfl (hd _ h)
  status := by
    cases d with
    | none => rfl
    | some e => rw [Option.bind_some, Deed.gives_eq_none (hd e rfl), Option.getD_none]
  entries := fun l hl => .inl hl
  gained := by
    intro l h
    obtain ⟨e, he, hl⟩ := Option.bind_eq_some_iff.1 h
    rw [Deed.registers_eq_none (hd e he)] at hl
    cases hl
  kept := fun l hl _ _ => hl

/-- A deed that gives a status, or none, and does nothing else. -/
theorem Undergoes.of_status {e : Deed} (ht : y.target = x.target) (hr : y.registry = x.registry)
    (hs : y.status = (e.gives id x.target).getD x.status) (hd : e ≠ .disposes id)
    (he : e.registers id = none) : x.Undergoes live (some e) id y where
  target := fun _ => ht
  severed := fun h => absurd (Option.some.inj h) hd
  status := hs
  entries := fun l hl => .inl (hr ▸ hl)
  gained := by
    intro l h
    rw [Option.bind_some, he] at h
    cases h
  kept := fun l hl _ _ => hr ▸ hl

/-- An entry is added. -/
theorem undergoes_add {e : Deed} {l : ListenerId} (he : e.registers id = some l)
    (hg : e.gives id x.target = none) (hd : e ≠ .disposes id) :
    x.Undergoes live (some e) id (x.withRegistry (·.add l)) where
  target := fun _ => rfl
  severed := fun h => absurd (Option.some.inj h) hd
  status := by simp [hg, withRegistry]
  entries := by
    intro l' hl
    rw [Option.bind_some, he]
    rcases Registry.mem_add.1 hl with hl | rfl
    · exact .inl hl
    · exact .inr rfl
  gained := by
    intro l' hl
    rw [Option.bind_some, he] at hl
    cases hl
    exact Registry.mem_add.2 (.inr rfl)
  kept := fun l' hl _ _ => Registry.mem_add.2 (.inl hl)

theorem undergoes_severed (x : State) : x.Undergoes live (some (.disposes id)) id x.severed where
  target := fun h => absurd rfl h
  severed := fun _ => ⟨rfl, rfl⟩
  status := by simp [Deed.gives, severed]
  entries := by
    intro l hl
    cases hl
  gained := by
    intro l h
    cases h
  kept := fun l _ _ h => absurd (.inl rfl) (h _ rfl)

/-- An entry is removed that a deed is about. -/
theorem undergoes_remove {e : Deed} {l : ListenerId} (he : e.Unregisters id l)
    (hr : e.registers id = none) (hg : e.gives id x.target = none) (hd : e ≠ .disposes id) :
    x.Undergoes live (some e) id (x.withRegistry (·.remove l)) where
  target := fun _ => rfl
  severed := fun h => absurd (Option.some.inj h) hd
  status := by simp [hg, withRegistry]
  entries := fun l' hl => .inl (Registry.mem_remove.1 hl).1
  gained := by
    intro l' hl
    rw [Option.bind_some, hr] at hl
    cases hl
  kept := by
    intro l' hl _ hn
    refine Registry.mem_remove.2 ⟨hl, ?_⟩
    rintro rfl
    exact hn _ rfl he

/-- A pass begins, and only the entries of living listeners remain. -/
theorem undergoes_pruned {p : Pass} (ht : y.target = x.target) (hs : y.status = x.status)
    (hr : y.registry = x.registry.pruned live) : x.Undergoes live (some (.begins p)) id y where
  target := fun _ => ht
  severed := by
    intro h
    cases h
  status := hs
  entries := by
    intro l hl
    rw [hr] at hl
    exact .inl (List.mem_of_mem_filter hl)
  gained := by
    intro l h
    cases h
  kept := by
    intro l hl hlive _
    rw [hr]
    exact List.mem_filter.2 ⟨hl, hlive⟩

/-- When a state is disposed of, its observer is removed. -/
theorem Undergoes.unsubscribed {i : StateId} (h : x.Undergoes live (some (.disposes i)) id y) :
    x.Undergoes live (some (.disposes i)) id (y.withRegistry (·.remove (.observer i))) where
  target := h.target
  severed := by
    intro hd
    obtain ⟨ht, hr⟩ := h.severed hd
    refine ⟨ht, ?_⟩
    rw [withRegistry, Registry.remove, hr]
    rfl
  status := h.status
  entries := fun l hl => h.entries l (Registry.mem_remove.1 hl).1
  gained := by
    intro l hl
    cases hl
  kept := by
    intro l hl hlive hd
    refine Registry.mem_remove.2 ⟨h.kept l hl hlive hd, ?_⟩
    rintro rfl
    exact hd _ rfl (.inr rfl)

end State

/-! ## Stores -/

namespace Store

/-- What becomes of a store by a deed, or by something that is no deed.  A state gets a name that it
did not have when it is new, or when it is the target of another one. -/
structure Undergoes (h : Holding) (d : Option Deed) (st st' : Store) : Prop where
  states : ∀ {id x}, st.state? id = some x →
    ∃ y, st'.state? id = some y ∧ x.Undergoes (st.isListening h) d id y
  fresh : ∀ {id y}, st.state? id = none → st'.state? id = some y → y.registry.entries = [] ∧
    (y.target = none ∨ ∃ t v, d = some (.overlays id t v) ∧ y.target = some t)
  overlaid : ∀ {o t v}, d = some (.overlays o t v) → st.state? o = none ∧
    (∃ x, st.state? t = some x ∧ x.target = none) ∧
    ∃ y, st'.state? o = some y ∧ y.target = some t ∧ y.status = v
  named : ∀ {id}, st'.names.any (·.2 = id) = true → st.names.any (·.2 = id) = true ∨
    st.state? id = none ∨ ∃ i x, st.state? i = some x ∧ x.target = some id

variable {st st' : Store} {h : Holding} {d : Option Deed} {id : StateId}

theorem Undergoes.of_states_eq (hs : st'.states = st.states)
    (hn : ∀ {id}, st'.names.any (·.2 = id) = true → st.names.any (·.2 = id) = true ∨
      st.state? id = none ∨ ∃ i x, st.state? i = some x ∧ x.target = some id) :
    st.Undergoes h none st' where
  states := by
    intro id x hx
    exact ⟨x, by rw [← hx, state?, state?, hs], .of_eq rfl rfl rfl⟩
  fresh := by
    intro id y hn hy
    rw [state?, hs] at hy
    rw [state?, hy] at hn
    cases hn
  overlaid := by
    intro o t v hd
    cases hd
  named := hn

theorem undergoes_self : st.Undergoes h none st := .of_states_eq rfl .inl

/-- A deed that changes one state and is not about the others. -/
theorem undergoes_update {f : State → State}
    (hself : ∀ x : State, x.Undergoes (st.isListening h) d id (f x))
    (hother : ∀ i ≠ id, ∀ e ∈ d, ¬ e.Concerns i)
    (hd : ∀ o t v, d ≠ some (.overlays o t v)) : st.Undergoes h d (st.update id f) where
  states := by
    intro i x hx
    rw [state?_update, hx]
    by_cases hi : i = id
    · subst hi
      exact ⟨f x, if_pos rfl, hself x⟩
    · exact ⟨x, if_neg hi, .spared (hother i hi)⟩
  fresh := by
    intro i y hn hy
    rw [state?_update, hn] at hy
    simp at hy
  overlaid := fun he => absurd he (hd _ _ _)
  named := .inl

/-- A deed that is about no state. -/
theorem undergoes_same (hd : ∀ i, ∀ e ∈ d, ¬ e.Concerns i)
    (ho : ∀ o t v, d ≠ some (.overlays o t v)) : st.Undergoes h d st where
  states := fun {i y} hy => ⟨y, hy, .spared (hd i)⟩
  fresh := by
    intro i y hn hy
    rw [hn] at hy
    cases hy
  overlaid := fun he => absurd he (ho _ _ _)
  named := .inl

/-! ## Names -/

theorem named_bind {name : String} {i : StateId}
    (hn : (st.bind name i).names.any (·.2 = id) = true) :
    i = id ∨ st.names.any (·.2 = id) = true := by
  rw [bind, List.any_cons, Bool.or_eq_true] at hn
  refine hn.imp of_decide_eq_true fun hn => ?_
  obtain ⟨e, he, hid⟩ := List.any_eq_true.1 hn
  exact List.any_eq_true.2 ⟨e, List.mem_of_mem_filter he, hid⟩

theorem named_unbind {name : String} (hn : (st.unbind name).names.any (·.2 = id) = true) :
    st.names.any (·.2 = id) = true := by
  rw [unbind] at hn
  split at hn
  · exact hn
  · obtain ⟨e, he, hid⟩ := List.any_eq_true.1 hn
    exact List.any_eq_true.2 ⟨e, List.mem_of_mem_filter he, hid⟩

theorem unbind_states (name : String) : (st.unbind name).states = st.states := by
  rw [unbind]
  split <;> rfl

theorem named?_of_find {name : String} {x : State} (hx : st.find name = .ok (id, x)) :
    st.named? name = some id := by
  unfold find at hx
  split at hx
  · cases hx
  · next hn =>
    split at hx
    · cases hx
    · cases hx
      exact hn

theorem find_of_named? {name : String} {x : State} (hn : st.named? name = some id)
    (hx : st.state? id = some x) : st.find name = .ok (id, x) := by
  rw [find, hn]
  dsimp only
  rw [hx]

theorem named_of_find {name : String} {x : State} (hx : st.find name = .ok (id, x)) :
    st.names.any (·.2 = id) = true := by
  obtain ⟨l, l', hl, -⟩ := List.lookup_eq_some_iff.1 (named?_of_find hx)
  rw [hl]
  simp

/-! ## Constructions -/

theorem state?_length (st : Store) : st.state? st.states.length = none :=
  List.getElem?_eq_none (Nat.le_refl _)

theorem state?_insert (st : Store) (name : String) (x : State) (i : StateId) :
    (st.insert name x).state? i = if i = st.states.length then some x else st.state? i := by
  change (st.states ++ [x])[i]? = _
  rw [List.getElem?_append]
  split
  · next hi => rw [if_neg (Nat.ne_of_lt hi)]; rfl
  · next hi =>
    split
    · next he => simp [he]
    · next he =>
      have hlt : st.states.length < i := Nat.lt_of_le_of_ne (Nat.le_of_not_lt hi) (Ne.symm he)
      rw [state?, List.getElem?_eq_none (Nat.le_of_lt hlt), List.getElem?_eq_none]
      simp only [List.length_singleton]
      omega

/-- A state that stands for itself has no target and no listeners. -/
theorem undergoes_insert (name : String) {x : State} (ht : x.target = none)
    (hr : x.registry.entries = []) : st.Undergoes h none (st.insert name x) where
  states := by
    intro i y hy
    have hi : i ≠ st.states.length := by
      rintro rfl
      rw [state?_length] at hy
      cases hy
    exact ⟨y, by rw [state?_insert, if_neg hi, hy], .of_eq rfl rfl rfl⟩
  fresh := by
    intro i y hn hy
    rw [state?_insert] at hy
    split at hy
    · cases hy
      exact ⟨hr, .inl ht⟩
    · rw [hn] at hy
      cases hy
  overlaid := by
    intro o t v hd
    cases hd
  named := by
    intro i hn
    rcases named_bind hn with rfl | hn
    · exact .inr (.inl st.state?_length)
    · exact .inl hn

theorem state?_insertOverlay (st : Store) (name : String) (id : StateId) (status : Status)
    (x : State) (i : StateId) : (st.insertOverlay name id status x).state? i =
      if i = st.states.length then some (x.copyOver id status)
      else if i = id then (st.state? i).map
        (State.withRegistry (·.add (.observer st.states.length)))
      else st.state? i := by
  rw [insertOverlay, state?_insert, length_update, state?_update]

theorem undergoes_insertOverlay (name : String) {x : State} (hx : st.state? id = some x)
    (ht : x.target = none) (status : Status) :
    st.Undergoes h (some (.overlays st.states.length id status))
      (st.insertOverlay name id status x) := by
  refine ⟨?_, ?_, ?_, ?_⟩
  · intro i y hy
    have hi : i ≠ st.states.length := by
      rintro rfl
      rw [state?_length] at hy
      cases hy
    rw [state?_insertOverlay, if_neg hi, hy]
    by_cases hid : i = id
    · subst hid
      refine ⟨_, if_pos rfl, ?_⟩
      exact State.undergoes_add (by simp [Deed.registers]) rfl (by simp)
    · refine ⟨y, if_neg hid, .spared ?_⟩
      rintro _ ⟨⟩
      exact Ne.symm hid
  · intro i y hn hy
    rw [state?_insertOverlay] at hy
    split at hy
    · next hi =>
      cases hy
      exact ⟨rfl, .inr ⟨id, status, by rw [hi], rfl⟩⟩
    · split at hy <;> simp [hn] at hy
  · intro o t v hd
    cases hd
    refine ⟨st.state?_length, ⟨x, hx, ht⟩, x.copyOver id status, ?_, rfl, rfl⟩
    rw [state?_insertOverlay, if_pos rfl]
  · intro i hn
    rcases named_bind hn with rfl | hn
    · rw [length_update]
      exact .inr (.inl st.state?_length)
    · exact .inl hn

/-! ## Disposal -/

theorem undergoes_dispose {x : State} (hx : st.state? id = some x) :
    st.Undergoes h (some (.disposes id)) (st.dispose id) := by
  have hsevered : st.Undergoes h (some (.disposes id)) (st.update id State.severed) := by
    refine undergoes_update State.undergoes_severed ?_ (by simp)
    rintro i hi _ ⟨⟩
    exact Ne.symm hi
  have hnone : ∀ i, st.state? i = none → (st.update id State.severed).state? i = none := by
    intro i hi
    rw [state?_update, hi]
    simp
  rw [dispose]
  split
  · next hn =>
    rw [hx] at hn
    cases hn
  · split
    · exact hsevered
    · next t _ =>
      refine ⟨?_, ?_, by simp, .inl⟩
      · intro i x hx
        obtain ⟨y, hy, hu⟩ := hsevered.states hx
        rw [state?_update, hy]
        by_cases hi : i = t
        · exact ⟨_, if_pos hi, hu.unsubscribed⟩
        · exact ⟨y, if_neg hi, hu⟩
      · intro i y hn hy
        rw [state?_update, hnone i hn] at hy
        simp at hy

/-! ## The actions -/

/-- A pass begins.  It is about a state that has a name, or about the one that the acting listener
is told of, and it tells those of its listeners who are alive. -/
structure Starts (h : Holding) (caller : Option Caller) (st : Store) (p : Pass) (st' : Store) :
    Prop where
  undergoes : st.Undergoes h (some (.begins p)) st'
  source : ∃ x, st.state? p.source = some x ∧ p.audience = x.registry.live (st.isListening h) ∧
    (p.discards = true → p.event = .discarded ∧ x.status ≠ .undefined)
  held : st.names.any (·.2 = p.source) = true ∨ ∃ c ∈ caller, c.emitter = p.source

/-- What comes of an action: it does what it says, or a pass begins. -/
def Performs (h : Holding) (caller : Option Caller) (st : Store) (action : Action) : Outcome → Prop
  | .answered _ st' => st.Undergoes h (action.deed? st caller) st'
  | .passing p st' => st.Starts h caller p st'

section
variable {caller : Option Caller} {x : State}

theorem undergoes_pass (event : Event) (discards : Bool) :
    st.Undergoes h (some (.begins (st.pass h id x event discards).1))
      (st.pass h id x event discards).2 := by
  refine undergoes_update (fun y => ?_) ?_ (by simp)
  · exact State.undergoes_pruned rfl rfl rfl
  · rintro i - _ ⟨⟩
    exact not_false

theorem starts_pass (hx : st.state? id = some x) (event : Event)
    (hn : st.names.any (·.2 = id) = true ∨ ∃ c ∈ caller, c.emitter = id) :
    st.Starts h caller (st.pass h id x event false).1 (st.pass h id x event false).2 where
  undergoes := undergoes_pass event false
  source := ⟨x, hx, rfl, by simp [pass]⟩
  held := hn

theorem update_update (st : Store) (id : StateId) (f g : State → State) :
    (st.update id f).update id g = st.update id (g ∘ f) := by
  rw [update, update, update, List.modify_modify_eq]

theorem starts_discard? (hx : st.state? id = some x) (hn : st.names.any (·.2 = id) = true)
    {p : Pass} (hd : st.discard? h id x = some (p, st')) : st.Starts h caller p st' := by
  unfold discard? at hd
  split at hd
  · cases hd
  · next hx' =>
    have hlive : (st.update id fun s => { s with discarding := true }).isListening h =
        st.isListening h :=
      funext (isListening_update (f := fun s => { s with discarding := true }) (fun _ => rfl) h)
    have hstatus : x.status ≠ .undefined := by simp_all
    simp only [pass, hlive, update_update, Option.some.injEq, Prod.mk.injEq] at hd
    obtain ⟨rfl, rfl⟩ := hd
    refine ⟨undergoes_update (fun y => ?_) ?_ (by simp), ⟨x, hx, rfl, fun _ => ⟨rfl, hstatus⟩⟩,
      .inl hn⟩
    · exact State.undergoes_pruned rfl rfl rfl
    · rintro i - _ ⟨⟩
      exact not_false

/-- An answered action does what it says, once this is known. -/
theorem performs_of_deed? {action : Action} {a : Answer} (hd : action.deed? st caller = d)
    (hu : st.Undergoes h d st') : st.Performs h caller action (.answered a st') := by
  rw [Performs, hd]
  exact hu

/-- A change of a state that no deed is about. -/
theorem undergoes_other {f : State → State} (ht : ∀ y, (f y).target = y.target)
    (hs : ∀ y, (f y).status = y.status) (hr : ∀ y, (f y).registry = y.registry) :
    st.Undergoes h none (st.update id f) :=
  undergoes_update (fun y => .of_eq (ht y) (hs y) (hr y)) (by simp) (by simp)

theorem undergoes_withStatus (status : Status) :
    st.Undergoes h (some (.sets id status)) (st.update id (State.withStatus status)) := by
  refine undergoes_update (fun y => ?_) ?_ (by simp)
  · exact .of_status rfl rfl (by simp [Deed.gives, State.withStatus]) (by simp) rfl
  · rintro i hi _ ⟨⟩
    exact Ne.symm hi

theorem undergoes_adds (listener : String) :
    st.Undergoes h (some (.adds id listener))
      (st.update id (State.withRegistry (·.add (.client listener)))) := by
  refine undergoes_update (fun y => ?_) ?_ (by simp)
  · exact State.undergoes_add (by simp [Deed.registers]) rfl (by simp)
  · rintro i hi _ ⟨⟩
    exact Ne.symm hi

theorem undergoes_removes (listener : String) :
    st.Undergoes h (some (.removes id listener))
      (st.update id (State.withRegistry (·.remove (.client listener)))) := by
  refine undergoes_update (fun y => ?_) ?_ (by simp)
  · exact State.undergoes_remove ⟨rfl, rfl⟩ rfl rfl (by simp)
  · rintro i hi _ ⟨⟩
    exact Ne.symm hi

theorem undergoes_discards : st.Undergoes h (some (.discards id)) st := by
  refine undergoes_same ?_ (by simp)
  rintro i _ ⟨⟩
  exact not_false

theorem eq_client_of_inHand {listener : String} {l : ListenerId}
    (hl : st.inHand listener = .ok l) : l = .client listener := by
  rw [inHand] at hl
  split at hl <;> cases hl
  rfl

theorem eq_client_of_known {listener : String} {l : ListenerId}
    (hl : st.known listener = .ok l) : l = .client listener := by
  rw [known] at hl
  split at hl <;> cases hl
  rfl

theorem eq_some_of_acting {c : Caller} (hc : acting caller = .ok c) : caller = some c := by
  cases caller <;> cases hc
  rfl

theorem ofCode?_of_mapError {code : Int} {status : Status}
    (hs : (Status.ofCode code).mapError Failure.error = .ok status) :
    Status.ofCode? code = some status := by
  unfold Status.ofCode at hs
  split at hs
  · next hc => cases hs; exact hc
  · cases hs

theorem construct_undergoes {name : String} {item : ItemId} {parent : Option NodeId}
    {status : Status} {base : BaseVersion} {payload : Payload} :
    Gives (st.Undergoes h none) (st.construct name item parent status base payload) := by
  rw [construct]
  split
  · exact gives_ok (undergoes_insert name rfl rfl)
  · exact gives_error _

theorem restore_undergoes {name : String} {parent : Option NodeId} {status : Status}
    {bytes : List UInt8} : Gives (st.Undergoes h none) (st.restore name parent status bytes) := by
  rw [restore]
  split
  · exact gives_error _
  · exact construct_undergoes

theorem constructOverlay_undergoes {name : String} (hx : st.state? id = some x) {status : Status} :
    Gives (st.Undergoes h (some (.overlays st.states.length id status)))
      (st.constructOverlay name id x status) := by
  rw [constructOverlay]
  split
  · split
    · exact gives_error _
    · next ht => exact gives_ok (undergoes_insertOverlay name hx (by simpa using ht) status)
  · exact gives_error _

/-- A change of the data of a property. -/
theorem onProperty_performs {action : Action} {name : String} {f : PropertyData → PropertyData}
    (hd : action.deed? st caller = none) :
    Gives (st.Performs h caller action) (st.onProperty name f) := by
  refine gives_bind ?_
  rintro ⟨id, y, data⟩ -
  exact gives_ok (performs_of_deed? hd (undergoes_other (fun _ => rfl) (fun _ => rfl) fun _ => rfl))

end

/-- **What an action does.** -/
theorem perform_performs (h : Holding) (caller : Option Caller) (st : Store) (action : Action) :
    Gives (st.Performs h caller action) (perform h caller st action) := by
  cases action with
  | newProperty | newNode => exact gives_bind fun _ hst => gives_ok (construct_undergoes _ hst)
  | overlay as target status =>
    refine gives_bind fun (id, x) hx => gives_bind fun st' hst => gives_ok ?_
    exact performs_of_deed? (by rw [Action.deed?, named?_of_find hx]; rfl)
      (constructOverlay_undergoes (state?_of_find hx) st' hst)
  | restore => exact gives_bind fun _ hst => gives_ok (restore_undergoes _ hst)
  | drop name =>
    exact gives_ok (Undergoes.of_states_eq (unbind_states name) fun hn =>
      .inl (named_unbind hn))
  | isAlive name =>
    simp only [perform]
    split <;> exact gives_ok (undergoes_self)
  | bindTarget name other =>
    refine gives_bind fun (i, x) hx => ?_
    dsimp only
    split
    · exact gives_ok (undergoes_self)
    · next t ht =>
      refine gives_ok (Undergoes.of_states_eq rfl fun hn => ?_)
      rcases named_bind hn with rfl | hn
      · exact .inr (.inr ⟨i, x, state?_of_find hx, ht⟩)
      · exact .inl hn
  | setStatus name status =>
    refine gives_bind fun (id, _) hx => gives_ok ?_
    exact performs_of_deed? (by rw [Action.deed?, named?_of_find hx]; rfl)
      (undergoes_withStatus status)
  | setStatusCode name code =>
    refine gives_bind fun (id, _) hx => gives_bind fun status hs => gives_ok ?_
    refine performs_of_deed? ?_ (undergoes_withStatus status)
    rw [Action.deed?, named?_of_find hx, ofCode?_of_mapError hs]
    rfl
  | setParent =>
    exact gives_bind fun (id, _) _ => gives_ok
      (undergoes_other (fun _ => rfl) (fun _ => rfl) (fun _ => rfl))
  | setKind | setDefinition | setValues => exact onProperty_performs rfl
  | shareValues => exact gives_bind fun _ _ => onProperty_performs rfl
  | discard name =>
    refine gives_bind fun (id, x) hx => ?_
    dsimp only
    split
    · exact gives_ok
        (performs_of_deed? (by rw [Action.deed?, named?_of_find hx]; rfl) undergoes_discards)
    · next hd => exact gives_ok (starts_discard? (state?_of_find hx) (named_of_find hx) hd)
  | dispose name =>
    exact gives_bind fun (id, _) hx => gives_ok
      (performs_of_deed? (by rw [Action.deed?, named?_of_find hx]; rfl)
        (undergoes_dispose (state?_of_find hx)))
  | notify name event =>
    exact gives_bind fun (id, _) hx => gives_ok
      (starts_pass (state?_of_find hx) event (.inl (named_of_find hx)))
  | dropListener => exact gives_ok (Undergoes.of_states_eq rfl .inl)
  | add name listener =>
    refine gives_bind fun l hl => gives_bind fun (id, _) hx => gives_ok ?_
    obtain rfl := eq_client_of_inHand hl
    exact performs_of_deed? (by rw [Action.deed?, named?_of_find hx]; rfl) (undergoes_adds listener)
  | remove name listener =>
    refine gives_bind fun l hl => gives_bind fun (id, _) hx => gives_ok ?_
    obtain rfl := eq_client_of_known hl
    exact performs_of_deed? (by rw [Action.deed?, named?_of_find hx]; rfl)
      (undergoes_removes listener)
  | has => exact gives_bind fun _ _ => gives_bind fun _ _ => gives_ok (undergoes_self)
  | count | statusOf => exact gives_bind fun _ _ => gives_ok (undergoes_self)
  | describe | encode =>
    exact gives_bind fun _ _ => gives_bind fun _ _ => gives_ok (undergoes_self)
  | removeSelf =>
    refine gives_bind fun c hc => gives_ok ?_
    obtain rfl := eq_some_of_acting hc
    exact undergoes_removes c.listener
  | addHere listener =>
    refine gives_bind fun c hc => gives_bind fun l hl => gives_ok ?_
    obtain rfl := eq_some_of_acting hc
    obtain rfl := eq_client_of_inHand hl
    exact undergoes_adds listener
  | removeHere listener =>
    refine gives_bind fun c hc => gives_bind fun l hl => gives_ok ?_
    obtain rfl := eq_some_of_acting hc
    obtain rfl := eq_client_of_known hl
    exact undergoes_removes listener
  | notifyHere event =>
    refine gives_bind fun c hc => ?_
    split
    · exact gives_error _
    · next hx =>
      exact gives_ok (starts_pass hx event (.inr ⟨c, eq_some_of_acting hc, rfl⟩))
  | breakOff => exact gives_bind fun _ _ => gives_error _
  | refused => exact gives_error _

end Store
end ContentOverlay
