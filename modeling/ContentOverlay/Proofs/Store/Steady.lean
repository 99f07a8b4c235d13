import ContentOverlay.Proofs.Registry.Entries
import ContentOverlay.Store.Perform
import Mathlib

/-!
# What actions leave alone

Whether a state is being discarded is for the passes to say.  No action changes it, but the one that
begins to discard a state: from one store to the next every state keeps its flag, and new states
come without one.  In the same way a registry goes on to hold every listener once.  Stores that are
related like this are `Steady`.

* `State.Steady` says it of a state before and after a change, and `Store.Steady` of two stores.
* `Store.begun` sets the flag of the state that a pass discards, and `Store.Begins` says how a pass
  begins.
* `perform_proper` is the specification of `Store.perform` in these terms.
-/

set_option autoImplicit false

namespace ContentOverlay

/-! ## States -/

/-- A state that changed, but neither its flag nor the fact that every listener is registered
once. -/
structure State.Steady (x y : State) : Prop where
  flag : y.discarding = x.discarding
  registry : x.registry.entries.Nodup → y.registry.entries.Nodup

namespace State

theorem Steady.refl (x : State) : x.Steady x := ⟨rfl, id⟩

theorem Steady.trans {x y z : State} (hxy : x.Steady y) (hyz : y.Steady z) : x.Steady z :=
  ⟨hyz.flag.trans hxy.flag, hyz.registry ∘ hxy.registry⟩

theorem steady_withRegistry {f : Registry ListenerId → Registry ListenerId}
    (hf : ∀ r, r.entries.Nodup → (f r).entries.Nodup) (x : State) :
    x.Steady (x.withRegistry f) :=
  ⟨rfl, hf x.registry⟩

theorem steady_severed (x : State) : x.Steady x.severed := ⟨rfl, fun _ => List.nodup_nil⟩

theorem steady_observed (event : Event) (x : State) : x.Steady (x.observed event) := by
  rw [observed]
  split
  · exact ⟨rfl, id⟩
  · exact .refl x

end State

/-! ## Stores -/

namespace Store

variable {st st' : Store} {id : StateId} {h : Holding}

theorem state?_update (st : Store) (id : StateId) (f : State → State) (i : StateId) :
    (st.update id f).state? i = if i = id then (st.state? i).map f else st.state? i := by
  unfold update state?
  rw [List.getElem?_modify]
  by_cases hi : i = id
  · simp [hi]
  · simp [hi, Ne.symm hi]

@[simp] theorem state?_update_self (st : Store) (id : StateId) (f : State → State) :
    (st.update id f).state? id = (st.state? id).map f := by
  rw [state?_update, if_pos rfl]

theorem state?_update_of_ne (st : Store) {id i : StateId} (hi : i ≠ id) (f : State → State) :
    (st.update id f).state? i = st.state? i := by
  rw [state?_update, if_neg hi]

theorem length_update (st : Store) (id : StateId) (f : State → State) :
    (st.update id f).states.length = st.states.length := List.length_modify ..

/-- No flag is changed, new states have none, and every listener stays registered once. -/
structure Steady (st st' : Store) : Prop where
  kept : ∀ {id x}, st.state? id = some x → ∃ y, st'.state? id = some y ∧ x.Steady y
  fresh : ∀ {id y}, st.state? id = none → st'.state? id = some y →
    y.discarding = false ∧ y.registry.entries.Nodup

theorem Steady.of_states_eq (hs : st'.states = st.states) : st.Steady st' where
  kept := by
    intro id x hx
    exact ⟨x, by rw [← hx, state?, state?, hs], .refl x⟩
  fresh := by
    intro id y hn hy
    rw [state?, hs] at hy
    rw [state?, hy] at hn
    cases hn

theorem Steady.refl (st : Store) : st.Steady st := .of_states_eq rfl

theorem Steady.trans {st'' : Store} (h : st.Steady st') (h' : st'.Steady st'') :
    st.Steady st'' where
  kept := by
    intro id x hx
    obtain ⟨y, hy, hxy⟩ := h.kept hx
    obtain ⟨z, hz, hyz⟩ := h'.kept hy
    exact ⟨z, hz, hxy.trans hyz⟩
  fresh := by
    intro id z hn hz
    cases hy : st'.state? id with
    | none => exact h'.fresh hy hz
    | some y =>
      obtain ⟨hf, hr⟩ := h.fresh hn hy
      obtain ⟨z', hz', hyz⟩ := h'.kept hy
      obtain rfl : z' = z := Option.some.inj (hz'.symm.trans hz)
      exact ⟨hyz.flag.trans hf, hyz.registry hr⟩

theorem steady_update (st : Store) (id : StateId) {f : State → State}
    (hf : ∀ x : State, x.Steady (f x)) : st.Steady (st.update id f) where
  kept := by
    intro i x hx
    rw [state?_update, hx]
    by_cases hi : i = id
    · exact ⟨f x, if_pos hi, hf x⟩
    · exact ⟨x, if_neg hi, .refl x⟩
  fresh := by
    intro i y hn hy
    rw [state?_update, hn] at hy
    simp at hy

/-- A state that is inserted must have no flag, and no listener registered twice. -/
theorem steady_insert (st : Store) (name : String) {x : State} (hf : x.discarding = false)
    (hr : x.registry.entries.Nodup) : st.Steady (st.insert name x) := by
  have hs : ∀ i, (st.insert name x).state? i = (st.states ++ [x])[i]? := fun _ => rfl
  refine ⟨?_, ?_⟩
  · intro i y hy
    have hi : i < st.states.length := (List.getElem?_eq_some_iff.1 hy).1
    refine ⟨y, ?_, .refl y⟩
    rw [hs, List.getElem?_append_left hi]
    exact hy
  · intro i y hn hy
    have hi : st.states.length ≤ i := List.getElem?_eq_none_iff.1 hn
    rw [hs, List.getElem?_append_right hi] at hy
    obtain rfl : x = y := by
      have hm := List.mem_of_getElem? hy
      exact (List.mem_singleton.1 hm).symm
    exact ⟨hf, hr⟩

theorem steady_insertOverlay (st : Store) (name : String) (target : StateId) (status : Status)
    (x : State) : st.Steady (st.insertOverlay name target status x) := by
  have hadd := st.steady_update target
    (State.steady_withRegistry fun _ => Registry.nodup_add (ListenerId.observer st.states.length))
  exact hadd.trans (steady_insert _ _ rfl List.nodup_nil)

theorem steady_dispose (st : Store) (id : StateId) : st.Steady (st.dispose id) := by
  rw [dispose]
  split
  · exact .refl st
  · have hsev := st.steady_update id State.steady_severed
    split
    · exact hsev
    · exact hsev.trans (steady_update _ _
        (State.steady_withRegistry fun _ => Registry.nodup_remove (ListenerId.observer id)))

theorem steady_unbind (st : Store) (name : String) : st.Steady (st.unbind name) := by
  rw [unbind]
  split
  · exact .refl st
  · exact .of_states_eq rfl

/-! ## The beginning of a pass -/

/-- The store with the flag set of the state that a pass discards. -/
def begun (st : Store) (p : Pass) : Store :=
  if p.discards then st.update p.source fun x => { x with discarding := true } else st

/-- A pass begins.  If it discards a state, that was not being discarded before. -/
structure Begins (st : Store) (p : Pass) (st' : Store) : Prop where
  source : ∃ x, st.state? p.source = some x ∧ (p.discards = true → x.discarding = false)
  steady : (st.begun p).Steady st'

theorem begins_pass {x : State} (hx : st.state? id = some x) (event : Event) :
    st.Begins (st.pass h id x event false).1 (st.pass h id x event false).2 where
  source := ⟨x, hx, by simp [pass]⟩
  steady := steady_update _ _ (State.steady_withRegistry fun _ => Registry.nodup_pruned _)

theorem begins_discard? {x : State} (hx : st.state? id = some x) {p : Pass}
    (hd : st.discard? h id x = some (p, st')) : st.Begins p st' := by
  unfold discard? at hd
  split at hd
  · cases hd
  · next hn =>
    have hflag : x.discarding = false := by simp_all
    cases hd
    exact ⟨⟨x, hx, fun _ => hflag⟩,
      steady_update _ _ (State.steady_withRegistry fun _ => Registry.nodup_pruned _)⟩

/-! ## The actions -/

/-- Whatever an attempt gives has a property. -/
def Gives {α : Type} (P : α → Prop) (a : Except Failure α) : Prop := ∀ x, a = .ok x → P x

section
variable {α β : Type} {P : α → Prop} {Q : β → Prop}

theorem gives_ok {x : α} (hx : P x) : Gives P (.ok x) := by
  intro y hy
  cases hy
  exact hx

theorem gives_error (why : Failure) : Gives P (.error why) := by
  intro y hy
  cases hy

theorem gives_bind {a : Except Failure α} {f : α → Except Failure β}
    (hf : ∀ x, a = .ok x → Gives Q (f x)) : Gives Q (a >>= f) := by
  cases a with
  | error why => exact gives_error why
  | ok x => exact hf x rfl

end

/-- What may come of an action: the store is steady, or a pass begins. -/
def Proper (st : Store) : Outcome → Prop
  | .answered _ st' => st.Steady st'
  | .passing p st' => st.Begins p st'

theorem state?_of_find {name : String} {x : State} (hx : st.find name = .ok (id, x)) :
    st.state? id = some x := by
  unfold find at hx
  split at hx
  · cases hx
  · split at hx
    · cases hx
    · next hs =>
      cases hx
      exact hs

section
variable {name : String} {parent : Option NodeId} {status : Status}

theorem gives_reply {a : Answer} : Gives st.Proper (st.reply a) := gives_ok (.refl st)

theorem gives_onState {f : State → State} (hf : ∀ x : State, x.Steady (f x)) :
    Gives st.Proper (st.onState name f) :=
  gives_bind fun (id, _) _ => gives_ok (st.steady_update id hf)

theorem gives_onProperty {f : PropertyData → PropertyData} :
    Gives st.Proper (st.onProperty name f) :=
  gives_bind fun (id, _, _) _ => gives_ok (st.steady_update id fun _ => ⟨rfl, fun h => h⟩)

theorem gives_register {l : ListenerId} : Gives st.Proper (st.register id l) :=
  gives_ok (st.steady_update id (State.steady_withRegistry fun _ => Registry.nodup_add l))

theorem gives_unregister {l : ListenerId} : Gives st.Proper (st.unregister id l) :=
  gives_ok (st.steady_update id (State.steady_withRegistry fun _ => Registry.nodup_remove l))

theorem gives_construct {item : ItemId} {base : BaseVersion} {payload : Payload} :
    Gives st.Steady (st.construct name item parent status base payload) := by
  rw [construct]
  split
  · exact gives_ok (st.steady_insert name rfl List.nodup_nil)
  · exact gives_error _

theorem gives_constructOverlay {x : State} :
    Gives st.Steady (st.constructOverlay name id x status) := by
  rw [constructOverlay]
  split
  · split
    · exact gives_error _
    · exact gives_ok (st.steady_insertOverlay name id status x)
  · exact gives_error _

theorem gives_restore {bytes : List UInt8} :
    Gives st.Steady (st.restore name parent status bytes) := by
  rw [restore]
  split
  · exact gives_error _
  · exact gives_construct

end

/-- **What an action does to the flags.**  It either leaves them alone or begins a pass. -/
theorem perform_proper (h : Holding) (caller : Option Caller) (st : Store) (action : Action) :
    Gives st.Proper (perform h caller st action) := by
  cases action with
  | newProperty | newNode => exact gives_bind fun _ hst => gives_ok (gives_construct _ hst)
  | overlay =>
    exact gives_bind fun _ _ => gives_bind fun _ hst => gives_ok (gives_constructOverlay _ hst)
  | restore => exact gives_bind fun _ hst => gives_ok (gives_restore _ hst)
  | drop name => exact gives_ok (st.steady_unbind name)
  | isAlive name =>
    simp only [perform]
    split <;> exact gives_reply
  | bindTarget name other =>
    refine gives_bind fun (_, x) _ => ?_
    dsimp only
    split
    · exact gives_reply
    · exact gives_ok (.of_states_eq rfl)
  | setStatus | setParent => exact gives_onState fun _ => ⟨rfl, fun h => h⟩
  | setStatusCode =>
    exact gives_bind fun (id, _) _ => gives_bind fun _ _ =>
      gives_ok (st.steady_update id fun _ => ⟨rfl, fun h => h⟩)
  | setKind | setDefinition | setValues => exact gives_onProperty
  | shareValues => exact gives_bind fun _ _ => gives_onProperty
  | discard name =>
    refine gives_bind fun (id, x) hx => ?_
    dsimp only
    split
    · exact gives_reply
    · next hd => exact gives_ok (begins_discard? (state?_of_find hx) hd)
  | dispose => exact gives_bind fun (id, _) _ => gives_ok (st.steady_dispose id)
  | notify => exact gives_bind fun (_, _) hx => gives_ok (begins_pass (state?_of_find hx) _)
  | dropListener => exact gives_ok (.of_states_eq rfl)
  | add => exact gives_bind fun _ _ => gives_bind fun _ _ => gives_register
  | remove => exact gives_bind fun _ _ => gives_bind fun _ _ => gives_unregister
  | has => exact gives_bind fun _ _ => gives_bind fun _ _ => gives_reply
  | count | statusOf => exact gives_bind fun _ _ => gives_reply
  | describe | encode => exact gives_bind fun _ _ => gives_bind fun _ _ => gives_reply
  | removeSelf => exact gives_bind fun _ _ => gives_unregister
  | addHere => exact gives_bind fun _ _ => gives_bind fun _ _ => gives_register
  | removeHere => exact gives_bind fun _ _ => gives_bind fun _ _ => gives_unregister
  | notifyHere =>
    refine gives_bind fun c _ => ?_
    split
    · exact gives_error _
    · next hx => exact gives_ok (begins_pass hx _)
  | breakOff => exact gives_bind fun _ _ => gives_error _
  | refused => exact gives_error _

end Store
end ContentOverlay
