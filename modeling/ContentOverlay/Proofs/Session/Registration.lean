import ContentOverlay.Proofs.Session.Change
import ContentOverlay.Proofs.Session.Disposal

/-!
# Registries by what was done

What is registered with a state can be read off the deeds.  A listener is there from the deed that
adds it to the deed that removes it, an observer comes with its overlay, and a disposal takes
everybody off.  The beginning of a pass leaves those entries that it will tell.

For this it must be known where observers are: an observer is registered with the target that its
overlay has, and with nobody else.  So it is of no account which registry a disposal removes it
from.

* `Deed.edit` is what a deed does to the registry of a state.
* `target_of_observer` says where observers are registered.
* `registered?_of_change` is one step, and `registered?_of_later` follows a registry along a
  chronicle.
-/

set_option autoImplicit false

namespace ContentOverlay

/-! ## What deeds do to registries -/

/-- What a deed does to the registry of a state. -/
def Deed.edit (id : StateId) (r : Registry ListenerId) : Deed → Registry ListenerId
  | adds i listener => if id = i then r.add (.client listener) else r
  | removes i listener => if id = i then r.remove (.client listener) else r
  | overlays o t _ => if id = t then r.add (.observer o) else r
  | disposes i => if id = i then .empty else r.remove (.observer i)
  | begins p => if id = p.source then ⟨p.audience⟩ else r
  | _ => r

/-- What some deeds do to the registry of a state, one after the other. -/
def Deed.edits (id : StateId) (r : Registry ListenerId) (deeds : List Deed) :
    Registry ListenerId :=
  deeds.foldl (fun r d => d.edit id r) r

theorem Deed.edits_append (id : StateId) (r : Registry ListenerId) (deeds deeds' : List Deed) :
    Deed.edits id r (deeds ++ deeds') = Deed.edits id (Deed.edits id r deeds) deeds' :=
  List.foldl_append

theorem Deed.IsIdle.edit {d : Deed} (h : d.IsIdle) (id : StateId) (r : Registry ListenerId) :
    d.edit id r = r := by
  cases d <;> first | rfl | exact h.elim

/-- An entry that is not there is not missed. -/
theorem Registry.remove_of_not_mem {α : Type} [DecidableEq α] {r : Registry α} {a : α}
    (h : a ∉ r.entries) : r.remove a = r := by
  have hall : ∀ b ∈ r.entries, decide (b ≠ a) = true := by
    intro b hb
    rw [decide_eq_true_eq]
    rintro rfl
    exact h hb
  rw [remove, List.filter_eq_self.2 hall]

namespace Store

/-- The listeners of the state with this identity. -/
def registered? (st : Store) (id : StateId) : Option (Registry ListenerId) :=
  (st.state? id).map State.registry

variable {st st' : Store} {h : Holding} {d : Option Deed} {w : Option Write} {made : Option State}
  {id : StateId} {r : Registry ListenerId}

theorem registered?_of_states_eq (hs : st'.states = st.states) (i : StateId) :
    st'.registered? i = st.registered? i := by
  rw [registered?, registered?, state?, state?, hs]

theorem registered?_withRegistry (f : Registry ListenerId → Registry ListenerId) (i : StateId)
    (hr : st.registered? i = some r) :
    (st.update id (State.withRegistry f)).registered? i = some (if i = id then f r else r) := by
  obtain ⟨x, hx, rfl⟩ := Option.map_eq_some_iff.1 hr
  rw [registered?, state?_update, hx]
  split <;> rfl

theorem registered?_insert (name : String) (x : State) {i : StateId}
    (hr : st.registered? i = some r) : (st.insert name x).registered? i = some r := by
  obtain ⟨y, hy, rfl⟩ := Option.map_eq_some_iff.1 hr
  have hi : i ≠ st.states.length := by
    rintro rfl
    rw [state?_length] at hy
    cases hy
  rw [registered?, state?_insert, if_neg hi, hy]
  rfl

/-- A state is disposed of.  Its observer is registered with its target and nowhere else. -/
theorem registered?_dispose {i : StateId} {x : State} (hx : st.state? id = some x)
    (ht : ∀ {t}, x.target = some t → ∃ y, st.state? t = some y ∧ y.target = none)
    (ho : ∀ {i y}, st.state? i = some y → .observer id ∈ y.registry.entries → x.target = some i)
    (hr : st.registered? i = some r) :
    (st.dispose id).registered? i = some ((Deed.disposes id).edit i r) := by
  obtain ⟨y, hy, rfl⟩ := Option.map_eq_some_iff.1 hr
  have hsevers := severs_dispose hx ht
  rw [Deed.edit]
  split
  · next hi =>
    rw [registered?, hi, hsevers.severed]
    rfl
  · next hi =>
    by_cases hxi : x.target = some i
    · obtain ⟨z, hz, hzi⟩ := hsevers.unsubscribed hxi
      obtain rfl : y = z := Option.some.inj (hy.symm.trans hz)
      rw [registered?, hzi]
      rfl
    · have hnot : .observer id ∉ y.registry.entries := fun hm => hxi (ho hy hm)
      rw [registered?, hsevers.others hi hxi, hy, Registry.remove_of_not_mem hnot]
      rfl

/-- **What a step makes of a registry.** -/
theorem registered?_of_change (hc : st.Change h d w made st')
    (ht : ∀ {id x t}, st.state? id = some x → x.target = some t →
      ∃ y, st.state? t = some y ∧ y.target = none)
    (ho : ∀ {id x o y}, st.state? id = some x → .observer o ∈ x.registry.entries →
      st.state? o = some y → y.target = some id)
    {i : StateId} (hr : st.registered? i = some r) :
    st'.registered? i = some (Deed.edits i r d.toList) := by
  have hsame : st'.registered? i = st.registered? i → Deed.edits i r d.toList = r →
      st'.registered? i = some (Deed.edits i r d.toList) := by
    intro he hd
    rw [he, hr, hd]
  cases hc with
  | rests idle states =>
    refine hsame (registered?_of_states_eq states i) ?_
    cases d with
    | none => rfl
    | some e => exact (idle e rfl).edit i r
  | enrols | releases => exact hr
  | constructs => exact registered?_insert _ _ hr
  | overlays => exact registered?_insert _ _ (registered?_withRegistry _ i hr)
  | sets => exact hsame (map_state?_update fun _ => rfl) rfl
  | @writes w => exact hsame (map_state?_update fun _ => by cases w.field <;> rfl) rfl
  | disposes found => exact registered?_dispose found (ht found) (fun hy hm => ho hy hm found) hr
  | adds | removes => exact registered?_withRegistry _ i hr
  | @begins p x found audience =>
    have hbegun : (st.begun p).registered? i = st.registered? i :=
      map_state?_begun fun _ _ => rfl
    rw [registered?_withRegistry _ i (hbegun.trans hr)]
    change _ = some (if i = p.source then _ else r)
    split
    · next hi =>
      subst hi
      obtain ⟨y, hy, rfl⟩ := Option.map_eq_some_iff.1 hr
      obtain rfl : x = y := Option.some.inj (found.symm.trans hy)
      rw [audience]
      rfl
    · rfl
  | marks => exact hsame (map_state?_observed fun _ _ => rfl) rfl
  | ends => exact hsame (map_state?_finishPass fun _ => rfl) rfl
  | breaks => exact hsame (map_state?_foldl_abandon fun _ _ => rfl) rfl

end Store

/-! ## Along a chronicle -/

namespace Chronicle

open Session

variable {config : Config} {clock : Timestamp} {may : Request → Prop} {c c' : Chronicle}
  {id o : StateId} {x y : State} {r : Registry ListenerId}

/-- **Where observers are registered**: with the target of their overlay and nowhere else. -/
theorem target_of_observer (h : Later may (blank config clock) c)
    (hx : c.session.store.state? id = some x) (hm : .observer o ∈ x.registry.entries)
    (hy : c.session.store.state? o = some y) : y.target = some id := by
  induction h generalizing id o x y with
  | refl => cases hx
  | @tail c c' hl move ih =>
    rcases move.still_or_advance with hstill | ⟨u, hu, rfl⟩
    · rw [hstill.state?] at hx hy
      exact ih hx hm hy
    · have hundergoes := (turn hu).undergoes
      have hlinked := (valid_of_later hl).linked
      cases hw : c.session.store.state? id with
      | none =>
        rw [(hundergoes.fresh hw hx).1] at hm
        cases hm
      | some w =>
        obtain ⟨x', hx', hwx⟩ := hundergoes.states hw
        obtain rfl : x' = x := Option.some.inj (hx'.symm.trans hx)
        rcases hwx.entries _ hm with hm' | hr
        · obtain ⟨z, hz, -⟩ := hlinked.observers hw hm'
          have hzt := ih hw hm' hz
          obtain ⟨y', hy', hzy⟩ := hundergoes.states hz
          obtain rfl : y' = y := Option.some.inj (hy'.symm.trans hy)
          by_cases hd : c.next? = some (.disposes o)
          · -- its overlay is disposed of, and so it has just been removed
            have hsevers := Store.severs_dispose hz fun ht => hlinked.targets hz ht
            rw [← (dispose_of_advance hu hd).2] at hsevers
            obtain ⟨w', -, hw'⟩ := hsevers.unsubscribed hzt
            obtain rfl := Option.some.inj (hw'.symm.trans hx)
            exact absurd rfl (Registry.mem_remove.1 hm).2
          · rw [hzy.target hd, hzt]
        · -- its overlay has just been constructed
          obtain ⟨e, he, hr⟩ := Option.bind_eq_some_iff.1 hr
          obtain ⟨v, rfl⟩ := Deed.eq_overlays_of_registers hr
          obtain ⟨-, -, y', hy', hyt, -⟩ := hundergoes.overlaid he
          obtain rfl : y' = y := Option.some.inj (hy'.symm.trans hy)
          exact hyt

/-- **A registry along a chronicle** is what the deeds make of it. -/
theorem registered?_of_later (h : Later may (blank config clock) c) (hl : Later may c c')
    (hr : c.session.store.registered? id = some r) :
    ∃ post, c'.deeds = c.deeds ++ post ∧
      c'.session.store.registered? id = some (Deed.edits id r post) := by
  induction hl with
  | refl => exact ⟨[], (List.append_nil _).symm, hr⟩
  | @tail c' c'' hl move ih =>
    obtain ⟨post, hpost, hr'⟩ := ih
    rcases move.still_or_advance with hstill | ⟨u, hu, rfl⟩
    · refine ⟨post, hstill.deeds.trans hpost, ?_⟩
      rwa [Store.registered?, hstill.state?]
    · refine ⟨post ++ c'.next?.toList, ?_, ?_⟩
      · rw [Chronicle.extend, hpost, List.append_assoc]
      · rw [Deed.edits_append]
        exact Store.registered?_of_change (change hu) (valid_of_later (h.trans hl)).linked.targets
          (fun hx hm hy => target_of_observer (h.trans hl) hx hm hy) hr'

end Chronicle
end ContentOverlay
