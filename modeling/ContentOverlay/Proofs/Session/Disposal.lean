import ContentOverlay.Proofs.Session.Links

/-!
# Disposal

A state that is disposed of is cut off from everything, and nothing ties it to anything again but
what is done to it afterwards.  A pass of its former target may still have its observer to tell, but
without a target the observer does nothing.

* `Store.Severs` says what a disposal does, and `severs_dispose` that it does so.
* `Bereft` is what remains so, however the chronicle goes on: `Bereft.of_turn` for one step,
  `Bereft.later` for all.
* `dispose_is_final` puts this together.
-/

set_option autoImplicit false

namespace ContentOverlay

/-! ## What a disposal does -/

namespace Store

variable {st : Store} {id : StateId} {x y : State}

theorem update_eq_self {f : State → State} (hy : st.state? id = some y) (hf : f y = y) :
    st.update id f = st := by
  have hstates : st.states.modify id f = st.states := by
    apply List.ext_getElem?
    intro i
    change (st.update id f).state? i = st.state? i
    rw [state?_update]
    split
    · next hi => rw [hi, hy, Option.map_some, hf]
    · rfl
  rw [update, hstates]

theorem dispose_of_no_target (hx : st.state? id = some x) (ht : x.target = none) :
    st.dispose id = st.update id State.severed := by
  simp only [dispose, hx, ht]

theorem dispose_of_target (hx : st.state? id = some x) {t : StateId} (ht : x.target = some t) :
    st.dispose id = (st.update id State.severed).update t
      (State.withRegistry (·.remove (.observer id))) := by
  simp only [dispose, hx, ht]

/-- What the disposal of a state does to a store. -/
structure Severs (st st' : Store) (id : StateId) (x : State) : Prop where
  severed : st'.state? id = some x.severed
  /-- The target loses the observer and no other entry. -/
  unsubscribed : ∀ {t}, x.target = some t → ∃ y, st.state? t = some y ∧
    st'.state? t = some (y.withRegistry (·.remove (.observer id)))
  others : ∀ {i}, i ≠ id → x.target ≠ some i → st'.state? i = st.state? i
  again : st'.dispose id = st'

theorem severs_dispose (hx : st.state? id = some x)
    (ht : ∀ {t}, x.target = some t → ∃ y, st.state? t = some y ∧ y.target = none) :
    st.Severs (st.dispose id) id x := by
  have hsevered : (st.update id State.severed).state? id = some x.severed := by
    rw [state?_update_self, hx, Option.map_some]
  cases hxt : x.target with
  | none =>
    rw [dispose_of_no_target hx hxt]
    refine ⟨hsevered, fun {t} he => ?_, fun hi _ => state?_update_of_ne _ hi _, ?_⟩
    · rw [hxt] at he
      cases he
    · rw [dispose_of_no_target hsevered rfl]
      exact update_eq_self hsevered rfl
  | some t =>
    obtain ⟨y, hy, hyt⟩ := ht hxt
    have hne : t ≠ id := by
      rintro rfl
      obtain rfl : x = y := Option.some.inj (hx.symm.trans hy)
      rw [hxt] at hyt
      cases hyt
    rw [dispose_of_target hx hxt]
    rw [← state?_update_of_ne _ hne.symm] at hsevered
    refine ⟨hsevered, fun {i} he => ?_, fun {i} hi hxi => ?_, ?_⟩
    · obtain rfl : t = i := Option.some.inj (hxt.symm.trans he)
      refine ⟨y, hy, ?_⟩
      rw [state?_update_self, state?_update_of_ne _ hne, hy, Option.map_some]
    · have hit : i ≠ t := fun he => hxi (he ▸ hxt)
      rw [state?_update_of_ne _ hit, state?_update_of_ne _ hi]
    · rw [dispose_of_no_target hsevered rfl]
      exact update_eq_self hsevered rfl

/-- Disposing of the same state once more leaves the store as it is. -/
theorem Severs.perform_dispose {st' : Store} (hs : st.Severs st' id x) {name : String}
    (hn : st'.named? name = some id) (h : Holding) (caller : Option Caller) :
    st'.perform h caller (.dispose name) = .ok (.answered .done st') := by
  rw [perform, find_of_named? hn hs.severed]
  change Except.ok (Outcome.answered .done (st'.dispose id)) = _
  rw [hs.again]

theorem eq_dispose_of_deed? {caller : Option Caller} {action : Action}
    (hd : action.deed? st caller = some (.disposes id)) :
    ∃ name, action = .dispose name ∧ st.named? name = some id := by
  cases action <;> simp only [Action.deed?, Option.map_eq_some_iff, Option.bind_eq_some_iff,
    reduceCtorEq, and_false, exists_false, Deed.disposes.injEq, exists_eq_right] at hd
  exact ⟨_, rfl, hd⟩

theorem eq_of_perform_dispose {h : Holding} {caller : Option Caller} {name : String} {a : Answer}
    {st' : Store} (hn : st.named? name = some id)
    (ho : st.perform h caller (.dispose name) = .ok (.answered a st')) :
    (∃ x, st.state? id = some x) ∧ st' = st.dispose id := by
  rw [perform, find, hn] at ho
  dsimp only at ho
  cases hx : st.state? id with
  | none => rw [hx] at ho; cases ho
  | some x => rw [hx] at ho; cases ho; exact ⟨⟨x, rfl⟩, rfl⟩

end Store

namespace Session

variable {s u : Session} {n : Nat} {id : StateId}

/-- What the step is that disposes of a state. -/
theorem dispose_of_advance (hu : s.advance = some u) (hd : s.deed? n = some (.disposes id)) :
    (∃ x, s.store.state? id = some x) ∧ u.store = s.store.dispose id := by
  obtain ⟨caller, action, todo, answers, rest, a, st, hs, ho, hd⟩ :=
    action_of_deed? hd not_false
  obtain ⟨name, rfl, hn⟩ := Store.eq_dispose_of_deed? hd
  rw [advance_requests hs, carryOut, holding_requests hs, ho] at hu
  obtain rfl := Option.some.inj hu
  exact Store.eq_of_perform_dispose hn ho

end Session

/-! ## What remains so -/

namespace Chronicle

open Session

variable {config : Config} {clock : Timestamp} {may : Request → Prop} {c c' c'' : Chronicle}
  {id : StateId} {x : State} {l : ListenerId}

/-- A state that was there is still there. -/
theorem Later.states (h : Later may c c') (hx : c.session.store.state? id = some x) :
    ∃ y, c'.session.store.state? id = some y := by
  induction h with
  | refl => exact ⟨x, hx⟩
  | tail _ hm ih =>
    obtain ⟨y, hy⟩ := ih
    rcases hm.still_or_advance with hstill | ⟨u, hu, rfl⟩
    · exact ⟨y, (hstill.state? id).trans hy⟩
    · obtain ⟨z, hz, -⟩ := (turn hu).undergoes.states hy
      exact ⟨z, hz⟩

/-- A deed registers somebody with a state who was not there when this chronicle was: a client adds
a listener, or a new overlay of the state is constructed. -/
def Enlists (c : Chronicle) (id : StateId) (l : ListenerId) (e : Deed) : Prop :=
  (∃ name, l = .client name ∧ e = .adds id name) ∨
    ∃ o v, l = .observer o ∧ c.session.store.state? o = none ∧ e = .overlays o id v

/-- Somebody was registered with a state between these places, both exclusive. -/
def Enlisted (c : Chronicle) (deeds : List Deed) (id : StateId) (l : ListenerId) (k n : Nat) :
    Prop :=
  ∃ m e, k < m ∧ m < n ∧ deeds[m]? = some e ∧ c.Enlists id l e

/-- What remains so after a state was disposed of by the first step after a chronicle. -/
structure Bereft (c : Chronicle) (id : StateId) (x : State) (deeds : List Deed) (st : Store) :
    Prop where
  target : ∃ y, st.state? id = some y ∧ y.target = none
  status : (∀ m v, c.deeds.length < m → deeds[m]? ≠ some (.sets id v)) →
    ∀ {y}, st.state? id = some y → y.status = .undefined
  unsubscribed : ∀ {t}, x.target = some t →
    ∃ y, st.state? t = some y ∧ .observer id ∉ y.registry.entries
  registered : ∀ {y}, st.state? id = some y → ∀ l ∈ y.registry.entries,
    c.Enlisted deeds id l c.deeds.length deeds.length
  began : ∀ {n p}, c.deeds.length < n → deeds[n]? = some (.begins p) → p.source = id →
    ∀ l ∈ p.audience, c.Enlisted deeds id l c.deeds.length n

theorem enlists_of_registers {e : Deed} (hl : e.registers id = some l)
    (hfresh : ∀ {o t v}, e = .overlays o t v → c.session.store.state? o = none) :
    c.Enlists id l e := by
  cases e <;> simp only [Deed.registers, Option.ite_none_right_eq_some, Option.some.injEq,
    reduceCtorEq] at hl
  case adds i name =>
    obtain ⟨rfl, rfl⟩ := hl
    exact .inl ⟨name, rfl, rfl⟩
  case overlays o t v =>
    obtain ⟨rfl, rfl⟩ := hl
    exact .inr ⟨o, v, rfl, hfresh rfl, rfl⟩

/-- What gives a status to a state without a target sets it or makes the state undefined. -/
theorem gives_of_no_target {e : Deed} {v : Status} (hg : e.gives id none = some v) :
    e = .sets id v ∨ v = .undefined := by
  cases e <;> simp only [Deed.gives, Option.ite_none_right_eq_some, Option.some.injEq,
    reduceCtorEq] at hg
  case sets i w =>
    obtain ⟨rfl, rfl⟩ := hg
    exact .inl rfl
  case disposes i => exact .inr hg.2.symm
  case tells n p l => cases l <;> simp at hg
  case ends n p => exact .inr hg.2.symm

/-- What was done so far stays done. -/
theorem Enlisted.extend {k n : Nat} {u : Session} (h : c.Enlisted c'.deeds id l k n) :
    c.Enlisted (c'.extend u).deeds id l k n := by
  obtain ⟨m, e, hk, hn, hm, he⟩ := h
  exact ⟨m, e, hk, hn, getElem?_extend.2 (.inl hm), he⟩

theorem Enlisted.mono {k n n' : Nat} {deeds : List Deed} (h : c.Enlisted deeds id l k n)
    (hn : n ≤ n') : c.Enlisted deeds id l k n' := by
  obtain ⟨m, e, hk, hmn, hm, he⟩ := h
  exact ⟨m, e, hk, Nat.lt_of_lt_of_le hmn hn, hm, he⟩

theorem length_extend_le (u : Session) : c.deeds.length ≤ (c.extend u).deeds.length := by
  rw [Chronicle.extend, List.length_append]
  exact Nat.le_add_right _ _

/-- **A step leaves a state bereft.** -/
theorem Bereft.extend {u : Session} (h : Bereft c id x c'.deeds c'.session.store)
    (hl : Later may c c') (hlength : c.deeds.length < c'.deeds.length)
    (hu : c'.session.advance = some u) : Bereft c id x (c'.extend u).deeds u.store := by
  have hturn := turn hu
  obtain ⟨y, hy, hyt⟩ := h.target
  obtain ⟨z, hz, hyz⟩ := hturn.undergoes.states hy
  have hself : ∀ {w}, u.store.state? id = some w → w = z := fun hw =>
    Option.some.inj (hw.symm.trans hz)
  refine ⟨⟨z, hz, ?_⟩, fun hsets w hw => ?_, fun {t} hxt => ?_, fun {w} hw l hlw => ?_, ?_⟩
  · rcases target_of_undergoes hturn.undergoes hy hz with he | hn
    · rw [he, hyt]
    · exact hn
  · have hbefore := h.status (fun m v hm he => hsets m v hm (getElem?_extend.2 (.inl he))) hy
    rw [hself hw, hyz.status, hbefore, hyt]
    cases hg : c'.next?.bind (·.gives id none) with
    | none => rfl
    | some v =>
      obtain ⟨e, he, hg⟩ := Option.bind_eq_some_iff.1 hg
      rcases gives_of_no_target hg with rfl | rfl
      · exact absurd (getElem?_extend.2 (.inr ⟨rfl, he⟩)) (hsets _ v hlength)
      · rfl
  · obtain ⟨w, hw, hwn⟩ := h.unsubscribed hxt
    obtain ⟨w', hw', hww⟩ := hturn.undergoes.states hw
    refine ⟨w', hw', fun hm => ?_⟩
    rcases hww.entries _ hm with hm | hr
    · exact hwn hm
    · -- an observer is registered with its overlay, and this one is there already
      obtain ⟨e, he, hr⟩ := Option.bind_eq_some_iff.1 hr
      obtain ⟨v, rfl⟩ := Deed.eq_overlays_of_registers hr
      have := (hturn.undergoes.overlaid he).1
      rw [hy] at this
      cases this
  · rw [hself hw] at hlw
    rcases hyz.entries _ hlw with hm | hr
    · exact ((h.registered hy l hm).extend).mono (length_extend_le u)
    · obtain ⟨e, he, hr⟩ := Option.bind_eq_some_iff.1 hr
      have hm : (c'.extend u).deeds[c'.deeds.length]? = some e :=
        getElem?_extend.2 (.inr ⟨rfl, he⟩)
      refine ⟨_, e, hlength, lt_length_of_getElem? hm, hm, enlists_of_registers hr ?_⟩
      rintro o t v rfl
      cases ho : c.session.store.state? o with
      | none => rfl
      | some w =>
        obtain ⟨w', hw'⟩ := hl.states ho
        have := (hturn.undergoes.overlaid he).1
        rw [hw'] at this
        cases this
  · rintro n p hn hb rfl l hlp
    rcases getElem?_extend.1 hb with hb | ⟨rfl, hnext⟩
    · exact (h.began hn hb rfl l hlp).extend
    · obtain ⟨w, hw, haudience, -⟩ := (hnext ▸ hturn).source
      rw [haudience] at hlp
      exact (h.registered hw l (List.mem_of_mem_filter hlp)).extend

/-- A state that was just disposed of is bereft. -/
theorem bereft_of_severs {u : Session}
    (hsevers : c.session.store.Severs u.store id x) :
    Bereft c id x (c.extend u).deeds u.store where
  target := ⟨_, hsevers.severed, rfl⟩
  status := by
    intro _ y hy
    obtain rfl : x.severed = y := Option.some.inj (hsevers.severed.symm.trans hy)
    rfl
  unsubscribed := by
    intro t hxt
    obtain ⟨y, -, hy⟩ := hsevers.unsubscribed hxt
    exact ⟨_, hy, fun hm => (Registry.mem_remove.1 hm).2 rfl⟩
  registered := by
    intro y hy l hl
    obtain rfl : x.severed = y := Option.some.inj (hsevers.severed.symm.trans hy)
    cases hl
  began := by
    intro n p hn hb
    rcases getElem?_extend.1 hb with hb | ⟨rfl, -⟩
    · exact absurd (lt_length_of_getElem? hb) (Nat.lt_asymm hn)
    · exact absurd hn (Nat.lt_irrefl _)

/-- The time does not matter to a state that is bereft. -/
theorem Bereft.elapse {deeds : List Deed} {st : Store} (h : Bereft c id x deeds st)
    (time : Timestamp) : Bereft c id x deeds (st.elapse time) :=
  ⟨h.target, h.status, h.unsubscribed, h.registered, h.began⟩

/-- **A state that was disposed of stays bereft.** -/
theorem bereft_of_later {u : Session} (hu : c.session.advance = some u)
    (hd : c.next? = some (.disposes id)) (hsevers : c.session.store.Severs u.store id x)
    (hl : Later may (c.extend u) c') :
    Bereft c id x c'.deeds c'.session.store ∧ c.deeds.length < c'.deeds.length := by
  induction hl with
  | refl =>
    have hm : (c.extend u).deeds[c.deeds.length]? = some (.disposes id) :=
      getElem?_extend.2 (.inr ⟨rfl, hd⟩)
    exact ⟨bereft_of_severs hsevers, lt_length_of_getElem? hm⟩
  | tail hl hm ih =>
    obtain ⟨hbereft, hlength⟩ := ih
    rcases hm.still_or_advance with ⟨hdeeds, ⟨_, hstore⟩, -⟩ | ⟨v, hv, rfl⟩
    · rw [hdeeds, hstore]
      exact ⟨hbereft.elapse _, hlength⟩
    · exact ⟨hbereft.extend (Relation.ReflTransGen.head (.advance hu) hl) hlength hv,
        Nat.lt_of_lt_of_le hlength (length_extend_le v)⟩

/-- **Disposal is final.**  A step disposes of a state.  Its target loses the observer of the state
and no other listener, all other states remain as they are, and disposing of the state again changes
nothing.

However the chronicle goes on, the state has no target, and it is undefined unless it is given a
status; its former target never has the observer again; and a pass of the state that begins later
tells only such listeners as were added since, or the observers of overlays that were constructed
since.  It does not matter what was under way when the state was disposed of. -/
theorem dispose_is_final (h : Later Any (blank config clock) c) {u : Session}
    (hu : c.session.advance = some u) (hd : c.next? = some (.disposes id)) :
    ∃ x, c.session.store.state? id = some x ∧
      c.session.store.Severs u.store id x ∧
      (∀ held caller name, u.store.named? name = some id →
        u.store.perform held caller (.dispose name) = .ok (.answered .done u.store)) ∧
      ∀ c' : Chronicle, Later Any (c.extend u) c' →
        (∃ y, c'.session.store.state? id = some y ∧ y.target = none ∧
          ((∀ m v, c.deeds.length < m → c'.deeds[m]? ≠ some (.sets id v)) →
            y.status = .undefined)) ∧
        (∀ t, x.target = some t →
          ∃ y, c'.session.store.state? t = some y ∧ .observer id ∉ y.registry.entries) ∧
        ∀ (a n : Nat) (p : Pass) (l : ListenerId),
          c'.deeds[a]? = some (.tells n p l) → p.source = id → c.deeds.length < n →
          ∃ m, c.deeds.length < m ∧ m < n ∧
            ((∃ name, l = .client name ∧ c'.deeds[m]? = some (.adds id name)) ∨
              ∃ o v, l = .observer o ∧ c.session.store.state? o = none ∧
                c'.deeds[m]? = some (.overlays o id v)) := by
  obtain ⟨⟨x, hx⟩, hstore⟩ := dispose_of_advance hu hd
  have hvalid := valid_of_later h
  have hsevers : c.session.store.Severs u.store id x :=
    hstore ▸ Store.severs_dispose hx fun hxt => hvalid.linked.targets hx hxt
  refine ⟨x, hx, hsevers, fun held caller name hn => hsevers.perform_dispose hn held caller, ?_⟩
  intro c' hl
  obtain ⟨hbereft, -⟩ := bereft_of_later hu hd hsevers hl
  refine ⟨?_, fun t hxt => hbereft.unsubscribed hxt, ?_⟩
  · obtain ⟨y, hy, hyt⟩ := hbereft.target
    exact ⟨y, hy, hyt, fun hsets => hbereft.status hsets hy⟩
  · intro a n p l ha hp hn
    have hvalid' := hvalid.later (Relation.ReflTransGen.head (.advance hu) hl)
    obtain ⟨-, hb, haudience⟩ := hvalid'.numbered.began ha
    obtain ⟨m, e, hm, hmn, he, henlists⟩ := hbereft.began hn hb hp l haudience
    refine ⟨m, hm, hmn, henlists.imp ?_ ?_⟩
    · rintro ⟨name, rfl, rfl⟩
      exact ⟨name, rfl, he⟩
    · rintro ⟨o, v, rfl, ho, rfl⟩
      exact ⟨o, v, rfl, ho, he⟩

/-! ## An observer in flight -/

/-- A listener that is told of a modification disposes of the overlay, whose observer is to be told
after it. -/
def disposing : Chronicle := (answering (.dispose "o")).steps 2

theorem later_disposing : Later Any (blank .default .epoch) disposing :=
  (later_answering (fun _ => trivial) trivial).steps 2

theorem dispose_is_final_inFlight :
    Later Any (blank .default .epoch) disposing ∧ disposing.next? = some (.disposes 1) ∧
    ∃ u p y, disposing.session.advance = some u ∧
      ((disposing.extend u).steps 3).deeds[5]? = some (.tells 2 p (.observer 1)) ∧
      p.event = .modified ∧
      ((disposing.extend u).steps 3).session.store.state? 1 = some y ∧ y.target = none ∧
      y.status = .undefined := by
  have hd : disposing.next? = some (.disposes 1) := rfl
  obtain ⟨x, -, -, -, hlater⟩ := dispose_is_final later_disposing rfl hd
  obtain ⟨⟨y, hy, hyt, hys⟩, -⟩ := hlater _ (Later.steps .refl 3)
  refine ⟨later_disposing, rfl, _, _, y, rfl, rfl, rfl, hy, hyt, hys ?_⟩
  intro m v hm he
  have hlt : m < 7 := lt_length_of_getElem? he
  have hlow : 4 < m := hm
  obtain rfl | rfl : m = 5 ∨ m = 6 := by omega
  all_goals cases he

end Chronicle
end ContentOverlay
