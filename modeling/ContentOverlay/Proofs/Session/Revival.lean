import ContentOverlay.Proofs.Session.Disposal
import ContentOverlay.Proofs.Session.Order
import ContentOverlay.Proofs.Session.Staleness

/-!
# How a discarded state comes back

Undefined is meant as the last status of a state, after it was discarded or disposed of.  To dispose
of a state cuts the link to its target.  To discard it does not: a discarded overlay goes on to
watch its target, and it goes stale like any other overlay when the target is modified or destroyed.
Then it can be discarded again, and its listeners are told a second time.

So a discarded state stays undefined for good only if it has no target.  What holds of every state
is that nothing but its owner or its target brings it back.

* `Rouses` says of the deed at some place that it brings a discarded state back.
* `advance_rouses_iff` is one step of an undefined state, and `dormant_of_later` says what holds of
  it ever after.
* `discarded_until_roused` puts this together, and in `discarded_until_roused_stale` an overlay
  comes back by a modification of its target.
-/

set_option autoImplicit false

namespace ContentOverlay

/-! ## Deeds that bring a state back -/

theorem State.markOf_eq_some_iff {event : Event} :
    (∃ v, State.markOf event = some v) ↔ event = .modified ∨ event = .destroyed := by
  cases event <;> simp [State.markOf]

theorem State.markOf_ne_undefined {event : Event} : State.markOf event ≠ some .undefined := by
  cases event <;> simp [State.markOf]

/-- A state with this target is given a status other than undefined by being set, or by an event of
the target. -/
theorem Deed.gives_defined_iff {d : Deed} {id : StateId} {target : Option StateId} :
    (∃ v, d.gives id target = some v ∧ v ≠ .undefined) ↔
      (∃ v, d = .sets id v ∧ v ≠ .undefined) ∨
      ∃ n p, d = .tells n p (.observer id) ∧ (p.event = .modified ∨ p.event = .destroyed) ∧
        target.isSome := by
  constructor
  · rintro ⟨v, hg, hv⟩
    cases d <;> simp only [gives, Option.ite_none_right_eq_some, Option.some.injEq,
      reduceCtorEq] at hg
    case sets i w =>
      obtain ⟨rfl, rfl⟩ := hg
      exact .inl ⟨_, rfl, hv⟩
    case disposes i => exact absurd hg.2.symm hv
    case tells n p l =>
      cases l with
      | client => cases hg
      | observer o =>
        simp only [Option.ite_none_right_eq_some] at hg
        obtain ⟨⟨rfl, ht⟩, hm⟩ := hg
        exact .inr ⟨n, p, rfl, State.markOf_eq_some_iff.1 ⟨v, hm⟩, ht⟩
    case ends n p => exact absurd hg.2.symm hv
  · rintro (⟨v, rfl, hv⟩ | ⟨n, p, rfl, he, ht⟩)
    · exact ⟨v, by simp [gives], hv⟩
    · obtain ⟨v, hm⟩ := State.markOf_eq_some_iff.2 he
      refine ⟨v, by simp [gives, ht, hm], ?_⟩
      rintro rfl
      exact State.markOf_ne_undefined hm

namespace Chronicle

open Session

variable {config : Config} {clock : Timestamp} {may : Request → Prop} {c c' : Chronicle}
  {id : StateId} {x y z : State} {deeds : List Deed} {m : Nat} {u w : Session}

/-- The deed at this place brings a state back that was discarded by the deed after `c`.  It is
given a status, or its observer is told that the target was modified or destroyed, and it was not
disposed of meanwhile. -/
def Rouses (c : Chronicle) (id : StateId) (x : State) (deeds : List Deed) (m : Nat) : Prop :=
  (∃ v, deeds[m]? = some (.sets id v) ∧ v ≠ .undefined) ∨
  ∃ n p, deeds[m]? = some (.tells n p (.observer id)) ∧
    (p.event = .modified ∨ p.event = .destroyed) ∧ x.target = some p.source ∧
    ∀ j, c.deeds.length < j → j < m → deeds[j]? ≠ some (.disposes id)

/-- A state was brought back between these places, both exclusive. -/
def Roused (c : Chronicle) (id : StateId) (x : State) (deeds : List Deed) (n : Nat) : Prop :=
  ∃ m, c.deeds.length < m ∧ m < n ∧ c.Rouses id x deeds m

/-- What was done so far stays done. -/
theorem Rouses.extend (h : c.Rouses id x c'.deeds m) : c.Rouses id x (c'.extend w).deeds m := by
  rcases h with ⟨v, hm, hv⟩ | ⟨n, p, hm, he, ht, hd⟩
  · exact .inl ⟨v, getElem?_extend.2 (.inl hm), hv⟩
  · refine .inr ⟨n, p, getElem?_extend.2 (.inl hm), he, ht, fun j hj hjm hdj => ?_⟩
    rcases getElem?_extend.1 hdj with hdj | ⟨rfl, -⟩
    · exact hd j hj hjm hdj
    · exact absurd (lt_length_of_getElem? hm) (Nat.not_lt_of_gt hjm)

theorem Roused.extend {n : Nat} (h : c.Roused id x c'.deeds n) :
    c.Roused id x (c'.extend w).deeds n := by
  obtain ⟨m, hm, hmn, hr⟩ := h
  exact ⟨m, hm, hmn, hr.extend⟩

theorem Roused.mono {n n' : Nat} (h : c.Roused id x deeds n) (hn : n ≤ n') :
    c.Roused id x deeds n' := by
  obtain ⟨m, hm, hmn, hr⟩ := h
  exact ⟨m, hm, Nat.lt_of_lt_of_le hmn hn, hr⟩

/-! ## Ever after -/

/-- What holds of a state after it was discarded by the deed after `c`.  It keeps its target until
it is disposed of; it is undefined unless it was brought back; and it is not discarded again before
that. -/
structure Dormant (c : Chronicle) (id : StateId) (x : State) (deeds : List Deed) (y : State) :
    Prop where
  target : (∀ j, c.deeds.length < j → deeds[j]? ≠ some (.disposes id)) → y.target = x.target
  cut : ∀ {j}, c.deeds.length < j → deeds[j]? = some (.disposes id) → y.target = none
  status : y.status = .undefined ∨ c.Roused id x deeds deeds.length
  began : ∀ {n p}, c.deeds.length < n → deeds[n]? = some (.begins p) → p.discards = true →
    p.source = id → c.Roused id x deeds n

/-- The state with this identity is dormant. -/
def IsDormant (c : Chronicle) (id : StateId) (x : State) (c' : Chronicle) : Prop :=
  ∃ y, c'.session.store.state? id = some y ∧ Dormant c id x c'.deeds y

/-- The deed of a step rouses a dormant state if and only if it gives the state a status, with the
target that the state has now. -/
theorem rouses_iff_gives (hl : Later may (blank config clock) c')
    (hw : c'.session.advance = some w) (hy : c'.session.store.state? id = some y)
    (hd : Dormant c id x c'.deeds y) :
    c.Rouses id x (c'.extend w).deeds c'.deeds.length ↔
      ∃ e v, c'.next? = some e ∧ e.gives id y.target = some v ∧ v ≠ .undefined := by
  have hnow : ∀ {e}, (c'.extend w).deeds[c'.deeds.length]? = some e ↔ c'.next? = some e := by
    intro e
    rw [getElem?_extend]
    simp
  -- the places before this one are the same with the step and without it
  have hbefore : ∀ {j}, j < c'.deeds.length →
      ((c'.extend w).deeds[j]? = some (.disposes id) ↔ c'.deeds[j]? = some (.disposes id)) := by
    intro j hj
    rw [getElem?_extend]
    simp [hj.ne]
  constructor
  · rintro (⟨v, he, hv⟩ | ⟨n, p, he, hevent, ht, hdisposed⟩)
    · obtain ⟨v, hg⟩ := Deed.gives_defined_iff.2 (.inl ⟨v, rfl, hv⟩)
      exact ⟨_, v, hnow.1 he, hg⟩
    · have hyt : y.target = x.target := by
        refine hd.target fun j hj hdj => ?_
        have hjm := lt_length_of_getElem? hdj
        exact hdisposed j hj hjm ((hbefore hjm).2 hdj)
      have hsome : y.target.isSome := by rw [hyt, ht]; rfl
      obtain ⟨v, hg⟩ := Deed.gives_defined_iff.2 (.inr ⟨n, p, rfl, hevent, hsome⟩)
      exact ⟨_, v, hnow.1 he, hg⟩
  · rintro ⟨e, v, he, hg⟩
    rcases Deed.gives_defined_iff.1 ⟨v, hg⟩ with ⟨v, rfl, hv⟩ | ⟨n, p, rfl, hevent, hsome⟩
    · exact .inl ⟨v, hnow.2 he, hv⟩
    · have hdisposed : ∀ j, c.deeds.length < j → c'.deeds[j]? ≠ some (.disposes id) := by
        intro j hj hdj
        rw [hd.cut hj hdj] at hsome
        cases hsome
      refine .inr ⟨n, p, hnow.2 he, hevent, ?_, fun j hj hjm hdj => ?_⟩
      · -- the pass has the observer in its audience, so it is about the target of the overlay
        obtain ⟨hn, hbegan, haudience⟩ :=
          began_of_told (hl.tail (.advance hw)) (hnow.2 he)
        have hbegan := (getElem?_extend.1 hbegan).resolve_right fun h => hn.ne h.1
        obtain ⟨y', hy', hsource⟩ :=
          overlay_of_audience hl (List.mem_of_getElem? hbegan) haudience
        obtain rfl : y' = y := Option.some.inj (hy'.symm.trans hy)
        rw [← hd.target hdisposed]
        refine hsource.resolve_right fun hnone => ?_
        rw [hnone] at hsome
        cases hsome
      · exact hdisposed j hj ((hbefore hjm).1 hdj)

/-- **What brings an undefined state back.**  A step gives it another status if and only if the deed
of the step rouses it. -/
theorem advance_rouses_iff (hl : Later may (blank config clock) c')
    (hw : c'.session.advance = some w) (hy : c'.session.store.state? id = some y)
    (hd : Dormant c id x c'.deeds y) (hz : w.store.state? id = some z)
    (hundefined : y.status = .undefined) :
    z.status ≠ .undefined ↔ c.Rouses id x (c'.extend w).deeds c'.deeds.length := by
  obtain ⟨z', hz', hyz⟩ := (turn hw).undergoes.states hy
  obtain rfl : z' = z := Option.some.inj (hz'.symm.trans hz)
  rw [rouses_iff_gives hl hw hy hd, hyz.status, hundefined]
  constructor
  · intro hstatus
    cases hg : c'.next?.bind (·.gives id y.target) with
    | none =>
      rw [hg] at hstatus
      exact absurd rfl hstatus
    | some v =>
      rw [hg] at hstatus
      obtain ⟨e, he, hg⟩ := Option.bind_eq_some_iff.1 hg
      exact ⟨e, v, he, hg, hstatus⟩
  · rintro ⟨e, v, he, hg, hv⟩
    rw [he, Option.bind_some, hg]
    exact hv

/-- A state that was just discarded is dormant. -/
theorem isDormant_of_undefined (hx : u.store.state? id = some x) (hstatus : x.status = .undefined) :
    IsDormant c id x (c.extend u) := by
  have hlast : ∀ {j : Nat} {e : Deed}, c.deeds.length < j → (c.extend u).deeds[j]? ≠ some e := by
    intro j e hj he
    rcases getElem?_extend.1 he with he | ⟨rfl, -⟩
    · exact absurd (lt_length_of_getElem? he) (Nat.lt_asymm hj)
    · exact Nat.lt_irrefl _ hj
  exact ⟨x, hx, fun _ => rfl, fun hj he => absurd he (hlast hj), .inl hstatus,
    fun hn hb => absurd hb (hlast hn)⟩

/-- **A step leaves a state dormant**, or it rouses it. -/
theorem IsDormant.extend (h : IsDormant c id x c') (hl : Later may (blank config clock) c')
    (hlength : c.deeds.length < c'.deeds.length) (hw : c'.session.advance = some w) :
    IsDormant c id x (c'.extend w) := by
  obtain ⟨y, hy, hd⟩ := h
  have hturn := turn hw
  obtain ⟨z, hz, hyz⟩ := hturn.undergoes.states hy
  have hle := length_extend_le (c := c') w
  refine ⟨z, hz, fun hdisposes => ?_, fun {j} hj hdj => ?_, ?_, fun {n p} hn hb hp hs => ?_⟩
  · rw [hyz.target, hd.target fun j hj hdj => hdisposes j hj (getElem?_extend.2 (.inl hdj))]
    intro hnext
    exact hdisposes _ hlength (getElem?_extend.2 (.inr ⟨rfl, hnext⟩))
  · rcases getElem?_extend.1 hdj with hdj | ⟨rfl, hnext⟩
    · rcases target_of_undergoes hturn.undergoes hy hz with he | hn
      · rw [he]
        exact hd.cut hj hdj
      · exact hn
    · exact (hyz.severed hnext).1
  · rcases hd.status with hundefined | hroused
    · by_cases hz' : z.status = .undefined
      · exact .inl hz'
      · have hrouses := (advance_rouses_iff hl hw hy hd hz hundefined).1 hz'
        refine .inr ⟨_, hlength, ?_, hrouses⟩
        rcases hrouses with ⟨v, hm, -⟩ | ⟨n, p, hm, -⟩ <;> exact lt_length_of_getElem? hm
    · exact .inr (hroused.extend.mono hle)
  · rcases getElem?_extend.1 hb with hb | ⟨rfl, hnext⟩
    · exact (hd.began hn hb hp hs).extend
    · -- only a state with another status is discarded
      obtain ⟨y', hy', -, hdiscards⟩ := (hnext ▸ hturn).source
      rw [hs, hy] at hy'
      obtain rfl := Option.some.inj hy'
      exact (hd.status.resolve_left (hdiscards hp).2).extend

/-- **A discarded state is dormant ever after.** -/
theorem dormant_of_later (h : Later may (blank config clock) (c.extend u))
    (hlength : c.deeds.length < (c.extend u).deeds.length) (hx : u.store.state? id = some x)
    (hstatus : x.status = .undefined) (hl : Later may (c.extend u) c') :
    IsDormant c id x c' ∧ c.deeds.length < c'.deeds.length := by
  induction hl with
  | refl => exact ⟨isDormant_of_undefined hx hstatus, hlength⟩
  | tail hl hm ih =>
    obtain ⟨hdormant, hlength⟩ := ih
    rcases hm.still_or_advance with hstill | ⟨w, hw, rfl⟩
    · obtain ⟨_, hstore⟩ := hstill.store
      rw [IsDormant, hstore, hstill.deeds]
      exact ⟨hdormant, hlength⟩
    · exact ⟨hdormant.extend (h.trans hl) hlength hw,
        Nat.lt_of_lt_of_le hlength (length_extend_le w)⟩

/-! ## When a discard returns -/

/-- A discard that begins no pass is about a state that exists. -/
theorem exists_of_discards {s : Session} {n : Nat} (hd : s.deed? n = some (.discards id)) :
    ∃ x, s.store.state? id = some x := by
  obtain ⟨_, action, _, _, _, _, _, -, ho, hd⟩ := action_of_deed? hd not_false
  obtain ⟨name, rfl, hn⟩ := Store.eq_discard_of_deed? hd
  cases hx : s.store.state? id with
  | some x => exact ⟨x, rfl⟩
  | none =>
    rw [Store.perform, Store.find, hn] at ho
    simp only [hx] at ho
    cases ho

/-- The pass of a discard returns, and the state is undefined. -/
theorem undefined_of_ends (h : Later may (blank config clock) c) (hu : c.session.advance = some u)
    {n : Nat} {p : Pass} (hn : c.next? = some (.ends n p)) (hp : p.discards = true) :
    ∃ x, u.store.state? p.source = some x ∧ x.status = .undefined := by
  have hsound := (valid_of_later h).sound
  obtain ⟨-, rest, hs⟩ := frames_of_ends hn
  rw [hs] at hsound
  obtain ⟨w, hw, -, x, hx, hstatus, -⟩ := advance_returns hs hsound.pass_source hp
  obtain rfl := Option.some.inj (hu.symm.trans hw)
  exact ⟨x, hx, hstatus⟩

/-- **A discarded state stays undefined until it is roused.**  A discard of a state returns: its
pass ends, and the state is undefined, or there was nothing to do.  If the state is undefined then,
it goes on to be so, and its listeners are not told of another discard of it, until it is given a
status or, unless it was disposed of, its observer is told that its target was modified or
destroyed.  And every time that it is undefined, the next step changes this if and only if it does
one of the two. -/
theorem discarded_until_roused (h : Later Any (blank config clock) c)
    (hu : c.session.advance = some u)
    (hd : c.next? = some (.discards id) ∨
      ∃ n p, c.next? = some (.ends n p) ∧ p.discards = true ∧ p.source = id) :
    ∃ x, u.store.state? id = some x ∧
      (c.next? ≠ some (.discards id) → x.status = .undefined) ∧
      (x.status = .undefined → ∀ c' : Chronicle, Later Any (c.extend u) c' →
        (∃ y, c'.session.store.state? id = some y ∧
          (y.status = .undefined ∨ c.Roused id x c'.deeds c'.deeds.length) ∧
          ∀ w, c'.session.advance = some w → y.status = .undefined →
            ∃ z, w.store.state? id = some z ∧
              (z.status ≠ .undefined ↔ c.Rouses id x (c'.extend w).deeds c'.deeds.length)) ∧
        ∀ (a n : Nat) (q : Pass) (l : ListenerId), c'.deeds[a]? = some (.tells n q l) →
          q.discards = true → q.source = id → c.deeds.length < n → c.Roused id x c'.deeds n) := by
  obtain ⟨x, hx, hended⟩ : ∃ x, u.store.state? id = some x ∧
      (c.next? ≠ some (.discards id) → x.status = .undefined) := by
    rcases hd with hd | ⟨n, p, hn, hp, rfl⟩
    · obtain ⟨x, hx⟩ := exists_of_discards hd
      obtain ⟨y, hy, -⟩ := (turn hu).undergoes.states hx
      exact ⟨y, hy, fun hnot => absurd hd hnot⟩
    · obtain ⟨x, hx, hstatus⟩ := undefined_of_ends h hu hn hp
      exact ⟨x, hx, fun _ => hstatus⟩
  have hlength : c.deeds.length < (c.extend u).deeds.length := by
    obtain ⟨e, he⟩ : ∃ e, c.next? = some e := by
      rcases hd with hd | ⟨n, p, hn, -⟩
      · exact ⟨_, hd⟩
      · exact ⟨_, hn⟩
    exact lt_length_of_getElem? (getElem?_extend.2 (.inr ⟨rfl, he⟩))
  refine ⟨x, hx, hended, fun hstatus c' hl => ?_⟩
  have hextend := h.tail (.advance hu)
  have hreached := hextend.trans hl
  obtain ⟨⟨y, hy, hdormant⟩, -⟩ := dormant_of_later hextend hlength hx hstatus hl
  refine ⟨⟨y, hy, hdormant.status, fun w hw hundefined => ?_⟩, fun a n q l ha hq hs hn => ?_⟩
  · obtain ⟨z, hz, -⟩ := (turn hw).undergoes.states hy
    exact ⟨z, hz, advance_rouses_iff hreached hw hy hdormant hz hundefined⟩
  · obtain ⟨-, hbegan, -⟩ := began_of_told hreached ha
    exact hdormant.began hn hbegan hq hs

/-! ## An overlay that is discarded and goes stale -/

/-- An overlay with a listener is discarded.  The listener has been told. -/
def forgotten : Chronicle :=
  let listening := (overlaid.ask (.listen "a" false [])).next
  let added := (listening.ask (.act (.add "o" "a"))).next
  (added.ask (.act (.discard "o"))).steps 2

theorem later_forgotten : Later Any (blank .default .epoch) forgotten := by
  have listening := (later_overlaid.ask (r := .listen "a" false []) trivial rfl).next
  have added := (listening.ask (r := .act (.add "o" "a")) trivial rfl).next
  exact (added.ask (r := .act (.discard "o")) trivial rfl).steps 2

/-- Then the target is modified. -/
def remembered : Chronicle := (forgotten.next.ask (.act (.notify "x" .modified))).steps 3

theorem later_remembered : Later Any forgotten.next remembered :=
  (Later.ask .refl trivial rfl).steps 3

/-- The overlay is stale, and its listener is told of another discard. -/
theorem discarded_until_roused_stale :
    let c' := (remembered.ask (.act (.discard "o"))).steps 2
    ∃ p x y q, Later Any (blank .default .epoch) forgotten ∧
      forgotten.next? = some (.ends 2 p) ∧ p.discards = true ∧ p.source = 1 ∧
      forgotten.next.session.store.state? 1 = some x ∧ x.status = .undefined ∧
      remembered.session.store.state? 1 = some y ∧ y.status = .staleModified ∧
      c'.deeds[9]? = some (.tells 8 q (.client "a")) ∧ q.discards = true ∧ q.source = 1 ∧
      forgotten.Roused 1 x c'.deeds 8 := by
  intro c'
  have hended : ∃ n p, forgotten.next? = some (.ends n p) ∧ p.discards = true ∧ p.source = 1 :=
    ⟨2, _, rfl, rfl, rfl⟩
  obtain ⟨x, hx, hundefined, hlater⟩ := discarded_until_roused later_forgotten rfl (.inr hended)
  have hstatus := hundefined (by rintro ⟨⟩)
  have hl : Later Any forgotten.next c' :=
    (later_remembered.ask (r := .act (.discard "o")) trivial rfl).steps 2
  obtain ⟨-, htold⟩ := hlater hstatus c' hl
  exact ⟨_, x, _, _, later_forgotten, rfl, rfl, rfl, hx, hstatus, rfl, rfl, rfl, rfl, rfl,
    htold 9 8 _ (.client "a") rfl rfl rfl (by decide)⟩

end Chronicle
end ContentOverlay
