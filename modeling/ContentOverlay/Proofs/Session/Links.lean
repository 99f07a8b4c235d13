import ContentOverlay.Proofs.Session.Numbering

/-!
# Links between states

An overlay has a target and an observer that is registered with it.  A target has no target itself,
and an observer is registered with nobody else.  A listener that acts is being told by a pass below
it, and so the state that it is told of is held.  It follows that an overlay which nobody holds any
more is never held again: it has lost its last name, and no pass of it can begin.

* `Linked` is the invariant.
* `isHeld_of_turn` says that an overlay is held after a step only if it was held before.
* `Valid` puts the invariants of chronicles together, and `Valid.later` carries them along.
* `heard_suffix_of_later` says what was heard by the deeds of a chronicle, and `overlay_of_audience`
  whose observers a pass tells.
-/

set_option autoImplicit false

namespace ContentOverlay
namespace Session

/-- Every listener that acts is being told by a pass below it. -/
def Attended : List Frame → Prop
  | [] => True
  | .requests (some (c, _)) _ _ :: rest => c.emitter ∈ sources rest ∧ Attended rest
  | .requests none _ _ :: rest => Attended rest
  | .pass _ _ :: rest => Attended rest

/-- What holds of targets and observers at every moment. -/
structure Linked (fs : List Frame) (st : Store) : Prop where
  attended : Attended fs
  targets : ∀ {id x t}, st.state? id = some x → x.target = some t →
    ∃ y, st.state? t = some y ∧ y.target = none
  /-- An observer is registered with the target of its overlay, or the overlay has none any more. -/
  observers : ∀ {id x o}, st.state? id = some x → .observer o ∈ x.registry.entries →
    ∃ y, st.state? o = some y ∧ (y.target = some id ∨ y.target = none)

variable {fs fs' : List Frame} {st st' : Store} {h : Holding} {d : Option Deed}

/-! ## Deeds keep the links -/

/-- What became of a state that was there already. -/
theorem target_of_undergoes (hu : st.Undergoes h d st') {id : StateId} {x y : State}
    (hx : st.state? id = some x) (hy : st'.state? id = some y) :
    y.target = x.target ∨ y.target = none := by
  obtain ⟨z, hz, hxz⟩ := hu.states hx
  obtain rfl : z = y := Option.some.inj (hz.symm.trans hy)
  by_cases hd : d = some (.disposes id)
  · exact .inr (hxz.severed hd).1
  · exact .inl (hxz.target hd)

theorem target_before (hu : st.Undergoes h d st') {id t : StateId} {x y : State}
    (hx : st.state? id = some x) (hy : st'.state? id = some y) (ht : y.target = some t) :
    x.target = some t := by
  rcases target_of_undergoes hu hx hy with he | hn
  · rw [← he, ht]
  · rw [ht] at hn
    cases hn

theorem status_after (hu : st.Undergoes h d st') {id t : StateId} {x y : State}
    (hx : st.state? id = some x) (hy : st'.state? id = some y) (ht : x.target = some t) :
    y.status = (d.bind (·.gives id (some t))).getD x.status := by
  obtain ⟨z, hz, hxz⟩ := hu.states hx
  obtain rfl : z = y := Option.some.inj (hz.symm.trans hy)
  rw [hxz.status, ht]

theorem targets_of_undergoes (hu : st.Undergoes h d st')
    (ht : ∀ {id x t}, st.state? id = some x → x.target = some t →
      ∃ y, st.state? t = some y ∧ y.target = none) {id : StateId} {x : State} {t : StateId}
    (hx : st'.state? id = some x) (hxt : x.target = some t) :
    ∃ y, st'.state? t = some y ∧ y.target = none := by
  -- whoever was a target before has no target of its own afterwards
  have hkept : ∀ {y}, st.state? t = some y → y.target = none →
      ∃ y, st'.state? t = some y ∧ y.target = none := by
    intro y hy hyt
    obtain ⟨z, hz, -⟩ := hu.states hy
    rcases target_of_undergoes hu hy hz with hzt | hzt
    · exact ⟨z, hz, hzt.trans hyt⟩
    · exact ⟨z, hz, hzt⟩
  cases hw : st.state? id with
  | some w =>
    rcases target_of_undergoes hu hw hx with hwt | hwt
    · obtain ⟨y, hy, hyt⟩ := ht hw (hwt ▸ hxt)
      exact hkept hy hyt
    · rw [hxt] at hwt
      cases hwt
  | none =>
    rcases (hu.fresh hw hx).2 with hn | ⟨t', v, rfl, ht'⟩
    · rw [hxt] at hn
      cases hn
    · obtain rfl : t = t' := Option.some.inj (hxt.symm.trans ht')
      obtain ⟨-, ⟨y, hy, hyt⟩, -⟩ := hu.overlaid rfl
      exact hkept hy hyt

theorem observers_of_undergoes (hu : st.Undergoes h d st')
    (ho : ∀ {id x o}, st.state? id = some x → .observer o ∈ x.registry.entries →
      ∃ y, st.state? o = some y ∧ (y.target = some id ∨ y.target = none))
    {id : StateId} {x : State} {o : StateId} (hx : st'.state? id = some x)
    (hxo : .observer o ∈ x.registry.entries) :
    ∃ y, st'.state? o = some y ∧ (y.target = some id ∨ y.target = none) := by
  cases hw : st.state? id with
  | none =>
    rw [(hu.fresh hw hx).1] at hxo
    cases hxo
  | some w =>
    obtain ⟨z, hz, hwz⟩ := hu.states hw
    obtain rfl : z = x := Option.some.inj (hz.symm.trans hx)
    rcases hwz.entries _ hxo with hxo | hr
    · obtain ⟨y, hy, hyt⟩ := ho hw hxo
      obtain ⟨z', hz', -⟩ := hu.states hy
      refine ⟨z', hz', ?_⟩
      rcases target_of_undergoes hu hy hz' with he | hn
      · rw [he]
        exact hyt
      · exact .inr hn
    · obtain ⟨e, rfl, he⟩ := Option.bind_eq_some_iff.1 hr
      obtain ⟨v, rfl⟩ := Deed.eq_overlays_of_registers he
      obtain ⟨-, -, y, hy, hyt, -⟩ := hu.overlaid rfl
      exact ⟨y, hy, .inl hyt⟩

theorem Linked.undergoes (hl : Linked fs st) (hu : st.Undergoes h d st') (ha : Attended fs') :
    Linked fs' st' where
  attended := ha
  targets := targets_of_undergoes hu hl.targets
  observers := observers_of_undergoes hu hl.observers

/-! ## One step -/

theorem attended_answer {a : Answer} (h : Attended fs) : Attended (answer a fs) := by
  unfold answer
  split
  · next caller _ _ _ => cases caller <;> exact h
  · exact h

variable {s t : Session} {n : Nat}

theorem Attended.of_turn (ha : Attended s.frames) (ht : Turn n s t d) : Attended t.frames := by
  cases ht with
  | @answers caller _ _ _ _ _ _ before after =>
    rw [before] at ha
    rw [after]
    cases caller <;> exact ha
  | @begins caller _ _ _ _ _ before after =>
    rw [before] at ha
    rw [after]
    cases caller <;> exact ha
  | breaks _ after =>
    rw [after]
    trivial
  | returns before after =>
    rw [before] at ha
    rw [after]
    exact ha.2
  | tells before after =>
    rw [before] at ha
    rcases after with after | ⟨_, _, _, after⟩
    · rw [after]
      exact ha
    · rw [after]
      exact ⟨List.mem_cons_self, ha⟩
  | ends before after =>
    rw [before] at ha
    rw [after]
    exact attended_answer ha

theorem Turn.undergoes (ht : Turn n s t d) : s.store.Undergoes s.holding d t.store := by
  cases ht with
  | answers _ _ _ _ undergoes => exact undergoes
  | begins _ _ starts => exact starts.undergoes
  | breaks _ _ undergoes => exact undergoes
  | returns _ _ store => rw [store]; exact Store.undergoes_self
  | tells _ _ undergoes => exact undergoes
  | ends _ _ undergoes => exact undergoes

theorem Linked.of_turn (hl : Linked s.frames s.store) (ht : Turn n s t d) :
    Linked t.frames t.store :=
  hl.undergoes ht.undergoes (hl.attended.of_turn ht)

/-- The observers that a new pass is to tell belong to overlays of its state, or to such as have
given up their target. -/
theorem Linked.overlay_of_begins (hl : Linked s.frames s.store) {p : Pass}
    (ht : Turn n s t (some (.begins p))) {o : StateId} (ho : .observer o ∈ p.audience) :
    ∃ x, s.store.state? o = some x ∧ (x.target = some p.source ∨ x.target = none) := by
  obtain ⟨x, hx, haudience, -⟩ := ht.source
  rw [haudience] at ho
  exact hl.observers hx (List.mem_of_mem_filter ho)

/-! ## What is heard -/

theorem Turn.hears (ht : Turn n s t d) : d.toList.flatMap Deed.hears = s.hearing := by
  cases ht with
  | @answers _ _ _ _ _ d _ before _ apart =>
    rw [hearing, before]
    cases d with
    | none => rfl
    | some e => cases e <;> first | rfl | exact absurd trivial (apart _ rfl)
  | tells before => rw [hearing, before]; exact List.append_nil _
  | begins before | breaks before | returns before | ends before => rw [hearing, before]; rfl

theorem Step.heard (hstep : Step s t) (hs : Sound s.frames s.store) :
    heard t.log = heard s.log ++ s.hearing := by
  cases hstep with
  | answers _ before _ _ log | begins before _ _ log =>
    rw [hearing, before, log]
    exact (List.append_nil _).symm
  | breaks before after =>
    rw [hearing, before, after]
    exact (heard_foldl_logAbandoned ..).trans (List.append_nil _).symm
  | returns before after =>
    rw [hearing, before, after]
    exact (heard_fillIn ..).trans (List.append_nil _).symm
  | tells before _ _ log =>
    rw [hearing, log (hs.sources _ (by simp [before])), before]
  | ends before after =>
    rw [hearing, before, after]
    exact (List.append_nil _).symm

/-! ## Who is held -/

/-- A state is held by a name or by a running pass. -/
def IsHeld (s : Session) (id : StateId) : Prop := s.store.isHeld s.holding id = true

theorem isHeld_iff {id : StateId} :
    s.IsHeld id ↔ s.store.names.any (·.2 = id) = true ∨ id ∈ sources s.frames :=
  Store.isHeld_iff

theorem emitter_mem_sources {caller : Option (Caller × Nat)} {todo : List Request}
    {answers : List Answer} {rest : List Frame}
    (ha : Attended (.requests caller todo answers :: rest)) {c : Caller}
    (hc : c ∈ caller.map (·.1)) : c.emitter ∈ sources rest := by
  obtain ⟨⟨c', k⟩, rfl, rfl⟩ := Option.map_eq_some_iff.1 hc
  exact ha.1

/-- A pass is about a state that is held already. -/
theorem sources_of_turn (ha : Attended s.frames) (ht : Turn n s t d) {id : StateId}
    (hid : id ∈ sources t.frames) : s.IsHeld id := by
  rw [isHeld_iff]
  cases ht with
  | answers _ before after =>
    rw [after] at hid
    rw [before]
    exact .inr hid
  | begins before after starts =>
    rw [after, sources_pass, List.mem_cons] at hid
    rw [before] at ha ⊢
    rcases hid with rfl | hid
    · rcases starts.held with hn | ⟨c, hc, he⟩
      · exact .inl hn
      · exact .inr (he ▸ emitter_mem_sources ha hc)
    · exact .inr hid
  | breaks _ after =>
    rw [after] at hid
    cases hid
  | returns before after =>
    rw [after] at hid
    rw [before]
    exact .inr hid
  | tells before after =>
    rw [before]
    rcases after with after | ⟨_, _, _, after⟩ <;> rw [after] at hid <;> exact .inr hid
  | ends before after =>
    rw [after, sources_answer] at hid
    rw [before]
    exact .inr (List.mem_cons_of_mem _ hid)

/-- **An overlay that nobody holds is never held again.** -/
theorem isHeld_of_turn (hl : Linked s.frames s.store) (ht : Turn n s t d) {o : StateId} {x : State}
    (hx : s.store.state? o = some x) (htarget : x.target ≠ none) (hh : t.IsHeld o) :
    s.IsHeld o := by
  rcases isHeld_iff.1 hh with hn | hid
  · rcases ht.undergoes.named hn with hn | hn | ⟨i, y, hy, hyo⟩
    · exact isHeld_iff.2 (.inl hn)
    · rw [hx] at hn
      cases hn
    · -- it would be the target of another state
      obtain ⟨z, hz, hzt⟩ := hl.targets hy hyo
      obtain rfl : x = z := Option.some.inj (hx.symm.trans hz)
      exact absurd hzt htarget
  · exact sources_of_turn hl.attended ht hid

end Session

/-! ## Along a chronicle -/

namespace Chronicle

open Session

/-- What holds of every chronicle. -/
structure Valid (c : Chronicle) : Prop where
  sound : Sound c.session.frames c.session.store
  linked : Linked c.session.frames c.session.store
  numbered : IsNumbered c

variable {config : Config} {clock : Timestamp} {c c' : Chronicle} {may : Request → Prop}

theorem valid_blank (config : Config) (clock : Timestamp) : Valid (blank config clock) where
  sound := sound_start config clock
  linked := by
    refine ⟨trivial, ?_, ?_⟩
    · intro _ _ _ h
      cases h
    · intro _ _ _ h
      cases h
  numbered := isNumbered_blank config clock

theorem Valid.move (h : Valid c) (hm : Move may c c') : Valid c' := by
  cases hm with
  | submit r _ idle =>
    refine ⟨h.sound.submit idle r, ⟨trivial, h.linked.targets, h.linked.observers⟩, ?_⟩
    have hn := h.numbered
    unfold IsNumbered at *
    rw [passesOf_of_idle h.sound.grounded idle] at hn
    exact hn
  | advance step =>
    exact ⟨h.sound.step (step_of_advance step), h.linked.of_turn (turn step),
      h.numbered.extend step⟩
  | reorder before perm =>
    have hs := h.sound
    have hl := h.linked
    have hn := h.numbered
    unfold IsNumbered at *
    rw [before] at hs hl hn
    exact ⟨hs.told, ⟨hl.attended, hl.targets, hl.observers⟩, hn.reorder perm⟩
  | elapse =>
    exact ⟨h.sound.steady (.of_states_eq rfl),
      ⟨h.linked.attended, h.linked.targets, h.linked.observers⟩, h.numbered⟩

theorem Valid.later (h : Valid c) (hl : Later may c c') : Valid c' := by
  induction hl with
  | refl => exact h
  | tail _ hm ih => exact ih.move hm

theorem valid_of_later (h : Later may (blank config clock) c) : Valid c :=
  (valid_blank config clock).later h

/-- Nothing is done by a move.  A pass under way has the same listeners left, perhaps in another
order, and the clock may have another time. -/
structure Still (c c' : Chronicle) : Prop where
  deeds : c'.deeds = c.deeds
  store : ∃ time, c'.session.store = c.session.store.elapse time
  held : ∀ {o}, c'.session.IsHeld o → c.session.IsHeld o
  passes : Valid c → List.Forall₂ (fun f g => f.1 = g.1 ∧ f.2.Perm g.2)
    (passesOf c'.session.frames) (passesOf c.session.frames)

theorem Still.state? (h : Still c c') (id : StateId) :
    c'.session.store.state? id = c.session.store.state? id := by
  obtain ⟨_, hstore⟩ := h.store
  rw [hstore]
  rfl

theorem still_ask (idle : c.session.advance = none) (r : Request) : Still c (c.ask r) := by
  refine ⟨rfl, ⟨_, rfl⟩, fun hh => ?_, fun hv => ?_⟩
  · rcases isHeld_iff.1 hh with hn | hs
    · exact isHeld_iff.2 (.inl hn)
    · cases hs
  · rw [passesOf_of_idle hv.sound.grounded idle]
    exact .nil

theorem still_elapse (c : Chronicle) (time : Timestamp) : Still c (c.elapse time) :=
  ⟨rfl, ⟨time, rfl⟩, id, fun _ => List.forall₂_same.2 fun _ _ => ⟨rfl, .refl _⟩⟩

/-- A move is a step, or nothing is done by it. -/
theorem Move.still_or_advance (hm : Move may c c') :
    Still c c' ∨ ∃ t, c.session.advance = some t ∧ c' = c.extend t := by
  cases hm with
  | submit r _ idle => exact .inl (still_ask idle r)
  | advance step => exact .inr ⟨_, step, rfl⟩
  | reorder before perm =>
    refine .inl ⟨rfl, ⟨_, rfl⟩, fun hh => isHeld_iff.2 ?_, fun _ => ?_⟩
    · rw [before]
      exact isHeld_iff.1 hh
    · rw [before]
      exact .cons ⟨rfl, perm⟩ (List.forall₂_same.2 fun _ _ => ⟨rfl, .refl _⟩)
  | elapse time => exact .inl (still_elapse c time)

/-- **What the clients' listeners heard** since the last request is what was told to them last. -/
theorem heard_suffix_of_later (h : Later may (blank config clock) c) :
    heard c.session.log <:+ c.deeds.flatMap Deed.hears := by
  induction h with
  | refl => exact List.nil_suffix
  | @tail c c' hl hm ih =>
    cases hm with
    | submit => exact List.nil_suffix
    | reorder | elapse => exact ih
    | advance step =>
      have hsound := (valid_of_later hl).sound
      rw [Chronicle.extend, (step_of_advance step).heard hsound, List.flatMap_append,
        (turn step).hears]
      obtain ⟨earlier, he⟩ := ih
      exact ⟨earlier, by rw [← he, List.append_assoc]⟩

/-- The same of a pass that has begun at some time. -/
theorem overlay_of_audience (h : Later may (blank config clock) c) {p : Pass} {o : StateId}
    (hp : .begins p ∈ c.deeds) (ho : .observer o ∈ p.audience) :
    ∃ x, c.session.store.state? o = some x ∧ (x.target = some p.source ∨ x.target = none) := by
  induction h with
  | refl => cases hp
  | @tail c c' hl hm ih =>
    rcases hm.still_or_advance with hstill | ⟨u, hu, rfl⟩
    · rw [hstill.state?]
      exact ih (hstill.deeds ▸ hp)
    · have hturn := turn hu
      have hbefore : ∃ x, c.session.store.state? o = some x ∧
          (x.target = some p.source ∨ x.target = none) := by
        rcases List.mem_append.1 hp with hp | hp
        · exact ih hp
        · rw [Option.mem_toList.1 hp] at hturn
          exact (valid_of_later hl).linked.overlay_of_begins hturn ho
      obtain ⟨x, hx, hxt⟩ := hbefore
      obtain ⟨y, hy, -⟩ := hturn.undergoes.states hx
      refine ⟨y, hy, ?_⟩
      rcases target_of_undergoes hturn.undergoes hx hy with he | hn
      · rw [he]
        exact hxt
      · exact .inr hn

end Chronicle
end ContentOverlay
