import ContentOverlay.Proofs.Session.Links

/-!
# The order in which a listener is told

A listener may begin another pass while it is told, and that pass tells all its listeners before the
first one goes on.  So a listener which the first pass had not told by then is told by the later one
first.  This is the only way in which a listener is told of events in another order than the one in
which they were begun.

* `status_of_told` has the status of an overlay whose observer was told.
* `told_in_order` says when two passes tell a listener in their order, and what that means for an
  overlay.
* `overtaking` is a chronicle in which they do not.
-/

set_option autoImplicit false

namespace ContentOverlay
namespace Chronicle

open Session

variable {config : Config} {clock : Timestamp} {may : Request → Prop} {c : Chronicle}

/-- Somebody is told by a pass that has begun before, and that is to tell it. -/
theorem began_of_told (h : Later may (blank config clock) c) {a i : Nat} {p : Pass}
    {l : ListenerId} (ha : c.deeds[a]? = some (.tells i p l)) :
    i < a ∧ c.deeds[i]? = some (.begins p) ∧ l ∈ p.audience :=
  (valid_of_later h).numbered.began ha

/-- An overlay whose observer was told has existed then. -/
theorem overlay_of_told (h : Later may (blank config clock) c) {a i : Nat} {p : Pass}
    {o : StateId} (ha : c.deeds[a]? = some (.tells i p (.observer o))) :
    ∃ x, c.session.store.state? o = some x := by
  obtain ⟨-, hbegan, haudience⟩ := began_of_told h ha
  obtain ⟨x, hx, -⟩ := overlay_of_audience h (List.mem_of_getElem? hbegan) haudience
  exact ⟨x, hx⟩

/-- **An overlay has the status of the last event that its observer was told of**, if nothing has
given it another one since. -/
theorem status_of_told (h : Later may (blank config clock) c) {a i : Nat} {p : Pass}
    {o t : StateId} {v : Status} {x : State}
    (ha : c.deeds[a]? = some (.tells i p (.observer o))) (hmark : State.markOf p.event = some v)
    (hx : c.session.store.state? o = some x) (hxt : x.target = some t)
    (hlast : ∀ m e, a < m → c.deeds[m]? = some e → e.gives o (some t) = none) :
    x.status = v := by
  induction h generalizing x with
  | refl => cases ha
  | @tail c c' hl hm ih =>
    rcases hm.still_or_advance with hstill | ⟨u, hu, rfl⟩
    · rw [hstill.deeds] at ha hlast
      exact ih ha (hstill.state? o ▸ hx) hxt hlast
    · have hturn := turn hu
      have hlater : ∀ m e, a < m → c.deeds[m]? = some e → e.gives o (some t) = none :=
        fun m e ham he => hlast m e ham (getElem?_extend.2 (.inl he))
      obtain ⟨hia, hbegan, haudience⟩ := began_of_told (hl.tail hm) ha
      rcases getElem?_extend.1 ha with ha | ⟨rfl, hn⟩
      · obtain ⟨z, hz⟩ := overlay_of_told hl ha
        have hzt := target_before hturn.undergoes hz hx hxt
        rw [status_after hturn.undergoes hz hx hzt, ih ha hz hzt hlater]
        cases hn : c.next? with
        | none => rfl
        | some e =>
          have hgives := hlast c.deeds.length e (lt_length_of_getElem? ha)
            (getElem?_extend.2 (.inr ⟨rfl, hn⟩))
          rw [Option.bind_some, hgives]
          rfl
      · -- the step tells the observer, by a pass that has begun earlier
        have hbegan := (getElem?_extend.1 hbegan).resolve_right fun hi => hia.ne hi.1
        obtain ⟨z, hz, -⟩ := overlay_of_audience hl (List.mem_of_getElem? hbegan) haudience
        have hzt := target_before hturn.undergoes hz hx hxt
        rw [status_after hturn.undergoes hz hx hzt, hn]
        simp [Deed.gives, hmark]

/-- **When listeners are told in order.**  The number of a pass is the place at which it began.  If
two passes tell the same listener, then the earlier one tells it first if and only if it had told it
when the later one began.  In particular it does so unless the later one was begun while the earlier
one was under way.

If the listener is the observer of an overlay, the earlier pass tells it of a modification and the
later one of a destruction, then the overlay ends as destroyed in the first case and as modified in
the second, as long as nothing else gives it a status. -/
theorem told_in_order (h : Later Any (blank config clock) c) {a b i j : Nat} {p q : Pass}
    {l : ListenerId} (ha : c.deeds[a]? = some (.tells i p l))
    (hb : c.deeds[b]? = some (.tells j q l)) (hij : i < j) :
    c.deeds[i]? = some (.begins p) ∧ c.deeds[j]? = some (.begins q) ∧
    (a < b ↔ a < j) ∧ (¬ UnderWay c.deeds i j → a < b) ∧
    ∀ o t x, l = .observer o → p.event = .modified → q.event = .destroyed →
      c.session.store.state? o = some x → x.target = some t →
      (∀ m e, j < m → m ≠ a → m ≠ b → c.deeds[m]? = some e → e.gives o (some t) = none) →
      x.status = if a < j then .staleDestroyed else .staleModified := by
  obtain ⟨-, hp, -⟩ := began_of_told h ha
  obtain ⟨hjb, hq, -⟩ := began_of_told h hb
  -- the deed at which the later pass begins tells nobody
  have hne : a ≠ j := by
    rintro rfl
    rw [ha] at hq
    cases hq
  have hovertaken : j < a → b < a ∧ UnderWay c.deeds i j :=
    (valid_of_later h).numbered.overtaken ha hb hij
  refine ⟨hp, hq, ⟨fun hab => ?_, fun haj => haj.trans hjb⟩, fun hu => ?_, ?_⟩
  · by_contra haj
    have := (hovertaken (by omega)).1
    omega
  · by_contra hab
    exact hu (hovertaken (by omega)).2
  · rintro o t x rfl hpe hqe hx hxt hlast
    split
    · next haj =>
      refine status_of_told h hb (by rw [hqe]; rfl) hx hxt fun m e hm he => ?_
      exact hlast m e (by omega) (by omega) (by omega) he
    · next haj =>
      have hba := (hovertaken (by omega)).1
      refine status_of_told h ha (by rw [hpe]; rfl) hx hxt fun m e hm he => ?_
      exact hlast m e (by omega) (by omega) (by omega) he

/-! ## Overtaking -/

/-- The listener of a state answers its modification by notifying that it is destroyed. -/
def overtaking : Chronicle := answering (.notifyHere .destroyed)

theorem later_overtaking : Later Any (blank .default .epoch) overtaking :=
  later_answering (fun _ => trivial) trivial

/-- The pass that tells of the destruction. -/
def destruction : Pass := ⟨0, .destroyed, [.client "a", .observer 1], false⟩

/-- The same, but the pass tells the observer first. -/
def observerFirst : Chronicle :=
  { overtaking.next with
    session := { overtaking.next.session with
      frames := [.pass modification [.observer 1, .client "a"], .requests none [] []] } }

theorem later_observerFirst : Later Any (blank .default .epoch) observerFirst :=
  later_overtaking.next.tail
    (.reorder rfl (List.Perm.swap (ListenerId.client "a") (.observer 1) []))

theorem told_in_order_observerFirst :
    let c := observerFirst.steps 8
    ∃ x, Later Any (blank .default .epoch) c ∧
      c.deeds[3]? = some (.tells 2 modification (.observer 1)) ∧
      c.deeds[7]? = some (.tells 5 destruction (.observer 1)) ∧
      c.session.store.state? 1 = some x ∧ x.target = some 0 ∧ x.status = .staleDestroyed := by
  intro c
  have hl : Later Any (blank .default .epoch) c := later_observerFirst.steps 8
  have hmodified : c.deeds[3]? = some (.tells 2 modification (.observer 1)) := rfl
  have hdestroyed : c.deeds[7]? = some (.tells 5 destruction (.observer 1)) := rfl
  obtain ⟨-, -, -, -, hoverlay⟩ := told_in_order hl hmodified hdestroyed (by decide)
  refine ⟨_, hl, hmodified, hdestroyed, rfl, rfl, hoverlay 1 0 _ rfl rfl rfl rfl rfl ?_⟩
  intro m e hm ha hb he
  have hlt : m < 10 := lt_length_of_getElem? he
  obtain rfl | rfl | rfl : m = 6 ∨ m = 8 ∨ m = 9 := by omega
  all_goals
    cases he
    rfl

/-- The observer is told by the later one of two passes first: the overlay ends as modified,
though its target was destroyed after the modification. -/
theorem overtaken_observer :
    let c := overtaking.steps 9
    ∃ x, Later Any (blank .default .epoch) c ∧
      c.deeds[2]? = some (.begins modification) ∧ c.deeds[4]? = some (.begins destruction) ∧
      c.deeds[8]? = some (.tells 2 modification (.observer 1)) ∧
      c.deeds[6]? = some (.tells 4 destruction (.observer 1)) ∧
      c.session.store.state? 1 = some x ∧ x.target = some 0 ∧ x.status = .staleModified :=
  ⟨_, later_overtaking.steps 9, rfl, rfl, rfl, rfl, rfl, rfl, rfl⟩

end Chronicle
end ContentOverlay
