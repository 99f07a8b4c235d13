import ContentOverlay.Proofs.Session.Calm
import ContentOverlay.Proofs.Session.Subscription

/-!
# Staleness

When a pass begins, it is settled which status an overlay will have at its end, as long as no
listener interferes: the observers of the overlays are told in some order, and the state under
discard becomes undefined when the pass is over.  So in a calm chronicle the status of an overlay is
the one of the last deed that means a status for it.

* `Deed.marks` is the status that a deed means for an overlay, and `Deed.Spares` says that it means
  none.
* `settled` is the status that an overlay will have at the end of the pass under way, and
  `settled_of_turn` says how it changes by a step.
* `settled_of_since` follows it through a chronicle, and `staleness_exact` reads it off when nothing
  is under way.
-/

set_option autoImplicit false

namespace ContentOverlay
namespace Deed

/-- The status that a deed means for an overlay of this target. -/
def marks (overlay target : StateId) : Deed → Option Status
  | sets i v => if i = overlay then some v else none
  | discards i => if i = overlay then some .undefined else none
  | begins p =>
    if p.discards then if p.source = overlay then some .undefined else none
    else if p.source = target then
      match p.event with
      | .modified => some .staleModified
      | .destroyed => some .staleDestroyed
      | .created | .discarded => none
    else none
  | _ => none

/-- A pass of the target means for an overlay what its observer gives to it on the event. -/
theorem marks_begins {o t : StateId} {p : Pass} : (begins p).marks o t =
    if p.discards then if p.source = o then some .undefined else none
    else if p.source = t then State.markOf p.event else none := by
  rw [marks]
  cases p.event <;> rfl

/-- A deed is not about an overlay of this target.  It may set, discard or dispose of other states,
though not dispose of the target, and tell the listeners of other states of anything, but those of
the target only that it was created or discarded. -/
def Spares (overlay target : StateId) : Deed → Prop
  | sets i _ => i ≠ overlay
  | discards i => i ≠ overlay
  | disposes i => i ≠ overlay ∧ i ≠ target
  | begins p =>
    (p.discards = true → p.source ≠ overlay) ∧
      (p.source = target → p.event = .created ∨ p.event = .discarded)
  | _ => True

theorem Spares.marks {o t : StateId} {d : Deed} (h : d.Spares o t) : d.marks o t = none := by
  cases d
  case sets => exact if_neg h
  case discards => exact if_neg h
  case begins p =>
    rw [marks_begins]
    split
    · next hd => exact if_neg (h.1 hd)
    · split
      · next hs => rcases h.2 hs with he | he <;> rw [he] <;> rfl
      · rfl
  all_goals rfl

/-- What is done while no pass is under way gives a status at once. -/
theorem gives_eq_marks {o t : StateId} {d : Deed} (hpass : d.OfPass → d = .breaks)
    (hdisposes : d ≠ .disposes o) (hdiscards : d ≠ .discards o) :
    d.gives o (some t) = d.marks o t := by
  cases d
  case disposes i => exact if_neg fun hi => hdisposes (by rw [hi])
  case discards i => exact (if_neg fun hi => hdiscards (by rw [hi])).symm
  case begins | tells | ends => cases hpass trivial
  all_goals rfl

theorem IsGentle.gives {o : StateId} {target : Option StateId} {d : Deed} (h : d.IsGentle) :
    d.gives o target = none := by
  cases d <;> first | rfl | exact absurd h id

theorem IsGentle.marks {o t : StateId} {d : Deed} (h : d.IsGentle) : d.marks o t = none := by
  cases d <;> first | rfl | exact absurd h id

theorem gives_tells_of_ne {n : Nat} {p : Pass} {l : ListenerId} {o : StateId}
    {target : Option StateId} (hl : l ≠ .observer o) : (tells n p l).gives o target = none := by
  cases l with
  | client => rfl
  | observer i => exact if_neg fun hi => hl (by rw [hi.1])

end Deed

namespace Session

/-- The status that an overlay will have when the pass under way has ended. -/
def settled (passes : List (Pass × List ListenerId)) (o : StateId) (v : Status) : Status :=
  match passes with
  | [] => v
  | (p, pending) :: _ =>
    if p.discards ∧ p.source = o then .undefined
    else if .observer o ∈ pending then (State.markOf p.event).getD v
    else v

/-- It does not matter in which order the listeners are told that are left. -/
theorem settled_congr {passes passes' : List (Pass × List ListenerId)} (o : StateId) (v : Status)
    (h : List.Forall₂ (fun f g => f.1 = g.1 ∧ f.2.Perm g.2) passes passes') :
    settled passes o v = settled passes' o v := by
  cases h with
  | nil => rfl
  | cons hf =>
    obtain ⟨heq, hperm⟩ := hf
    simp only [settled, heq, hperm.mem_iff]

variable {s u : Session} {n : Nat} {h : Holding} {d : Option Deed} {o t : StateId} {x y : State}

/-- **What is settled for an overlay** is changed by those deeds that mean a status for it. -/
theorem settled_of_turn (hc : CalmTurn n s u d) (hu : s.store.Undergoes h d u.store)
    (hx : s.store.state? o = some x) (hy : u.store.state? o = some y) (hxt : x.target = some t)
    (hdisposes : d ≠ some (.disposes o))
    (hdiscards : Chronicle.passesOf s.frames = [] → d = some (.discards o) →
      x.status = .undefined)
    (hbegins : ∀ p, d = some (.begins p) →
      (.observer o ∈ p.audience ↔ p.source = t) ∧ (p.discards = true → p.event = .discarded)) :
    settled (Chronicle.passesOf u.frames) o y.status =
      (d.bind (·.marks o t)).getD (settled (Chronicle.passesOf s.frames) o x.status) := by
  have hstatus := status_after hu hx hy hxt
  cases hc with
  | outside before after apart =>
    rw [before, after]
    change y.status = (d.bind (·.marks o t)).getD x.status
    rw [hstatus]
    cases d with
    | none => rfl
    | some e =>
      rw [Option.bind_some, Option.bind_some]
      by_cases he : e = .discards o
      · subst he
        rw [hdiscards before rfl]
        simp [Deed.marks, Deed.gives]
      · rw [Deed.gives_eq_marks (apart e rfl) (fun he => hdisposes (by rw [he])) he]
  | @begins p before after =>
    obtain ⟨haudience, hevent⟩ := hbegins p rfl
    have hstatus : y.status = x.status := hstatus
    rw [before, after, hstatus]
    simp only [settled, Option.bind_some, Deed.marks_begins, haudience]
    cases hd : p.discards with
    | false => by_cases hs : p.source = t <;> simp [hs]
    | true =>
      rw [hevent hd]
      by_cases hs : p.source = o <;> simp [hs, State.markOf]
  | within same gentle =>
    rw [same]
    cases d with
    | none => rw [hstatus]; rfl
    | some e =>
      have he := gentle e rfl
      rw [hstatus, Option.bind_some, Option.bind_some, he.gives, he.marks]
      rfl
  | @tells p l pending before after =>
    rw [before, after, hstatus]
    simp only [settled, Option.bind_some, Deed.marks, Option.getD_none, List.mem_cons]
    by_cases hl : l = .observer o
    · -- the observer of the overlay is told now, and it will not matter if it is told again
      subst hl
      have hgives : (Deed.tells n p (.observer o)).gives o (some t) = State.markOf p.event := by
        simp [Deed.gives]
      rw [hgives]
      cases State.markOf p.event <;> simp
    · rw [Deed.gives_tells_of_ne hl, Option.getD_none]
      simp [Ne.symm hl]
  | @ends p before after =>
    rw [before, after, hstatus]
    simp only [settled, Option.bind_some, Deed.marks, Deed.gives]
    split <;> rfl

end Session

/-! ## Discarding without a pass -/

namespace Store

variable {st : Store} {id : StateId} {x : State}

theorem eq_discard_of_deed? {caller : Option Caller} {action : Action}
    (hd : action.deed? st caller = some (.discards id)) :
    ∃ name, action = .discard name ∧ st.named? name = some id := by
  cases action <;> simp only [Action.deed?, Option.map_eq_some_iff, Option.bind_eq_some_iff,
    reduceCtorEq, and_false, exists_false, Deed.discards.injEq, exists_eq_right] at hd
  exact ⟨_, rfl, hd⟩

/-- A state is discarded without a pass only if it is being discarded or undefined. -/
theorem of_perform_discard {h : Holding} {caller : Option Caller} {name : String} {a : Answer}
    {st' : Store} (hn : st.named? name = some id) (hx : st.state? id = some x)
    (ho : st.perform h caller (.discard name) = .ok (.answered a st')) :
    x.discarding = true ∨ x.status = .undefined := by
  by_contra hnot
  obtain ⟨hdiscarding, hstatus⟩ := not_or.1 hnot
  obtain ⟨st'', hd⟩ := exists_discard? (Bool.eq_false_iff.2 hdiscarding) hstatus
  rw [perform_discard_of_some (find_of_named? hn hx) caller hd] at ho
  cases ho

end Store

namespace Session

variable {s : Session} {n : Nat} {o : StateId} {x : State}

theorem discardees_of_passesOf {fs : List Frame} (h : Chronicle.passesOf fs = []) :
    discardees fs = [] := by
  refine List.filterMap_eq_nil_iff.2 fun f hf => ?_
  have hnone := List.filterMap_eq_nil_iff.1 h f hf
  cases f with
  | requests => rfl
  | pass => cases hnone

/-- When no pass is under way, a state is discarded without a pass only if it is undefined. -/
theorem undefined_of_discards (hs : Sound s.frames s.store)
    (hpasses : Chronicle.passesOf s.frames = []) (hd : s.deed? n = some (.discards o))
    (hx : s.store.state? o = some x) : x.status = .undefined := by
  obtain ⟨_, action, _, _, _, _, _, -, ho, hd⟩ := action_of_deed? hd not_false
  obtain ⟨name, rfl, hn⟩ := Store.eq_discard_of_deed? hd
  refine (Store.of_perform_discard hn hx ho).resolve_left fun hdiscarding => ?_
  have hmem := (hs.flags hx).1 hdiscarding
  rw [discardees_of_passesOf hpasses] at hmem
  cases hmem

end Session

/-! ## Along a chronicle -/

namespace Chronicle

open Session

variable {config : Config} {clock : Timestamp} {c : Chronicle} {o t : StateId} {v : Status}
  {post : List Deed}

/-- A pass is to tell the observer of an overlay that is held if and only if it is a pass of the
target. -/
theorem mem_audience_iff {p : Pass} {u : Session} (hv : Valid c)
    (hu : c.session.advance = some u) (hn : c.next? = some (.begins p))
    (hstanding : c.session.Standing o t v) (hsubscribed : c.session.Subscribed o t)
    (hh : c.session.IsHeld o) : .observer o ∈ p.audience ↔ p.source = t := by
  have hturn := turn hu
  rw [hn] at hturn
  refine ⟨fun hm => ?_, ?_⟩
  · obtain ⟨x, hx, hxt, -⟩ := hstanding
    obtain ⟨y, hy, hyt⟩ := hv.linked.overlay_of_begins hturn hm
    obtain rfl : x = y := Option.some.inj (hx.symm.trans hy)
    rw [hxt] at hyt
    rcases hyt with hyt | hyt <;> cases hyt
    rfl
  · rintro rfl
    exact hsubscribed.mem_audience hstanding hh hturn

/-- **What is settled for an overlay** is the status that the last deed means that means one. -/
theorem settled_of_since (h : Later Request.IsQuiet (blank config clock) c)
    (hs : c.Since (.overlays o t v) post) (ho : .disposes o ∉ post) (ht : .disposes t ∉ post)
    (hh : c.session.IsHeld o) {x : State} (hx : c.session.store.state? o = some x) :
    settled (passesOf c.session.frames) o x.status = last (·.marks o t) v post := by
  induction h generalizing post x with
  | refl => exact absurd hs not_since_blank
  | @tail c c' hl hm ih =>
    have hvalid := valid_of_later hl
    rcases hm.still_or_advance with hstill | ⟨u, hu, rfl⟩
    · rw [settled_congr o x.status (hstill.passes hvalid)]
      exact ih (by rwa [Since, ← hstill.deeds]) ho ht (hstill.held hh) (hstill.state? o ▸ hx)
    · have hturn := turn hu
      have hcalm : CalmTurn c.innermost c.session u c.next? := (calm_of_later hl).turn hu
      rcases hs.extend with ⟨rfl, hnext⟩ | ⟨post', hs', rfl⟩
      · rw [hnext] at hturn hcalm
        obtain ⟨y, hy, -, hyv⟩ := standing_of_overlays hturn
        obtain rfl : x = y := Option.some.inj (hx.symm.trans hy)
        cases hcalm with
        | outside _ after =>
          change settled (passesOf u.frames) o x.status = v
          rw [after]
          exact hyv
        | within _ gentle => exact absurd (gentle _ rfl) id
      · have ho' : .disposes o ∉ post' := fun hm => ho (List.mem_append_left _ hm)
        have ht' : .disposes t ∉ post' := fun hm => ht (List.mem_append_left _ hm)
        have hstanding := standing_of_since hl hs' ho'
        have hheld : c.session.IsHeld o := hstanding.isHeld_of_turn hvalid.linked hturn hh
        have hsubscribed := subscribed_of_since hl hs' ho' ht' hheld
        obtain ⟨z, hz, hzt, -⟩ := hstanding
        rw [last_append_toList, ← ih hs' ho' ht' hheld hz]
        refine settled_of_turn hcalm hturn.undergoes hz hx hzt (fun hn => ho (by simp [hn])) ?_ ?_
        · exact fun hp hn => undefined_of_discards hvalid.sound hp hn hz
        · intro p hn
          obtain ⟨y, -, -, hevent⟩ := (hn ▸ hturn).source
          exact ⟨mem_audience_iff hvalid hu hn ⟨z, hz, hzt, rfl⟩ hsubscribed hheld,
            fun hd => (hevent hd).1⟩

/-- The status of an overlay when nothing is under way. -/
theorem standing_of_idle (h : Later Request.IsQuiet (blank config clock) c)
    (idle : c.session.advance = none) (hs : c.Since (.overlays o t v) post)
    (ho : .disposes o ∉ post) (ht : .disposes t ∉ post) (hh : c.session.IsHeld o) :
    c.session.Standing o t (last (·.marks o t) v post) := by
  obtain ⟨x, hx, hxt, -⟩ := standing_of_since h hs ho
  have hsettled := settled_of_since h hs ho ht hh hx
  rw [passesOf_of_idle (valid_of_later h).sound.grounded idle] at hsettled
  exact ⟨x, hx, hxt, hsettled⟩

/-- **Staleness is exact.**  The listeners only take notes, look at states, and add or remove
listeners.  Whenever nothing is under way, an overlay that is held has the status of the last deed
that means one for it, starting with its construction, as long as neither it nor its target was
disposed of since.  Deeds that are not about it leave its status as it is. -/
theorem staleness_exact (h : Later Request.IsQuiet (blank config clock) c)
    (idle : c.session.advance = none) (hs : c.Since (.overlays o t v) post)
    (ho : .disposes o ∉ post) (ht : .disposes t ∉ post) (hh : c.session.IsHeld o) :
    o ≠ t ∧ c.session.Standing o t (last (·.marks o t) v post) ∧
    ∀ (c' : Chronicle) (post' : List Deed), Later Request.IsQuiet c c' →
      c'.session.advance = none → c'.session.IsHeld o → c'.deeds = c.deeds ++ post' →
      (∀ d ∈ post', d.Spares o t) → c'.session.Standing o t (last (·.marks o t) v post) := by
  have hstanding := standing_of_idle h idle hs ho ht hh
  refine ⟨?_, hstanding, ?_⟩
  · rintro rfl
    obtain ⟨x, hx, hxt, -⟩ := hstanding
    obtain ⟨y, hy, hyt⟩ := (valid_of_later h).linked.targets hx hxt
    obtain rfl : x = y := Option.some.inj (hx.symm.trans hy)
    rw [hxt] at hyt
    cases hyt
  · intro c' post' hl idle' hh' hdeeds hspares
    obtain ⟨before, hb⟩ := hs
    have hs' : c'.Since (.overlays o t v) (post ++ post') :=
      ⟨before, by rw [hdeeds, hb, List.append_assoc, List.cons_append]⟩
    have hsince := standing_of_idle (h.trans hl) idle' hs' ?_ ?_ hh'
    · rwa [last_append_of_none fun d hd => (hspares d hd).marks] at hsince
    · exact fun hm => (List.mem_append.1 hm).elim ho fun hm => (hspares _ hm).1 rfl
    · exact fun hm => (List.mem_append.1 hm).elim ht fun hm => (hspares _ hm).2 rfl

/-! ## A modification -/

/-- A node's state was modified.  Its listener has removed itself from the state. -/
def modified : Chronicle := (answering .removeSelf).steps 6

theorem later_modified : Later Request.IsQuiet (blank .default .epoch) modified := by
  refine (later_answering (fun _ => trivial) fun e he r hr => ?_).steps 6
  rw [List.mem_singleton.1 he, List.mem_singleton] at hr
  rw [hr]
  trivial

/-- A pass by which only the overlay is told that the state was created. -/
def creation : Pass := ⟨0, .created, [.observer 1], false⟩

theorem staleness_exact_modified :
    let post := [.begins modification, .tells 2 modification (.client "a"), .removes 0 "a",
      .tells 2 modification (.observer 1), .ends 2 modification]
    let c := (modified.ask (.act (.notify "x" .created))).steps 3
    Later Request.IsQuiet (blank .default .epoch) modified ∧
      modified.session.advance = none ∧ modified.Since (.overlays 1 0 .existingModified) post ∧
      modified.session.IsHeld 1 ∧ modified.session.Standing 1 0 .staleModified ∧
      c.session.Standing 1 0 .staleModified := by
  intro post c
  have hs : modified.Since (.overlays 1 0 .existingModified) post := ⟨[.adds 0 "a"], rfl⟩
  obtain ⟨-, hstanding, hlater⟩ := staleness_exact later_modified rfl hs (by simp [post])
    (by simp [post]) rfl
  refine ⟨later_modified, rfl, hs, rfl, hstanding, ?_⟩
  have hl : Later Request.IsQuiet modified c := (Later.ask .refl trivial rfl).steps 3
  have hspares : ∀ d ∈ [.begins creation, .tells 7 creation (.observer 1), .ends 7 creation],
      Deed.Spares 1 0 d := by
    simp [Deed.Spares, creation]
  exact hlater c _ hl rfl rfl rfl hspares

end Chronicle
end ContentOverlay
