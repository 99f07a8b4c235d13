import ContentOverlay.Proofs.Session.Contents
import ContentOverlay.Proofs.Session.Disposal
import ContentOverlay.Proofs.Session.Subscription

/-!
# Who keeps whom alive

States and listeners live as long as somebody keeps them.  Names, handles and running passes keep
things from outside.  Among themselves it is only overlays that keep anything: an overlay keeps its
target and its observer.  An observer does not keep its overlay, and a registry keeps nobody.

A target has no target itself.  So nothing that is kept by another object keeps a third one; there
is no way back along what keeps what, and when nobody holds a state from outside any more, no states
are left over that keep each other.

* `Store.Owns` is the graph of what keeps what, `Store.IsShallow` says that it is one level deep,
  and `IsShallow.lives_iff_owned` that an object is alive when something that is kept from outside
  leads to it.
* `target_of_later` follows the target of a state along a chronicle, `item_of_target` compares their
  items, and `since_of_target` finds the construction of an overlay.
* `links_are_shallow` puts this together.
-/

set_option autoImplicit false

namespace ContentOverlay

/-- What lives as long as somebody keeps it. -/
inductive Object where
  | state (id : StateId)
  | listener (l : ListenerId)

namespace Store

/-- One object keeps another one alive. -/
inductive Owns (st : Store) : Object → Object → Prop
  | target {o t : StateId} {x : State} (found : st.state? o = some x) (link : x.target = some t) :
      Owns st (.state o) (.state t)
  | observer {o t : StateId} {x : State} (found : st.state? o = some x)
      (link : x.target = some t) : Owns st (.state o) (.listener (.observer o))

/-- An object is kept from outside: by a name, by a handle, or by a running pass. -/
def Keeps (st : Store) (h : Holding) : Object → Prop
  | .state id => st.isHeld h id = true
  | .listener (.client name) => st.holds name = true ∨ .client name ∈ h.audience
  | .listener (.observer o) => .observer o ∈ h.audience

/-- An object is alive. -/
def Lives (st : Store) (h : Holding) : Object → Prop
  | .state id => st.isAlive h id = true
  | .listener l => st.isListening h l = true

/-- Everybody among these objects is kept, from outside or by another one of them. -/
def Supports (st : Store) (h : Holding) (among : Object → Prop) : Prop :=
  ∀ a, among a → st.Keeps h a ∨ ∃ b, among b ∧ st.Owns b a

/-- Targets have no target themselves. -/
def IsShallow (st : Store) : Prop :=
  ∀ id x t, st.state? id = some x → x.target = some t →
    ∃ y, st.state? t = some y ∧ y.target = none

variable {st : Store} {h : Holding} {a b : Object} {o t : StateId} {x : State}

/-! ## Who is alive -/

theorem overlays_iff : st.overlays o t = true ↔ ∃ x, st.state? o = some x ∧ x.target = some t := by
  rw [overlays, Option.any_eq_true]
  simp only [decide_eq_true_eq]

theorem isAlive_iff : st.isAlive h t = true ↔
    st.isHeld h t = true ∨
      ∃ o x, st.state? o = some x ∧ x.target = some t ∧ st.isHeld h o = true := by
  rw [isAlive, Bool.or_eq_true, List.any_eq_true]
  refine or_congr_right ⟨?_, ?_⟩
  · rintro ⟨o, -, ho⟩
    rw [Bool.and_eq_true] at ho
    obtain ⟨x, hx, hxt⟩ := overlays_iff.1 ho.1
    exact ⟨o, x, hx, hxt, ho.2⟩
  · rintro ⟨o, x, hx, hxt, ho⟩
    have hlt : o < st.states.length := (List.getElem?_eq_some_iff.1 hx).1
    refine ⟨o, List.mem_range.2 hlt, ?_⟩
    rw [Bool.and_eq_true]
    exact ⟨overlays_iff.2 ⟨x, hx, hxt⟩, ho⟩

namespace IsShallow

variable (hs : st.IsShallow)
include hs

/-- Nobody overlays an overlay, and so it lives only as long as it is held. -/
theorem isHeld_of_isAlive (hx : st.state? o = some x) (ht : x.target = some t)
    (ha : st.isAlive h o = true) : st.isHeld h o = true := by
  rcases isAlive_iff.1 ha with hh | ⟨i, y, hy, hyo, -⟩
  · exact hh
  · obtain ⟨z, hz, hzt⟩ := hs i y o hy hyo
    obtain rfl : x = z := Option.some.inj (hx.symm.trans hz)
    rw [ht] at hzt
    cases hzt

theorem isListening_observer_iff : st.isListening h (.observer o) = true ↔
    .observer o ∈ h.audience ∨
      ∃ x t, st.state? o = some x ∧ x.target = some t ∧ st.isHeld h o = true := by
  rw [isListening, Bool.or_eq_true, List.contains_iff_mem, hasObserver, Bool.and_eq_true,
    Option.any_eq_true]
  refine or_congr_right ⟨?_, ?_⟩
  · rintro ⟨ha, x, hx, hxt⟩
    obtain ⟨t, ht⟩ := Option.isSome_iff_exists.1 hxt
    exact ⟨x, t, hx, ht, hs.isHeld_of_isAlive hx ht ha⟩
  · rintro ⟨x, t, hx, ht, hh⟩
    exact ⟨isAlive_iff.2 (.inl hh), x, hx, Option.isSome_iff_exists.2 ⟨t, ht⟩⟩

/-- An object is alive if it is kept from outside, or by an object that is. -/
theorem lives_iff : st.Lives h a ↔ st.Keeps h a ∨ ∃ b, st.Keeps h b ∧ st.Owns b a := by
  cases a with
  | state id =>
    refine isAlive_iff.trans (or_congr_right ⟨?_, ?_⟩)
    · rintro ⟨o, x, hx, ht, hh⟩
      exact ⟨.state o, hh, .target hx ht⟩
    · rintro ⟨b, hb, hown⟩
      cases hown with
      | @target o _ x found link => exact ⟨o, x, found, link, hb⟩
  | listener l =>
    cases l with
    | client name =>
      rw [Lives, isListening, Bool.or_eq_true, List.contains_iff_mem]
      refine ⟨fun hl => .inl hl.symm, ?_⟩
      rintro (hk | ⟨b, -, hown⟩)
      · exact hk.symm
      · cases hown
    | observer o =>
      refine hs.isListening_observer_iff.trans (or_congr_right ⟨?_, ?_⟩)
      · rintro ⟨x, t, hx, ht, hh⟩
        exact ⟨.state o, hh, .observer hx ht⟩
      · rintro ⟨b, hb, hown⟩
        cases hown with
        | @observer _ t x found link => exact ⟨x, t, found, link, hb⟩

/-! ## The graph of what keeps what -/

/-- Whoever is kept by an object keeps nobody. -/
theorem not_owns (hab : st.Owns a b) (d : Object) : ¬ st.Owns b d := by
  intro hbd
  cases hab with
  | @target o t x found link =>
    obtain ⟨y, hy, hyt⟩ := hs o x t found link
    -- whatever a state keeps, it keeps it because it has a target
    obtain ⟨y', t', hy', ht'⟩ : ∃ y' t', st.state? t = some y' ∧ y'.target = some t' := by
      cases hbd with
      | target found link => exact ⟨_, _, found, link⟩
      | observer found link => exact ⟨_, _, found, link⟩
    obtain rfl : y = y' := Option.some.inj (hy.symm.trans hy')
    rw [ht'] at hyt
    cases hyt
  | observer => cases hbd

/-- There is no way back along what keeps what. -/
theorem acyclic (a : Object) : ¬ Relation.TransGen st.Owns a a := by
  intro hcycle
  obtain ⟨b, hab, -⟩ := Relation.TransGen.head'_iff.1 hcycle
  obtain ⟨d, -, hda⟩ := Relation.TransGen.tail'_iff.1 hcycle
  exact hs.not_owns hda b hab

/-- **Who is alive**: those to whom something leads that is kept from outside. -/
theorem lives_iff_owned : st.Lives h a ↔
    ∃ root, st.Keeps h root ∧ Relation.ReflTransGen st.Owns root a := by
  rw [hs.lives_iff]
  constructor
  · rintro (hk | ⟨b, hk, hba⟩)
    · exact ⟨a, hk, .refl⟩
    · exact ⟨b, hk, .single hba⟩
  · rintro ⟨root, hk, hpath⟩
    rcases hpath.cases_tail with rfl | ⟨b, hpath, hba⟩
    · exact .inl hk
    · rcases hpath.cases_tail with rfl | ⟨d, -, hdb⟩
      · exact .inr ⟨b, hk, hba⟩
      · exact absurd hba (hs.not_owns hdb a)

/-- **Nothing is left over**: objects among which everybody is kept are alive, so they do not only
keep each other. -/
theorem lives_of_supports {among : Object → Prop} (hsupp : st.Supports h among)
    (ha : among a) : st.Lives h a := by
  rw [hs.lives_iff]
  rcases hsupp a ha with hk | ⟨b, hb, hba⟩
  · exact .inl hk
  · rcases hsupp b hb with hk | ⟨d, -, hdb⟩
    · exact .inr ⟨b, hk, hba⟩
    · exact absurd hba (hs.not_owns hdb a)

end IsShallow

/-- When no state is held, none is alive. -/
theorem not_isAlive (hn : ∀ id, st.isHeld h id = false) (id : StateId) :
    st.isAlive h id = false := by
  rw [Bool.eq_false_iff, Ne, isAlive_iff]
  rintro (hh | ⟨o, -, -, -, hh⟩)
  · rw [hn] at hh
    cases hh
  · rw [hn] at hh
    cases hh

/-! ## New states -/

/-- The state that a step makes is there afterwards. -/
theorem Change.made_eq {d : Option Deed} {w : Option Write} {made : Option State} {st' : Store}
    {id : StateId} {y : State} (hc : st.Change h d w made st') (hn : st.state? id = none)
    (hy : st'.state? id = some y) : made = some y := by
  have hcontents := contents?_of_change hc id
  rw [contents?, contents?, hy, hn] at hcontents
  split at hcontents
  · next hid =>
    subst hid
    obtain ⟨x, hx, -⟩ := Option.map_eq_some_iff.1 hcontents.symm
    subst hx
    cases hc with
    | constructs =>
      rw [state?_insert, if_pos rfl] at hy
      exact hy
    | @overlays name target status x =>
      rw [state?_insertOverlay, if_pos rfl] at hy
      exact hy
  · cases hcontents

/-- An overlay is linked to the state that it was asked for, and no other new state is linked. -/
theorem target_of_constructs? {action : Action} (hx : action.constructs? st = some x) :
    (∃ as name status t, action = .overlay as name status ∧ st.named? name = some t ∧
      x.target = some t) ∨
    (∀ as name status, action ≠ .overlay as name status) ∧ x.target = none := by
  cases action
  case overlay as name status =>
    rw [Action.constructs?] at hx
    cases hf : st.find name with
    | error why =>
      rw [hf] at hx
      cases hx
    | ok found =>
      obtain ⟨t, y⟩ := found
      rw [hf] at hx
      obtain rfl := Option.some.inj hx
      exact .inl ⟨as, name, status, t, rfl, named?_of_find hf, rfl⟩
  case restore as parent status bytes =>
    rw [Action.constructs?] at hx
    split at hx
    · cases hx
    · obtain rfl := Option.some.inj hx
      exact .inr ⟨by simp, rfl⟩
  case newProperty | newNode =>
    obtain rfl := Option.some.inj hx
    exact .inr ⟨by simp, rfl⟩
  all_goals cases hx

end Store

namespace Session

variable {s : Session}

/-- What is read off an action that is answered at once. -/
theorem exists_of_ofAnswered {α : Type} {f : Action → Option α} {v : α}
    (hv : s.ofAnswered f = some v) : ∃ caller action todo answers rest,
      s.frames = .requests caller (.act action :: todo) answers :: rest ∧ f action = some v := by
  unfold ofAnswered at hv
  split at hv
  · next hs =>
    split at hv
    · exact ⟨_, _, _, _, _, hs, hv⟩
    · cases hv
  · cases hv

end Session

/-! ## Along a chronicle -/

namespace Chronicle

open Session

variable {config : Config} {clock : Timestamp} {may : Request → Prop} {c c' : Chronicle}
  {id o t : StateId} {x : State}

theorem isShallow_of_later (h : Later may (blank config clock) c) :
    c.session.store.IsShallow :=
  fun _ _ _ hx ht => (valid_of_later h).linked.targets hx ht

/-- **The target of a state** remains as it is until the state is disposed of, and from then on
there is none. -/
theorem target_of_later (hl : Later may c c') (hx : c.session.store.state? id = some x) :
    ∃ y post, c'.session.store.state? id = some y ∧ c'.deeds = c.deeds ++ post ∧
      (.disposes id ∉ post → y.target = x.target) ∧ (.disposes id ∈ post → y.target = none) := by
  induction hl with
  | refl => exact ⟨x, [], hx, (List.append_nil _).symm, fun _ => rfl, by simp⟩
  | @tail c' c'' hl hm ih =>
    obtain ⟨y, post, hy, hpost, hkept, hlost⟩ := ih
    rcases hm.still_or_advance with hstill | ⟨u, hu, rfl⟩
    · exact ⟨y, post, (hstill.state? id).trans hy, hstill.deeds.trans hpost, hkept, hlost⟩
    · have hundergoes := (turn hu).undergoes
      obtain ⟨z, hz, hyz⟩ := hundergoes.states hy
      refine ⟨z, post ++ c'.next?.toList, hz, ?_, fun hn => ?_, fun hm => ?_⟩
      · rw [Chronicle.extend, hpost, List.append_assoc]
      · rw [List.mem_append, not_or, Option.mem_toList] at hn
        rw [hyz.target hn.2, hkept hn.1]
      · rcases List.mem_append.1 hm with hm | hm
        · rcases target_of_undergoes hundergoes hy hz with he | hn
          · rw [he, hlost hm]
          · exact hn
        · exact (hyz.severed (Option.mem_toList.1 hm)).1

/-- A state without a target never gets one. -/
theorem no_target_of_later (hl : Later may c c') (hx : c.session.store.state? id = some x)
    (ht : x.target = none) : ∃ y, c'.session.store.state? id = some y ∧ y.target = none := by
  obtain ⟨y, post, hy, -, hkept, hlost⟩ := target_of_later hl hx
  by_cases hd : .disposes id ∈ post
  · exact ⟨y, hy, hlost hd⟩
  · exact ⟨y, hy, (hkept hd).trans ht⟩

/-- The item of a state never changes. -/
theorem item_of_later (hl : Later may c c') (hx : c.session.store.state? id = some x) :
    ∃ y, c'.session.store.state? id = some y ∧ y.item = x.item := by
  obtain ⟨ws, hws⟩ := later_iff_exists_writes.1 hl
  have hk : c.session.store.contents? id = some x.contents := by
    rw [Store.contents?, hx]
    rfl
  obtain ⟨y, hy, hyk⟩ := Option.map_eq_some_iff.1 (contents?_of_writes hws hk)
  exact ⟨y, hy, congrArg Contents.item hyk⟩

/-- **An overlay and its target are about the same item.** -/
theorem item_of_target (h : Later may (blank config clock) c)
    (hx : c.session.store.state? o = some x) (ht : x.target = some t) :
    ∃ y, c.session.store.state? t = some y ∧ y.item = x.item := by
  induction h generalizing x with
  | refl => cases hx
  | @tail c c' hl hm ih =>
    rcases hm.still_or_advance with hstill | ⟨u, hu, rfl⟩
    · obtain ⟨y, hy, hitem⟩ := ih (hstill.state? o ▸ hx) ht
      exact ⟨y, (hstill.state? t).trans hy, hitem⟩
    · have hundergoes := (turn hu).undergoes
      cases hw : c.session.store.state? o with
      | some w =>
        obtain ⟨y, hy, hyw⟩ := ih hw (target_before hundergoes hw hx ht)
        obtain ⟨x', hx', hxw⟩ := item_of_later (.single hm) hw
        obtain rfl : x' = x := Option.some.inj (hx'.symm.trans hx)
        obtain ⟨y', hy', hyy⟩ := item_of_later (.single hm) hy
        exact ⟨y', hy', hyy.trans (hyw.trans hxw.symm)⟩
      | none =>
        rcases (hundergoes.fresh hw hx).2 with hn | ⟨t', v, hd, ht'⟩
        · rw [hn] at ht
          cases ht
        · obtain rfl : t = t' := Option.some.inj (ht.symm.trans ht')
          -- a copy has the contents of its target
          obtain ⟨k, -, hkt, hko⟩ := contents?_of_overlays hu hd
          obtain ⟨y, hy, rfl⟩ := Option.map_eq_some_iff.1 hkt
          obtain ⟨x', hx', hk⟩ := Option.map_eq_some_iff.1 hko
          obtain rfl : x' = x := Option.some.inj (hx'.symm.trans hx)
          exact ⟨y, hy, (congrArg Contents.item hk).symm⟩

/-- An overlay was constructed over the target that it has, and was not disposed of since. -/
theorem since_of_target (h : Later may (blank config clock) c)
    (hx : c.session.store.state? o = some x) (ht : x.target = some t) :
    ∃ v post, c.Since (.overlays o t v) post ∧ .disposes o ∉ post := by
  induction h generalizing x with
  | refl => cases hx
  | @tail c c' hl hm ih =>
    rcases hm.still_or_advance with hstill | ⟨u, hu, rfl⟩
    · obtain ⟨v, post, hs, hd⟩ := ih (hstill.state? o ▸ hx) ht
      exact ⟨v, post, by rwa [Since, hstill.deeds], hd⟩
    · have hundergoes := (turn hu).undergoes
      cases hw : c.session.store.state? o with
      | some w =>
        obtain ⟨v, post, hs, hd⟩ := ih hw (target_before hundergoes hw hx ht)
        refine ⟨v, _, hs.concat u, fun hm => ?_⟩
        rcases List.mem_append.1 hm with hm | hm
        · exact hd hm
        · obtain ⟨x', hx', hwx⟩ := hundergoes.states hw
          obtain rfl : x' = x := Option.some.inj (hx'.symm.trans hx)
          rw [(hwx.severed (Option.mem_toList.1 hm)).1] at ht
          cases ht
      | none =>
        rcases (hundergoes.fresh hw hx).2 with hn | ⟨t', v, hd, ht'⟩
        · rw [hn] at ht
          cases ht
        · obtain rfl : t = t' := Option.some.inj (ht.symm.trans ht')
          exact ⟨v, [], since_extend hd, List.not_mem_nil⟩

/-- How a new state came about. -/
theorem exists_action_of_new {u : Session} (hu : c.session.advance = some u)
    (hn : c.session.store.state? id = none) (hx : u.store.state? id = some x) :
    ∃ caller action todo answers rest,
      c.session.frames = .requests caller (.act action :: todo) answers :: rest ∧
      action.constructs? c.session.store = some x :=
  exists_of_ofAnswered ((change hu).made_eq hn hx)

/-- **Links are one level deep and stable.**  At every moment of every chronicle:

* if a state has a target, then the target has none, it is about the same item, it is alive as long
  as the state is, and it is the one that the state was constructed over;
* however the chronicle goes on, a state keeps its target until it is disposed of, and then it never
  has one again;
* a state that is constructed now is an overlay of the state that was asked for, or it was
  constructed in another way and never has a target;
* nothing is kept by what keeps it, directly or along others, and whoever is kept keeps nobody;
* an object is alive if and only if something that is kept from outside leads to it, and this is so
  for whatever objects keep each other; when no state is held from outside, none is alive. -/
theorem links_are_shallow (h : Later Any (blank config clock) c) :
    (∀ o x t, c.session.store.state? o = some x → x.target = some t →
      (∃ y, c.session.store.state? t = some y ∧ y.target = none ∧ y.item = x.item) ∧
      (c.session.store.isAlive c.session.holding o = true →
        c.session.store.isAlive c.session.holding t = true) ∧
      ∃ v post, c.Since (.overlays o t v) post ∧ .disposes o ∉ post) ∧
    (∀ o x c', c.session.store.state? o = some x → Later Any c c' →
      ∃ y post, c'.session.store.state? o = some y ∧ c'.deeds = c.deeds ++ post ∧
        (.disposes o ∉ post → y.target = x.target) ∧ (.disposes o ∈ post → y.target = none)) ∧
    (∀ u id y, c.session.advance = some u → c.session.store.state? id = none →
      u.store.state? id = some y → ∃ caller action todo answers rest,
        c.session.frames = .requests caller (.act action :: todo) answers :: rest ∧
        ((∃ as name status t, action = .overlay as name status ∧
            c.session.store.named? name = some t ∧ y.target = some t) ∨
          (∀ as name status, action ≠ .overlay as name status) ∧
            ∀ c', Later Any (c.extend u) c' →
              ∃ z, c'.session.store.state? id = some z ∧ z.target = none)) ∧
    (∀ a, ¬ Relation.TransGen c.session.store.Owns a a) ∧
    (∀ a b d, c.session.store.Owns a b → ¬ c.session.store.Owns b d) ∧
    (∀ a, c.session.store.Lives c.session.holding a ↔ ∃ root,
      c.session.store.Keeps c.session.holding root ∧
      Relation.ReflTransGen c.session.store.Owns root a) ∧
    (∀ among, c.session.store.Supports c.session.holding among →
      ∀ a, among a → c.session.store.Lives c.session.holding a) ∧
    ((∀ id, ¬ c.session.IsHeld id) →
      ∀ id, c.session.store.isAlive c.session.holding id = false) := by
  have hshallow := isShallow_of_later h
  refine ⟨fun o x t hx ht => ⟨?_, fun ha => ?_, since_of_target h hx ht⟩,
    fun o x c' hx hl => target_of_later hl hx, fun u id y hu hn hy => ?_, hshallow.acyclic,
    fun a b d hab => hshallow.not_owns hab d, fun a => hshallow.lives_iff_owned,
    fun among hsupp a ha => hshallow.lives_of_supports hsupp ha,
    fun hnone => Store.not_isAlive fun i => Bool.eq_false_iff.2 (hnone i)⟩
  · obtain ⟨y, hy, hitem⟩ := item_of_target h hx ht
    obtain ⟨z, hz, hzt⟩ := hshallow o x t hx ht
    obtain rfl : y = z := Option.some.inj (hy.symm.trans hz)
    exact ⟨y, hy, hzt, hitem⟩
  · have hh := hshallow.isHeld_of_isAlive hx ht ha
    exact Store.isAlive_iff.2 (.inr ⟨o, x, hx, ht, hh⟩)
  · obtain ⟨caller, action, todo, answers, rest, hframes, hmade⟩ := exists_action_of_new hu hn hy
    refine ⟨caller, action, todo, answers, rest, hframes, ?_⟩
    refine (Store.target_of_constructs? hmade).imp_right fun hother => ⟨hother.1, fun c' hl => ?_⟩
    exact no_target_of_later hl hy hother.2

/-- The overlay of a node's state is disposed of. -/
def unlinked : Chronicle := (overlaid.ask (.act (.dispose "o"))).next

theorem links_are_shallow_unlinked :
    Later Any (blank .default .epoch) overlaid ∧
    (∃ x y, overlaid.session.store.state? 1 = some x ∧ x.target = some 0 ∧
      overlaid.session.store.state? 0 = some y ∧ y.target = none ∧ y.item = x.item ∧
      overlaid.session.store.isAlive overlaid.session.holding 0 = true) ∧
    ∃ z, unlinked.session.store.state? 1 = some z ∧ z.target = none := by
  obtain ⟨hlinks, hstable, -⟩ := links_are_shallow later_overlaid
  obtain ⟨⟨y, hy, hyt, hitem⟩, halive, -⟩ := hlinks 1 _ 0 rfl rfl
  obtain ⟨z, post, hz, hpost, -, hlost⟩ :=
    hstable 1 _ unlinked rfl (Later.ask .refl trivial rfl).next
  obtain rfl : [.disposes 1] = post := List.append_cancel_left hpost
  exact ⟨later_overlaid, ⟨_, y, rfl, rfl, hy, hyt, hitem, halive rfl⟩, z, hz,
    hlost List.mem_cons_self⟩

end Chronicle
end ContentOverlay
