import ContentOverlay.Proofs.Session.Links

/-!
# Overlays and their subscriptions

From its construction until it is disposed of, an overlay has its target and the status that the
last deed about it gave to it.  As long as it is held, its observer is registered with the target,
unless the target is disposed of: that clears the registry of the target, and nothing registers the
observer again.

* `Since` has what was done since some deed.
* `standing_of_since` says which status an overlay has.
* `subscribed_of_since` says that the observer is registered.
* `observer_registered` puts this together with the next pass of the target, which reaches the
  overlay, and `not_registered_of_disposed_target` shows why the target must not be disposed of.
-/

set_option autoImplicit false

namespace ContentOverlay

namespace Session

variable {s u : Session} {n : Nat} {d : Option Deed} {o t : StateId} {v : Status}

/-- An overlay has this target and this status. -/
def Standing (s : Session) (o t : StateId) (v : Status) : Prop :=
  ∃ x, s.store.state? o = some x ∧ x.target = some t ∧ x.status = v

/-- The observer of an overlay is registered with a target. -/
def Subscribed (s : Session) (o t : StateId) : Prop :=
  ∃ y, s.store.state? t = some y ∧ .observer o ∈ y.registry.entries

theorem Standing.of_turn (h : s.Standing o t v) (ht : Turn n s u d) (hd : d ≠ some (.disposes o)) :
    u.Standing o t ((d.bind (·.gives o (some t))).getD v) := by
  obtain ⟨x, hx, hxt, rfl⟩ := h
  obtain ⟨y, hy, hxy⟩ := ht.undergoes.states hx
  refine ⟨y, hy, (hxy.target hd).trans hxt, ?_⟩
  rw [hxy.status, hxt]

theorem Standing.isHeld_of_turn (h : s.Standing o t v) (hl : Linked s.frames s.store)
    (ht : Turn n s u d) (hh : u.IsHeld o) : s.IsHeld o := by
  obtain ⟨x, hx, hxt, -⟩ := h
  exact Session.isHeld_of_turn hl ht hx (by simp [hxt]) hh

theorem Standing.isListening (h : s.Standing o t v) (hh : s.IsHeld o) :
    s.store.isListening s.holding (.observer o) = true := by
  obtain ⟨x, hx, hxt, -⟩ := h
  exact Store.isListening_observer hx (by simp [hxt]) hh

theorem standing_of_overlays (ht : Turn n s u (some (.overlays o t v))) : u.Standing o t v := by
  obtain ⟨-, -, y, hy, hyt, hyv⟩ := ht.undergoes.overlaid rfl
  exact ⟨y, hy, hyt, hyv⟩

theorem subscribed_of_overlays (ht : Turn n s u (some (.overlays o t v))) : u.Subscribed o t := by
  obtain ⟨-, ⟨x, hx, -⟩, -⟩ := ht.undergoes.overlaid rfl
  obtain ⟨y, hy, hxy⟩ := ht.undergoes.states hx
  exact ⟨y, hy, hxy.gained _ (by simp [Deed.registers])⟩

/-- **A step keeps the subscription of an overlay that is held.** -/
theorem Subscribed.of_turn (h : s.Subscribed o t) (hs : s.Standing o t v) (hh : s.IsHeld o)
    (ht : Turn n s u d) (hdo : d ≠ some (.disposes o)) (hdt : d ≠ some (.disposes t)) :
    u.Subscribed o t := by
  obtain ⟨y, hy, hyo⟩ := h
  obtain ⟨z, hz, hyz⟩ := ht.undergoes.states hy
  refine ⟨z, hz, hyz.kept _ hyo (hs.isListening hh) ?_⟩
  intro e he hun
  cases e <;> simp only [Deed.Unregisters, reduceCtorEq, and_false] at hun
  case disposes i =>
    rcases hun with rfl | hun
    · exact hdt he
    · cases hun
      exact hdo he

/-- A pass of the target reaches an overlay that is subscribed. -/
theorem Subscribed.mem_audience {p : Pass} (h : s.Subscribed o p.source)
    (hs : s.Standing o t v) (hh : s.IsHeld o) (ht : Turn n s u (some (.begins p))) :
    .observer o ∈ p.audience := by
  obtain ⟨y, hy, hyo⟩ := h
  obtain ⟨x, hx, haudience, -⟩ := ht.source
  obtain rfl : x = y := Option.some.inj (hx.symm.trans hy)
  rw [haudience]
  exact List.mem_filter.2 ⟨hyo, hs.isListening hh⟩

end Session

namespace Chronicle

open Session

variable {config : Config} {clock : Timestamp} {may : Request → Prop} {c c' : Chronicle}
  {o t : StateId} {v : Status} {post : List Deed}

/-- What was done since a deed. -/
def Since (c : Chronicle) (d : Deed) (post : List Deed) : Prop :=
  ∃ before, c.deeds = before ++ d :: post

theorem not_since_blank {d : Deed} : ¬ (blank config clock).Since d post := by
  rintro ⟨before, hb⟩
  exact absurd hb.symm (List.append_ne_nil_of_right_ne_nil _ (List.cons_ne_nil _ _))

/-- The last status that some deeds mean, after they began with this one. -/
def last (means : Deed → Option Status) (v : Status) (post : List Deed) : Status :=
  post.foldl (fun v d => (means d).getD v) v

theorem last_append_toList (means : Deed → Option Status) (v : Status) (post : List Deed)
    (d : Option Deed) :
    last means v (post ++ d.toList) = (d.bind means).getD (last means v post) := by
  rw [last, List.foldl_append]
  cases d <;> rfl

theorem last_append_of_none {means : Deed → Option Status} {post' : List Deed}
    (h : ∀ d ∈ post', means d = none) (v : Status) (post : List Deed) :
    last means v (post ++ post') = last means v post := by
  induction post' generalizing post with
  | nil => rw [List.append_nil]
  | cons d post' ih =>
    have hd : last means v (post ++ [d]) = last means v post := by
      rw [← Option.toList_some, last_append_toList, Option.bind_some, h d List.mem_cons_self,
        Option.getD_none]
    rw [← List.singleton_append, ← List.append_assoc,
      ih (fun d hd => h d (List.mem_cons_of_mem _ hd)), hd]

/-- What was done since a deed after one more step: the step is that deed, or it adds to what was
done since. -/
theorem Since.extend {d : Deed} {u : Session} (h : (c.extend u).Since d post) :
    (post = [] ∧ c.next? = some d) ∨
      ∃ post', c.Since d post' ∧ post = post' ++ c.next?.toList := by
  obtain ⟨before, hb⟩ := h
  rw [Chronicle.extend] at hb
  cases hd : c.next? with
  | none =>
    rw [hd, Option.toList_none, List.append_nil] at hb
    exact .inr ⟨post, ⟨before, hb⟩, by simp⟩
  | some e =>
    rw [hd] at hb
    rcases concat_eq_append_cons_iff.1 hb with ⟨-, rfl, hp⟩ | ⟨post', hb, hp⟩
    · exact .inl ⟨hp, rfl⟩
    · exact .inr ⟨post', ⟨before, hb⟩, hp⟩

/-- The next step does a deed. -/
theorem since_extend {d : Deed} {u : Session} (hd : c.next? = some d) :
    (c.extend u).Since d [] := ⟨c.deeds, by rw [Chronicle.extend, hd]; rfl⟩

/-- What was done since a deed, with what the next step does. -/
theorem Since.concat {d : Deed} (h : c.Since d post) (u : Session) :
    (c.extend u).Since d (post ++ c.next?.toList) := by
  obtain ⟨before, hb⟩ := h
  exact ⟨before, by rw [Chronicle.extend, hb, List.append_assoc, List.cons_append]⟩

/-- **The status of an overlay** is the last one that was given to it. -/
theorem standing_of_since (h : Later may (blank config clock) c)
    (hs : c.Since (.overlays o t v) post) (hd : .disposes o ∉ post) :
    c.session.Standing o t (last (·.gives o (some t)) v post) := by
  induction h generalizing post with
  | refl => exact absurd hs not_since_blank
  | tail _ hm ih =>
    rcases hm.still_or_advance with ⟨hdeeds, ⟨_, hstore⟩, -⟩ | ⟨u, hu, rfl⟩
    · rw [Standing, hstore]
      exact ih (by rwa [Since, ← hdeeds]) hd
    · have hturn := turn hu
      rcases hs.extend with ⟨rfl, hnext⟩ | ⟨post', hs', rfl⟩
      · rw [hnext] at hturn
        exact standing_of_overlays hturn
      · have hstep := (ih hs' fun hm => hd (List.mem_append_left _ hm)).of_turn hturn
          (fun hn => hd (by simp [hn]))
        rwa [last_append_toList]

/-- **The subscription of an overlay** lasts as long as the overlay is held, unless its target is
disposed of. -/
theorem subscribed_of_since (h : Later may (blank config clock) c)
    (hs : c.Since (.overlays o t v) post) (ho : .disposes o ∉ post) (ht : .disposes t ∉ post)
    (hh : c.session.IsHeld o) : c.session.Subscribed o t := by
  induction h generalizing post with
  | refl => exact absurd hs not_since_blank
  | @tail c c' hl hm ih =>
    rcases hm.still_or_advance with ⟨hdeeds, ⟨_, hstore⟩, hheld⟩ | ⟨u, hu, rfl⟩
    · rw [Subscribed, hstore]
      exact ih (by rwa [Since, ← hdeeds]) ho ht (hheld hh)
    · have hturn := turn hu
      rcases hs.extend with ⟨rfl, hnext⟩ | ⟨post', hs', rfl⟩
      · rw [hnext] at hturn
        exact subscribed_of_overlays hturn
      · have ho' : .disposes o ∉ post' := fun hm => ho (List.mem_append_left _ hm)
        have hstanding := standing_of_since hl hs' ho'
        have hheld : c.session.IsHeld o :=
          hstanding.isHeld_of_turn (valid_of_later hl).linked hturn hh
        exact (ih hs' ho' (fun hm => ht (List.mem_append_left _ hm)) hheld).of_turn hstanding hheld
          hturn (fun hn => ho (by simp [hn])) (fun hn => ht (by simp [hn]))

/-- **An overlay is subscribed as long as it lives.**  From its construction on, and as long as
neither it nor its target is disposed of, an overlay that is held has a living observer in the
registry of its target.  So it is in the audience of the next pass of the target, which tells it
before it ends, and if that is about a modification or a destruction, the overlay goes stale. -/
theorem observer_registered (h : Later Any (blank config clock) c)
    (hs : c.Since (.overlays o t v) post) (ho : .disposes o ∉ post) (ht : .disposes t ∉ post)
    (hh : c.session.IsHeld o) :
    (∃ y, c.session.store.state? t = some y ∧ .observer o ∈ y.registry.entries ∧
      c.session.store.isListening c.session.holding (.observer o) = true) ∧
    (∀ p u, c.session.advance = some u → c.next? = some (.begins p) → p.source = t →
      .observer o ∈ p.audience ∧
      ∀ c', Later Any (c.extend u) c' → .ends c.deeds.length p ∈ c'.deeds →
        .tells c.deeds.length p (.observer o) ∈ c'.deeds) ∧
    ∀ k p u, c.session.advance = some u → c.next? = some (.tells k p (.observer o)) →
      (p.event = .modified → u.Standing o t .staleModified) ∧
      (p.event = .destroyed → u.Standing o t .staleDestroyed) := by
  have hstanding := standing_of_since h hs ho
  have hsubscribed := subscribed_of_since h hs ho ht hh
  have hvalid := valid_of_later h
  refine ⟨?_, ?_, ?_⟩
  · obtain ⟨y, hy, hyo⟩ := hsubscribed
    exact ⟨y, hy, hyo, hstanding.isListening hh⟩
  · rintro p u hu hn rfl
    have hturn := turn hu
    rw [hn] at hturn
    have haudience := hsubscribed.mem_audience hstanding hh hturn
    refine ⟨haudience, fun c' hl hends => ?_⟩
    have hvalid' := hvalid.later (Relation.ReflTransGen.head (.advance hu) hl)
    exact hvalid'.numbered.finished hends _ haudience
  · intro k p u hu hn
    have hturn := turn hu
    rw [hn] at hturn
    have hstep := hstanding.of_turn hturn (by simp)
    refine ⟨fun he => ?_, fun he => ?_⟩ <;>
      simpa [Deed.gives, State.markOf, he] using hstep

/-! ## Where a subscription ends -/

/-- An overlay of a node's state. -/
def overlaid : Chronicle :=
  let state := (blank .default .epoch).ask
    (.act (.newNode "x" (.node ⟨0⟩) none .existing .standard))
  (state.next.ask (.act (.overlay "o" "x" .existingModified))).next

theorem later_overlaid : Later Any (blank .default .epoch) overlaid :=
  ((Later.ask (Later.ask .refl trivial rfl).next trivial rfl)).next

theorem observer_registered_overlaid :
    let c := overlaid.ask (.act (.notify "x" .modified))
    Later Any (blank .default .epoch) c ∧ c.Since (.overlays 1 0 .existingModified) [] ∧
    c.session.IsHeld 1 ∧
    ∃ p u, c.session.advance = some u ∧ c.next? = some (.begins p) ∧ p.source = 0 ∧
      .observer 1 ∈ p.audience := by
  have hl := later_overlaid.ask (r := .act (.notify "x" .modified)) trivial rfl
  have hs : (overlaid.ask (.act (.notify "x" .modified))).Since
      (.overlays 1 0 .existingModified) [] := ⟨[], rfl⟩
  have h := observer_registered hl hs List.not_mem_nil List.not_mem_nil rfl
  exact ⟨hl, hs, rfl, _, _, rfl, rfl, rfl, (h.2.1 _ _ rfl rfl rfl).1⟩

/-- When the target is disposed of, the overlay loses its subscription, though it is held and keeps
its target. -/
theorem not_registered_of_disposed_target :
    ∃ c o t v post, Later Any (blank .default .epoch) c ∧ c.Since (.overlays o t v) post ∧
      .disposes o ∉ post ∧ c.session.IsHeld o ∧
      ∃ y, c.session.store.state? t = some y ∧ .observer o ∉ y.registry.entries := by
  refine ⟨(overlaid.ask (.act (.dispose "x"))).next, 1, 0, .existingModified, [.disposes 0],
    (later_overlaid.ask trivial rfl).next, ⟨[], rfl⟩, by simp, rfl, _, rfl, ?_⟩
  exact List.not_mem_nil

end Chronicle
end ContentOverlay
