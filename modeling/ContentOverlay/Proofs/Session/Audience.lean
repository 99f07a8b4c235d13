import ContentOverlay.Proofs.Session.Registration

/-!
# A pass reaches its audience

The listeners that are registered and alive when a pass begins are its audience, and they stay so
until it ends.  Whatever they do when they are told, be it to add and to remove listeners, to give
up handles, to dispose of the state or to begin further passes: every one of them is told once, and
nobody else is.  What they do to the registry has its effect on the next pass.

* `told` has those whom a pass told, and `Fate` says what has become of a pass that began: it is
  under way, it has ended, or it was broken off.  As for the numbers of passes there is a lemma for
  each kind of deed.
* `fate_of_later` follows a pass along a chronicle, and `exists_steps_idle` says that it comes to an
  end.
* `pass_reaches_audience` puts this together with what becomes of the registry.
-/

set_option autoImplicit false

namespace ContentOverlay

/-- Whom the pass of this number tells by a deed. -/
def Deed.tellsBy? (n : Nat) : Deed → Option ListenerId
  | tells k _ l => if k = n then some l else none
  | _ => none

namespace Chronicle

open Session

/-- Whom the pass of this number told, in that order. -/
def told (n : Nat) (deeds : List Deed) : List ListenerId := deeds.filterMap (·.tellsBy? n)

variable {config : Config} {clock : Timestamp} {may : Request → Prop} {c c' : Chronicle}
  {u : Session} {n k : Nat} {p q : Pass} {l : ListenerId} {pending pending' : List ListenerId}
  {running running' : List Nat} {passes passes' : List (Pass × List ListenerId)}
  {post : List Deed} {e : Deed}

theorem told_concat_of_none (h : e.tellsBy? n = none) : told n (post ++ [e]) = told n post := by
  rw [told, List.filterMap_append, List.filterMap_cons_none h, List.filterMap_nil, List.append_nil]
  rfl

theorem told_concat_tells : told n (post ++ [.tells n p l]) = told n post ++ [l] := by
  rw [told, List.filterMap_append]
  simp [told, Deed.tellsBy?]

/-! ## What becomes of a pass -/

/-- What has become of a pass by the deeds since it began. -/
inductive Fate (n : Nat) (p : Pass) (running : List Nat) (passes : List (Pass × List ListenerId))
    (post : List Deed) : Prop
  /-- It is under way, and has told all but those that it has left. -/
  | runs {pending : List ListenerId} (mem : (n, p, pending) ∈ running.zip passes)
      (told : (told n post ++ pending).Perm p.audience) (unended : ∀ q, .ends n q ∉ post)
  | ends (ended : .ends n p ∈ post) (told : (told n post).Perm p.audience) (gone : n ∉ running)
  | breaks (broken : .breaks ∈ post) (told : (told n post).Subperm p.audience)
      (gone : n ∉ running) (unended : ∀ q, .ends n q ∉ post)

namespace Fate

theorem subperm (h : Fate n p running passes post) : (told n post).Subperm p.audience := by
  cases h with
  | runs _ told => exact (List.sublist_append_left ..).subperm.trans told.subperm
  | ends _ told => exact told.subperm
  | breaks _ told => exact told

theorem nodup (h : Fate n p running passes post) (hp : p.audience.Nodup) :
    (told n post).Nodup := by
  obtain ⟨l, hperm, hsub⟩ := h.subperm
  exact hperm.nodup_iff.1 (hp.sublist hsub)

theorem perm_of_ends (h : Fate n p running passes post) (he : .ends n p ∈ post) :
    (told n post).Perm p.audience := by
  cases h with
  | runs _ _ unended => exact absurd he (unended p)
  | ends _ told => exact told
  | breaks _ _ _ unended => exact absurd he (unended p)

theorem not_mem_concat_ends (h : ∀ q, .ends n q ∉ post) (he : ∀ q, e ≠ .ends n q) :
    ∀ q, .ends n q ∉ post ++ [e] := fun q => not_mem_concat_iff.2 ⟨h q, he q⟩

/-- A deed by which the pass neither tells anybody nor comes to its end. -/
theorem concat (h : Fate n p running passes post) (ht : e.tellsBy? n = none)
    (he : ∀ q, e ≠ .ends n q)
    (hmem : ∀ {pending}, (n, p, pending) ∈ running.zip passes →
      (n, p, pending) ∈ running'.zip passes')
    (hover : n ∈ running' → n ∈ running) : Fate n p running' passes' (post ++ [e]) := by
  cases h with
  | runs mem told unended =>
    exact .runs (hmem mem) (by rwa [told_concat_of_none ht]) (not_mem_concat_ends unended he)
  | ends ended told gone =>
    exact .ends (List.mem_append_left _ ended) (by rwa [told_concat_of_none ht])
      fun hm => gone (hover hm)
  | breaks broken told gone unended =>
    exact .breaks (List.mem_append_left _ broken) (by rwa [told_concat_of_none ht])
      (fun hm => gone (hover hm)) (not_mem_concat_ends unended he)

theorem apart (h : Fate n p running passes post) (he : ¬ e.OfPass) :
    Fate n p running passes (post ++ [e]) := by
  refine h.concat ?_ ?_ id id
  · cases e <;> first | rfl | exact absurd trivial he
  · rintro q rfl
    exact he trivial

theorem begins (h : Fate n p running passes post) (hk : n ≠ k) :
    Fate n p (k :: running) ((q, q.audience) :: passes) (post ++ [.begins q]) :=
  h.concat rfl (by simp) (fun hm => List.mem_cons_of_mem _ hm)
    fun hm => (List.mem_cons.1 hm).resolve_left hk

theorem breakOff (h : Fate n p running passes post) : Fate n p [] [] (post ++ [.breaks]) := by
  have he : ∀ q, Deed.breaks ≠ .ends n q := by simp
  have htold : told n (post ++ [.breaks]) = told n post := told_concat_of_none rfl
  have hlast : Deed.breaks ∈ post ++ [.breaks] := List.mem_append_right _ (List.mem_singleton.2 rfl)
  cases h with
  | runs _ told unended =>
    refine .breaks hlast ?_ List.not_mem_nil (not_mem_concat_ends unended he)
    rw [htold]
    exact (List.sublist_append_left ..).subperm.trans told.subperm
  | ends ended told =>
    exact .ends (List.mem_append_left _ ended) (by rwa [htold]) List.not_mem_nil
  | breaks _ told _ unended =>
    exact .breaks hlast (by rwa [htold]) List.not_mem_nil (not_mem_concat_ends unended he)

/-- The innermost pass is under way. -/
theorem of_innermost (h : Fate n p (n :: running) ((q, pending) :: passes) post)
    (hn : n ∉ running) :
    q = p ∧ (told n post ++ pending).Perm p.audience ∧ ∀ q, .ends n q ∉ post := by
  cases h with
  | runs mem told unended =>
    rcases List.mem_cons.1 mem with he | mem
    · cases he
      exact ⟨rfl, told, unended⟩
    · exact absurd (List.of_mem_zip mem).1 hn
  | ends _ _ gone => exact absurd List.mem_cons_self gone
  | breaks _ _ gone => exact absurd List.mem_cons_self gone

/-- Another pass than the innermost one is outside it. -/
theorem mem_zip_of_ne (hk : k ≠ n)
    (hm : (n, p, pending') ∈ (k :: running).zip ((q, pending) :: passes)) :
    (n, p, pending') ∈ running.zip passes := by
  rcases List.mem_cons.1 hm with he | hm
  · cases he
    exact absurd rfl hk
  · exact hm

/-- The innermost pass tells somebody. -/
theorem tells (h : Fate n p (k :: running) ((q, l :: pending) :: passes) post)
    (hk : k ∉ running) :
    Fate n p (k :: running) ((q, pending) :: passes) (post ++ [.tells k q l]) := by
  by_cases hn : k = n
  · subst hn
    obtain ⟨rfl, htold, unended⟩ := h.of_innermost hk
    refine .runs List.mem_cons_self ?_ (not_mem_concat_ends unended (by simp))
    rwa [told_concat_tells, List.append_assoc, List.singleton_append]
  · exact h.concat (if_neg hn) (by simp)
      (fun hm => List.mem_cons_of_mem _ (mem_zip_of_ne hn hm)) id

/-- The innermost pass has told everybody. -/
theorem returns (h : Fate n p (k :: running) ((q, []) :: passes) post) (hk : k ∉ running) :
    Fate n p running passes (post ++ [.ends k q]) := by
  by_cases hn : k = n
  · subst hn
    obtain ⟨rfl, htold, -⟩ := h.of_innermost hk
    refine .ends (List.mem_append_right _ (List.mem_singleton.2 rfl)) ?_ hk
    rwa [told_concat_of_none rfl, ← List.append_nil (Chronicle.told k post)]
  · refine h.concat rfl (fun q' he => ?_) (mem_zip_of_ne hn) (List.mem_cons_of_mem _)
    cases he
    exact hn rfl

theorem reorder (h : Fate n p (k :: running) ((q, pending) :: passes) post)
    (perm : pending'.Perm pending) : Fate n p (k :: running) ((q, pending') :: passes) post := by
  cases h with
  | runs mem told unended =>
    rcases List.mem_cons.1 mem with he | mem
    · cases he
      exact .runs List.mem_cons_self ((List.Perm.append_left _ perm).trans told) unended
    · exact .runs (List.mem_cons_of_mem _ mem) told unended
  | ends ended told gone => exact .ends ended told gone
  | breaks broken told gone unended => exact .breaks broken told gone unended

end Fate

/-! ## Along a chronicle -/

/-- **A step keeps the account of a pass.** -/
theorem Fate.extend (hnum : IsNumbered c) (hn : n < c.deeds.length)
    (hu : c.session.advance = some u)
    (h : Fate n p c.running (passesOf c.session.frames) post) :
    Fate n p (c.extend u).running (passesOf u.frames) (post ++ c.next?.toList) := by
  have hturn := turn hu
  unfold IsNumbered Chronicle.extend at *
  generalize c.next? = d at hturn
  cases hturn with
  | @answers _ _ _ _ _ d _ before after apart =>
    rw [before] at h
    rw [after]
    cases d with
    | none =>
      rw [Option.toList_none, List.append_nil post]
      exact h
    | some e =>
      rw [runningAfter_apart c (apart e rfl)]
      exact h.apart (apart e rfl)
  | begins before after =>
    rw [before] at h
    rw [after]
    exact h.begins hn.ne
  | breaks before after =>
    rw [after]
    exact h.breakOff
  | returns before after =>
    rw [before] at h
    rw [after, Option.toList_none, List.append_nil post]
    exact h
  | @tells q l pending rest before after =>
    rw [before] at h hnum
    have hpasses : passesOf u.frames = (q, pending) :: passesOf rest := by
      rcases after with after | ⟨_, _, _, after⟩ <;> rw [after] <;> rfl
    obtain ⟨k, running, hrunning, hk⟩ := hnum.exists_running_cons
    rw [hrunning] at h
    rw [hpasses, runningAfter_tells, innermost, hrunning]
    exact h.tells hk
  | @ends q rest before after =>
    rw [before] at h hnum
    obtain ⟨k, running, hrunning, hk⟩ := hnum.exists_running_cons
    rw [hrunning] at h
    rw [after, passesOf_answer, runningAfter_ends, innermost, hrunning]
    exact h.returns hk

/-- When nothing is left to be done, no pass is under way. -/
theorem running_of_idle (hv : Valid c) (idle : c.session.advance = none) : c.running = [] := by
  have hruns := hv.numbered.runs
  rw [passesOf_of_idle hv.sound.grounded idle] at hruns
  exact List.forall₂_nil_right_iff.1 hruns

theorem Fate.move (hv : Valid c) (hn : n < c.deeds.length) (hm : Move may c c')
    (h : Fate n p c.running (passesOf c.session.frames) post) :
    ∃ post', c'.deeds = c.deeds ++ post' ∧
      Fate n p c'.running (passesOf c'.session.frames) (post ++ post') := by
  cases hm with
  | submit r _ idle =>
    rw [running_of_idle hv idle, passesOf_of_idle hv.sound.grounded idle] at h
    refine ⟨[], (List.append_nil _).symm, ?_⟩
    rw [List.append_nil]
    change Fate n p c.running [] post
    rwa [running_of_idle hv idle]
  | advance step => exact ⟨_, rfl, h.extend hv.numbered hn step⟩
  | reorder before perm =>
    have hnum := hv.numbered
    rw [IsNumbered, before] at hnum
    obtain ⟨k, running, hrunning, -⟩ := hnum.exists_running_cons
    rw [before] at h
    refine ⟨[], (List.append_nil _).symm, ?_⟩
    rw [List.append_nil]
    change Fate n p c.running _ post
    rw [hrunning] at h ⊢
    exact h.reorder perm
  | elapse =>
    refine ⟨[], (List.append_nil _).symm, ?_⟩
    rwa [List.append_nil]

/-- A pass that is under way after a move was so before, unless it began by that move. -/
theorem running_of_move (hn : n < c.deeds.length) (hm : Move may c c') (hr : n ∈ c'.running) :
    n ∈ c.running := by
  cases hm with
  | submit | reorder | elapse => exact hr
  | advance =>
    change n ∈ c.runningAfter c.next? at hr
    unfold runningAfter at hr
    split at hr
    · exact (List.mem_cons.1 hr).resolve_left hn.ne
    · exact List.mem_of_mem_tail hr
    · cases hr
    · exact hr

/-- What is heard by a move while a pass is under way. -/
theorem heard_of_move (hv : Valid c) (hn : n < c.deeds.length) (hm : Move may c c')
    (hr : n ∈ c'.running) (hpost : c'.deeds = c.deeds ++ post) :
    heard c'.session.log = heard c.session.log ++ post.flatMap Deed.hears := by
  have hr := running_of_move hn hm hr
  cases hm with
  | submit r _ idle =>
    rw [running_of_idle hv idle] at hr
    cases hr
  | reorder | elapse =>
    rw [List.self_eq_append_right.1 hpost]
    exact (List.append_nil _).symm
  | advance step =>
    obtain rfl := List.append_cancel_left hpost
    rw [(turn step).hears]
    exact (step_of_advance step).heard hv.sound

/-- A deed was done before all that was done since. -/
theorem length_lt_of_deeds {e : Deed} (he : c.next? = some e)
    (hpost : c'.deeds = (c.extend u).deeds ++ post) : c.deeds.length < c'.deeds.length := by
  rw [hpost, Chronicle.extend, he, List.length_append, List.length_append]
  simp only [Option.toList_some, List.length_singleton]
  omega

/-- **What becomes of a pass** that begins with a step.  While it is under way, what the clients'
listeners hear is what they are told, by this pass and by those inside it. -/
theorem fate_of_later (h : Later may (blank config clock) c) (hu : c.session.advance = some u)
    (hb : c.next? = some (.begins p)) (hl : Later may (c.extend u) c') :
    ∃ post, c'.deeds = (c.extend u).deeds ++ post ∧
      Fate c.deeds.length p c'.running (passesOf c'.session.frames) post ∧
      (c.deeds.length ∈ c'.running →
        heard c'.session.log = heard c.session.log ++ post.flatMap Deed.hears) := by
  induction hl with
  | refl =>
    have hturn := turn hu
    have hheard := (step_of_advance hu).heard (valid_of_later h).sound
    rw [← hturn.hears, hb] at hheard
    refine ⟨[], (List.append_nil _).symm, ?_, fun _ => hheard⟩
    rw [Chronicle.extend, hb]
    rw [hb] at hturn
    cases hturn with
    | answers _ _ _ apart => exact absurd trivial (apart _ rfl)
    | begins before after =>
      rw [after]
      exact .runs List.mem_cons_self (.refl _) fun _ => List.not_mem_nil
  | @tail c' c'' hl move ih =>
    obtain ⟨post, hpost, hfate, hheard⟩ := ih
    have hv := valid_of_later ((h.tail (.advance hu)).trans hl)
    have hn := length_lt_of_deeds hb hpost
    obtain ⟨post', hpost', hfate'⟩ := hfate.move hv hn move
    refine ⟨post ++ post', by rw [hpost', hpost, List.append_assoc], hfate', fun hr => ?_⟩
    rw [heard_of_move hv hn move hr hpost', hheard (running_of_move hn move hr),
      List.flatMap_append, List.append_assoc]

/-- A chronicle comes to a moment at which nothing is left to be done. -/
theorem exists_steps_idle (c : Chronicle) : ∃ k, (c.steps k).session.advance = none := by
  generalize hs : c.session = s
  induction s using advance_induction generalizing c with
  | h s ih =>
    subst hs
    cases ha : c.session.advance with
    | none => exact ⟨0, ha⟩
    | some t =>
      obtain ⟨k, hk⟩ := ih t ha (c.extend t) rfl
      refine ⟨k + 1, ?_⟩
      rw [steps, next, ha]
      exact hk

/-- A pass that begins comes to its end, or is broken off. -/
theorem exists_steps_over (h : Later may (blank config clock) c) (hu : c.session.advance = some u)
    (hb : c.next? = some (.begins p)) :
    ∃ i post, ((c.extend u).steps i).deeds = (c.extend u).deeds ++ post ∧
      (.ends c.deeds.length p ∈ post ∨ .breaks ∈ post) := by
  obtain ⟨i, idle⟩ := exists_steps_idle (c.extend u)
  have hl : Later may (c.extend u) ((c.extend u).steps i) := Later.steps .refl i
  obtain ⟨post, hpost, hfate, -⟩ := fate_of_later h hu hb hl
  have hv := valid_of_later ((h.tail (.advance hu)).trans hl)
  refine ⟨i, post, hpost, ?_⟩
  cases hfate with
  | runs mem =>
    rw [running_of_idle hv idle] at mem
    cases mem
  | ends ended => exact .inl ended
  | breaks broken => exact .inr broken

/-- There is only one pass that began at a place, and it tells its audience. -/
theorem eq_of_tells (h : Later may (blank config clock) c')
    (hdeeds : c'.deeds = c.deeds ++ .begins p :: post) (ht : .tells c.deeds.length q l ∈ post) :
    q = p ∧ l ∈ p.audience := by
  have hm : .tells c.deeds.length q l ∈ c'.deeds := by
    rw [hdeeds]
    exact List.mem_append_right _ (List.mem_cons_of_mem _ ht)
  obtain ⟨a, ha⟩ := List.mem_iff_getElem?.1 hm
  obtain ⟨-, hq, hl⟩ := (valid_of_later h).numbered.began ha
  rw [hdeeds, List.getElem?_append_right (Nat.le_refl _), Nat.sub_self] at hq
  cases hq
  exact ⟨rfl, hl⟩

/-- The audience of a pass is who is registered and alive when it begins. -/
theorem audience_of_begins (h : Later may (blank config clock) c) (hu : c.session.advance = some u)
    (hb : c.next? = some (.begins p)) :
    ∃ r, c.session.store.registered? p.source = some r ∧ p.audience.Nodup ∧
      ∀ l, l ∈ p.audience ↔
        l ∈ r.entries ∧ c.session.store.isListening c.session.holding l = true := by
  obtain ⟨x, hx, haudience, -⟩ := (hb ▸ turn hu).source
  refine ⟨x.registry, by rw [Store.registered?, hx]; rfl, ?_, fun l => ?_⟩
  · rw [haudience]
    exact ((valid_of_later h).sound.registries hx).filter _
  · rw [haudience]
    exact Registry.mem_live

/-- **A pass reaches its audience.**  A step begins a pass.  Its audience are the listeners that are
registered with its state and alive, each once.  The pass comes to its end unless it is broken off.

However the chronicle goes on, whatever the listeners do when they are told, and in whichever order:

* the pass tells each listener at most once, of its own event, and nobody outside its audience;
* when it has ended, it has told all of its audience, those included that were removed or given up
  meanwhile;
* while it is under way, the clients' listeners hear what they are told by it and by the passes
  inside it, and nothing else;
* the registry of the state holds the audience, with what was added since and without what was
  removed since;
* the next pass of the state has from this registry those who are alive then, and so it reaches a
  listener that was added meanwhile. -/
theorem pass_reaches_audience (h : Later Any (blank config clock) c)
    (hu : c.session.advance = some u) (hb : c.next? = some (.begins p)) :
    (∃ r, c.session.store.registered? p.source = some r ∧ p.audience.Nodup ∧
      ∀ l, l ∈ p.audience ↔
        l ∈ r.entries ∧ c.session.store.isListening c.session.holding l = true) ∧
    (∃ i post, ((c.extend u).steps i).deeds = (c.extend u).deeds ++ post ∧
      (.ends c.deeds.length p ∈ post ∨ .breaks ∈ post)) ∧
    ∀ c' : Chronicle, Later Any (c.extend u) c' →
      ∃ post, c'.deeds = (c.extend u).deeds ++ post ∧
        (told c.deeds.length post).Nodup ∧
        (∀ q l, .tells c.deeds.length q l ∈ post → q = p ∧ l ∈ p.audience) ∧
        (.ends c.deeds.length p ∈ post → (told c.deeds.length post).Perm p.audience) ∧
        (c.deeds.length ∈ c'.running →
          heard c'.session.log = heard c.session.log ++ post.flatMap Deed.hears) ∧
        c'.session.store.registered? p.source = some (Deed.edits p.source ⟨p.audience⟩ post) ∧
        ∀ q w, c'.session.advance = some w → c'.next? = some (.begins q) → q.source = p.source →
          ∀ l, l ∈ q.audience ↔ l ∈ (Deed.edits p.source ⟨p.audience⟩ post).entries ∧
            c'.session.store.isListening c'.session.holding l = true := by
  obtain ⟨r, hr, hnodup, haudience⟩ := audience_of_begins h hu hb
  refine ⟨⟨r, hr, hnodup, haudience⟩, exists_steps_over h hu hb, fun c' hl => ?_⟩
  have hreached := (h.tail (.advance hu)).trans hl
  obtain ⟨post, hpost, hfate, hheard⟩ := fate_of_later h hu hb hl
  have hdeeds : c'.deeds = c.deeds ++ .begins p :: post := by
    rw [hpost, Chronicle.extend, hb, Option.toList_some, List.append_assoc, List.singleton_append]
  have hregistry : c'.session.store.registered? p.source =
      some (Deed.edits p.source ⟨p.audience⟩ post) := by
    obtain ⟨post', hpost', hr'⟩ :=
      registered?_of_later h (Relation.ReflTransGen.head (.advance hu) hl) hr
    obtain rfl := List.append_cancel_left (hdeeds.symm.trans hpost')
    rw [hr', Deed.edits, List.foldl_cons, Deed.edit, if_pos rfl]
    rfl
  refine ⟨post, hpost, hfate.nodup hnodup, fun q l => eq_of_tells hreached hdeeds,
    hfate.perm_of_ends, hheard, hregistry, fun q w hw hq hs l => ?_⟩
  obtain ⟨r', hr', -, haudience'⟩ := audience_of_begins hreached hw hq
  rw [hs, hregistry] at hr'
  cases hr'
  exact haudience' l

/-! ## A listener that removes itself -/

/-- A listener removes itself when it is told of a modification.  It was told, and so was the
observer after it, which alone is registered in the end. -/
theorem pass_reaches_audience_removed :
    let c := answering .removeSelf
    let c' := c.next.steps 5
    Later Any (blank .default .epoch) c ∧ c.next? = some (.begins modification) ∧
      ∃ post, c'.deeds = c.next.deeds ++ post ∧ .removes 0 "a" ∈ post ∧
        .ends 2 modification ∈ post ∧ (told 2 post).Perm [.client "a", .observer 1] ∧
        c'.session.store.registered? 0 = some ⟨[.observer 1]⟩ := by
  intro c c'
  have hl : Later Any (blank .default .epoch) c := later_answering (fun _ => trivial) trivial
  have hu : c.session.advance = some c.next.session := rfl
  have hb : c.next? = some (.begins modification) := rfl
  obtain ⟨-, -, hlater⟩ := pass_reaches_audience hl hu hb
  obtain ⟨post, hpost, -, -, hends, -, hregistry, -⟩ := hlater c' (Later.steps .refl 5)
  have hdeeds : c'.deeds = c.next.deeds ++ [.tells 2 modification (.client "a"), .removes 0 "a",
      .tells 2 modification (.observer 1), .ends 2 modification] := rfl
  obtain rfl := List.append_cancel_left (hpost.symm.trans hdeeds)
  have htold := hends (.tail _ (.tail _ (.tail _ (.head _))))
  exact ⟨hl, hb, _, hdeeds, by simp, by simp, htold, hregistry⟩

end Chronicle
end ContentOverlay
