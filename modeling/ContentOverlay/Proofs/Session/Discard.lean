import ContentOverlay.Proofs.Session.Audience

/-!
# A state is discarded once

To discard a state is to tell its listeners of it, each once, and then to make the state undefined.
The listeners may do what they like meanwhile: change the status, dispose the state, register and
remove listeners, begin passes of other states, or discard the same state again.  The flag of the
state makes sure that the last of these does nothing, and it is set as long as the pass is under
way and no longer, so that the state can be discarded another time whenever it has got a status
again.

* `BreaksOff` is what a step does that breaks everything off.
* `Placed` says where a pass under way has its frame.  Nothing below it changes until it returns.
* `Course` is what is known of the discard of a state at every moment since its pass began.
* `discard_tells_once` puts this together, for every moment of every chronicle.
-/

set_option autoImplicit false

namespace ContentOverlay

/-! ## The request -/

namespace Session

variable {s t : Session} {caller : Option (Caller × Nat)} {todo : List Request}
  {answers : List Answer} {rest : List Frame} {n : Nat} {p : Pass}

section
variable {name : String} {id : StateId} {x : State}
  (hs : s.frames = .requests caller (.act (.discard name) :: todo) answers :: rest)
  (hfind : s.store.find name = .ok (id, x))
include hs hfind

/-- A state that is being discarded is not discarded again: nobody is told, and nothing changes. -/
theorem advance_discard_of_discarding (hx : x.discarding = true) :
    s.advance = some { s with frames := .requests caller todo (.done :: answers) :: rest } := by
  rw [advance_requests hs, carryOut,
    Store.perform_discard_of_none hfind _ (Store.discard?_eq_none hx)]
  rfl

/-- Another state is discarded by a pass over the listeners that are registered and alive. -/
theorem advance_discard (hx : x.discarding = false) (hstatus : x.status ≠ .undefined) (n : Nat) :
    ∃ p u, s.advance = some u ∧ s.deed? n = some (.begins p) ∧
      u.frames = .pass p p.audience :: .requests caller todo answers :: rest ∧
      p = ⟨id, .discarded, x.registry.live (s.store.isListening s.holding), true⟩ := by
  obtain ⟨st', hd⟩ : ∃ st', s.store.discard? s.holding id x = some (_, st') :=
    Store.exists_discard? hx hstatus
  have hperform := Store.perform_discard_of_some hfind (caller.map (·.1)) hd
  refine ⟨_, _, advance_requests hs, ?_, ?_, rfl⟩
  · rw [deed?, hs]
    dsimp only
    rw [hperform]
  · rw [carryOut]
    dsimp only
    rw [holding_requests hs, hperform]
    rfl

end

/-- The pass by which a state is discarded.  It tells the listeners that are registered and alive
when it begins, each of them once. -/
structure IsDiscardPass (s : Session) (id : StateId) (x : State) (p : Pass) : Prop where
  source : p.source = id
  event : p.event = .discarded
  discards : p.discards = true
  once : p.audience.Nodup
  audience : ∀ l, l ∈ p.audience ↔
    l ∈ x.registry.entries ∧ s.store.isListening s.holding l = true

/-! ## Breaking off -/

/-- What a step does that breaks everything off.  All requests but the client's are gone, and no
state is made undefined by it. -/
structure BreaksOff (s t : Session) : Prop where
  frames : t.frames = [.requests none [] [.failed .broken]]
  status : ∀ id, (t.store.state? id).map State.status = (s.store.state? id).map State.status
  log : heard t.log = heard s.log

/-- After everything was broken off no state has its flag set. -/
theorem BreaksOff.flag (h : BreaksOff s t) (ht : Sound t.frames t.store) {id : StateId} {x : State}
    (hx : t.store.state? id = some x) : x.discarding = false := by
  have hflags := ht.flags hx
  rw [h.frames] at hflags
  exact Bool.eq_false_iff.2 fun hd => List.not_mem_nil (hflags.1 hd)

theorem breaksOff_of_frames {fs : List Frame} :
    BreaksOff s (breakOff { s with frames := fs }) where
  frames := rfl
  status := by
    intro id
    rw [breakOff, state?_foldl_abandon, Option.map_map]
    congr 1
    funext x
    simp only [Function.comp_apply]
    split <;> rfl
  log := heard_foldl_logAbandoned ..

/-- A request that is broken breaks everything off. -/
theorem deed?_of_broken {action : Action}
    (hs : s.frames = .requests caller (.act action :: todo) answers :: rest)
    (hb : s.store.perform s.holding (caller.map (·.1)) action = .error .broken) (n : Nat) :
    s.deed? n = some .breaks := by
  rw [deed?, hs]
  dsimp only
  rw [hb]

theorem advance_breaks (hd : s.deed? n = some .breaks) : ∃ t, s.advance = some t ∧ BreaksOff s t := by
  unfold deed? at hd
  split at hd
  · next hs =>
    split at hd
    · exact absurd trivial (Action.not_ofPass hd)
    · cases hd
    · next hb =>
      refine ⟨_, advance_requests hs, ?_⟩
      rw [carryOut]
      dsimp only
      rw [holding_requests hs, hb]
      exact breaksOff_of_frames
    · cases hd
  all_goals cases hd

end Session

namespace Chronicle

open Session

variable {config : Config} {clock : Timestamp} {may : Request → Prop} {c c' : Chronicle}
  {u w : Session} {n : Nat} {p : Pass} {base fs : List Frame} {below running : List Nat}
  {post : List Deed}

/-! ## Where a pass has its frame -/

/-- The pass of this number has its frame on top of `base`, and its number on top of `below`. -/
def Placed (n : Nat) (p : Pass) (base : List Frame) (below : List Nat) (fs : List Frame)
    (running : List Nat) : Prop :=
  ∃ above pending inner, fs = above ++ .pass p pending :: base ∧ running = inner ++ n :: below ∧
    inner.length = (passesOf above).length

theorem Placed.mem (h : Placed n p base below fs running) : n ∈ running := by
  obtain ⟨_, _, _, -, rfl, -⟩ := h
  exact List.mem_append_right _ List.mem_cons_self

/-- **A step leaves a pass in its place**, unless the pass returns or everything is broken off. -/
theorem Placed.extend (h : Placed n p base below c.session.frames c.running)
    (hu : c.session.advance = some u) :
    Placed n p base below u.frames (c.extend u).running ∨
      (c.next? = some (.ends n p) ∧ (c.extend u).running = below) ∨ c.next? = some .breaks := by
  obtain ⟨above, pending, inner, hframes, hrunning, hlength⟩ := h
  have hturn := turn hu
  change Placed n p base below u.frames (c.runningAfter c.next?) ∨
    (_ ∧ c.runningAfter c.next? = below) ∨ _
  generalize c.next? = d at hturn ⊢
  cases hturn with
  | @answers _ _ _ _ _ d _ before after apart =>
    rcases List.append_eq_cons_iff.1 (hframes.symm.trans before) with ⟨-, hf⟩ | ⟨above, rfl, rfl⟩
    · cases hf
    · refine .inl ⟨_ :: above, pending, inner, after, ?_, hlength⟩
      cases d with
      | none => exact hrunning
      | some e => exact (runningAfter_apart c (apart e rfl)).trans hrunning
  | begins before after =>
    rcases List.append_eq_cons_iff.1 (hframes.symm.trans before) with ⟨-, hf⟩ | ⟨above, rfl, rfl⟩
    · cases hf
    · exact .inl ⟨_ :: _ :: above, pending, _ :: inner, after, congrArg _ hrunning,
        congrArg _ hlength⟩
  | breaks => exact .inr (.inr rfl)
  | returns before after =>
    rcases List.append_eq_cons_iff.1 (hframes.symm.trans before) with ⟨-, hf⟩ | ⟨above, rfl, rfl⟩
    · cases hf
    · exact .inl ⟨above, pending, inner, after, hrunning, hlength⟩
  | tells before after =>
    rcases List.append_eq_cons_iff.1 (hframes.symm.trans before) with ⟨rfl, hf⟩ | ⟨above, rfl, rfl⟩
    · -- the pass itself tells the next one of its listeners
      cases hf
      rcases after with after | ⟨_, _, _, after⟩
      · exact .inl ⟨[], _, inner, after, hrunning, hlength⟩
      · exact .inl ⟨[_], _, inner, after, hrunning, hlength⟩
    · rcases after with after | ⟨_, _, _, after⟩
      · exact .inl ⟨_ :: above, pending, inner, after, hrunning, hlength⟩
      · exact .inl ⟨_ :: _ :: above, pending, inner, after, hrunning, hlength⟩
  | ends before after =>
    rcases List.append_eq_cons_iff.1 (hframes.symm.trans before) with ⟨rfl, hf⟩ | ⟨above, rfl, rfl⟩
    · cases hf
      obtain rfl := List.eq_nil_of_length_eq_zero hlength
      rw [innermost, hrunning, runningAfter_ends, hrunning]
      exact .inr (.inl ⟨rfl, rfl⟩)
    · obtain ⟨k, inner, rfl⟩ := List.exists_cons_of_length_eq_add_one hlength
      refine .inl ⟨answer .done above, pending, inner, after.trans (answer_append ..), ?_, ?_⟩
      · rw [runningAfter_ends, hrunning]
        rfl
      · rw [passesOf_answer]
        exact Nat.succ.inj hlength

theorem Placed.reorder {q : Pass} {pending pending' : List ListenerId} {rest : List Frame}
    (h : Placed n p base below (.pass q pending :: rest) running) :
    Placed n p base below (.pass q pending' :: rest) running := by
  obtain ⟨above, _, inner, hframes, hrunning, hlength⟩ := h
  rcases List.append_eq_cons_iff.1 hframes.symm with ⟨rfl, hf⟩ | ⟨above, rfl, rfl⟩
  · cases hf
    exact ⟨[], pending', inner, rfl, hrunning, hlength⟩
  · exact ⟨_ :: above, _, inner, rfl, hrunning, hlength⟩

/-- The listeners that a pass has left are those in its frame. -/
theorem Placed.exists_pending (h : Placed n p base below fs running) (hnodup : running.Nodup)
    (hfate : Fate n p running (passesOf fs) post) :
    ∃ above pending, fs = above ++ .pass p pending :: base ∧
      (told n post ++ pending).Perm p.audience := by
  have hmem := h.mem
  obtain ⟨above, pending, inner, rfl, rfl, hlength⟩ := h
  refine ⟨above, pending, rfl, ?_⟩
  cases hfate with
  | ends _ _ gone => exact absurd hmem gone
  | breaks _ _ gone => exact absurd hmem gone
  | @runs pending' mem htold =>
    have hpasses : passesOf (above ++ .pass p pending :: base) =
        passesOf above ++ (p, pending) :: passesOf base := List.filterMap_append
    obtain ⟨-, hbelow, hinner⟩ := List.nodup_append.1 hnodup
    rw [hpasses, List.zip_append hlength, List.zip_cons_cons, List.mem_append,
      List.mem_cons] at mem
    rcases mem with mem | he | mem
    · exact absurd rfl (hinner n (List.of_mem_zip mem).1 n List.mem_cons_self)
    · cases he
      exact htold
    · exact absurd (List.of_mem_zip mem).1 (List.nodup_cons.1 hbelow).1

/-- The frame of a pass that is about to return is the innermost one. -/
theorem Placed.frames_of_ends {q : Pass} (h : Placed n p base below c.session.frames c.running)
    (hnodup : c.running.Nodup) (hd : c.next? = some (.ends n q)) :
    c.session.frames = .pass p [] :: base := by
  obtain ⟨above, pending, inner, hframes, hrunning, hlength⟩ := h
  obtain ⟨hn, rest, hs⟩ := Session.frames_of_ends hd
  rcases List.append_eq_cons_iff.1 (hframes.symm.trans hs) with ⟨rfl, hf⟩ | ⟨above, rfl, -⟩
  · cases hf
    exact hs
  · obtain ⟨k, inner, rfl⟩ := List.exists_cons_of_length_eq_add_one hlength
    rw [innermost, hrunning] at hn
    obtain rfl : n = k := hn
    rw [hrunning] at hnodup
    exact absurd (List.mem_append_right _ List.mem_cons_self) (List.nodup_cons.1 hnodup).1

/-! ## Along a chronicle -/

theorem nodup_running (hv : Valid c) : c.running.Nodup :=
  hv.numbered.decreasing.imp fun h => h.ne'

section
variable (h : Later may (blank config clock) c) (hu : c.session.advance = some u)
  (hb : c.next? = some (.begins p)) (hf : u.frames = .pass p p.audience :: base)
include h hu hb hf

/-- **A pass stays in its place** as long as it is under way. -/
theorem placed_of_later (hl : Later may (c.extend u) c') (hr : c.deeds.length ∈ c'.running) :
    Placed c.deeds.length p base c.running c'.session.frames c'.running := by
  induction hl with
  | refl =>
    refine ⟨[], p.audience, [], hf, ?_, rfl⟩
    rw [Chronicle.extend, hb]
    rfl
  | @tail c' c'' hl move ih =>
    have hv := valid_of_later ((h.tail (.advance hu)).trans hl)
    obtain ⟨post, hpost, -⟩ := fate_of_later h hu hb hl
    have hbefore := running_of_move (length_lt_of_deeds hb hpost) move hr
    have hplaced := ih hbefore
    cases move with
    | submit r _ idle =>
      rw [running_of_idle hv idle] at hbefore
      cases hbefore
    | elapse => exact hplaced
    | reorder before => exact (before ▸ hplaced).reorder
    | advance step =>
      rcases hplaced.extend step with hplaced | ⟨-, hbelow⟩ | hbreaks
      · exact hplaced
      · -- the passes that are left began earlier
        rw [hbelow] at hr
        exact absurd ((valid_of_later h).numbered.lt_length _ hr) (Nat.lt_irrefl _)
      · rw [Chronicle.extend, hbreaks] at hr
        cases hr

/-- At every moment a pass under way comes to its last step, or everything is broken off. -/
theorem exists_steps_last (hl : Later may (c.extend u) c') (hr : c.deeds.length ∈ c'.running) :
    ∃ i, c.deeds.length ∈ (c'.steps i).running ∧
      ((c'.steps i).next? = some (.ends c.deeds.length p) ∨
        (c'.steps i).next? = some .breaks) := by
  generalize hs : c'.session = s
  induction s using advance_induction generalizing c' with
  | h s ih =>
    subst hs
    have hv := valid_of_later ((h.tail (.advance hu)).trans hl)
    have hplaced := placed_of_later h hu hb hf hl hr
    obtain ⟨w, hw⟩ : ∃ w, c'.session.advance = some w := by
      obtain ⟨_, _, _, hframes, -⟩ := hplaced
      exact exists_advance_of_pass hframes hv.sound.grounded
    rcases hplaced.extend hw with hnext | ⟨hends, -⟩ | hbreaks
    · obtain ⟨i, hi⟩ := ih w hw (hl.tail (.advance hw)) hnext.mem rfl
      refine ⟨i + 1, ?_⟩
      rw [steps, Chronicle.next, hw]
      exact hi
    · exact ⟨0, hr, .inl hends⟩
    · exact ⟨0, hr, .inr hbreaks⟩

end

/-- What is known, at a moment since the pass `p` began, of the discard of a state.  The frames
`base` are those of the request, and `post` is what was done since. -/
structure Course (c : Chronicle) (p : Pass) (base : List Frame) (c' : Chronicle)
    (post : List Deed) : Prop where
  /-- The pass tells nobody twice. -/
  once : (told c.deeds.length post).Nodup
  /-- It tells nobody outside its audience. -/
  only : ∀ q l, .tells c.deeds.length q l ∈ post → q = p ∧ l ∈ p.audience
  /-- It is under way, or it has told all of its audience, or it was broken off. -/
  fate : c.deeds.length ∈ c'.running ∨
    (.ends c.deeds.length p ∈ post ∧ (told c.deeds.length post).Perm p.audience) ∨ .breaks ∈ post
  /-- While it is under way, the frames of the request are untouched, and the pass has left those
  whom it has not told. -/
  runs : c.deeds.length ∈ c'.running → ∃ above pending,
    c'.session.frames = above ++ .pass p pending :: base ∧
      (told c.deeds.length post ++ pending).Perm p.audience
  /-- Meanwhile the clients' listeners hear what they are told by it and by the passes inside it. -/
  heard : c.deeds.length ∈ c'.running →
    heard c'.session.log = heard c.session.log ++ post.flatMap Deed.hears
  /-- It comes to its last step, or everything is broken off. -/
  ending : c.deeds.length ∈ c'.running → ∃ i, c.deeds.length ∈ (c'.steps i).running ∧
    ((c'.steps i).next? = some (.ends c.deeds.length p) ∨ (c'.steps i).next? = some .breaks)
  /-- By its last step the request is answered and the state is undefined. -/
  returns : c'.next? = some (.ends c.deeds.length p) →
    (told c.deeds.length post).Perm p.audience ∧ ∃ w, c'.session.advance = some w ∧
      w.frames = answer .done base ∧ ∃ y, w.store.state? p.source = some y ∧
        y.status = .undefined ∧ y.discarding = false

/-- **What becomes of the discard of a state.** -/
theorem exists_course (h : Later may (blank config clock) c) (hu : c.session.advance = some u)
    (hb : c.next? = some (.begins p)) (hf : u.frames = .pass p p.audience :: base)
    (hnodup : p.audience.Nodup) (hd : p.discards = true) (hl : Later may (c.extend u) c') :
    ∃ post, c'.deeds = (c.extend u).deeds ++ post ∧ Course c p base c' post := by
  obtain ⟨post, hpost, hfate, hheard⟩ := fate_of_later h hu hb hl
  have hreached := (h.tail (.advance hu)).trans hl
  have hv := valid_of_later hreached
  have hdeeds : c'.deeds = c.deeds ++ .begins p :: post := by
    rw [hpost, Chronicle.extend, hb, Option.toList_some, List.append_assoc, List.singleton_append]
  have hruns : ∀ hr : c.deeds.length ∈ c'.running, _ := fun hr =>
    (placed_of_later h hu hb hf hl hr).exists_pending (nodup_running hv) hfate
  refine ⟨post, hpost, hfate.nodup hnodup, fun q l => eq_of_tells hreached hdeeds, ?_, hruns,
    hheard, exists_steps_last h hu hb hf hl, fun hends => ?_⟩
  · cases hfate with
    | runs mem => exact .inl (List.of_mem_zip mem).1
    | ends ended told => exact .inr (.inl ⟨ended, told⟩)
    | breaks broken => exact .inr (.inr broken)
  · obtain ⟨hn, rest, hs⟩ := Session.frames_of_ends hends
    obtain ⟨k, running, hrunning, -⟩ : ∃ k running, c'.running = k :: running ∧ k ∉ running := by
      have hnum := hv.numbered
      rw [IsNumbered, hs] at hnum
      exact hnum.exists_running_cons
    have hr : c.deeds.length ∈ c'.running := by
      rw [hn, innermost, hrunning]
      exact List.mem_cons_self
    have hframes :=
      (placed_of_later h hu hb hf hl hr).frames_of_ends (nodup_running hv) hends
    have hsound := hv.sound
    rw [hframes] at hsound
    refine ⟨?_, advance_returns hframes hsound.pass_source hd⟩
    obtain ⟨above, pending, hpending, htold⟩ := hruns hr
    obtain rfl : above = [] := by
      have hlength := congrArg List.length (hframes.symm.trans hpending)
      simp only [List.length_append, List.length_cons] at hlength
      exact List.eq_nil_of_length_eq_zero (by omega)
    cases hframes.symm.trans hpending
    rwa [List.append_nil] at htold

/-- **A state is discarded once.**  At every moment of every chronicle, at whatever depth of
callbacks and in whichever order the listeners are told:

* a state has its flag set exactly while a pass that discards it is under way;
* a request to discard it, made meanwhile, is answered at once and does nothing else;
* a request to discard it at any other time, unless it is undefined, begins a pass of its listeners
  that are alive.  However the chronicle goes on, this pass tells each of them once and nobody else,
  and by its last step the request is answered and the state is undefined.  It comes to this step,
  unless everything is broken off before;
* a request that is broken, as a listener's request to break off is, breaks everything off, which
  gives no state another status and leaves no flag. -/
theorem discard_tells_once (h : Later Any (blank config clock) c) :
    (∀ id x, c.session.store.state? id = some x →
      (x.discarding = true ↔ c.session.IsDiscarding id)) ∧
    (∀ name id x caller todo answers rest,
      c.session.frames = .requests caller (.act (.discard name) :: todo) answers :: rest →
      c.session.store.find name = .ok (id, x) →
      (c.session.IsDiscarding id → c.session.advance =
        some { c.session with frames := .requests caller todo (.done :: answers) :: rest }) ∧
      (¬ c.session.IsDiscarding id → x.status ≠ .undefined →
        ∃ p u, c.session.advance = some u ∧ c.next? = some (.begins p) ∧
          IsDiscardPass c.session id x p ∧ ∀ c', Later Any (c.extend u) c' →
            ∃ post, c'.deeds = (c.extend u).deeds ++ post ∧
              Course c p (.requests caller todo answers :: rest) c' post)) ∧
    (∀ action caller todo answers rest,
      c.session.frames = .requests caller (.act action :: todo) answers :: rest →
      c.session.store.perform c.session.holding (caller.map (·.1)) action = .error .broken →
      c.next? = some .breaks) ∧
    (c.next? = some .breaks → ∃ t, c.session.advance = some t ∧ BreaksOff c.session t ∧
      ∀ i y, t.store.state? i = some y → y.discarding = false) := by
  have hsound := (valid_of_later h).sound
  have hflag : ∀ id x, c.session.store.state? id = some x →
      (x.discarding = true ↔ c.session.IsDiscarding id) := by
    intro id x hx
    rw [isDiscarding_iff]
    exact hsound.flags hx
  refine ⟨hflag, ?_, fun action caller todo answers rest hs hb => deed?_of_broken hs hb _, ?_⟩
  · intro name id x caller todo answers rest hs hfind
    have hx := Store.state?_of_find hfind
    refine ⟨fun hd => advance_discard_of_discarding hs hfind ((hflag id x hx).2 hd), ?_⟩
    intro hnot hstatus
    have hoff : x.discarding = false := Bool.eq_false_iff.2 fun hd => hnot ((hflag id x hx).1 hd)
    obtain ⟨p, u, hu, hb, hf, rfl⟩ := advance_discard hs hfind hoff hstatus c.innermost
    have honce := (hsound.registries hx).filter (c.session.store.isListening c.session.holding)
    exact ⟨_, u, hu, hb, ⟨rfl, rfl, rfl, honce, fun l => List.mem_filter⟩,
      fun c' hl => exists_course h hu hb hf honce rfl hl⟩
  · intro hd
    obtain ⟨t, ht, hbroken⟩ := advance_breaks hd
    have htsound := hsound.step (step_of_advance ht)
    exact ⟨t, ht, hbroken, fun i y hy => hbroken.flag htsound hy⟩

/-! ## A state that is discarded again meanwhile -/

/-- A node's state is about to be discarded.  It has a listener that discards it again when it is
told, and then makes it new, and the observer of an overlay. -/
def rediscard : Chronicle :=
  let state := ((blank .default .epoch).ask
    (.act (.newNode "x" (.node ⟨0⟩) none .existing .standard))).next
  let listening := (state.ask (.listen "a" false
    [(.discarded, [.act (.discard "x"), .act (.setStatus "x" .new)])])).next
  let added := (listening.ask (.act (.add "x" "a"))).next
  let overlaid := (added.ask (.act (.overlay "o" "x" .existingModified))).next
  overlaid.ask (.act (.discard "x"))

theorem later_rediscard : Later Any (blank .default .epoch) rediscard := by
  refine .ask (.next (.ask (.next (.ask (.next (.ask (.next (.ask .refl ?_ ?_)) ?_ ?_)) ?_ ?_))
    ?_ ?_)) ?_ ?_
  all_goals trivial

/-- The pass that discards the state. -/
def rediscarding : Pass := ⟨0, .discarded, [.client "a", .observer 1], true⟩

/-- The pass is under way, and tells the observer first. -/
def reversed : Chronicle :=
  { rediscard.next with
    session := { rediscard.next.session with
      frames := [.pass rediscarding [.observer 1, .client "a"], .requests none [] []] } }

theorem later_reversed : Later Any rediscard.next reversed :=
  .tail .refl (.reorder rfl (List.Perm.swap (ListenerId.client "a") (.observer 1) []))

/-- Five steps later the pass is about to return.  Both were told once, the second discard did
nothing, and the new status does not last. -/
theorem discard_tells_once_rediscard :
    let c' := reversed.steps 5
    Later Any (blank .default .epoch) rediscard ∧
      rediscard.next? = some (.begins rediscarding) ∧ Later Any rediscard.next c' ∧
      ∃ post, c'.deeds = rediscard.next.deeds ++ post ∧ .discards 0 ∈ post ∧
        .sets 0 .new ∈ post ∧ (told 2 post).Perm [.client "a", .observer 1] ∧
        ∃ w y, c'.session.advance = some w ∧ w.frames = [.requests none [] [.done]] ∧
          w.store.state? 0 = some y ∧ y.status = .undefined := by
  intro c'
  have hl : Later Any rediscard.next c' := later_reversed.steps 5
  have hnot : ¬ rediscard.session.IsDiscarding 0 := by
    rw [isDiscarding_iff]
    exact List.not_mem_nil
  obtain ⟨p, u, hu, hb, -, hcourse⟩ :=
    ((discard_tells_once later_rediscard).2.1 "x" 0 _ none [] [] [] rfl rfl).2 hnot (by decide)
  obtain rfl : rediscarding = p := by
    have : rediscard.next? = some (.begins rediscarding) := rfl
    cases this.symm.trans hb
    rfl
  obtain rfl : rediscard.next.session = u := Option.some.inj (Eq.trans rfl hu)
  obtain ⟨post, hpost, hcourse⟩ := hcourse c' hl
  have hdeeds : c'.deeds = rediscard.next.deeds ++ [.tells 2 rediscarding (.observer 1),
      .tells 2 rediscarding (.client "a"), .discards 0, .sets 0 .new] := rfl
  obtain rfl := List.append_cancel_left (hpost.symm.trans hdeeds)
  obtain ⟨htold, w, hw, hf, y, hy, hstatus, -⟩ := hcourse.returns rfl
  exact ⟨later_rediscard, hb, hl, _, hdeeds, by simp, by simp, htold, w, y, hw, hf, hy, hstatus⟩

end Chronicle
end ContentOverlay
