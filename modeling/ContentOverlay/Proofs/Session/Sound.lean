import ContentOverlay.Proofs.Session.Step

/-!
# The invariant of sessions

At every moment of every callback, a state has its flag set exactly while a pass that discards it is
under way, and no state is discarded by two passes at once.  Also the requests of the client are
below everything else, every pass has a state as its source, and every registry holds a listener
once.

* `Sound` is the invariant, said of what is under way and of the store.
* `Sound.step` is the induction step: a case for each thing that a step can be.
* `sound_start` and `Sound.submit` are about the beginning and about requests of the client.
-/

set_option autoImplicit false

namespace ContentOverlay
namespace Session

/-! ## The invariant -/

/-- Whether a frame has the requests of the client itself. -/
def isClients : Frame → Bool
  | .requests none _ _ => true
  | _ => false

/-- The requests of the client are below everything else. -/
def Grounded : List Frame → Prop
  | [] => True
  | f :: rest => (isClients f = true → rest = []) ∧ Grounded rest

/-- The states whose listeners are being told. -/
def sources (fs : List Frame) : List StateId := fs.flatMap fun f => (heldBy f).sources

/-- What holds between the frames and the store at every moment. -/
structure Sound (fs : List Frame) (st : Store) : Prop where
  grounded : Grounded fs
  sources : ∀ id ∈ sources fs, (st.state? id).isSome
  flags : ∀ {id x}, st.state? id = some x → (x.discarding = true ↔ id ∈ discardees fs)
  once : (discardees fs).Nodup
  registries : ∀ {id x}, st.state? id = some x → x.registry.entries.Nodup

variable {fs fs' : List Frame} {st st' : Store} {p : Pass} {pending : List ListenerId}

@[simp] theorem grounded_pass : Grounded (.pass p pending :: fs) ↔ Grounded fs := by
  simp [Grounded, isClients]

@[simp] theorem grounded_requests_some {call : Caller × Nat} {todo : List Request}
    {answers : List Answer} :
    Grounded (.requests (some call) todo answers :: fs) ↔ Grounded fs := by
  simp [Grounded, isClients]

/-- The answer to a request changes nothing below it. -/
theorem answer_append (a : Answer) (above : List Frame) (p : Pass) (pending : List ListenerId)
    (base : List Frame) :
    answer a (above ++ .pass p pending :: base) = answer a above ++ .pass p pending :: base := by
  cases above with
  | nil => rfl
  | cons f above => cases f <;> rfl

theorem grounded_answer (a : Answer) (h : Grounded fs) : Grounded (answer a fs) := by
  unfold answer
  split
  · next caller _ _ _ => cases caller <;> simpa [Grounded, isClients] using h
  · exact h

@[simp] theorem sources_pass : sources (.pass p pending :: fs) = p.source :: sources fs := rfl

@[simp] theorem sources_answer (a : Answer) : sources (answer a fs) = sources fs := by
  unfold answer
  split <;> rfl

theorem discardees_subset_sources (fs : List Frame) : discardees fs ⊆ sources fs := by
  intro id h
  obtain ⟨f, hf, hd⟩ := List.mem_filterMap.1 h
  refine List.mem_flatMap.2 ⟨f, hf, ?_⟩
  cases f with
  | requests => cases hd
  | pass p pending =>
    by_cases hp : p.discards
    · simp only [discardee, if_pos hp, Option.some.injEq] at hd
      exact List.mem_singleton.2 hd.symm
    · simp [discardee, hp] at hd

namespace Sound

theorem pass_source (h : Sound (.pass p pending :: fs) st) : (st.state? p.source).isSome :=
  h.sources p.source List.mem_cons_self

/-- The invariant is about nothing but passes and the place of the client's requests. -/
theorem congr (h : Sound fs st) (hg : Grounded fs')
    (hs : Session.sources fs' = Session.sources fs) (hd : discardees fs' = discardees fs) :
    Sound fs' st where
  grounded := hg
  sources := hs ▸ h.sources
  flags := hd ▸ h.flags
  once := hd ▸ h.once
  registries := h.registries

theorem requests {caller : Option (Caller × Nat)} {todo todo' : List Request}
    {answers answers' : List Answer} (h : Sound (.requests caller todo answers :: fs) st) :
    Sound (.requests caller todo' answers' :: fs) st := by
  refine h.congr ?_ rfl rfl
  cases caller <;> exact h.grounded

theorem told {pending' : List ListenerId} (h : Sound (.pass p pending :: fs) st) :
    Sound (.pass p pending' :: fs) st :=
  h.congr (grounded_pass.2 (grounded_pass.1 h.grounded)) rfl rfl

theorem calls {call : Caller × Nat} {todo : List Request} {answers : List Answer}
    (h : Sound fs st) : Sound (.requests (some call) todo answers :: fs) st :=
  h.congr (grounded_requests_some.2 h.grounded) rfl rfl

theorem answered (h : Sound fs st) (a : Answer) : Sound (answer a fs) st :=
  h.congr (grounded_answer a h.grounded) (sources_answer a) (discardees_answer a fs)

theorem steady (h : Sound fs st) (hst : st.Steady st') : Sound fs st' where
  grounded := h.grounded
  sources := by
    intro id hid
    obtain ⟨x, hx⟩ := Option.isSome_iff_exists.1 (h.sources id hid)
    obtain ⟨y, hy, -⟩ := hst.kept hx
    exact Option.isSome_iff_exists.2 ⟨y, hy⟩
  flags := by
    intro id y hy
    cases hx : st.state? id with
    | none =>
      -- a new state: it has no flag, and no pass under way can be about it
      rw [(hst.fresh hx hy).1]
      refine ⟨fun hf => absurd hf Bool.false_ne_true, fun hid => ?_⟩
      have := h.sources id (discardees_subset_sources fs hid)
      rw [hx] at this
      cases this
    | some x =>
      obtain ⟨z, hz, hxz⟩ := hst.kept hx
      obtain rfl : z = y := Option.some.inj (hz.symm.trans hy)
      rw [hxz.flag]
      exact h.flags hx
  once := h.once
  registries := by
    intro id y hy
    cases hx : st.state? id with
    | none => exact (hst.fresh hx hy).2
    | some x =>
      obtain ⟨z, hz, hxz⟩ := hst.kept hx
      obtain rfl : z = y := Option.some.inj (hz.symm.trans hy)
      exact hxz.registry (h.registries hx)

/-- The flag of one state is given another value, and the frames say the same. -/
theorem reflag (h : Sound fs st) {id : StateId} {b : Bool} {f : State → State}
    (hf : ∀ x, (f x).discarding = b ∧ (f x).registry = x.registry) (hg : Grounded fs')
    (hs : ∀ i ∈ Session.sources fs', (st.state? i).isSome)
    (hid : id ∈ discardees fs' ↔ b = true)
    (hd : ∀ i ≠ id, (i ∈ discardees fs' ↔ i ∈ discardees fs)) (ho : (discardees fs').Nodup) :
    Sound fs' (st.update id f) where
  grounded := hg
  sources := by
    intro i hi
    have := hs i hi
    rw [Store.state?_update]
    split <;> simpa using this
  flags := by
    intro i y hy
    by_cases hi : i = id
    · subst hi
      rw [Store.state?_update_self] at hy
      obtain ⟨x, -, rfl⟩ := Option.map_eq_some_iff.1 hy
      rw [(hf x).1, hid]
    · rw [Store.state?_update_of_ne _ hi] at hy
      rw [hd i hi, h.flags hy]
  once := ho
  registries := by
    intro i y hy
    rw [Store.state?_update] at hy
    split at hy
    · obtain ⟨x, hx, rfl⟩ := Option.map_eq_some_iff.1 hy
      rw [(hf x).2]
      exact h.registries hx
    · exact h.registries hy

theorem begins (h : Sound fs st) (hb : st.Begins p st') : Sound (.pass p pending :: fs) st' := by
  obtain ⟨x, hx, hf⟩ := hb.source
  have hs : ∀ i ∈ Session.sources (.pass p pending :: fs), (st.state? i).isSome := by
    intro i hi
    rcases List.mem_cons.1 hi with rfl | hi
    · exact Option.isSome_iff_exists.2 ⟨x, hx⟩
    · exact h.sources i hi
  refine Sound.steady ?_ hb.steady
  have hdis := discardees_pass p pending fs
  rw [Store.begun]
  by_cases hd : p.discards
  · rw [if_pos hd] at hdis ⊢
    have hnew : p.source ∉ discardees fs := by
      rw [← h.flags hx, hf hd]
      exact Bool.false_ne_true
    refine h.reflag (fun _ => ⟨rfl, rfl⟩) (grounded_pass.2 h.grounded) hs ?_ ?_ ?_
    · simp [hdis]
    · intro i hi
      rw [hdis, List.mem_cons]
      exact or_iff_right hi
    · exact hdis ▸ List.nodup_cons.2 ⟨hnew, h.once⟩
  · rw [if_neg hd] at hdis ⊢
    exact ⟨grounded_pass.2 h.grounded, hs, hdis ▸ h.flags, hdis ▸ h.once, h.registries⟩

theorem ends (h : Sound (.pass p pending :: fs) st) : Sound fs (st.finishPass p) := by
  have hs : ∀ i ∈ Session.sources fs, (st.state? i).isSome :=
    fun i hi => h.sources i (List.mem_cons_of_mem _ hi)
  have hdis := discardees_pass p pending fs
  rw [Store.finishPass]
  by_cases hd : p.discards
  · rw [if_pos hd] at hdis ⊢
    have honce := List.nodup_cons.1 (hdis ▸ h.once)
    refine h.reflag (fun _ => ⟨rfl, rfl⟩) (grounded_pass.1 h.grounded) hs ?_ ?_ honce.2
    · simp [honce.1]
    · intro i hi
      rw [hdis, List.mem_cons]
      exact (or_iff_right hi).symm
  · rw [if_neg hd] at hdis ⊢
    exact ⟨grounded_pass.1 h.grounded, hs, hdis ▸ h.flags, hdis ▸ h.once, h.registries⟩

/-- After everything was broken off no state has its flag set. -/
theorem abandoned (h : Sound fs st) {id : StateId} {y : State}
    (hy : (fs.foldl abandon st).state? id = some y) : y.discarding = false := by
  rw [state?_foldl_abandon] at hy
  obtain ⟨x, hx, rfl⟩ := Option.map_eq_some_iff.1 hy
  split
  · rfl
  · next hid => exact Bool.eq_false_iff.2 fun hf => hid ((h.flags hx).1 hf)

theorem breakOff (h : Sound fs st) (answers : List Answer) :
    Sound [.requests none [] answers] (fs.foldl abandon st) where
  grounded := ⟨fun _ => rfl, trivial⟩
  sources := by
    intro id hid
    cases hid
  flags := by
    intro id y hy
    rw [h.abandoned hy]
    simp
  once := List.nodup_nil
  registries := by
    intro id y hy
    rw [state?_foldl_abandon] at hy
    obtain ⟨x, hx, rfl⟩ := Option.map_eq_some_iff.1 hy
    have := h.registries hx
    split <;> exact this

/-- **One step keeps the invariant.** -/
theorem step {s t : Session} (h : Sound s.frames s.store) (hst : Step s t) :
    Sound t.frames t.store := by
  cases hst with
  | answers a before after steady =>
    rw [before] at h
    rw [after]
    exact h.requests.steady steady
  | begins before after begins =>
    rw [before] at h
    rw [after]
    exact h.requests.begins begins
  | breaks before after =>
    subst after
    rw [before] at h
    exact h.requests.breakOff _
  | returns before after =>
    subst after
    rw [before] at h
    exact h.congr (grounded_requests_some.1 h.grounded) rfl rfl
  | tells before after steady =>
    rw [before] at h
    rcases after with after | ⟨caller, todo, after⟩
    · rw [after]
      exact h.told.steady steady
    · rw [after]
      exact h.told.calls.steady steady
  | ends before after =>
    subst after
    rw [before] at h
    exact h.ends.answered _

end Sound

/-! ## When something is left to be done -/

/-- When nothing is left to be done, the client's requests are answered and nothing is under
way. -/
theorem frames_of_idle {s : Session} (h : Grounded s.frames) (idle : s.advance = none) :
    s.frames = [] ∨ ∃ answers, s.frames = [.requests none [] answers] := by
  unfold advance at idle
  split at idle
  · next hs => exact .inl hs
  · next answers rest hs =>
    rw [hs] at h
    exact .inr ⟨answers, by rw [hs, h.1 rfl]⟩
  all_goals cases idle

theorem discardees_of_idle {s : Session} (h : Grounded s.frames) (idle : s.advance = none) :
    discardees s.frames = [] := by
  rcases frames_of_idle h idle with hs | ⟨answers, hs⟩ <;> rw [hs] <;> rfl

/-- While a pass is under way there is a step to be made. -/
theorem exists_advance_of_pass {s : Session} {above base : List Frame}
    (hs : s.frames = above ++ .pass p pending :: base) (hg : Grounded s.frames) :
    ∃ t, s.advance = some t := by
  rw [advance]
  split
  · next h =>
    rw [h] at hs
    exact absurd hs.symm (List.append_ne_nil_of_right_ne_nil _ (List.cons_ne_nil _ _))
  · next h =>
    -- the client's requests would be above the pass
    rw [h] at hg
    rw [h, hg.1 rfl] at hs
    rcases List.append_eq_cons_iff.1 hs.symm with ⟨-, hf⟩ | ⟨above', -, hf⟩
    · cases hf
    · exact absurd hf.symm (List.append_ne_nil_of_right_ne_nil _ (List.cons_ne_nil _ _))
  all_goals exact ⟨_, rfl⟩

/-! ## The beginning, and the client's requests -/

theorem sound_start (config : Config) (clock : Timestamp) :
    Sound (start config clock).frames (start config clock).store := by
  refine ⟨trivial, ?_, ?_, List.nodup_nil, ?_⟩
  · intro _ h
    cases h
  · intro _ _ h
    cases h
  · intro _ _ h
    cases h

theorem Sound.submit {s : Session} (h : Sound s.frames s.store) (idle : s.advance = none)
    (r : Request) : Sound (s.submit r).frames (s.submit r).store := by
  refine ⟨⟨fun _ => rfl, trivial⟩, ?_, ?_, List.nodup_nil, h.registries⟩
  · intro _ h
    cases h
  · intro id x hx
    rw [h.flags hx, discardees_of_idle h.grounded idle]
    rfl

end Session
end ContentOverlay
