import ContentOverlay.Proofs.Session.Cascade

/-!
# A cascade of discards ends

The listeners that are told that a state is discarded may discard others, in cycles or not, and may
register each other meanwhile.  That this comes to an end is not for their scripts to see to: a pass
begins only if its state is not spent, and afterwards that is spent for good.  So there is one pass
for each state at most, and each pass has a bounded audience.

* `Session.cost` is what is left to be done, and `cost_lt` says that every step takes some of it.
* `Trace` is what is known of the deeds of a cascade, and `Stage` how far the request has come with
  which it began.
* `discard_cascade_ends` follows a cascade along a chronicle.
-/

set_option autoImplicit false

namespace ContentOverlay

/-! ## What is left to be done -/

namespace Store

variable {st st' : Store} {h : Holding} {p : Pass}

/-- The states that are neither undefined nor being discarded. -/
def unspent (st : Store) : Finset StateId :=
  (Finset.range st.states.length).filter fun id => st.isSpent id = false

theorem Abides.unspent_subset (ha : st.Abides st') : st'.unspent ⊆ st.unspent := by
  intro id hid
  rw [unspent, Finset.mem_filter] at hid ⊢
  rw [ha.states] at hid
  refine ⟨hid.1, Bool.eq_false_iff.2 fun hspent => ?_⟩
  rw [ha.spent id hspent] at hid
  cases hid.2

theorem Discards.card_unspent_lt (hd : st.Discards h p st') :
    st'.unspent.card < st.unspent.card := by
  obtain ⟨x, hx, -⟩ := hd.audience
  have hlt : p.source < st.states.length := (List.getElem?_eq_some_iff.1 hx).1
  have hmem : p.source ∈ st.unspent :=
    Finset.mem_filter.2 ⟨Finset.mem_range.2 hlt, hd.unspent⟩
  have hnot : p.source ∉ st'.unspent := by
    intro hm
    have hunspent := (Finset.mem_filter.1 hm).2
    rw [hd.spent] at hunspent
    cases hunspent
  exact Finset.card_lt_card ((Finset.ssubset_iff_of_subset hd.abides.unspent_subset).2
    ⟨p.source, hmem, hnot⟩)

end Store

namespace Session

variable {m : Nat} {s t : Session} {d : Option Deed}

/-- The largest number of requests that a listener makes when it is told once. -/
def longest (scripts : List (String × Script)) : Nat :=
  ((scripts.flatMap (·.2)).map (·.2.length)).toFinset.sup id

theorem length_le_longest {scripts : List (String × Script)} {e : String × Script}
    (he : e ∈ scripts) {entry : Event × List Request} (hentry : entry ∈ e.2) :
    entry.2.length ≤ longest scripts := by
  have hmem : entry.2.length ∈ (scripts.flatMap (·.2)).map (·.2.length) :=
    List.mem_map.2 ⟨entry, List.mem_flatMap.2 ⟨e, he, hentry⟩, rfl⟩
  exact Finset.le_sup (f := id) (List.mem_toFinset.2 hmem)

/-- The steps that a frame takes at most to its end, if listeners make at most `m` requests each
time. -/
def costOf (m : Nat) : Frame → Nat
  | .requests caller todo _ => todo.length + if caller.isSome then 1 else 0
  | .pass _ pending => pending.length * (m + 2) + 1

/-- The steps that a cascade takes at most to its end: those of what is under way, and for each
state that is not spent those of a pass. -/
def cost (m : Nat) (s : Session) : Nat :=
  total (s.frames.map (costOf m)) +
    s.store.unspent.card * (s.store.crowd.length * (m + 2) + 1)

@[simp] theorem map_costOf_answer (a : Answer) (fs : List Frame) :
    (answer a fs).map (costOf m) = fs.map (costOf m) := by
  unfold answer
  split <;> rfl

/-- Nobody is told twice by a pass, so its audience is not larger than the crowd. -/
theorem length_audience_le {p : Pass} {st : Store}
    (hc : Cascading m s) (hs : Sound s.frames s.store)
    (hd : s.store.Discards s.holding p st) : p.audience.length ≤ s.store.crowd.length := by
  obtain ⟨x, hx, haudience⟩ := hd.audience
  have hnodup : p.audience.Nodup := haudience ▸ (hs.registries hx).filter _
  refine (hnodup.subperm fun l hl => hc.mem_crowd ?_).length_le
  rw [haudience] at hl
  exact (Registry.mem_live.1 hl).2

/-- **Every step of a cascade takes it nearer to its end.** -/
theorem CascadeTurn.cost_lt (hc : Cascading m s) (hs : Sound s.frames s.store)
    (ht : CascadeTurn m s t d) : t.cost m < s.cost m := by
  have hcard := Finset.card_le_card ht.abides.store.unspent_subset
  have hcrowd := ht.abides.store.crowd
  rw [cost, cost, hcrowd]
  generalize hK : s.store.crowd.length * (m + 2) + 1 = K
  have hmul : t.store.unspent.card * K ≤ s.store.unspent.card * K := Nat.mul_le_mul_right K hcard
  cases ht with
  | answers a before after =>
    rw [before, after, List.map_cons, List.map_cons, total_cons, total_cons, costOf, costOf,
      List.length_cons]
    omega
  | begins before after discards =>
    -- the pass is paid for with the state that it spends
    have hlt := Nat.mul_le_mul_right K discards.card_unspent_lt
    have haudience := Nat.mul_le_mul_right (m + 2) (length_audience_le hc hs discards)
    rw [Nat.succ_mul] at hlt
    rw [before, after, List.map_cons, List.map_cons, List.map_cons, total_cons, total_cons,
      total_cons, costOf, costOf, costOf, List.length_cons]
    omega
  | returns before after =>
    rw [before, after, List.map_cons, total_cons, costOf, Option.isSome_some, if_pos rfl]
    omega
  | tells before after =>
    rcases after with after | ⟨call, todo, after, hm, -⟩
    · rw [before, after, List.map_cons, List.map_cons, total_cons, total_cons, costOf, costOf,
        List.length_cons, Nat.succ_mul]
      omega
    · rw [before, after, List.map_cons, List.map_cons, List.map_cons, total_cons, total_cons,
        total_cons, costOf, costOf, costOf, List.length_cons, Nat.succ_mul, Option.isSome_some,
        if_pos rfl]
      omega
  | ends before after =>
    rw [before, after, map_costOf_answer, List.map_cons, total_cons, costOf]
    omega

end Session

/-! ## What was done -/

/-- The state that a pass begins to tell of. -/
def Deed.begun? : Deed → Option StateId
  | begins p => some p.source
  | _ => none

/-- Who is told, and of which state. -/
def Deed.told? : Deed → Option (StateId × ListenerId)
  | tells _ p l => some (p.source, l)
  | _ => none

namespace Chronicle

open Session

variable {m : Nat} {s t : Session} {d : Option Deed} {e : Deed} {fs : List Frame} {st : Store}
  {post : List Deed}

/-- The states of which passes began, in that order. -/
def begun (post : List Deed) : List StateId := post.filterMap Deed.begun?

/-- Who was told of which state, in that order. -/
def tellings (post : List Deed) : List (StateId × ListenerId) := post.filterMap Deed.told?

theorem begun_append (post post' : List Deed) : begun (post ++ post') = begun post ++ begun post' :=
  List.filterMap_append

theorem tellings_append (post post' : List Deed) :
    tellings (post ++ post') = tellings post ++ tellings post' :=
  List.filterMap_append

theorem mem_begun_iff {id : StateId} : id ∈ begun post ↔ ∃ p, .begins p ∈ post ∧ p.source = id := by
  rw [begun, List.mem_filterMap]
  constructor
  · rintro ⟨e, he, hid⟩
    cases e <;> cases hid
    exact ⟨_, he, rfl⟩
  · rintro ⟨p, hp, rfl⟩
    exact ⟨_, hp, rfl⟩

theorem mem_tellings_iff {a : StateId × ListenerId} :
    a ∈ tellings post ↔ ∃ n p l, .tells n p l ∈ post ∧ (p.source, l) = a := by
  rw [tellings, List.mem_filterMap]
  constructor
  · rintro ⟨e, he, ha⟩
    cases e <;> cases ha
    exact ⟨_, _, _, he, rfl⟩
  · rintro ⟨n, p, l, hp, rfl⟩
    exact ⟨_, hp, rfl⟩

/-- Of one deed there is at most one thing to say. -/
theorem nodup_filterMap_toList {α : Type} (f : Deed → Option α) (d : Option Deed) :
    (d.toList.filterMap f).Nodup := by
  cases d with
  | none => exact .nil
  | some e =>
    rw [Option.toList_some, List.filterMap_cons, List.filterMap_nil]
    cases f e with
    | none => exact .nil
    | some a => exact List.nodup_singleton a

/-- What is known of the deeds of a cascade, with what is under way. -/
structure Trace (fs : List Frame) (st : Store) (post : List Deed) : Prop where
  discards : ∀ p, .begins p ∈ post → p.event = .discarded ∧ p.discards = true
  once : (begun post).Nodup
  spent : ∀ id ∈ begun post, st.isSpent id = true
  asked : ∀ id, .discards id ∈ post → st.isSpent id = true
  toldOnce : (tellings post).Nodup
  told : ∀ a ∈ tellings post, a.1 ∈ begun post
  running : ∀ f ∈ passesOf fs, f.1.source ∈ begun post
  /-- Those whom a pass has left have not been told by it, and each of them is left once. -/
  pending : ∀ f ∈ passesOf fs, f.2.Nodup ∧ ∀ l ∈ f.2, (f.1.source, l) ∉ tellings post

/-- The passes of a cascade discard. -/
theorem sources_passesOf {crowd : List ListenerId} (h : ∀ f ∈ fs, InCascade crowd f) :
    (passesOf fs).map (·.1.source) = discardees fs := by
  rw [passesOf, discardees, List.map_filterMap]
  refine List.filterMap_congr fun f hf => ?_
  cases f with
  | requests => rfl
  | pass p pending =>
    obtain ⟨-, hp, -⟩ := h _ hf
    simp [passOf?, discardee, hp]

/-- A deed that the account of a cascade can go on with.  A pass that begins is the first one of its
state, and who is told has not been told of it. -/
theorem Trace.concat {fs' : List Frame} {st' : Store} (h : Trace fs st post) (ha : st.Abides st')
    (hbegins : ∀ p, d = some (.begins p) → p.event = .discarded ∧ p.discards = true ∧
      p.source ∉ begun post ∧ st'.isSpent p.source = true)
    (hasked : ∀ id, d = some (.discards id) → st.isSpent id = true)
    (htells : ∀ n p l, d = some (.tells n p l) →
      p.source ∈ begun post ∧ (p.source, l) ∉ tellings post)
    (hrunning : ∀ f ∈ passesOf fs', f.1.source ∈ begun (post ++ d.toList))
    (hpending : ∀ f ∈ passesOf fs', f.2.Nodup ∧
      ∀ l ∈ f.2, (f.1.source, l) ∉ tellings (post ++ d.toList)) :
    Trace fs' st' (post ++ d.toList) where
  discards := by
    intro p hm
    rcases List.mem_append.1 hm with hm | hm
    · exact h.discards p hm
    · obtain ⟨hevent, hdiscards, -, -⟩ := hbegins p (Option.mem_toList.1 hm)
      exact ⟨hevent, hdiscards⟩
  once := by
    rw [begun_append, List.nodup_append]
    refine ⟨h.once, nodup_filterMap_toList .., ?_⟩
    rintro _ hold _ hm rfl
    obtain ⟨p, hp, rfl⟩ := mem_begun_iff.1 hm
    exact (hbegins p (Option.mem_toList.1 hp)).2.2.1 hold
  spent := by
    intro id hm
    rw [begun_append] at hm
    rcases List.mem_append.1 hm with hm | hm
    · exact ha.spent id (h.spent id hm)
    · obtain ⟨p, hp, rfl⟩ := mem_begun_iff.1 hm
      exact (hbegins p (Option.mem_toList.1 hp)).2.2.2
  asked := by
    intro id hm
    rcases List.mem_append.1 hm with hm | hm
    · exact ha.spent id (h.asked id hm)
    · exact ha.spent id (hasked id (Option.mem_toList.1 hm))
  toldOnce := by
    rw [tellings_append, List.nodup_append]
    refine ⟨h.toldOnce, nodup_filterMap_toList .., ?_⟩
    rintro _ hold _ hm rfl
    obtain ⟨n, p, l, hp, rfl⟩ := mem_tellings_iff.1 hm
    exact (htells n p l (Option.mem_toList.1 hp)).2 hold
  told := by
    intro a hm
    rw [tellings_append] at hm
    rw [begun_append]
    rcases List.mem_append.1 hm with hm | hm
    · exact List.mem_append_left _ (h.told a hm)
    · obtain ⟨n, p, l, hp, rfl⟩ := mem_tellings_iff.1 hm
      exact List.mem_append_left _ (htells n p l (Option.mem_toList.1 hp)).1
  running := hrunning
  pending := hpending

/-- A deed by which no pass begins and nobody is told. -/
theorem Trace.quiet {fs' : List Frame} {st' : Store} (h : Trace fs st post) (ha : st.Abides st')
    (hp : passesOf fs' ⊆ passesOf fs) (hb : begun d.toList = []) (ht : tellings d.toList = [])
    (hd : ∀ id, d = some (.discards id) → st.isSpent id = true) :
    Trace fs' st' (post ++ d.toList) := by
  refine h.concat ha ?_ hd ?_ ?_ ?_
  · rintro p rfl
    cases hb
  · rintro n p l rfl
    cases ht
  · rw [begun_append, hb, List.append_nil]
    exact fun f hf => h.running f (hp hf)
  · rw [tellings_append, ht, List.append_nil]
    exact fun f hf => h.pending f (hp hf)

/-- A pass begins of a state that was not spent, so none of it has begun before. -/
theorem Trace.begins {fs' : List Frame} {st' : Store} {held : Holding} {p : Pass}
    (h : Trace fs st post) (hd : st.Discards held p st') (hn : p.audience.Nodup)
    (hp : passesOf fs' = (p, p.audience) :: passesOf fs) :
    Trace fs' st' (post ++ [.begins p]) := by
  have hnew : p.source ∉ begun post := by
    intro hm
    have hspent := h.spent _ hm
    rw [hd.unspent] at hspent
    cases hspent
  have ht : tellings (post ++ [.begins p]) = tellings post :=
    (tellings_append ..).trans (List.append_nil _)
  refine h.concat (d := some (.begins p)) hd.abides ?_ ?_ ?_ ?_ ?_
  · rintro _ ⟨⟩
    exact ⟨hd.event, hd.discards, hnew, hd.spent⟩
  · rintro id ⟨⟩
  · rintro n q l ⟨⟩
  · rw [hp, List.forall_mem_cons, begun_append]
    exact ⟨List.mem_append_right _ (List.mem_singleton.2 rfl),
      fun f hf => List.mem_append_left _ (h.running f hf)⟩
  · rw [hp, List.forall_mem_cons, Option.toList_some, ht]
    exact ⟨⟨hn, fun l _ hm => hnew (h.told _ hm)⟩, h.pending⟩

/-- A pass tells one of those that it has left, and the other passes are of other states. -/
theorem Trace.tells {fs' : List Frame} {st' : Store} {n : Nat} {p : Pass} {l : ListenerId}
    {pending : List ListenerId} {passes : List (Pass × List ListenerId)}
    (h : Trace fs st post) (ha : st.Abides st') (hs : (passesOf fs).map (·.1.source) |>.Nodup)
    (hp : passesOf fs = (p, l :: pending) :: passes) (hp' : passesOf fs' = (p, pending) :: passes) :
    Trace fs' st' (post ++ [.tells n p l]) := by
  obtain ⟨hsource, hrunning⟩ := List.forall_mem_cons.1 (hp ▸ h.running)
  obtain ⟨hfirst, hothers⟩ := List.forall_mem_cons.1 (hp ▸ h.pending)
  obtain ⟨hl, hpending⟩ := List.nodup_cons.1 hfirst.1
  rw [hp, List.map_cons, List.nodup_cons] at hs
  have hnot : ∀ {a}, a ∉ tellings post → a ≠ (p.source, l) →
      a ∉ tellings (post ++ [.tells n p l]) := by
    intro a hold hne hm
    rw [tellings_append] at hm
    exact (List.mem_append.1 hm).elim hold fun hm => hne (List.mem_singleton.1 hm)
  refine h.concat (d := some (.tells n p l)) ha ?_ ?_ ?_ ?_ ?_
  · rintro q ⟨⟩
  · rintro id ⟨⟩
  · rintro _ _ _ ⟨⟩
    exact ⟨hsource, hfirst.2 l List.mem_cons_self⟩
  · rw [hp', List.forall_mem_cons, begun_append]
    exact ⟨List.mem_append_left _ hsource, fun f hf => List.mem_append_left _ (hrunning f hf)⟩
  · rw [hp', List.forall_mem_cons]
    refine ⟨⟨hpending, fun l' hl' => hnot (hfirst.2 l' (List.mem_cons_of_mem _ hl')) ?_⟩,
      fun f hf => ⟨(hothers f hf).1, fun l' hl' => hnot ((hothers f hf).2 l' hl') ?_⟩⟩
    · intro he
      cases he
      exact hl hl'
    · intro he
      exact hs.1 (List.mem_map.2 ⟨f, hf, congrArg Prod.fst he⟩)

/-- By a deed that is not of a pass none begins, and nobody is told. -/
theorem quiet_of_apart (h : ∀ e ∈ d, ¬ e.OfPass) :
    begun d.toList = [] ∧ tellings d.toList = [] := by
  cases d with
  | none => exact ⟨rfl, rfl⟩
  | some e => cases e <;> first | exact ⟨rfl, rfl⟩ | exact absurd trivial (h _ rfl)

/-- **A step keeps the account of a cascade.** -/
theorem Trace.turn (h : Trace s.frames s.store post) (hc : Cascading m s)
    (hs : Sound s.frames s.store) (ht : CascadeTurn m s t d) :
    Trace t.frames t.store (post ++ d.toList) := by
  have habides := ht.abides.store
  cases ht with
  | answers a before after apart spent =>
    obtain ⟨hbegun, htold⟩ := quiet_of_apart apart
    refine h.quiet habides ?_ hbegun htold spent
    rw [before, after]
    exact List.Subset.refl _
  | begins before after discards =>
    refine h.begins discards ?_ ?_
    · obtain ⟨x, hx, haudience⟩ := discards.audience
      exact haudience ▸ (hs.registries hx).filter _
    · rw [before, after]
      rfl
  | returns before after =>
    refine h.quiet habides ?_ rfl rfl (by simp)
    rw [before, after]
    exact List.Subset.refl _
  | @tells n p l pending rest before after =>
    have hpasses : passesOf s.frames = (p, l :: pending) :: passesOf rest := by
      rw [before]
      rfl
    refine h.tells habides ?_ hpasses ?_
    · rw [sources_passesOf hc.frames]
      exact hs.once
    · rcases after with after | ⟨_, _, after, -⟩ <;> rw [after] <;> rfl
  | ends before after =>
    refine h.quiet habides ?_ rfl rfl (by simp)
    rw [before, after, passesOf_answer]
    exact List.subset_cons_self ..

/-! ## The request of the client -/

/-- How far the client's request has come to discard the state of this name. -/
inductive Stage (name : String) (id : StateId) (fs : List Frame) (st : Store) : Prop
  | asks {x : State} (frames : fs = [.requests none [.act (.discard name)] []])
      (found : st.find name = .ok (id, x))
  | runs (above : List Frame) {p : Pass} {pending : List ListenerId}
      (frames : fs = above ++ [.pass p pending, .requests none [] []])
      (spent : st.isSpent id = true)
  | returns (frames : fs = [.requests none [] [.done]]) (spent : st.isSpent id = true)

variable {name : String} {id : StateId}

/-- The request begins a pass, or it is answered at once. -/
theorem Stage.of_asks {x : State} (hs : s.frames = [.requests none [.act (.discard name)] []])
    (hfind : s.store.find name = .ok (id, x)) (ht : s.advance = some t) :
    Stage name id t.frames t.store := by
  have hn := Store.named?_of_find hfind
  rw [advance_requests hs, carryOut] at ht
  dsimp only at ht
  rw [holding_requests hs] at ht
  obtain rfl := Option.some.inj ht
  rcases s.store.perform_discard_cases s.holding none name with
    ⟨why, he, -⟩ | ⟨i, hi, hspent, ho⟩ | ⟨p, st, hp, hdiscards, ho⟩
  · rw [hfind] at he
    cases he
  · obtain rfl := Option.some.inj (hn.symm.trans hi)
    rw [Option.map_none, ho]
    exact .returns rfl hspent
  · obtain rfl := Option.some.inj (hn.symm.trans hp)
    rw [Option.map_none, ho]
    exact .runs [] rfl hdiscards.spent

theorem Stage.of_runs {above : List Frame} {p : Pass} {pending : List ListenerId}
    (hs : s.frames = above ++ [.pass p pending, .requests none [] []])
    (hspent : s.store.isSpent id = true) (ht : CascadeTurn m s t d) :
    Stage name id t.frames t.store := by
  have hspent := ht.abides.store.spent id hspent
  cases ht with
  | answers a before after =>
    rcases List.append_eq_cons_iff.1 (hs.symm.trans before) with ⟨-, hf⟩ | ⟨above, -, rfl⟩
    · cases hf
    · exact .runs (_ :: above) after hspent
  | begins before after =>
    rcases List.append_eq_cons_iff.1 (hs.symm.trans before) with ⟨-, hf⟩ | ⟨above, -, rfl⟩
    · cases hf
    · exact .runs (_ :: _ :: above) after hspent
  | returns before after =>
    rcases List.append_eq_cons_iff.1 (hs.symm.trans before) with ⟨-, hf⟩ | ⟨above, -, rfl⟩
    · cases hf
    · exact .runs above after hspent
  | @tells _ q l pending' rest before after =>
    rcases List.append_eq_cons_iff.1 (hs.symm.trans before) with ⟨-, hf⟩ | ⟨above, -, rfl⟩
    · cases hf
      rcases after with after | ⟨_, _, after, -⟩
      · exact .runs [] after hspent
      · exact .runs [_] after hspent
    · rcases after with after | ⟨_, _, after, -⟩
      · exact .runs (_ :: above) after hspent
      · exact .runs (_ :: _ :: above) after hspent
  | ends before after =>
    rcases List.append_eq_cons_iff.1 (hs.symm.trans before) with ⟨-, hf⟩ | ⟨above, -, rfl⟩
    · cases hf
      exact .returns after hspent
    · exact .runs (answer .done above) (after.trans (answer_append ..)) hspent

theorem Stage.advance (h : Stage name id s.frames s.store) (hc : Cascading m s)
    (ht : s.advance = some t) : Stage name id t.frames t.store := by
  cases h with
  | asks frames found => exact .of_asks frames found ht
  | runs _ frames spent => exact .of_runs frames spent (hc.turn 0 ht)
  | returns frames =>
    rw [Session.advance, frames] at ht
    cases ht

/-- When nothing is left to be done, the request has been answered. -/
theorem Stage.idle (h : Stage name id s.frames s.store) (hg : Grounded s.frames)
    (idle : s.advance = none) :
    s.frames = [.requests none [] [.done]] ∧ s.store.isSpent id = true := by
  cases h with
  | asks frames =>
    rw [advance_requests frames] at idle
    cases idle
  | runs _ frames =>
    obtain ⟨t, ht⟩ := exists_advance_of_pass frames hg
    rw [idle] at ht
    cases ht
  | returns frames spent => exact ⟨frames, spent⟩

/-! ## Along a chronicle -/

/-- The client makes no further request. -/
def Silent : Request → Prop := fun _ => False

variable {config : Config} {clock : Timestamp} {c c' c'' : Chronicle}

/-- What holds all along a cascade that begins with the request to discard a state. -/
structure Cascade (m : Nat) (name : String) (id : StateId) (c c' : Chronicle) : Prop where
  valid : Valid c'
  cascading : Cascading m c'.session
  abides : c.session.store.Abides c'.session.store
  cost : c'.session.cost m ≤ (c.ask (.act (.discard name))).session.cost m
  stage : Stage name id c'.session.frames c'.session.store
  trace : ∃ post, c'.deeds = c.deeds ++ post ∧
    Trace c'.session.frames c'.session.store post ∧
    heard c'.session.log = post.flatMap Deed.hears

theorem cascade_ask (hv : Valid c) (idle : c.session.advance = none) {x : State}
    (hfind : c.session.store.find name = .ok (id, x))
    (hscripts : ∀ e ∈ c.session.scripts, ∀ entry ∈ e.2, entry.1 = .discarded →
      entry.2.length ≤ m ∧ ∀ r ∈ entry.2, r.Cascades) :
    Cascade m name id c (c.ask (.act (.discard name))) where
  valid := hv.move (show Move Any c _ from .submit _ trivial idle)
  cascading := by
    refine ⟨?_, hscripts⟩
    intro f hf
    rw [List.mem_singleton.1 hf]
    intro r hr
    rw [List.mem_singleton.1 hr]
    trivial
  abides := .refl _
  cost := Nat.le_refl _
  stage := .asks rfl hfind
  trace := by
    refine ⟨[], (List.append_nil _).symm, ⟨?_, .nil, ?_, ?_, .nil, ?_, ?_, ?_⟩, rfl⟩
    all_goals
      intro _ h
      cases h

theorem Cascade.reorder {p : Pass} {pending pending' : List ListenerId} {rest : List Frame}
    (h : Cascade m name id c c') (hv : Valid { c' with
      session := { c'.session with frames := .pass p pending' :: rest } })
    (before : c'.session.frames = .pass p pending :: rest) (perm : pending'.Perm pending) :
    Cascade m name id c
      { c' with session := { c'.session with frames := .pass p pending' :: rest } } := by
  obtain ⟨post, hpost, htrace, hheard⟩ := h.trace
  have hframes := h.cascading.frames
  have hcost := h.cost
  have hstage := h.stage
  rw [before] at hframes hstage htrace
  rw [Session.cost, before, List.map_cons, total_cons, costOf, ← perm.length_eq] at hcost
  obtain ⟨hpass, hrest⟩ := List.forall_mem_cons.1 hframes
  refine ⟨hv, ⟨List.forall_mem_cons.2 ⟨hpass, hrest⟩, h.cascading.scripts⟩, h.abides, hcost, ?_,
    post, hpost, ?_, hheard⟩
  · cases hstage with
    | asks frames => cases frames
    | returns frames => cases frames
    | runs above frames spent =>
      rcases List.append_eq_cons_iff.1 frames.symm with ⟨rfl, hf⟩ | ⟨above, rfl, hf⟩
      · cases hf
        exact .runs [] rfl spent
      · exact .runs (.pass p pending' :: above) (congrArg _ hf) spent
  · obtain ⟨hfirst, hothers⟩ := List.forall_mem_cons.1 htrace.pending
    exact { htrace with
      running := List.forall_mem_cons.2 (List.forall_mem_cons.1 htrace.running)
      pending := List.forall_mem_cons.2 ⟨⟨perm.nodup_iff.2 hfirst.1, fun l hl =>
        hfirst.2 l (perm.mem_iff.1 hl)⟩, hothers⟩ }

/-- The time does not matter to a cascade. -/
theorem Cascade.elapse (h : Cascade m name id c c') (time : Timestamp) :
    Cascade m name id c (c'.elapse time) where
  valid := h.valid.move (show Move Any c' _ from .elapse time)
  cascading := ⟨h.cascading.frames, h.cascading.scripts⟩
  abides := ⟨h.abides.states, h.abides.listeners, h.abides.spent⟩
  cost := h.cost
  stage := by
    cases h.stage with
    | asks frames found => exact .asks frames found
    | runs above frames spent => exact .runs above frames spent
    | returns frames spent => exact .returns frames spent
  trace := by
    obtain ⟨post, hpost, htrace, hheard⟩ := h.trace
    exact ⟨post, hpost, { htrace with }, hheard⟩

/-- **What holds along a cascade is kept by every move.** -/
theorem Cascade.move (h : Cascade m name id c c') (hm : Move Silent c' c'') :
    Cascade m name id c c'' := by
  have hv := h.valid.move hm
  cases hm with
  | submit r allowed => exact absurd allowed not_false
  | reorder before perm => exact h.reorder hv before perm
  | elapse time => exact h.elapse time
  | @advance t step =>
    obtain ⟨post, hpost, htrace, hheard⟩ := h.trace
    have hsound := h.valid.sound
    have hturn := h.cascading.turn c'.innermost step
    have hcost := hturn.cost_lt h.cascading hsound
    refine ⟨hv, h.cascading.advance step, h.abides.trans hturn.abides.store,
      (hcost.trans_le h.cost).le, h.stage.advance h.cascading step, post ++ c'.next?.toList, ?_,
      htrace.turn h.cascading hsound hturn, ?_⟩
    · rw [Chronicle.extend, hpost, List.append_assoc]
    · rw [List.flatMap_append, ← hheard, (turn step).hears]
      exact (step_of_advance step).heard hsound

theorem Cascade.later (h : Cascade m name id c c') (hl : Later Silent c' c'') :
    Cascade m name id c c'' := by
  induction hl with
  | refl => exact h
  | tail _ hm ih => exact ih.move hm

/-- As many steps as are left at most bring a cascade to its end. -/
theorem Cascade.exists_steps_idle (h : Cascade m name id c c') :
    ∃ k ≤ c'.session.cost m, (c'.steps k).session.advance = none := by
  generalize hn : c'.session.cost m = n
  induction n using Nat.strong_induction_on generalizing c' with
  | _ n ih =>
    cases ha : c'.session.advance with
    | none => exact ⟨0, Nat.zero_le n, ha⟩
    | some t =>
      have hlt : (c'.extend t).session.cost m < n :=
        hn ▸ (h.cascading.turn 0 ha).cost_lt h.cascading h.valid.sound
      obtain ⟨k, hk, hidle⟩ := ih _ hlt (h.move (.advance ha)) rfl
      refine ⟨k + 1, by omega, ?_⟩
      rw [steps, next, ha]
      exact hidle

/-- The passes under way are of different states. -/
theorem Cascade.length_running_le (h : Cascade m name id c c') :
    c'.running.length ≤ c.session.store.states.length := by
  have hpasses := sources_passesOf h.cascading.frames
  have hsound := h.valid.sound
  have hlt : ∀ i ∈ discardees c'.session.frames, i ∈ List.range c.session.store.states.length := by
    intro i hi
    obtain ⟨x, hx⟩ := Option.isSome_iff_exists.1
      (hsound.sources i (discardees_subset_sources _ hi))
    rw [List.mem_range, ← h.abides.states]
    exact (List.getElem?_eq_some_iff.1 hx).1
  rw [h.valid.numbered.runs.length_eq, ← List.length_map (·.1.source), hpasses]
  exact (hsound.once.subperm hlt).length_le.trans_eq List.length_range

theorem cost_ask_le (c : Chronicle) (m : Nat) (name : String) :
    (c.ask (.act (.discard name))).session.cost m ≤
      1 + c.session.store.states.length * ((c.session.store.listeners.length +
        c.session.store.states.length) * (m + 2) + 1) := by
  have hcard : c.session.store.unspent.card ≤ c.session.store.states.length :=
    (Finset.card_filter_le _ _).trans_eq (Finset.card_range _)
  have hcrowd : c.session.store.crowd.length =
      c.session.store.listeners.length + c.session.store.states.length := by
    simp [Store.crowd]
  rw [← hcrowd]
  exact Nat.add_le_add_left (Nat.mul_le_mul_right _ hcard) 1

/-- **A cascade of discards ends.**  In a session that is at rest a state is discarded, and when
they are told of a discard listeners do nothing but discard states, look at them, and add or remove
listeners.  Whatever the order in which passes visit their audiences, at every moment:

* the request is answered after so many steps at most;
* no more passes are under way, one within the other, than there are states;
* every pass discards, each state has begun one at most, and each listener has been told once at
  most of each state;
* when it is over, the request has been done, and every state that it or a listener asked to discard
  is undefined. -/
theorem discard_cascade_ends (h : Later Any (blank config clock) c)
    (idle : c.session.advance = none) {x : State}
    (hfind : c.session.store.find name = .ok (id, x))
    (hscripts : ∀ e ∈ c.session.scripts, Script.Cascades e.2)
    (hl : Later Silent (c.ask (.act (.discard name))) c') :
    let states := c.session.store.states.length
    let listeners := c.session.store.listeners.length
    (∃ k ≤ 1 + states * ((listeners + states) * (longest c.session.scripts + 2) + 1),
      (c'.steps k).session.advance = none) ∧
    c'.running.length ≤ states ∧
    ∃ post, c'.deeds = c.deeds ++ post ∧
      heard c'.session.log = post.flatMap Deed.hears ∧
      (∀ p, .begins p ∈ post → p.event = .discarded ∧ p.discards = true) ∧
      (begun post).Nodup ∧ (tellings post).Nodup ∧
      (c'.session.advance = none → c'.session.frames = [.requests none [] [.done]] ∧
        ∀ i, i = id ∨ .discards i ∈ post ∨ i ∈ begun post →
          ∃ y, c'.session.store.state? i = some y ∧ y.status = .undefined) := by
  intro states listeners
  have hc : Cascade (longest c.session.scripts) name id c c' :=
    (cascade_ask (valid_of_later h) idle hfind fun e he entry hentry hevent =>
      ⟨length_le_longest he hentry, hscripts e he entry hentry hevent⟩).later hl
  obtain ⟨k, hk, hidle⟩ := hc.exists_steps_idle
  obtain ⟨post, hpost, htrace, hheard⟩ := hc.trace
  refine ⟨⟨k, (hk.trans hc.cost).trans (cost_ask_le ..), hidle⟩, hc.length_running_le, post, hpost,
    hheard, htrace.discards, htrace.once, htrace.toldOnce, fun hend => ?_⟩
  obtain ⟨hframes, hspent⟩ := hc.stage.idle hc.valid.sound.grounded hend
  refine ⟨hframes, fun i hi => ?_⟩
  have hi : c'.session.store.isSpent i = true := by
    rcases hi with rfl | hi | hi
    · exact hspent
    · exact htrace.asked i hi
    · exact htrace.spent i hi
  -- nothing is under way, so it is not being discarded
  rw [Store.isSpent, Option.any_eq_true] at hi
  obtain ⟨y, hy, hi⟩ := hi
  have hflag : y.discarding ≠ true := by
    rw [ne_eq, hc.valid.sound.flags hy, hframes]
    exact List.not_mem_nil
  rw [State.isSpent, Bool.or_eq_true, decide_eq_true_eq] at hi
  exact ⟨y, hy, hi.resolve_left hflag⟩

/-! ## Two states that discard each other -/

/-- Two nodes' states with the same listener.  When it is told that one of them is discarded it
discards the other one and the same one again, and the second time it removes itself. -/
def entangled : Chronicle :=
  let first := ((blank .default .epoch).ask
    (.act (.newNode "x" (.node ⟨0⟩) none .existing .standard))).next
  let second := (first.ask (.act (.newNode "y" (.node ⟨1⟩) none .new .standard))).next
  let listening := (second.ask (.listen "a" false
    [(.discarded, [.act (.discard "y"), .act (.discard "x")]),
      (.discarded, [.act (.discard "x"), .act .removeSelf])])).next
  let added := (listening.ask (.act (.add "x" "a"))).next
  (added.ask (.act (.add "y" "a"))).next

theorem later_entangled : Later Any (blank .default .epoch) entangled := by
  have blank : Later Any (blank .default .epoch) (blank .default .epoch) := .refl
  have first := (blank.ask
    (r := .act (.newNode "x" (.node ⟨0⟩) none .existing .standard)) trivial rfl).next
  have second := (first.ask
    (r := .act (.newNode "y" (.node ⟨1⟩) none .new .standard)) trivial rfl).next
  have listening := (second.ask (r := .listen "a" false
    [(.discarded, [.act (.discard "y"), .act (.discard "x")]),
      (.discarded, [.act (.discard "x"), .act .removeSelf])]) trivial rfl).next
  have added := (listening.ask (r := .act (.add "x" "a")) trivial rfl).next
  exact (added.ask (r := .act (.add "y" "a")) trivial rfl).next

/-- The pass by which one of them is discarded. -/
def discarding (id : StateId) : Pass := ⟨id, .discarded, [.client "a"], true⟩

/-- One of the two is discarded, and so is the other one.  The listener is told twice, once of each,
and both are undefined. -/
theorem discard_cascade_ends_entangled :
    let c' := (entangled.ask (.act (.discard "x"))).steps 11
    Later Any (blank .default .epoch) entangled ∧ c'.session.advance = none ∧
      ∃ post, c'.deeds = entangled.deeds ++ post ∧ begun post = [0, 1] ∧
        tellings post = [(0, .client "a"), (1, .client "a")] ∧ .discards 0 ∈ post ∧
        ∀ i ∈ [0, 1], ∃ y, c'.session.store.state? i = some y ∧ y.status = .undefined := by
  intro c'
  have hscripts : ∀ e ∈ entangled.session.scripts, Script.Cascades e.2 := by
    have hs : entangled.session.scripts = [("a",
        [(.discarded, [.act (.discard "y"), .act (.discard "x")]),
          (.discarded, [.act (.discard "x"), .act .removeSelf])])] := rfl
    rw [hs]
    simp only [Script.Cascades, List.forall_mem_cons]
    simp [Request.Cascades, Action.Cascades, Action.IsGentle]
  have hl : Later Silent (entangled.ask (.act (.discard "x"))) c' := Later.steps .refl 11
  obtain ⟨-, -, post, hpost, -, -, -, -, hend⟩ :=
    discard_cascade_ends later_entangled rfl rfl hscripts hl
  have hidle : c'.session.advance = none := rfl
  have hdeeds : c'.deeds = entangled.deeds ++ [.begins (discarding 0),
      .tells 2 (discarding 0) (.client "a"), .begins (discarding 1),
      .tells 4 (discarding 1) (.client "a"), .discards 0, .removes 1 "a",
      .ends 4 (discarding 1), .discards 0, .ends 2 (discarding 0)] := rfl
  obtain rfl := List.append_cancel_left (hpost.symm.trans hdeeds)
  obtain ⟨-, hundefined⟩ := hend hidle
  exact ⟨later_entangled, hidle, _, hpost, rfl, rfl, by simp,
    fun i hi => hundefined i (.inr (.inr hi))⟩

end Chronicle
end ContentOverlay
