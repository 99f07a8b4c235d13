import ContentOverlay.Proofs.Session.Calm
import ContentOverlay.Proofs.Session.Handles
import ContentOverlay.Proofs.Session.Ownership
import ContentOverlay.Proofs.Session.Registration

/-!
# Listeners accounted for

Whoever is counted among the listeners of a state can be told from what was done: a listener of a
client was added and has its handle, an observer has an overlay that is held.  Entries come by these
deeds and by nothing else, and they are taken off by a removal or a disposal.  What else happens to
a registry is of no account: a pass takes entries off, but only those of listeners that are dead,
and nobody who is dead comes back to life.

* `Inscribed` says that somebody was registered by a deed and taken off by none since.
  `inscribed_of_mem` finds the deed for every entry; `client_mem_of_since` and `subscribed_of_since`
  say that the entry is there as long as its listener is held.
* `Attends` and `Watches` are the two sorts of listeners that count, and `listenerCount_of_idle` is
  their number.
* `watches_of_released` says which overlays count when all new ones were released;
  `listenerCount_of_dispose` and `listenerCount_of_drop` release one.
* `listeners_accounted` puts this together.
-/

set_option autoImplicit false

namespace ContentOverlay

/-! ## Clients and overlays -/

namespace ListenerId

/-- The name of a client's listener. -/
def client? : ListenerId → Option String
  | client name => some name
  | observer _ => none

/-- The overlay of an observer. -/
def overlay? : ListenerId → Option StateId
  | client _ => none
  | observer o => some o

variable {ls : List ListenerId}

theorem coe_clients (ls : List ListenerId) :
    ((ls.filterMap client?).toFinset : Set String) = {name | .client name ∈ ls} := by
  ext name
  rw [List.coe_toFinset, Set.mem_ofPred_eq, Set.mem_ofPred_eq, List.mem_filterMap]
  constructor
  · rintro ⟨l, hl, hname⟩
    cases l <;> cases hname
    exact hl
  · intro hl
    exact ⟨_, hl, rfl⟩

theorem coe_overlays (ls : List ListenerId) :
    ((ls.filterMap overlay?).toFinset : Set StateId) = {o | .observer o ∈ ls} := by
  ext o
  rw [List.coe_toFinset, Set.mem_ofPred_eq, Set.mem_ofPred_eq, List.mem_filterMap]
  constructor
  · rintro ⟨l, hl, ho⟩
    cases l <;> cases ho
    exact hl
  · intro hl
    exact ⟨_, hl, rfl⟩

theorem length_filterMap_add (ls : List ListenerId) :
    (ls.filterMap client?).length + (ls.filterMap overlay?).length = ls.length := by
  induction ls with
  | nil => rfl
  | cons l ls ih =>
    cases l with
    | client name =>
      change (ls.filterMap client?).length + 1 + (ls.filterMap overlay?).length = ls.length + 1
      omega
    | observer o =>
      change (ls.filterMap client?).length + ((ls.filterMap overlay?).length + 1) = ls.length + 1
      omega

/-- Some listeners, each once, are so many clients' listeners and so many observers. -/
theorem length_eq_ncard (hn : ls.Nodup) :
    ls.length = {name | .client name ∈ ls}.ncard + {o | .observer o ∈ ls}.ncard := by
  have hclients : (ls.filterMap client?).Nodup := hn.filterMap fun l l' name hl hl' => by
    cases l with
    | client =>
      cases l' with
      | client => cases hl; cases hl'; rfl
      | observer => cases hl'
    | observer => cases hl
  have hoverlays : (ls.filterMap overlay?).Nodup := hn.filterMap fun l l' o hl hl' => by
    cases l with
    | client => cases hl
    | observer =>
      cases l' with
      | client => cases hl'
      | observer => cases hl; cases hl'; rfl
  rw [← coe_clients, ← coe_overlays, Set.ncard_coe_finset, Set.ncard_coe_finset,
    List.toFinset_card_of_nodup hclients, List.toFinset_card_of_nodup hoverlays,
    length_filterMap_add]

end ListenerId

namespace Deed

variable {d : Deed} {id o : StateId} {name : String} {l : ListenerId}

theorem eq_adds_of_registers (h : d.registers id = some (.client name)) : d = adds id name := by
  cases d <;> simp only [registers, Option.ite_none_right_eq_some, Option.some.injEq, reduceCtorEq,
    and_false, ListenerId.client.injEq] at h
  obtain ⟨rfl, rfl⟩ := h
  rfl

theorem unregisters_client_iff :
    d.Unregisters id (.client name) ↔ d = removes id name ∨ d = disposes id := by
  cases d <;> simp [Unregisters, eq_comm]

theorem unregisters_observer_iff :
    d.Unregisters id (.observer o) ↔ d = disposes id ∨ d = disposes o := by
  cases d <;> simp [Unregisters, eq_comm]

/-- Whoever is taken off a registry is not in it any more. -/
theorem not_mem_edit (h : d.Unregisters id l) (r : Registry ListenerId) :
    l ∉ (d.edit id r).entries := by
  cases d <;> simp only [Unregisters] at h
  case removes i name =>
    obtain ⟨rfl, rfl⟩ := h
    rw [edit, if_pos rfl]
    exact fun hm => (Registry.mem_remove.1 hm).2 rfl
  case disposes i =>
    rw [edit]
    split
    · exact List.not_mem_nil
    · next hi =>
      obtain rfl := h.resolve_left (Ne.symm hi)
      exact fun hm => (Registry.mem_remove.1 hm).2 rfl

end Deed

namespace Store

/-- An overlay breaks nothing off, whether it is refused or not. -/
theorem isMild_overlay (st : Store) (as target : String) (status : Status) (held : Holding)
    (caller : Option Caller) : IsMild (st.perform held caller (.overlay as target status)) := by
  refine isMild_bind (holds_find target) fun found => isMild_bind ?_ fun _ => trivial
  unfold constructOverlay Holds
  split
  · split <;> simp
  · simp

end Store

namespace Session

variable {s t : Session}

/-- How many listeners of a state are registered and alive. -/
def listenerCount (s : Session) (id : StateId) : Option Nat :=
  (s.store.registered? id).map (·.count (s.store.isListening s.holding))

theorem isHeld_iff_of_idle (hs : Sound s.frames s.store) (idle : s.advance = none) {id : StateId} :
    s.IsHeld id ↔ s.store.names.any (·.2 = id) = true := by
  rw [IsHeld, Store.isHeld_iff, holding_of_idle hs idle]
  exact or_iff_left List.not_mem_nil

/-- An overlay that is refused leaves the session as it is, but for the answer. -/
theorem advance_refused {caller : Option (Caller × Nat)} {todo : List Request}
    {answers : List Answer} {rest : List Frame} {as target : String} {status : Status}
    {why : Failure} (hs : s.frames = .requests caller (.act (.overlay as target status) :: todo)
      answers :: rest)
    (hp : s.store.perform s.holding (caller.map (·.1)) (.overlay as target status) = .error why)
    (n : Nat) : s.deed? n = none ∧ s.advance =
      some { s with frames := .requests caller todo (.failed why :: answers) :: rest } := by
  have hmild := s.store.isMild_overlay as target status s.holding (caller.map (·.1))
  rw [hp] at hmild
  rw [deed?, hs, advance_requests hs, carryOut]
  dsimp only
  rw [holding_requests hs, hp]
  cases why
  case broken => exact hmild.elim
  all_goals exact ⟨rfl, rfl⟩

end Session

/-! ## Who is inscribed -/

namespace Chronicle

open Session

variable {config : Config} {clock : Timestamp} {may : Request → Prop} {c c' : Chronicle}
  {id o t : StateId} {x : State} {l : ListenerId} {name : String} {post : List Deed} {d : Deed}

/-- Somebody was registered with a state by a deed, and taken off by none since. -/
def Inscribed (c : Chronicle) (id : StateId) (l : ListenerId) : Prop :=
  ∃ d post, c.Since d post ∧ d.registers id = some l ∧ ∀ e ∈ post, ¬ e.Unregisters id l

theorem inscribed_client_iff : c.Inscribed id (.client name) ↔
    ∃ post, c.Since (.adds id name) post ∧ .removes id name ∉ post ∧ .disposes id ∉ post := by
  simp only [Inscribed, Deed.unregisters_client_iff, not_or]
  constructor
  · rintro ⟨d, post, hs, hr, hn⟩
    obtain rfl := Deed.eq_adds_of_registers hr
    exact ⟨post, hs, fun hm => (hn _ hm).1 rfl, fun hm => (hn _ hm).2 rfl⟩
  · rintro ⟨post, hs, hremoves, hdisposes⟩
    refine ⟨_, post, hs, if_pos rfl, fun e he => ⟨?_, ?_⟩⟩
    · rintro rfl
      exact hremoves he
    · rintro rfl
      exact hdisposes he

theorem inscribed_observer_iff : c.Inscribed id (.observer o) ↔
    ∃ v post, c.Since (.overlays o id v) post ∧ .disposes o ∉ post ∧ .disposes id ∉ post := by
  simp only [Inscribed, Deed.unregisters_observer_iff, not_or]
  constructor
  · rintro ⟨d, post, hs, hr, hn⟩
    obtain ⟨v, rfl⟩ := Deed.eq_overlays_of_registers hr
    exact ⟨v, post, hs, fun hm => (hn _ hm).2 rfl, fun hm => (hn _ hm).1 rfl⟩
  · rintro ⟨v, post, hs, ho, hid⟩
    refine ⟨_, post, hs, if_pos rfl, fun e he => ⟨?_, ?_⟩⟩
    · rintro rfl
      exact hid he
    · rintro rfl
      exact ho he

/-- Whoever a step takes off a registry is not in it afterwards. -/
theorem not_mem_of_unregisters (h : Later may (blank config clock) c) {u : Session}
    (hu : c.session.advance = some u) (hd : c.next? = some d) (hun : d.Unregisters id l) {w : State}
    (hw : c.session.store.state? id = some w) (hx : u.store.state? id = some x) :
    l ∉ x.registry.entries := by
  have hr : c.session.store.registered? id = some w.registry := by
    rw [Store.registered?, hw]
    rfl
  have hregistered := Store.registered?_of_change (change hu) (valid_of_later h).linked.targets
    (fun hx hm hy => target_of_observer h hx hm hy) hr
  rw [hd, Store.registered?, hx] at hregistered
  rw [Option.some.inj hregistered]
  exact Deed.not_mem_edit hun _

/-- **Every entry comes by a deed.** -/
theorem inscribed_of_mem (h : Later may (blank config clock) c)
    (hx : c.session.store.state? id = some x) (hl : l ∈ x.registry.entries) :
    c.Inscribed id l := by
  induction h generalizing x with
  | refl => cases hx
  | @tail c c' hc hm ih =>
    rcases hm.still_or_advance with hstill | ⟨u, hu, rfl⟩
    · obtain ⟨d, post, hs, hd⟩ := ih (hstill.state? id ▸ hx) hl
      exact ⟨d, post, by rwa [Since, hstill.deeds], hd⟩
    · have hundergoes := (turn hu).undergoes
      cases hw : c.session.store.state? id with
      | none =>
        rw [(hundergoes.fresh hw hx).1] at hl
        cases hl
      | some w =>
        obtain ⟨y, hy, hwy⟩ := hundergoes.states hw
        obtain rfl : y = x := Option.some.inj (hy.symm.trans hx)
        rcases hwy.entries l hl with hlw | hr
        · obtain ⟨d, post, hs, hr, hn⟩ := ih hw hlw
          refine ⟨d, _, hs.concat u, hr, fun e he => ?_⟩
          rcases List.mem_append.1 he with he | he
          · exact hn e he
          · -- the step took nobody off who is still there
            exact fun hun => not_mem_of_unregisters hc hu (Option.mem_toList.1 he) hun hw hx hl
        · obtain ⟨d, hd, hr⟩ := Option.bind_eq_some_iff.1 hr
          exact ⟨d, [], since_extend hd, hr, by simp⟩

/-! ## Clients' listeners -/

/-- Listeners are added to states that are there. -/
theorem state_of_adds (hv : Valid c) (hd : c.next? = some (.adds id name)) :
    ∃ x, c.session.store.state? id = some x := by
  obtain ⟨caller, action, todo, answers, rest, a, st, hs, hp, hd⟩ := action_of_deed? hd not_false
  cases action <;> simp only [Action.deed?, Option.map_eq_some_iff, Option.bind_eq_some_iff,
    reduceCtorEq, and_false, exists_false, Deed.adds.injEq] at hd
  case add state listener =>
    obtain ⟨i, hn, rfl, rfl⟩ := hd
    have hgives : Store.Gives (fun _ => ∃ x, c.session.store.state? i = some x)
        (c.session.store.perform c.session.holding (caller.map (·.1)) (.add state listener)) := by
      refine Store.gives_bind fun l _ => Store.gives_bind ?_
      rintro ⟨j, y⟩ hy
      refine Store.gives_ok ⟨y, ?_⟩
      obtain rfl : i = j := Option.some.inj (hn.symm.trans (Store.named?_of_find hy))
      exact Store.state?_of_find hy
    exact hgives _ hp
  case addHere listener =>
    obtain ⟨call, hcall, rfl, rfl⟩ := hd
    have hattended := hv.linked.attended
    rw [hs] at hattended
    have hsource : call.emitter ∈ sources c.session.frames := by
      rw [hs]
      exact emitter_mem_sources hattended (Option.map_eq_some_iff.2 hcall)
    exact Option.isSome_iff_exists.1 (hv.sound.sources _ hsource)

/-- A client adds only such listeners as it holds. -/
theorem holds_of_adds {u : Session} (hu : c.session.advance = some u)
    (hd : c.next? = some (.adds id name)) : c.session.store.holds name = true := by
  have hchange := change hu
  rw [hd] at hchange
  generalize c.session.write? = w, c.session.constructs? = made, u.store = st' at hchange
  cases hchange with
  | rests idle => exact (idle _ rfl).elim
  | adds held => exact held

theorem knows_of_since (h : Later may (blank config clock) c)
    (hs : c.Since (.adds id name) post) : c.session.store.knows name = true := by
  induction h generalizing post with
  | refl => exact absurd hs not_since_blank
  | tail _ hm ih =>
    rcases hm.still_or_advance with ⟨hdeeds, ⟨_, hstore⟩, -⟩ | ⟨u, hu, rfl⟩
    · rw [hstore]
      exact ih (by rwa [Since, ← hdeeds])
    · rcases hs.extend with ⟨-, hd⟩ | ⟨post', hs', -⟩
      · exact (change hu).knows (Store.knows_of_holds (holds_of_adds hu hd))
      · exact (change hu).knows (ih hs')

/-- **The entry of a client's listener** lasts as long as its handle is held, unless it is removed
or the state is disposed of. -/
theorem client_mem_of_since (h : Later may (blank config clock) c)
    (hs : c.Since (.adds id name) post) (hr : .removes id name ∉ post) (hd : .disposes id ∉ post)
    (hh : c.session.store.holds name = true) :
    ∃ x, c.session.store.state? id = some x ∧ .client name ∈ x.registry.entries := by
  induction h generalizing post with
  | refl => exact absurd hs not_since_blank
  | @tail c c' hc hm ih =>
    rcases hm.still_or_advance with ⟨hdeeds, ⟨_, hstore⟩, -⟩ | ⟨u, hu, rfl⟩
    · rw [hstore] at hh ⊢
      exact ih (by rwa [Since, ← hdeeds]) hr hd hh
    · rcases hs.extend with ⟨rfl, hnext⟩ | ⟨post', hs', rfl⟩
      · obtain ⟨x, hx⟩ := state_of_adds (valid_of_later hc) hnext
        obtain ⟨y, hy, hxy⟩ := (turn hu).undergoes.states hx
        exact ⟨y, hy, hxy.gained _ (by rw [hnext]; exact if_pos rfl)⟩
      · rw [List.mem_append, not_or, Option.mem_toList] at hr hd
        have hheld := (change hu).held_before (knows_of_since hc hs') hh
        obtain ⟨x, hx, hm⟩ := ih hs' hr.1 hd.1 hheld
        obtain ⟨y, hy, hxy⟩ := (turn hu).undergoes.states hx
        have hlive : c.session.store.isListening c.session.holding (.client name) = true := by
          rw [Store.isListening, hheld, Bool.or_true]
        refine ⟨y, hy, hxy.kept _ hm hlive fun e he hun => ?_⟩
        rcases Deed.unregisters_client_iff.1 hun with rfl | rfl
        · exact hr.2 he
        · exact hd.2 he

/-! ## Overlays that were disposed of or released -/

/-- A state that was disposed of at any time has no target. -/
theorem no_target_of_disposed (h : Later may (blank config clock) c)
    (hd : .disposes id ∈ c.deeds) :
    ∃ x, c.session.store.state? id = some x ∧ x.target = none := by
  induction h with
  | refl => cases hd
  | @tail c c' hc hm ih =>
    have hkept : .disposes id ∈ c.deeds →
        ∃ x, c'.session.store.state? id = some x ∧ x.target = none := by
      intro hd
      obtain ⟨x, hx, hxt⟩ := ih hd
      exact no_target_of_later (.single hm) hx hxt
    rcases hm.still_or_advance with ⟨hdeeds, -, -⟩ | ⟨u, hu, rfl⟩
    · exact hkept (hdeeds ▸ hd)
    · rcases List.mem_append.1 hd with hd | hd
      · exact hkept hd
      · have hd := Option.mem_toList.1 hd
        obtain ⟨⟨x, hx⟩, -⟩ := dispose_of_advance hu hd
        obtain ⟨y, hy, hxy⟩ := (turn hu).undergoes.states hx
        exact ⟨y, hy, (hxy.severed hd).1⟩

/-- An overlay that is held now was held ever since it was there. -/
theorem isHeld_before (h : Later may (blank config clock) c) (hl : Later may c c')
    (hx : c.session.store.state? o = some x) {y : State}
    (hy : c'.session.store.state? o = some y) (ht : y.target ≠ none) (hh : c'.session.IsHeld o) :
    c.session.IsHeld o := by
  induction hl generalizing y with
  | refl => exact hh
  | @tail c' c'' hl hm ih =>
    obtain ⟨z, hz⟩ := Later.states hl hx
    have hzt : z.target ≠ none := by
      intro hn
      obtain ⟨y', hy', hyt⟩ := no_target_of_later (.single hm) hz hn
      obtain rfl : y' = y := Option.some.inj (hy'.symm.trans hy)
      exact ht hyt
    refine ih hz hzt ?_
    rcases hm.still_or_advance with ⟨-, -, hheld, -⟩ | ⟨u, hu, rfl⟩
    · exact hheld hh
    · exact isHeld_of_turn (valid_of_later (h.trans hl)).linked (turn hu) hz hzt hh

/-- What was done since a deed, with what else was done later. -/
theorem Since.append {post' : List Deed} (h : c.Since d post) (hd : c'.deeds = c.deeds ++ post') :
    c'.Since d (post ++ post') := by
  obtain ⟨before, hb⟩ := h
  exact ⟨before, by rw [hd, hb, List.append_assoc, List.cons_append]⟩

/-- What was done since a deed: the deed was done later than a chronicle, or the chronicle has it
already. -/
theorem Since.cases_append {post' : List Deed} (h : c'.Since d post)
    (hd : c'.deeds = c.deeds ++ post') :
    d ∈ post' ∨ ∃ done, c.Since d done ∧ post = done ++ post' := by
  obtain ⟨before, hb⟩ := h
  rw [hd] at hb
  rcases List.append_eq_append_iff.1 hb with ⟨between, -, hp⟩ | ⟨between, hc, hp⟩
  · rw [hp]
    exact .inl (List.mem_append_right _ List.mem_cons_self)
  · cases between with
    | nil =>
      rw [List.nil_append] at hp
      rw [← hp]
      exact .inl List.mem_cons_self
    | cons e done =>
      rw [List.cons_append, List.cons.injEq] at hp
      obtain ⟨rfl, rfl⟩ := hp
      exact .inr ⟨done, ⟨before, hc⟩, rfl⟩

/-! ## Who counts -/

/-- A client's listener counts: its handle is held, and since it was added it was not removed, nor
was the state disposed of. -/
def Attends (c : Chronicle) (t : StateId) (name : String) : Prop :=
  c.session.store.holds name = true ∧
    ∃ post, c.Since (.adds t name) post ∧ .removes t name ∉ post ∧ .disposes t ∉ post

/-- An overlay counts: it is held, and since its construction neither it nor the state was disposed
of. -/
def Watches (c : Chronicle) (t o : StateId) : Prop :=
  c.session.IsHeld o ∧
    ∃ v post, c.Since (.overlays o t v) post ∧ .disposes o ∉ post ∧ .disposes t ∉ post

section
variable (h : Later may (blank config clock) c)
include h

/-- An overlay that counts has the state as its target. -/
theorem Watches.target (hw : c.Watches t o) :
    ∃ x, c.session.store.state? o = some x ∧ x.target = some t := by
  obtain ⟨-, v, post, hs, ho, -⟩ := hw
  obtain ⟨x, hx, hxt, -⟩ := standing_of_since h hs ho
  exact ⟨x, hx, hxt⟩

/-- An overlay that counts was never disposed of. -/
theorem Watches.not_disposed (hw : c.Watches t o) : .disposes o ∉ c.deeds := by
  intro hm
  obtain ⟨y, hy, hyt⟩ := hw.target h
  obtain ⟨z, hz, hzt⟩ := no_target_of_disposed h hm
  obtain rfl : y = z := Option.some.inj (hy.symm.trans hz)
  rw [hyt] at hzt
  cases hzt

theorem Watches.ne (hw : c.Watches t o) : o ≠ t := by
  rintro rfl
  obtain ⟨x, hx, hxt⟩ := hw.target h
  obtain ⟨y, hy, hyt⟩ := isShallow_of_later h _ _ _ hx hxt
  obtain rfl : x = y := Option.some.inj (hx.symm.trans hy)
  rw [hxt] at hyt
  cases hyt

variable (idle : c.session.advance = none) (hx : c.session.store.state? t = some x)
include idle hx

theorem client_mem_live_iff : .client name ∈
    x.registry.live (c.session.store.isListening c.session.holding) ↔ c.Attends t name := by
  rw [Registry.mem_live, holding_of_idle (valid_of_later h).sound idle, Attends]
  constructor
  · rintro ⟨hm, hlive⟩
    exact ⟨hlive, inscribed_client_iff.1 (inscribed_of_mem h hx hm)⟩
  · rintro ⟨hh, post, hs, hr, hd⟩
    obtain ⟨y, hy, hm⟩ := client_mem_of_since h hs hr hd hh
    obtain rfl : x = y := Option.some.inj (hx.symm.trans hy)
    exact ⟨hm, hh⟩

theorem observer_mem_live_iff : .observer o ∈
    x.registry.live (c.session.store.isListening c.session.holding) ↔ c.Watches t o := by
  have hholding := holding_of_idle (valid_of_later h).sound idle
  rw [Registry.mem_live, (isShallow_of_later h).isListening_observer_iff, Watches]
  constructor
  · rintro ⟨hm, hheard | ⟨-, -, -, -, hh⟩⟩
    · rw [hholding] at hheard
      cases hheard
    · exact ⟨hh, inscribed_observer_iff.1 (inscribed_of_mem h hx hm)⟩
  · rintro ⟨hh, v, post, hs, ho, ht⟩
    obtain ⟨y, hy, hm⟩ := subscribed_of_since h hs ho ht hh
    obtain rfl : x = y := Option.some.inj (hx.symm.trans hy)
    obtain ⟨z, hz, hzt, -⟩ := standing_of_since h hs ho
    exact ⟨hm, .inr ⟨z, t, hz, hzt, hh⟩⟩

/-- **How many listeners a state has.** -/
theorem listenerCount_of_idle :
    {name | c.Attends t name}.Finite ∧ {o | c.Watches t o}.Finite ∧
    c.session.listenerCount t =
      some ({name | c.Attends t name}.ncard + {o | c.Watches t o}.ncard) := by
  have hclients : {name | .client name ∈
      x.registry.live (c.session.store.isListening c.session.holding)} =
      {name | c.Attends t name} := Set.ext fun _ => client_mem_live_iff h idle hx
  have hoverlays : {o | .observer o ∈
      x.registry.live (c.session.store.isListening c.session.holding)} =
      {o | c.Watches t o} := Set.ext fun _ => observer_mem_live_iff h idle hx
  have hnodup : (x.registry.live (c.session.store.isListening c.session.holding)).Nodup :=
    ((valid_of_later h).sound.registries hx).filter _
  refine ⟨?_, ?_, ?_⟩
  · rw [← hclients, ← ListenerId.coe_clients]
    exact Finset.finite_toSet _
  · rw [← hoverlays, ← ListenerId.coe_overlays]
    exact Finset.finite_toSet _
  · rw [listenerCount, Store.registered?, hx, ← hclients, ← hoverlays,
      ← ListenerId.length_eq_ncard hnodup]
    rfl

end

/-! ## Overlays that are released -/

/-- The clients' listeners that count, when nothing was done to them. -/
theorem attends_congr (hpost : c'.deeds = c.deeds ++ post)
    (hholds : c'.session.store.holds name = c.session.store.holds name)
    (ha : .adds t name ∉ post) (hr : .removes t name ∉ post) (hd : .disposes t ∉ post) :
    c'.Attends t name ↔ c.Attends t name := by
  rw [Attends, Attends, hholds]
  refine and_congr_right fun _ => ⟨?_, ?_⟩
  · rintro ⟨all, hs, hra, hda⟩
    rcases hs.cases_append hpost with hm | ⟨done, hbefore, rfl⟩
    · exact absurd hm ha
    · exact ⟨done, hbefore, fun hm => hra (List.mem_append_left _ hm),
        fun hm => hda (List.mem_append_left _ hm)⟩
  · rintro ⟨done, hs, hrd, hdd⟩
    exact ⟨_, hs.append hpost, List.not_mem_append hrd hr, List.not_mem_append hdd hd⟩

section
variable (h : Later may (blank config clock) c)
include h

/-- An overlay that is released leaves nothing behind in any registry. -/
theorem not_mem_live_of_released (idle : c.session.advance = none)
    (ho : ¬ c.session.IsHeld o ∨ .disposes o ∈ c.deeds)
    (hx : c.session.store.state? t = some x) :
    .observer o ∉ x.registry.live (c.session.store.isListening c.session.holding) := by
  rw [observer_mem_live_iff h idle hx]
  intro hw
  rcases ho with hn | hd
  · exact hn hw.1
  · exact hw.not_disposed h hd

/-- **When all new overlays were released**, those count that counted before, unless they were
released as well, or the state was disposed of. -/
theorem watches_of_released {post : List Deed} (hl : Later may c c')
    (hpost : c'.deeds = c.deeds ++ post)
    (hreleased : ∀ o v, .overlays o t v ∈ post → ¬ c'.session.IsHeld o ∨ .disposes o ∈ post) :
    c'.Watches t o ↔
      c.Watches t o ∧ c'.session.IsHeld o ∧ .disposes o ∉ post ∧ .disposes t ∉ post := by
  constructor
  · intro hw
    obtain ⟨y, hy, hyt⟩ := hw.target (h.trans hl)
    have hdisposes := hw.not_disposed (h.trans hl)
    obtain ⟨hh, v, done, hs, ho, ht⟩ := hw
    rw [hpost, List.mem_append, not_or] at hdisposes
    rcases hs.cases_append hpost with hm | ⟨done, hbefore, rfl⟩
    · exact absurd hh ((hreleased o v hm).resolve_right hdisposes.2)
    · rw [List.mem_append, not_or] at ho ht
      obtain ⟨x, hx, -⟩ := standing_of_since h hbefore ho.1
      have hheld := isHeld_before h hl hx hy (by simp [hyt]) hh
      exact ⟨⟨hheld, v, done, hbefore, ho.1, ht.1⟩, hh, ho.2, ht.2⟩
  · rintro ⟨⟨-, v, done, hs, ho, ht⟩, hh, ho', ht'⟩
    exact ⟨hh, v, _, hs.append hpost, List.not_mem_append ho ho', List.not_mem_append ht ht'⟩

/-- One overlay less is counted. -/
theorem listenerCount_of_release (idle : c.session.advance = none)
    (hx : c.session.store.state? t = some x) (hl : Later may c c')
    (idle' : c'.session.advance = none) (hw : c.Watches t o)
    (hattends : ∀ name, c'.Attends t name ↔ c.Attends t name)
    (hwatches : ∀ i, c'.Watches t i ↔ c.Watches t i ∧ i ≠ o) :
    ∃ n, c'.session.listenerCount t = some n ∧ c.session.listenerCount t = some (n + 1) := by
  obtain ⟨y, hy⟩ := Later.states hl hx
  obtain ⟨-, hfinite, hcount⟩ := listenerCount_of_idle h idle hx
  obtain ⟨-, -, hcount'⟩ := listenerCount_of_idle (h.trans hl) idle' hy
  have hclients : {name | c'.Attends t name} = {name | c.Attends t name} :=
    Set.ext fun name => hattends name
  have hoverlays : {i | c'.Watches t i} = {i | c.Watches t i} \ {o} :=
    Set.ext fun i => hwatches i
  have hmem : o ∈ {i | c.Watches t i} := hw
  refine ⟨_, hcount', ?_⟩
  rw [hcount, hclients, hoverlays, Nat.add_assoc, Set.ncard_sdiff_singleton_add_one hmem hfinite]

end

/-- **Disposing of an overlay** that counts lowers the count by one. -/
theorem listenerCount_of_dispose (h : Later Any (blank config clock) c)
    (idle : c.session.advance = none) (hx : c.session.store.state? t = some x)
    (hw : c.Watches t o) (hn : c.session.store.named? name = some o) :
    ∃ n, (c.ask (.act (.dispose name))).next.session.listenerCount t = some n ∧
      c.session.listenerCount t = some (n + 1) := by
  obtain ⟨y, hy, -⟩ := hw.target h
  have hperform : c.session.store.perform Holding.nothing none (.dispose name) =
      .ok (.answered .done (c.session.store.dispose o)) := by
    rw [Store.perform, Store.find_of_named? hn hy]
    rfl
  obtain ⟨hstore, idle', -, hdeeds⟩ := next_ask hperform
  have hl : Later Any c (c.ask (.act (.dispose name))).next :=
    (Later.ask .refl trivial idle).next
  generalize (c.ask (.act (.dispose name))).next = c' at *
  have hpost : c'.deeds = c.deeds ++ [.disposes o] := by
    rw [hdeeds, Action.deed?, hn]
    rfl
  have hne := hw.ne h
  refine listenerCount_of_release h idle hx hl idle' hw (fun name => ?_) fun i => ?_
  · refine attends_congr hpost ?_ (by simp) (by simp) (by simpa using Ne.symm hne)
    rw [Store.holds, Store.holds, hstore,
      Store.listener?_of_listeners_eq (Store.listeners_dispose o)]
  · have hheld : c'.session.IsHeld i ↔ c.session.IsHeld i := by
      rw [isHeld_iff_of_idle (valid_of_later h).sound idle,
        isHeld_iff_of_idle (valid_of_later (h.trans hl)).sound idle', hstore, Store.names_dispose]
    rw [watches_of_released h hl hpost (by simp), hheld]
    simp only [List.mem_singleton, Deed.disposes.injEq, hne.symm, not_false_eq_true, and_true]
    exact and_congr_right fun hwi => and_iff_right hwi.1

/-- **Dropping the last name of an overlay** that counts lowers the count by one. -/
theorem listenerCount_of_drop (h : Later Any (blank config clock) c)
    (idle : c.session.advance = none) (hx : c.session.store.state? t = some x)
    (hw : c.Watches t o) (hlast : c.session.store.namesOf o = [name]) :
    ∃ n, (c.ask (.act (.drop name))).next.session.listenerCount t = some n ∧
      c.session.listenerCount t = some (n + 1) := by
  have hperform : c.session.store.perform Holding.nothing none (.drop name) =
      .ok (.answered (.flag _) (c.session.store.unbind name)) := rfl
  obtain ⟨hstore, idle', -, hdeeds⟩ := next_ask hperform
  have hl : Later Any c (c.ask (.act (.drop name))).next := (Later.ask .refl trivial idle).next
  generalize (c.ask (.act (.drop name))).next = c' at *
  have hpost : c'.deeds = c.deeds ++ [] := hdeeds
  refine listenerCount_of_release h idle hx hl idle' hw (fun name => ?_) fun i => ?_
  · refine attends_congr hpost ?_ List.not_mem_nil List.not_mem_nil List.not_mem_nil
    rw [Store.holds, Store.holds, hstore,
      Store.listener?_of_listeners_eq (Store.listeners_unbind _)]
  · have hheld : c'.session.IsHeld i ↔ i ≠ o ∧ c.session.IsHeld i := by
      rw [isHeld_iff_of_idle (valid_of_later h).sound idle,
        isHeld_iff_of_idle (valid_of_later (h.trans hl)).sound idle', hstore,
        Store.named_unbind_iff (namedOnce_of_later h) hlast]
    rw [watches_of_released h hl hpost (by simp), hheld]
    simp only [List.not_mem_nil, not_false_eq_true, and_true]
    exact and_congr_right fun hwi => and_iff_left hwi.1

/-- A state that has a name can be asked how many listeners it has. -/
theorem lastAnswer_count (h : Later may (blank config clock) c) (idle : c.session.advance = none)
    (hx : c.session.store.state? t = some x) (hn : c.session.store.named? name = some t) :
    ∃ n, c.session.listenerCount t = some n ∧
      (c.ask (.act (.count name))).next.session.lastAnswer = .count n := by
  have hperform : c.session.store.perform Holding.nothing none (.count name) = .ok (.answered
      (.count (x.registry.count (c.session.store.isListening Holding.nothing)))
      c.session.store) := by
    rw [Store.perform, Store.find_of_named? hn hx]
    rfl
  refine ⟨_, ?_, (next_ask hperform).2.2.1⟩
  rw [listenerCount, Store.registered?, hx, holding_of_idle (valid_of_later h).sound idle]
  rfl

/-- **Listeners are accounted for.**  When nothing is left to be done, at any time of any chronicle:

* the count of a state is the number of clients' listeners that are held, were added to it and since
  then neither removed nor cleared by a disposal, together with the number of its overlays that are
  held and were not disposed of, nor the state since they were constructed; and this is what the
  state answers when it is asked;
* dropping the last name of an overlay that counts there, or disposing of it, lowers the count by
  one.

At any moment an overlay that is refused leaves the store and all counts as they are.

However the chronicle goes on, when nothing is left to be done again, an overlay that nobody holds
any more or that was disposed of has no living observer in any registry; and if this is so of all
overlays of a state that were constructed meanwhile, those count there that counted before, unless
they were released or cleared meanwhile. -/
theorem listeners_accounted (h : Later Any (blank config clock) c) :
    (c.session.advance = none → ∀ t x, c.session.store.state? t = some x →
      {name | c.Attends t name}.Finite ∧ {o | c.Watches t o}.Finite ∧
      c.session.listenerCount t =
        some ({name | c.Attends t name}.ncard + {o | c.Watches t o}.ncard) ∧
      (∀ name, c.session.store.named? name = some t → ∃ n, c.session.listenerCount t = some n ∧
        (c.ask (.act (.count name))).next.session.lastAnswer = .count n) ∧
      (∀ o name, c.Watches t o → c.session.store.namesOf o = [name] →
        ∃ n, (c.ask (.act (.drop name))).next.session.listenerCount t = some n ∧
          c.session.listenerCount t = some (n + 1)) ∧
      ∀ o name, c.Watches t o → c.session.store.named? name = some o →
        ∃ n, (c.ask (.act (.dispose name))).next.session.listenerCount t = some n ∧
          c.session.listenerCount t = some (n + 1)) ∧
    (∀ caller as target status todo answers rest why,
      c.session.frames =
        .requests caller (.act (.overlay as target status) :: todo) answers :: rest →
      c.session.store.perform c.session.holding (caller.map (·.1)) (.overlay as target status) =
        .error why →
      ∃ u, c.session.advance = some u ∧ u.store = c.session.store ∧ (c.extend u).deeds = c.deeds ∧
        ∀ t, u.listenerCount t = c.session.listenerCount t) ∧
    ∀ c', Later Any c c' → c'.session.advance = none →
      (∀ o t x, ¬ c'.session.IsHeld o ∨ .disposes o ∈ c'.deeds →
        c'.session.store.state? t = some x →
        .observer o ∉ x.registry.live (c'.session.store.isListening c'.session.holding)) ∧
      ∀ t post, c'.deeds = c.deeds ++ post →
        (∀ o v, .overlays o t v ∈ post → ¬ c'.session.IsHeld o ∨ .disposes o ∈ post) →
        ∀ o, c'.Watches t o ↔
          c.Watches t o ∧ c'.session.IsHeld o ∧ .disposes o ∉ post ∧ .disposes t ∉ post := by
  refine ⟨fun idle t x hx => ?_, ?_, fun c' hl idle => ⟨fun o t x ho hx => ?_, ?_⟩⟩
  · obtain ⟨hclients, hoverlays, hcount⟩ := listenerCount_of_idle h idle hx
    exact ⟨hclients, hoverlays, hcount, fun name hn => lastAnswer_count h idle hx hn,
      fun o name hw hlast => listenerCount_of_drop h idle hx hw hlast,
      fun o name hw hn => listenerCount_of_dispose h idle hx hw hn⟩
  · intro caller as target status todo answers rest why hs hp
    obtain ⟨hd, hu⟩ := advance_refused hs hp c.innermost
    refine ⟨_, hu, rfl, ?_, fun t => ?_⟩
    · rw [Chronicle.extend, next?, hd]
      exact List.append_nil _
    · rw [listenerCount, listenerCount, holding, holding, hs]
      rfl
  · exact not_mem_live_of_released (h.trans hl) idle ho hx
  · exact fun t post hpost hreleased o => watches_of_released h hl hpost hreleased

/-- A node's state has a listener and an overlay. -/
def watched : Chronicle :=
  let listening := (overlaid.ask (.listen "a" false [])).next
  (listening.ask (.act (.add "x" "a"))).next

theorem later_watched : Later Any (blank .default .epoch) watched := by
  have listening := (later_overlaid.ask (r := .listen "a" false []) trivial rfl).next
  exact (listening.ask (r := .act (.add "x" "a")) trivial rfl).next

theorem listeners_accounted_watched :
    Later Any (blank .default .epoch) watched ∧ watched.session.advance = none ∧
    watched.Watches 0 1 ∧ watched.session.store.namesOf 1 = ["o"] ∧
    {name | watched.Attends 0 name}.ncard + {o | watched.Watches 0 o}.ncard = 2 ∧
    (watched.ask (.act (.drop "o"))).next.session.listenerCount 0 = some 1 := by
  have hw : watched.Watches 0 1 :=
    ⟨rfl, .existingModified, [.adds 0 "a"], ⟨[], rfl⟩, by simp, by simp⟩
  have hcounted : watched.session.listenerCount 0 = some 2 := rfl
  obtain ⟨-, -, hcount, -, hdrop, -⟩ := (listeners_accounted later_watched).1 rfl 0 _ rfl
  obtain ⟨n, hn, hbefore⟩ := hdrop 1 "o" hw rfl
  rw [hcounted] at hcount hbefore
  obtain rfl : 1 = n := Nat.succ.inj (Option.some.inj hbefore)
  exact ⟨later_watched, rfl, hw, rfl, (Option.some.inj hcount).symm, hn⟩

end Chronicle
end ContentOverlay
