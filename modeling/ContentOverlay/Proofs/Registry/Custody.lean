import ContentOverlay.Proofs.History
import ContentOverlay.Proofs.Registry.Entries
import ContentOverlay.Registry.Custody

/-!
# What a registry holds by its history

Which listeners are registered and which are alive can be read off what was done, without any
registry: a listener is registered if it was added and nothing has taken its entry away since, and
it is alive if somebody holds it, which is its owner or a snapshot that is kept.  A registration is
no reason to be alive, but being alive matters for a registration: only what is held can be added,
and a snapshot takes the entries of the dead away.

* `Handled`, `Registered`, `Kept`, `Held` and `Alive` say this of a list of actions.  Lemmas say
  what one more action does to it (`registered_concat_iff` and the like).
* `Represents` says that a custody is what such a history makes it, and `represents_after` that
  this is so after any actions.
* `registry_is_weak_set` has what this means for the answers.
-/

set_option autoImplicit false

namespace ContentOverlay
namespace Custody

/-! ## Histories -/

/-- The owner of a listener holds it: its handle was not given up since it was created.  It is
created once, and a second attempt does nothing. -/
def Handled (as : List Action) (l : String) : Prop :=
  ∃ earlier later, as = earlier ++ .create l :: later ∧ .create l ∉ earlier ∧ .drop l ∉ later

mutual

/-- A listener is registered: it was added by what held it, and since then it was not removed, the
registry was not cleared, and no snapshot was taken while it was dead. -/
inductive Registered : List Action → String → Prop
  | intro {earlier later : List Action} {l : String} {holder : Holder} (held : Held earlier l holder)
      (unremoved : .remove l ∉ later) (uncleared : .clear ∉ later)
      (seen : ∀ done keepAs rest, later = done ++ .snapshot keepAs :: rest →
        Alive (earlier ++ .add l holder :: done) l) :
      Registered (earlier ++ .add l holder :: later) l

/-- A kept snapshot has a listener: this was registered and alive when the snapshot was taken, and
since then the snapshot was neither let go nor replaced by another one. -/
inductive Kept : List Action → String → String → Prop
  | intro {earlier later : List Action} {name l : String} (registered : Registered earlier l)
      (alive : Alive earlier l) (unreplaced : .snapshot (some name) ∉ later)
      (unreleased : .release name ∉ later) :
      Kept (earlier ++ .snapshot (some name) :: later) name l

/-- A listener is held, by its owner or by a kept snapshot. -/
inductive Held : List Action → String → Holder → Prop
  | handle {as : List Action} {l : String} (h : Handled as l) : Held as l .handle
  | kept {as : List Action} {name l : String} (h : Kept as name l) : Held as l (.kept name)

/-- A listener is alive: somebody holds it. -/
inductive Alive : List Action → String → Prop
  | intro {as : List Action} {l : String} {holder : Holder} (h : Held as l holder) : Alive as l

end

variable {as : List Action} {a : Action} {l name : String}

/-! ## One more action -/

theorem handled_concat_iff :
    Handled (as ++ [a]) l ↔ (a = .create l ∧ .create l ∉ as) ∨ (Handled as l ∧ a ≠ .drop l) := by
  constructor
  · rintro ⟨earlier, later, h, hnew, hheld⟩
    rcases concat_eq_append_cons_iff.1 h with ⟨rfl, rfl, -⟩ | ⟨done, rfl, rfl⟩
    · exact .inl ⟨rfl, hnew⟩
    · obtain ⟨hheld, ha⟩ := not_mem_concat_iff.1 hheld
      exact .inr ⟨⟨_, _, rfl, hnew, hheld⟩, ha⟩
  · rintro (⟨rfl, hnew⟩ | ⟨⟨earlier, later, rfl, hnew, hheld⟩, ha⟩)
    · exact ⟨as, [], rfl, hnew, List.not_mem_nil⟩
    · exact ⟨earlier, later ++ [a], by rw [List.append_assoc, List.cons_append], hnew,
        not_mem_concat_iff.2 ⟨hheld, ha⟩⟩

theorem registered_concat_iff :
    Registered (as ++ [a]) l ↔ (∃ holder, a = .add l holder ∧ Held as l holder) ∨
      (Registered as l ∧ a ≠ .remove l ∧ a ≠ .clear ∧ ((∃ k, a = .snapshot k) → Alive as l)) := by
  constructor
  · intro h
    generalize hcs : as ++ [a] = cs at h
    obtain ⟨held, unremoved, uncleared, seen⟩ := h
    rcases concat_eq_append_cons_iff.1 hcs with ⟨rfl, rfl, -⟩ | ⟨done, rfl, rfl⟩
    · exact .inl ⟨_, rfl, held⟩
    · obtain ⟨unremoved, hremove⟩ := not_mem_concat_iff.1 unremoved
      obtain ⟨uncleared, hclear⟩ := not_mem_concat_iff.1 uncleared
      refine .inr ⟨.intro held unremoved uncleared ?_, hremove, hclear, ?_⟩
      · rintro done' keepAs rest rfl
        exact seen done' keepAs (rest ++ [a]) (by rw [List.append_assoc, List.cons_append])
      · rintro ⟨k, rfl⟩
        exact seen done k [] rfl
  · rintro (⟨holder, rfl, held⟩ | ⟨h, hremove, hclear, hseen⟩)
    · exact .intro held List.not_mem_nil List.not_mem_nil (by simp)
    · obtain ⟨held, unremoved, uncleared, seen⟩ := h
      rw [List.append_assoc, List.cons_append]
      refine .intro held (not_mem_concat_iff.2 ⟨unremoved, hremove⟩)
        (not_mem_concat_iff.2 ⟨uncleared, hclear⟩) fun done keepAs rest hd => ?_
      rcases concat_eq_append_cons_iff.1 hd with ⟨rfl, rfl, -⟩ | ⟨rest', rfl, -⟩
      · exact hseen ⟨keepAs, rfl⟩
      · exact seen done keepAs rest' rfl

theorem kept_concat_iff :
    Kept (as ++ [a]) name l ↔ (a = .snapshot (some name) ∧ Registered as l ∧ Alive as l) ∨
      (Kept as name l ∧ a ≠ .snapshot (some name) ∧ a ≠ .release name) := by
  constructor
  · intro h
    generalize hcs : as ++ [a] = cs at h
    obtain ⟨registered, alive, unreplaced, unreleased⟩ := h
    rcases concat_eq_append_cons_iff.1 hcs with ⟨rfl, rfl, -⟩ | ⟨done, rfl, rfl⟩
    · exact .inl ⟨rfl, registered, alive⟩
    · obtain ⟨unreplaced, hsnapshot⟩ := not_mem_concat_iff.1 unreplaced
      obtain ⟨unreleased, hrelease⟩ := not_mem_concat_iff.1 unreleased
      exact .inr ⟨.intro registered alive unreplaced unreleased, hsnapshot, hrelease⟩
  · rintro (⟨rfl, registered, alive⟩ | ⟨h, hsnapshot, hrelease⟩)
    · exact .intro registered alive List.not_mem_nil List.not_mem_nil
    · obtain ⟨registered, alive, unreplaced, unreleased⟩ := h
      rw [List.append_assoc, List.cons_append]
      exact .intro registered alive (not_mem_concat_iff.2 ⟨unreplaced, hsnapshot⟩)
        (not_mem_concat_iff.2 ⟨unreleased, hrelease⟩)

theorem held_handle_iff : Held as l .handle ↔ Handled as l := by
  constructor
  · intro h
    cases h with
    | handle h => exact h
  · exact .handle

theorem held_kept_iff : Held as l (.kept name) ↔ Kept as name l := by
  constructor
  · intro h
    cases h with
    | kept h => exact h
  · exact .kept

theorem alive_iff : Alive as l ↔ ∃ holder, Held as l holder := by
  constructor
  · rintro ⟨h⟩
    exact ⟨_, h⟩
  · rintro ⟨_, h⟩
    exact .intro h

theorem Handled.created (h : Handled as l) : .create l ∈ as := by
  obtain ⟨earlier, later, rfl, -⟩ := h
  exact List.mem_append_right _ List.mem_cons_self

-- out of whatever it was added, a listener was first held by its owner
mutual

theorem Registered.created {as : List Action} {l : String} :
    Registered as l → .create l ∈ as
  | .intro held _ _ _ => List.mem_append_left _ (Held.created held)

theorem Kept.created {as : List Action} {name l : String} : Kept as name l → .create l ∈ as
  | .intro registered _ _ _ => List.mem_append_left _ (Registered.created registered)

theorem Held.created {as : List Action} {l : String} {holder : Holder} :
    Held as l holder → .create l ∈ as
  | .handle h => Handled.created h
  | .kept h => Kept.created h

end

theorem not_handled_nil : ¬ Handled [] l := by
  rintro ⟨earlier, later, h, -⟩
  simp at h

theorem not_registered_nil : ¬ Registered [] l := by
  intro h
  generalize hcs : ([] : List Action) = cs at h
  obtain ⟨_, _, _, _⟩ := h
  simp at hcs

theorem not_kept_nil : ¬ Kept [] name l := by
  intro h
  generalize hcs : ([] : List Action) = cs at h
  obtain ⟨_, _, _, _⟩ := h
  simp at hcs

/-! ## The custody after some actions -/

/-- What comes of some actions, one after the other. -/
def after (as : List Action) : Custody := as.foldl (fun c a => (c.act a).1) empty

theorem after_concat (as : List Action) (a : Action) :
    after (as ++ [a]) = ((after as).act a).1 := by
  rw [after, List.foldl_append]
  rfl

/-- A custody is what a history makes it. -/
structure Represents (c : Custody) (as : List Action) : Prop where
  created : ∀ l, l ∈ c.created ↔ .create l ∈ as
  held : ∀ l, l ∈ c.held ↔ Handled as l
  registered : ∀ l, l ∈ c.registry.entries ↔ Registered as l
  kept : ∀ name l, (∃ ls, (name, ls) ∈ c.kept ∧ l ∈ ls) ↔ Kept as name l
  once : c.registry.entries.Nodup

theorem has_handle {c : Custody} : c.has l .handle = true ↔ l ∈ c.held := by
  rw [has, List.contains_iff_mem]

theorem has_kept {c : Custody} :
    c.has l (.kept name) = true ↔ ∃ ls, (name, ls) ∈ c.kept ∧ l ∈ ls := by
  simp [has]

/-- The living are those that somebody has. -/
theorem isAlive_iff {c : Custody} : c.isAlive l = true ↔ ∃ holder, c.has l holder = true := by
  rw [isAlive, Bool.or_eq_true]
  constructor
  · rintro (h | h)
    · exact ⟨.handle, h⟩
    · obtain ⟨⟨name, ls⟩, hm, hl⟩ := List.any_eq_true.1 h
      exact ⟨.kept name, has_kept.2 ⟨ls, hm, by simpa using hl⟩⟩
  · rintro ⟨_ | name, h⟩
    · exact .inl h
    · obtain ⟨ls, hm, hl⟩ := has_kept.1 h
      exact .inr (List.any_eq_true.2 ⟨(name, ls), hm, by simpa using hl⟩)

theorem Represents.has {c : Custody} (h : c.Represents as) (l : String) (holder : Holder) :
    c.has l holder = true ↔ Held as l holder := by
  cases holder with
  | handle => rw [has_handle, h.held, held_handle_iff]
  | kept name => rw [has_kept, h.kept, held_kept_iff]

theorem Represents.alive {c : Custody} (h : c.Represents as) (l : String) :
    c.isAlive l = true ↔ Alive as l := by
  rw [isAlive_iff, alive_iff]
  exact exists_congr (h.has l)

/-- A registered listener was created. -/
theorem Represents.mem_created {c : Custody} (h : c.Represents as)
    (hm : l ∈ c.registry.entries) : l ∈ c.created :=
  (h.created l).2 ((h.registered l).1 hm).created

theorem Represents.live {c : Custody} (h : c.Represents as) (l : String) :
    l ∈ c.registry.live c.isAlive ↔ Registered as l ∧ Alive as l := by
  rw [Registry.mem_live, h.registered, h.alive]

theorem represents_empty : empty.Represents [] := by
  refine ⟨fun l => ?_, fun l => ?_, fun l => ?_, fun name l => ?_, List.nodup_nil⟩
  · exact iff_of_false List.not_mem_nil List.not_mem_nil
  · exact iff_of_false List.not_mem_nil not_handled_nil
  · exact iff_of_false List.not_mem_nil not_registered_nil
  · exact iff_of_false (by simp [empty]) not_kept_nil

/-! ### One more action -/

theorem mem_created_act {c : Custody} :
    l ∈ (c.act a).1.created ↔ l ∈ c.created ∨ a = .create l := by
  cases a <;> simp only [act, reduceCtorEq, or_false]
  case create l' =>
    split
    · next h =>
      have hl : l' ∈ c.created := by simpa using h
      simp only [Action.create.injEq, iff_self_or]
      rintro rfl
      exact hl
    · rw [List.mem_cons, Action.create.injEq, or_comm, eq_comm]
  case add | remove | contains => split <;> rfl
  case snapshot keepAs => cases keepAs <;> rfl

theorem mem_held_act {c : Custody} : l ∈ (c.act a).1.held ↔
    (a = .create l ∧ l ∉ c.created) ∨ (l ∈ c.held ∧ a ≠ .drop l) := by
  cases a <;> simp only [act, reduceCtorEq, false_and, false_or, ne_eq, not_false_eq_true, and_true]
  case create l' =>
    split
    · next h =>
      have hl : l' ∈ c.created := by simpa using h
      simp only [Action.create.injEq, iff_or_self]
      rintro ⟨rfl, hn⟩
      exact absurd hl hn
    · next h =>
      have hl : l' ∉ c.created := by simpa using h
      rw [List.mem_cons, Action.create.injEq, eq_comm]
      exact or_congr_left (iff_self_and.2 fun h => h ▸ hl)
  case drop l' =>
    rw [List.mem_filter, decide_eq_true_eq, Action.drop.injEq, eq_comm]
  case add | remove | contains => split <;> rfl
  case snapshot keepAs => cases keepAs <;> rfl

/-- A listener that is registered must have been created. -/
theorem mem_entries_act {c : Custody} (hc : l ∈ c.registry.entries → l ∈ c.created) :
    l ∈ (c.act a).1.registry.entries ↔ (∃ holder, a = .add l holder ∧ c.has l holder = true) ∨
      (l ∈ c.registry.entries ∧ a ≠ .remove l ∧ a ≠ .clear ∧
        ((∃ k, a = .snapshot k) → c.isAlive l = true)) := by
  cases a <;> simp only [act, reduceCtorEq, false_and, false_or, ne_eq, not_false_eq_true, and_true,
    true_and, exists_false, false_imp_iff]
  case create => split <;> rfl
  case add l' holder =>
    split
    · next hl =>
      have hadded : (∃ h, Action.add l' holder = .add l h ∧ c.has l h = true) ↔ l = l' := by
        constructor
        · rintro ⟨_, ⟨⟩, -⟩
          rfl
        · rintro rfl
          exact ⟨holder, rfl, hl⟩
      rw [Registry.mem_add, or_comm, hadded]
    · next hl =>
      refine (or_iff_right ?_).symm
      rintro ⟨_, ⟨⟩, h⟩
      exact hl h
  case remove l' =>
    rw [Action.remove.injEq, eq_comm (a := l')]
    split
    · exact Registry.mem_remove
    · next h =>
      have hl : l' ∉ c.created := by simpa using h
      refine iff_self_and.2 fun hm => ?_
      rintro rfl
      exact hl (hc hm)
  case contains => split <;> rfl
  case clear => simp [Registry.empty]
  case snapshot keepAs =>
    have hseen : (∃ k, Action.snapshot keepAs = .snapshot k) ↔ True := by simp
    rw [hseen, true_imp_iff]
    cases keepAs <;> exact Registry.mem_live

theorem mem_keep {c : Custody} {name' : String} {ls : List String} :
    (∃ ls', (name, ls') ∈ (c.keep name' ls).kept ∧ l ∈ ls') ↔
      (name' = name ∧ l ∈ ls) ∨ ((∃ ls', (name, ls') ∈ c.kept ∧ l ∈ ls') ∧ name' ≠ name) := by
  simp only [keep, List.mem_cons, List.mem_filter, Prod.mk.injEq, decide_eq_true_eq]
  constructor
  · rintro ⟨ls', ⟨rfl, rfl⟩ | ⟨hm, hne⟩, hl⟩
    · exact .inl ⟨rfl, hl⟩
    · exact .inr ⟨⟨ls', hm, hl⟩, Ne.symm hne⟩
  · rintro (⟨rfl, hl⟩ | ⟨⟨ls', hm, hl⟩, hne⟩)
    · exact ⟨ls, .inl ⟨rfl, rfl⟩, hl⟩
    · exact ⟨ls', .inr ⟨hm, Ne.symm hne⟩, hl⟩

theorem mem_kept_act {c : Custody} : (∃ ls, (name, ls) ∈ (c.act a).1.kept ∧ l ∈ ls) ↔
    (a = .snapshot (some name) ∧ l ∈ c.registry.live c.isAlive) ∨
      ((∃ ls, (name, ls) ∈ c.kept ∧ l ∈ ls) ∧ a ≠ .snapshot (some name) ∧ a ≠ .release name) := by
  cases a <;> simp only [act, reduceCtorEq, false_and, false_or, ne_eq, not_false_eq_true, and_true,
    true_and]
  case create | add | remove | contains => split <;> rfl
  case snapshot keepAs =>
    cases keepAs with
    | none => simp
    | some name' =>
      rw [Action.snapshot.injEq, Option.some.injEq]
      exact mem_keep
  case release name' =>
    simp only [List.mem_filter, decide_eq_true_eq, Action.release.injEq]
    constructor
    · rintro ⟨ls, ⟨hm, hne⟩, hl⟩
      exact ⟨⟨ls, hm, hl⟩, Ne.symm hne⟩
    · rintro ⟨⟨ls, hm, hl⟩, hne⟩
      exact ⟨ls, ⟨hm, Ne.symm hne⟩, hl⟩

theorem nodup_entries_act {c : Custody} (h : c.registry.entries.Nodup) :
    (c.act a).1.registry.entries.Nodup := by
  cases a <;> simp only [act]
  case add l holder =>
    split
    · exact Registry.nodup_add l h
    · exact h
  case remove l =>
    split
    · exact Registry.nodup_remove l h
    · exact h
  case create | contains => split <;> exact h
  case clear => exact List.nodup_nil
  case snapshot keepAs => cases keepAs <;> exact Registry.nodup_pruned _ h
  case drop | release => exact h

/-- **One more action** does to a custody what it does to the history. -/
theorem Represents.concat {c : Custody} (h : c.Represents as) (a : Action) :
    (c.act a).1.Represents (as ++ [a]) where
  created := by
    intro l
    rw [mem_created_act, h.created, List.mem_append, List.mem_singleton, eq_comm (a := a)]
  held := by
    intro l
    rw [mem_held_act, handled_concat_iff, h.held, h.created]
  registered := by
    intro l
    simp only [mem_entries_act h.mem_created, registered_concat_iff, h.has, h.registered, h.alive]
  kept := by
    intro name l
    rw [mem_kept_act, kept_concat_iff, h.kept, h.live]
  once := nodup_entries_act h.once

/-- **A custody is what its history makes it.** -/
theorem represents_after (as : List Action) : (after as).Represents as := by
  induction as using List.reverseRecOn with
  | nil => exact represents_empty
  | append_singleton as a ih =>
    rw [after_concat]
    exact ih.concat a

/-! ## The answers -/

/-- A kept snapshot is changed by nothing but being let go or replaced. -/
theorem lookup_kept_act {c : Custody} (hs : a ≠ .snapshot (some name)) (hr : a ≠ .release name) :
    (c.act a).1.kept.lookup name = c.kept.lookup name := by
  cases a <;> simp only [act]
  case create | add | remove | contains => split <;> rfl
  case snapshot keepAs =>
    cases keepAs with
    | none => rfl
    | some name' =>
      have hne : name' ≠ name := fun h => hs (by rw [h])
      dsimp only [keep]
      rw [List.lookup_cons, beq_false_of_ne hne.symm]
      exact lookup_filter_ne hne _
  case release name' => exact lookup_filter_ne (fun h => hr (by rw [h])) _

theorem lookup_kept_after {ls : List String} (h : (after as).kept.lookup name = some ls) :
    ∀ {later : List Action}, .snapshot (some name) ∉ later → .release name ∉ later →
      (after (as ++ later)).kept.lookup name = some ls := by
  intro later
  induction later using List.reverseRecOn with
  | nil => intro _ _; rwa [List.append_nil]
  | append_singleton later a ih =>
    intro hs hr
    obtain ⟨hs, hsa⟩ := not_mem_concat_iff.1 hs
    obtain ⟨hr, hra⟩ := not_mem_concat_iff.1 hr
    rw [← List.append_assoc, after_concat, lookup_kept_act hsa hra]
    exact ih hs hr

section
variable {c : Custody} (h : c.Represents as)
include h

theorem Represents.contains_eq_true_iff :
    (c.act (.contains l)).2 = .flag true ↔ Registered as l ∧ Alive as l := by
  rw [← h.live, Registry.mem_live, act]
  split
  · simp [Registry.has, Registry.mem_eq_true_iff]
  · next hn =>
    have hl : l ∉ c.created := by simpa using hn
    exact iff_of_false (by simp) fun hm => hl (h.mem_created hm.1)

theorem Represents.remove_eq_true_iff : (c.act (.remove l)).2 = .flag true ↔ Registered as l := by
  rw [← h.registered, act]
  split
  · simp [Registry.mem_eq_true_iff]
  · next hn =>
    have hl : l ∉ c.created := by simpa using hn
    exact iff_of_false (by simp) fun hm => hl (h.mem_created hm)

theorem Represents.add_of_registered (hl : Registered as l) (holder : Holder) :
    (c.act (.add l holder)).1 = c := by
  rw [act]
  split
  · rw [Registry.add_of_mem ((h.registered l).2 hl)]
  · rfl

end

/-- Being registered keeps nobody alive. -/
theorem isAlive_add (c : Custody) (l l' : String) (holder : Holder) :
    (c.act (.add l holder)).1.isAlive l' = c.isAlive l' := by
  rw [act]
  split <;> rfl

/-- A snapshot gives the listeners that are registered and alive, and no other entry remains. -/
theorem act_snapshot (c : Custody) (keepAs : Option String) :
    (c.act (.snapshot keepAs)).2 = .listeners (c.registry.live c.isAlive) ∧
      (c.act (.snapshot keepAs)).1.registry = c.registry.pruned c.isAlive ∧
      ∀ name, keepAs = some name →
        (c.act (.snapshot keepAs)).1.kept.lookup name = some (c.registry.live c.isAlive) := by
  cases keepAs with
  | none =>
    refine ⟨rfl, rfl, ?_⟩
    intro name hn
    cases hn
  | some name' =>
    refine ⟨rfl, rfl, ?_⟩
    rintro name ⟨⟩
    exact List.lookup_cons_self

/-- **A registry is a set of weakly held listeners.**  After any actions, let the *members* be the
listeners that are registered by what was done, and the *living* those of them that are alive by it.

* There is an entry for every member, dead or alive, and the living are counted.
* A listener is alive if and only if its owner or a kept snapshot holds it, and registering it makes
  no difference to that.
* The living are contained, and every member can be removed.  To add one of the living changes
  nothing.
* A snapshot has each of the living once and nobody else, and it leaves entries for the living only.
  While it is kept it does not change. -/
theorem registry_is_weak_set (as : List Action) :
    ∃ members living : Finset String,
      (∀ l, l ∈ members ↔ Registered as l) ∧
      (∀ l, l ∈ living ↔ Registered as l ∧ Alive as l) ∧
      (after as).registry.size = members.card ∧
      (after as).registry.count (after as).isAlive = living.card ∧
      (∀ l, (after as).isAlive l = true ↔ Alive as l) ∧
      (∀ l l' holder, ((after as).act (.add l holder)).1.isAlive l' = (after as).isAlive l') ∧
      (∀ l, ((after as).act (.contains l)).2 = .flag true ↔ l ∈ living) ∧
      (∀ l, ((after as).act (.remove l)).2 = .flag true ↔ l ∈ members) ∧
      (∀ l holder, l ∈ living → ((after as).act (.add l holder)).1 = after as) ∧
      ∀ keepAs, ∃ ls, ((after as).act (.snapshot keepAs)).2 = .listeners ls ∧
        ls.Nodup ∧ (∀ l, l ∈ ls ↔ l ∈ living) ∧
        (∀ l, ((after as).act (.snapshot keepAs)).1.registry.mem l = true ↔ l ∈ living) ∧
        ∀ name later, keepAs = some name → .snapshot (some name) ∉ later → .release name ∉ later →
          (after (as ++ .snapshot keepAs :: later)).kept.lookup name = some ls := by
  have h := represents_after as
  have honce : ((after as).registry.live (after as).isAlive).Nodup := h.once.filter _
  refine ⟨(after as).registry.entries.toFinset,
    ((after as).registry.live (after as).isAlive).toFinset, ?_, ?_,
    (List.toFinset_card_of_nodup h.once).symm, (List.toFinset_card_of_nodup honce).symm, h.alive,
    isAlive_add (after as), ?_, ?_, ?_, ?_⟩
  · intro l
    rw [List.mem_toFinset, h.registered]
  · intro l
    rw [List.mem_toFinset, h.live]
  · intro l
    rw [List.mem_toFinset, h.live, h.contains_eq_true_iff]
  · intro l
    rw [List.mem_toFinset, h.registered, h.remove_eq_true_iff]
  · intro l holder hl
    rw [List.mem_toFinset, h.live] at hl
    exact h.add_of_registered hl.1 holder
  · intro keepAs
    obtain ⟨hanswer, hpruned, hkept⟩ := (after as).act_snapshot keepAs
    refine ⟨_, hanswer, honce, fun l => List.mem_toFinset.symm, ?_, ?_⟩
    · intro l
      rw [Registry.mem_eq_true_iff, hpruned, List.mem_toFinset]
      rfl
    · intro name later hname hsnapshot hrelease
      have htaken := hkept name hname
      rw [← after_concat] at htaken
      rw [← List.singleton_append, ← List.append_assoc]
      exact lookup_kept_after htaken hsnapshot hrelease

-- a kept snapshot holds a listener that was given up, which can be added out of it; when it is let
-- go, the entry stays
example :
    let c := after [.create "a", .add "a", .snapshot (some "s"), .drop "a", .remove "a",
      .add "a" (.kept "s")]
    c.isAlive "a" = true ∧ (c.act (.release "s")).1.isAlive "a" = false ∧
      (c.act (.release "s")).1.registry.size = 1 :=
  ⟨rfl, rfl, rfl⟩

end Custody
end ContentOverlay
