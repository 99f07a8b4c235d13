import ContentOverlay.Proofs.History
import ContentOverlay.Proofs.Session.Chronicle

/-!
# The numbers of passes

A pass that is begun while another one is under way ends before the other one goes on.  So the
numbers of the passes under way decrease from the innermost one outwards, and what is told by a pass
after another one began inside it is told after the other one has ended.  That is the only way in
which a pass can be overtaken by a later one.

* `Numbered` is the invariant.  It is about the passes under way, their numbers and what was done,
  and about nothing else of a session, so that there is a lemma for each kind of deed.
* `UnderWay` says that a pass is under way at some place of a chronicle.
* `IsNumbered.extend` carries the invariant over a step of a chronicle.
-/

set_option autoImplicit false

namespace ContentOverlay

namespace Chronicle

/-- No deed between these places, both exclusive, ends the pass of this number or breaks it off. -/
def Undisturbed (deeds : List Deed) (i j : Nat) : Prop :=
  ∀ m, i < m → m < j → deeds[m]? ≠ some .breaks ∧ ∀ p, deeds[m]? ≠ some (.ends i p)

/-- The pass that began at one place is under way at a later one. -/
def UnderWay (deeds : List Deed) (i j : Nat) : Prop := i < j ∧ Undisturbed deeds i j

variable {deeds : List Deed} {i j : Nat} {e : Deed}

theorem Undisturbed.concat (h : Undisturbed deeds i j) (hj : j ≤ deeds.length) :
    Undisturbed (deeds ++ [e]) i j := by
  intro m him hmj
  rw [List.getElem?_append_left (Nat.lt_of_lt_of_le hmj hj)]
  exact h m him hmj

theorem Undisturbed.mono {k : Nat} (h : Undisturbed deeds i j) (hk : k ≤ j) :
    Undisturbed deeds i k :=
  fun m him hmk => h m him (Nat.lt_of_lt_of_le hmk hk)

/-- A pass that is under way stays so, unless this deed ends it. -/
theorem Undisturbed.extend (h : Undisturbed deeds i deeds.length) (hb : e ≠ .breaks)
    (he : ∀ p, e ≠ .ends i p) : Undisturbed (deeds ++ [e]) i (deeds ++ [e]).length := by
  intro m him hm
  rw [Ne, getElem?_concat_eq_some]
  refine ⟨?_, fun p => ?_⟩
  · rintro (hd | ⟨-, hd⟩)
    · exact (h m him (lt_length_of_getElem? hd)).1 hd
    · exact hb hd
  · rw [Ne, getElem?_concat_eq_some]
    rintro (hd | ⟨-, hd⟩)
    · exact (h m him (lt_length_of_getElem? hd)).2 p hd
    · exact he p hd

/-! ## The invariant -/

/-- What is known of a pass under way, with the listeners that it has left: where it began, whom it
told, and that it has not ended. -/
structure Runs (deeds : List Deed) (i : Nat) (f : Pass × List ListenerId) : Prop where
  began : deeds[i]? = some (.begins f.1)
  pending : ∀ l ∈ f.2, l ∈ f.1.audience
  told : ∀ l ∈ f.1.audience, l ∈ f.2 ∨ .tells i f.1 l ∈ deeds
  undisturbed : Undisturbed deeds i deeds.length

/-- What holds between the passes under way, their numbers, and what was done. -/
structure Numbered (passes : List (Pass × List ListenerId)) (running : List Nat)
    (deeds : List Deed) : Prop where
  runs : List.Forall₂ (Runs deeds) running passes
  decreasing : running.Pairwise (· > ·)
  /-- Nobody is told by an outer pass while an inner one is under way. -/
  inner : ∀ j ∈ running, ∀ {a i : Nat} {p : Pass} {l : ListenerId}, j < a →
    deeds[a]? = some (.tells i p l) → j ≤ i
  began : ∀ {a i : Nat} {p : Pass} {l : ListenerId}, deeds[a]? = some (.tells i p l) →
    i < a ∧ deeds[i]? = some (.begins p) ∧ l ∈ p.audience
  finished : ∀ {i : Nat} {p : Pass}, .ends i p ∈ deeds → ∀ l ∈ p.audience, .tells i p l ∈ deeds
  /-- A pass that has still somebody to tell when a later one begins is overtaken by it. -/
  overtaken : ∀ {a b i j : Nat} {p q : Pass} {l l' : ListenerId},
    deeds[a]? = some (.tells i p l) → deeds[b]? = some (.tells j q l') → i < j → j < a →
    b < a ∧ UnderWay deeds i j

variable {passes : List (Pass × List ListenerId)} {running : List Nat} {p : Pass}
  {pending : List ListenerId} {n : Nat}

theorem Runs.concat {f : Pass × List ListenerId} (h : Runs deeds i f) (hb : e ≠ .breaks)
    (he : ∀ p, e ≠ .ends i p) : Runs (deeds ++ [e]) i f where
  began := getElem?_concat_eq_some.2 (.inl h.began)
  pending := h.pending
  told := fun l hl => (h.told l hl).imp_right (List.mem_append_left _)
  undisturbed := h.undisturbed.extend hb he

/-- The first of the listeners that are left is told. -/
theorem Runs.tells {l : ListenerId} (h : Runs deeds i (p, l :: pending)) :
    Runs (deeds ++ [.tells i p l]) i (p, pending) where
  began := getElem?_concat_eq_some.2 (.inl h.began)
  pending := fun l' hl' => h.pending l' (List.mem_cons_of_mem _ hl')
  told := by
    intro l' hl'
    rcases h.told l' hl' with hp | hd
    · rcases List.mem_cons.1 hp with rfl | hp
      · exact .inr (List.mem_append_right _ (List.mem_singleton.2 rfl))
      · exact .inl hp
    · exact .inr (List.mem_append_left _ hd)
  undisturbed := h.undisturbed.extend (by simp) (by simp)

theorem forall₂_runs_concat (h : List.Forall₂ (Runs deeds) running passes) (hb : e ≠ .breaks)
    (he : ∀ i ∈ running, ∀ p, e ≠ .ends i p) :
    List.Forall₂ (Runs (deeds ++ [e])) running passes := by
  induction h with
  | nil => exact .nil
  | cons hr _ ih =>
    exact .cons (hr.concat hb (he _ List.mem_cons_self))
      (ih fun i hi => he i (List.mem_cons_of_mem _ hi))

namespace Numbered

theorem lt_length (h : Numbered passes running deeds) : ∀ i ∈ running, i < deeds.length := by
  intro i hi
  obtain ⟨f, hf⟩ : ∃ f, Runs deeds i f := by
    obtain ⟨k, hk, rfl⟩ := List.getElem_of_mem hi
    exact ⟨_, (List.forall₂_iff_get.1 h.runs).2 k hk (h.runs.length_eq ▸ hk)⟩
  exact lt_length_of_getElem? hf.began

/-- A deed by which nobody is told. -/
theorem concat {passes' : List (Pass × List ListenerId)} {running' : List Nat}
    (h : Numbered passes running deeds) (ht : ∀ i p l, e ≠ .tells i p l)
    (hd : ∀ i p, e = .ends i p → ∀ l ∈ p.audience, .tells i p l ∈ deeds)
    (runs : List.Forall₂ (Runs (deeds ++ [e])) running' passes')
    (decreasing : running'.Pairwise (· > ·))
    (inner : ∀ j ∈ running', j ∈ running ∨ j = deeds.length) :
    Numbered passes' running' (deeds ++ [e]) where
  runs := runs
  decreasing := decreasing
  inner := by
    intro j hj a i p l hja ha
    rcases getElem?_concat_eq_some.1 ha with ha | ⟨-, ha⟩
    · rcases inner j hj with hj | rfl
      · exact h.inner j hj hja ha
      · exact absurd (lt_length_of_getElem? ha) (Nat.not_lt_of_gt hja)
    · exact absurd ha (ht _ _ _)
  began := by
    intro a i p l ha
    rcases getElem?_concat_eq_some.1 ha with ha | ⟨-, ha⟩
    · obtain ⟨hi, hb, hl⟩ := h.began ha
      exact ⟨hi, getElem?_concat_eq_some.2 (.inl hb), hl⟩
    · exact absurd ha (ht _ _ _)
  finished := by
    intro i p he l hl
    rcases List.mem_append.1 he with he | he
    · exact List.mem_append_left _ (h.finished he l hl)
    · exact List.mem_append_left _ (hd i p (List.mem_singleton.1 he).symm l hl)
  overtaken := by
    intro a b i j p q l l' ha hb hij hja
    rcases getElem?_concat_eq_some.1 ha with ha | ⟨-, ha⟩
    · rcases getElem?_concat_eq_some.1 hb with hb | ⟨-, hb⟩
      · obtain ⟨hba, hu⟩ := h.overtaken ha hb hij hja
        exact ⟨hba, hu.1, hu.2.concat
          (Nat.le_of_lt (hja.trans (lt_length_of_getElem? ha)))⟩
      · exact absurd hb (ht _ _ _)
    · exact absurd ha (ht _ _ _)

theorem apart (h : Numbered passes running deeds) (he : ¬ e.OfPass) :
    Numbered passes running (deeds ++ [e]) := by
  refine h.concat ?_ ?_ (forall₂_runs_concat h.runs ?_ ?_) h.decreasing fun j hj => .inl hj
  · rintro i p l rfl
    exact he trivial
  · rintro i p rfl
    exact absurd trivial he
  · rintro rfl
    exact he trivial
  · rintro i - p rfl
    exact he trivial

theorem begins (h : Numbered passes running deeds) :
    Numbered ((p, p.audience) :: passes) (deeds.length :: running) (deeds ++ [.begins p]) := by
  refine h.concat (by simp) (by simp) (.cons ?_ (forall₂_runs_concat h.runs (by simp) (by simp)))
    (List.pairwise_cons.2 ⟨h.lt_length, h.decreasing⟩) ?_
  · refine ⟨List.getElem?_concat_length, fun l hl => hl, fun l hl => .inl hl, ?_⟩
    intro m hm hm'
    rw [List.length_append, List.length_singleton] at hm'
    omega
  · intro j hj
    exact (List.mem_cons.1 hj).symm

theorem breaks (h : Numbered passes running deeds) : Numbered [] [] (deeds ++ [.breaks]) := by
  refine h.concat (by simp) (by simp) .nil .nil ?_
  intro j hj
  cases hj

theorem ends (h : Numbered ((p, []) :: passes) (n :: running) deeds) :
    Numbered passes running (deeds ++ [.ends n p]) := by
  obtain ⟨hlast, hruns⟩ := List.forall₂_cons.1 h.runs
  obtain ⟨hlt, hdecreasing⟩ := List.pairwise_cons.1 h.decreasing
  refine h.concat (by simp) ?_ (forall₂_runs_concat hruns (by simp) ?_) hdecreasing
    fun j hj => .inl (List.mem_cons_of_mem _ hj)
  · intro i q he l hl
    cases he
    exact (hlast.told l hl).resolve_left List.not_mem_nil
  · intro i hi q he
    cases he
    exact Nat.lt_irrefl _ (hlt _ hi)

/-- A pass that tells somebody after a later one began was under way then, and it does so after the
later one did.  This stays so when the innermost pass tells somebody. -/
theorem overtaken_tells {l : ListenerId}
    (h : Numbered ((p, l :: pending) :: passes) (n :: running) deeds) {a b i j : Nat}
    {q q' : Pass} {l' l'' : ListenerId}
    (ha : (deeds ++ [.tells n p l])[a]? = some (.tells i q l'))
    (hb : (deeds ++ [.tells n p l])[b]? = some (.tells j q' l'')) (hij : i < j) (hja : j < a) :
    b < a ∧ UnderWay (deeds ++ [.tells n p l]) i j := by
  obtain ⟨hfirst, -⟩ := List.forall₂_cons.1 h.runs
  rcases getElem?_concat_eq_some.1 ha with ha | ⟨rfl, he⟩
  · rcases getElem?_concat_eq_some.1 hb with hb | ⟨-, hb⟩
    · obtain ⟨hba, hu⟩ := h.overtaken ha hb hij hja
      exact ⟨hba, hu.1, hu.2.concat (Nat.le_of_lt (hja.trans (lt_length_of_getElem? ha)))⟩
    · -- the later pass is the innermost one, so the earlier one cannot have told anybody since
      cases hb
      exact absurd hij (Nat.not_lt.2 (h.inner _ List.mem_cons_self hja ha))
  · cases he
    rcases getElem?_concat_eq_some.1 hb with hb | ⟨-, hb⟩
    · exact ⟨lt_length_of_getElem? hb, hij, (hfirst.undisturbed.mono hja.le).concat hja.le⟩
    · cases hb
      exact absurd hij (Nat.lt_irrefl _)

theorem tells {l : ListenerId} (h : Numbered ((p, l :: pending) :: passes) (n :: running) deeds) :
    Numbered ((p, pending) :: passes) (n :: running) (deeds ++ [.tells n p l]) := by
  obtain ⟨hfirst, hruns⟩ := List.forall₂_cons.1 h.runs
  have hl : l ∈ p.audience := hfirst.pending l List.mem_cons_self
  refine ⟨.cons hfirst.tells (forall₂_runs_concat hruns (by simp) (by simp)), h.decreasing, ?_, ?_,
    ?_, h.overtaken_tells⟩
  · intro j hj a i q l' hja ha
    rcases getElem?_concat_eq_some.1 ha with ha | ⟨-, ha⟩
    · exact h.inner j hj hja ha
    · cases ha
      rcases List.mem_cons.1 hj with rfl | hj
      · exact Nat.le_refl _
      · exact Nat.le_of_lt (List.rel_of_pairwise_cons h.decreasing hj)
  · intro a i q l' ha
    rcases getElem?_concat_eq_some.1 ha with ha | ⟨rfl, he⟩
    · obtain ⟨hi, hb, hl'⟩ := h.began ha
      exact ⟨hi, getElem?_concat_eq_some.2 (.inl hb), hl'⟩
    · cases he
      exact ⟨lt_length_of_getElem? hfirst.began, getElem?_concat_eq_some.2 (.inl hfirst.began), hl⟩
  · intro i q he l' hl'
    rcases List.mem_append.1 he with he | he
    · exact List.mem_append_left _ (h.finished he l' hl')
    · cases List.mem_singleton.1 he

theorem reorder {pending' : List ListenerId} (h : Numbered ((p, pending) :: passes) running deeds)
    (perm : pending'.Perm pending) : Numbered ((p, pending') :: passes) running deeds := by
  refine { h with runs := ?_ }
  obtain ⟨n, running', hfirst, hruns, rfl⟩ := List.forall₂_cons_right_iff.1 h.runs
  exact .cons ⟨hfirst.began, fun l hl => hfirst.pending l (perm.mem_iff.1 hl),
    fun l hl => (hfirst.told l hl).imp_left perm.mem_iff.2, hfirst.undisturbed⟩ hruns

/-- The innermost pass has a number that no other pass under way has. -/
theorem exists_running_cons (h : Numbered ((p, pending) :: passes) running deeds) :
    ∃ n running', running = n :: running' ∧ n ∉ running' := by
  obtain ⟨n, running', -, -, rfl⟩ := List.forall₂_cons_right_iff.1 h.runs
  refine ⟨n, running', rfl, fun hn => ?_⟩
  exact Nat.lt_irrefl n ((List.pairwise_cons.1 h.decreasing).1 n hn)

end Numbered

/-! ## Along a chronicle -/

/-- A pass under way, with the listeners that it has left. -/
def passOf? : Frame → Option (Pass × List ListenerId)
  | .requests _ _ _ => none
  | .pass p pending => some (p, pending)

/-- The passes under way, the innermost first. -/
def passesOf (fs : List Frame) : List (Pass × List ListenerId) := fs.filterMap passOf?

theorem passesOf_answer (a : Answer) (fs : List Frame) :
    passesOf (Session.answer a fs) = passesOf fs := by
  unfold Session.answer
  split <;> rfl

/-- When nothing is left to be done, no pass is under way. -/
theorem passesOf_of_idle {s : Session} (h : Session.Grounded s.frames) (idle : s.advance = none) :
    passesOf s.frames = [] := by
  rcases Session.frames_of_idle h idle with hs | ⟨answers, hs⟩ <;> rw [hs] <;> rfl

/-- A deed was done before the last step, or it was done by that step. -/
theorem getElem?_extend {c : Chronicle} {u : Session} {m : Nat} :
    (c.extend u).deeds[m]? = some e ↔
      c.deeds[m]? = some e ∨ (m = c.deeds.length ∧ c.next? = some e) := by
  rw [Chronicle.extend]
  cases c.next? with
  | none => simp
  | some d => rw [Option.toList_some, getElem?_concat_eq_some, Option.some.injEq]

/-- The invariant, said of a chronicle. -/
def IsNumbered (c : Chronicle) : Prop := Numbered (passesOf c.session.frames) c.running c.deeds

theorem isNumbered_blank (config : Config) (clock : Timestamp) :
    IsNumbered (blank config clock) := by
  refine ⟨.nil, .nil, ?_, ?_, ?_, ?_⟩
  all_goals intros; simp_all [blank]

variable {c c' : Chronicle} {may : Request → Prop}

theorem IsNumbered.extend (h : IsNumbered c) {t : Session} (ht : c.session.advance = some t) :
    IsNumbered (c.extend t) := by
  have hturn := turn ht
  unfold IsNumbered Chronicle.extend at *
  generalize c.next? = d at hturn
  cases hturn with
  | @answers _ _ _ _ _ d a before after apart undergoes =>
    rw [before] at h
    rw [after]
    cases d with
    | none =>
      rw [Option.toList_none, List.append_nil]
      exact h
    | some e =>
      rw [runningAfter_apart c (apart e rfl)]
      exact h.apart (apart e rfl)
  | begins before after starts =>
    rw [before] at h
    rw [after]
    exact h.begins
  | breaks before after undergoes =>
    rw [after]
    exact h.breaks
  | returns before after store =>
    rw [before] at h
    rw [after, Option.toList_none, List.append_nil]
    exact h
  | @tells p l pending rest before after undergoes =>
    rw [before] at h
    have hpasses : passesOf t.frames = (p, pending) :: passesOf rest := by
      rcases after with after | ⟨_, _, _, after⟩ <;> rw [after] <;> rfl
    rw [hpasses]
    obtain ⟨n, running, -, -, hrunning⟩ := List.forall₂_cons_right_iff.1 h.runs
    rw [runningAfter_tells, innermost, hrunning]
    exact (hrunning ▸ h).tells
  | @ends p rest before after undergoes =>
    rw [before] at h
    rw [after, passesOf_answer]
    obtain ⟨n, running, -, -, hrunning⟩ := List.forall₂_cons_right_iff.1 h.runs
    rw [runningAfter_ends, innermost, hrunning]
    exact (hrunning ▸ h).ends

end Chronicle
end ContentOverlay
