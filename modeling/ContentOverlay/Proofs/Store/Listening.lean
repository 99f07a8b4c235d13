import ContentOverlay.Proofs.Store.Steady

/-!
# Who is held and who listens

A state is held by a name or by a running pass.  The observer of an overlay listens as long as the
overlay is held and has its target: nobody can overlay an overlay, so nobody else keeps one alive.

* `isListening_update` says that only the targets of states matter for who listens.
* `isListening_observer` is the half of this that overlays rely on.
* `exists_discard?` says who is told when a state is discarded.
-/

set_option autoImplicit false

namespace ContentOverlay
namespace Store

section
variable {st : Store} {id : StateId} {f : State → State} (hf : ∀ y, (f y).target = y.target)
include hf

theorem any_target_update (P : Option StateId → Bool) (i : StateId) :
    ((st.update id f).state? i).any (fun y => P y.target) =
      (st.state? i).any fun y => P y.target := by
  rw [state?_update]
  split
  · rw [Option.any_map]
    congr 1
    funext y
    exact congrArg P (hf y)
  · rfl

theorem overlays_update (o i : StateId) : (st.update id f).overlays o i = st.overlays o i :=
  any_target_update hf (fun t => t = some i) o

theorem isAlive_update (h : Holding) (i : StateId) :
    (st.update id f).isAlive h i = st.isAlive h i := by
  simp only [isAlive, overlays_update hf, length_update]
  rfl

/-- Who is listening depends on who overlays whom and on nothing else that states have. -/
theorem isListening_update (h : Holding) (l : ListenerId) :
    (st.update id f).isListening h l = st.isListening h l := by
  have hobserver : ∀ o, (st.update id f).hasObserver h o = st.hasObserver h o := by
    intro o
    rw [hasObserver, hasObserver, isAlive_update hf, any_target_update hf Option.isSome]
  cases l with
  | client name => rfl
  | observer o => rw [isListening, isListening, hobserver]

end

/-- The observer of an overlay that is held listens. -/
theorem isListening_observer {st : Store} {h : Holding} {o : StateId} {x : State}
    (hx : st.state? o = some x) (ht : x.target.isSome) (hh : st.isHeld h o = true) :
    st.isListening h (.observer o) = true := by
  have halive : st.isAlive h o = true := by
    rw [isAlive, hh]
    rfl
  rw [isListening, hasObserver, halive, hx]
  simp [ht]

theorem isHeld_iff {st : Store} {h : Holding} {id : StateId} :
    st.isHeld h id = true ↔ st.names.any (·.2 = id) = true ∨ id ∈ h.sources := by
  rw [isHeld, Bool.or_eq_true, List.contains_iff_mem]

/-! ## Discarding a state -/

variable {st : Store} {h : Holding} {id : StateId} {x : State}

theorem discard?_eq_none (hx : x.discarding = true) : st.discard? h id x = none := by
  rw [discard?, hx]
  rfl

/-- The pass that discards a state tells the listeners that are registered and alive. -/
theorem exists_discard? (hx : x.discarding = false) (hs : x.status ≠ .undefined) :
    ∃ st', st.discard? h id x =
      some (⟨id, .discarded, x.registry.live (st.isListening h), true⟩, st') := by
  have hlive : (st.update id fun s => { s with discarding := true }).isListening h =
      st.isListening h :=
    funext (isListening_update (f := fun s => { s with discarding := true }) (fun _ => rfl) h)
  rw [discard?, if_neg (by simp [hx, hs]), pass, hlive]
  exact ⟨_, rfl⟩

variable {name : String} (hfind : st.find name = .ok (id, x)) (caller : Option Caller)
include hfind

theorem perform_discard_of_none (hd : st.discard? h id x = none) :
    st.perform h caller (.discard name) = .ok (.answered .done st) := by
  simp only [perform, hfind, Bind.bind, Except.bind, hd]
  rfl

theorem perform_discard_of_some {p : Pass} {st' : Store}
    (hd : st.discard? h id x = some (p, st')) :
    st.perform h caller (.discard name) = .ok (.passing p st') := by
  simp only [perform, hfind, Bind.bind, Except.bind, hd]
  rfl

end Store
end ContentOverlay
