import Mathlib

/-!
# Histories that grow

A history is a list of things that were done, the last one at its end.  When one more thing is done,
what is in the history now is the last thing, or it was in it before.
-/

set_option autoImplicit false

namespace ContentOverlay

variable {α : Type} {as earlier later : List α} {a b : α}

theorem not_mem_concat_iff : b ∉ as ++ [a] ↔ b ∉ as ∧ a ≠ b := by
  rw [List.mem_append, List.mem_singleton, not_or, Ne, eq_comm (a := b)]

theorem getElem?_concat_eq_some {i : Nat} :
    (as ++ [a])[i]? = some b ↔ as[i]? = some b ∨ (i = as.length ∧ a = b) := by
  rw [List.getElem?_append]
  split
  · next hi =>
    refine ⟨.inl, ?_⟩
    rintro (h | ⟨rfl, -⟩)
    · exact h
    · exact absurd hi (Nat.lt_irrefl _)
  · next hi =>
    rw [List.getElem?_eq_none (Nat.le_of_not_lt hi), List.getElem?_singleton]
    split
    · next h0 =>
      have : i = as.length := by omega
      simp [this]
    · next h0 =>
      have : i ≠ as.length := by omega
      simp [this]

theorem lt_length_of_getElem? {i : Nat} (h : as[i]? = some a) : i < as.length :=
  (List.getElem?_eq_some_iff.1 h).1

/-- Where something is in a history that has just grown. -/
theorem concat_eq_append_cons_iff : as ++ [a] = earlier ++ b :: later ↔
    (as = earlier ∧ a = b ∧ later = []) ∨
      ∃ done, as = earlier ++ b :: done ∧ later = done ++ [a] := by
  constructor
  · intro h
    rcases List.eq_nil_or_concat later with rfl | ⟨done, c, rfl⟩
    · obtain ⟨rfl, hb⟩ := List.append_inj' h rfl
      exact .inl ⟨rfl, List.singleton_injective hb, rfl⟩
    · rw [List.concat_eq_append, ← List.cons_append, ← List.append_assoc] at h
      obtain ⟨rfl, hc⟩ := List.append_inj' h rfl
      obtain rfl := List.singleton_injective hc
      exact .inr ⟨done, rfl, List.concat_eq_append⟩
  · rintro (⟨rfl, rfl, rfl⟩ | ⟨done, rfl, rfl⟩)
    · rfl
    · rw [List.append_assoc, List.cons_append]

end ContentOverlay
