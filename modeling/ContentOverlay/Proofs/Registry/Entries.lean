import ContentOverlay.Registry
import Mathlib

/-!
# Entries of registries

A registry holds every listener once, whatever is done to it, and what becomes of its entries by
each operation can be said by membership.
-/

set_option autoImplicit false

namespace ContentOverlay
namespace Registry

variable {α : Type} {r : Registry α} {a b : α}

theorem nodup_pruned (alive : α → Bool) (h : r.entries.Nodup) : (r.pruned alive).entries.Nodup :=
  h.filter _

theorem mem_live {alive : α → Bool} : b ∈ r.live alive ↔ b ∈ r.entries ∧ alive b = true :=
  List.mem_filter

variable [DecidableEq α]

theorem mem_eq_true_iff : r.mem a = true ↔ a ∈ r.entries := List.contains_iff_mem

theorem nodup_add (a : α) (h : r.entries.Nodup) : (r.add a).entries.Nodup := by
  rw [add]
  split
  · exact h
  · next hm =>
    have ha : a ∉ r.entries := by simpa [mem] using hm
    exact List.nodup_append.2 ⟨h, List.nodup_singleton a, by
      intro b hb c hc hbc
      obtain rfl := List.mem_singleton.1 hc
      exact ha (hbc ▸ hb)⟩

theorem nodup_remove (a : α) (h : r.entries.Nodup) : (r.remove a).entries.Nodup :=
  h.filter _

theorem mem_add : b ∈ (r.add a).entries ↔ b ∈ r.entries ∨ b = a := by
  rw [add]
  split
  · next hm =>
    have ha : a ∈ r.entries := mem_eq_true_iff.1 hm
    exact ⟨.inl, fun h => h.elim id fun h => h ▸ ha⟩
  · rw [List.mem_append, List.mem_singleton]

theorem mem_remove : b ∈ (r.remove a).entries ↔ b ∈ r.entries ∧ b ≠ a := by
  simp [remove]

/-- A listener that is registered already is not registered again. -/
theorem add_of_mem (h : a ∈ r.entries) : r.add a = r := by
  rw [add, if_pos (mem_eq_true_iff.2 h)]

end Registry

/-! ## Entries under names -/

theorem lookup_filter_ne {α : Type} {name name' : String} (hne : name' ≠ name)
    (entries : List (String × α)) :
    (entries.filter (·.1 ≠ name')).lookup name = entries.lookup name := by
  induction entries with
  | nil => rfl
  | cons e entries ih =>
    obtain ⟨key, v⟩ := e
    by_cases hk : key = name'
    · subst hk
      rw [List.filter_cons_of_neg (by simp), ih, List.lookup_cons, beq_false_of_ne hne.symm]
    · rw [List.filter_cons_of_pos (by simpa using hk), List.lookup_cons, List.lookup_cons, ih]

end ContentOverlay
