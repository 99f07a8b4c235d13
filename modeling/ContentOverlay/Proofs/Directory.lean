import Mathlib
import ContentOverlay.Config.File
import ContentOverlay.Proofs.Text.Utf8

/-!
# What is written is read

A path can be written if it leads to a file whose name is not too long, which does not depend on
what is written (`write_eq_ok_iff`).  Afterwards it leads there still, although there is one name
more (`place_put`), and the file has the bytes that were written.
-/

set_option autoImplicit false

namespace ContentOverlay
namespace Directory

variable {d d' : Directory} {path name : String} {bytes : List UInt8}

theorem write_eq_ok_iff :
    d.write path bytes = .ok d' ↔ ∃ name, d.place path = .file name false ∧
      name.utf8ByteSize ≤ nameBound ∧ d' = d.put name bytes := by
  rw [write]
  cases d.place path with
  | directory => simp
  | nowhere why => simp
  | file name slash =>
    cases slash with
    | true => simp
    | false =>
      simp only [Bool.false_eq_true, if_false, Place.file.injEq, and_true, exists_eq_left']
      split
      · next hlong => simp [hlong]
      · next hshort => simp [Nat.le_of_not_lt hshort, eq_comm]

theorem lookup_put (d : Directory) (name : String) (bytes : List UInt8) :
    (d.put name bytes).files.lookup name = some bytes := by
  rw [put, List.lookup_cons_self]

/-! ## Where a path leads to -/

/-- A path that leads to a file still leads there when a file has been written. -/
theorem inside_put {slash : Bool} (other : String) {parts : List String}
    (h : d.inside parts = .file name slash) :
    (d.put other bytes).inside parts = .file name slash := by
  induction parts with
  | nil => cases h
  | cons part parts ih =>
    rw [inside] at h ⊢
    split_ifs at h ⊢
    · exact ih h
    · exact h
    · exact h

theorem place_put {slash : Bool} (other : String) (h : d.place path = .file name slash) :
    (d.put other bytes).place path = .file name slash := by
  have hshown : (d.put other bytes).shown path = d.shown path := rfl
  rw [place] at h ⊢
  rw [hshown]
  split_ifs at h ⊢
  · exact h
  · exact inside_put other h

/-! ## Reading -/

theorem has_of_write (h : d.write path bytes = .ok d') : d'.has path = true := by
  obtain ⟨name, hplace, -, rfl⟩ := write_eq_ok_iff.1 h
  rw [has, place_put name hplace]
  simp only [lookup_put, Bool.not_false, Option.isSome_some, Bool.and_self]

theorem read_of_write (h : d.write path bytes = .ok d') : d'.read path = .ok bytes := by
  obtain ⟨name, hplace, hshort, rfl⟩ := write_eq_ok_iff.1 h
  rw [read, place_put name hplace]
  simp only [if_neg (Nat.not_lt.2 hshort), lookup_put, Bool.false_eq_true, if_false]

/-- **A text that was written is read.** -/
theorem readText_of_write {text : String} (h : d.write path (Utf8.ofString text) = .ok d') :
    d'.readText path = .ok text := by
  rw [readText, read_of_write h]
  dsimp only
  rw [Utf8.toString?_ofString]
  rfl

end Directory
end ContentOverlay
