import Mathlib
import ContentOverlay.Proofs.Stream.Pace
import ContentOverlay.Stream.Writer

/-!
# What reaches a writer

However few bytes a writer takes at a time, as long as it takes at least one per call, `writeAll`
gets as much into it as fits, and it fails exactly if that is not everything (`writeAll_eq`).  A
writer with room without limit is *accepting*: it takes everything (`Accepting.writeAll_eq`).

`fill` is the writer afterwards.  Filling it with one thing and then with another is filling it with
both at once, full or not (`fill_fill`), so what reaches a writer does not depend on how it is cut
into pieces.
-/

set_option autoImplicit false

namespace ContentOverlay
namespace Writer

open Pace (capped capped_pos capped_le)

/-! ## Writers with and without room -/

/-- How many of `n` bytes the writer has room for. -/
def fitting (w : Writer) (n : Nat) : Nat := capped n w.room

/-- The writer after it was given bytes: as many of them as fit have reached it. -/
def fill (w : Writer) (data : List UInt8) : Writer :=
  { w with
    taken := w.taken ++ data.take (w.fitting data.length)
    room := w.room.map (· - data.length) }

/-- How a full writer fails. -/
def refusal (w : Writer) : Fault := if w.silent then .tookNothing else .refused

theorem fitting_le (w : Writer) (n : Nat) : w.fitting n ≤ n := by
  rw [fitting]
  cases w.room with
  | none => exact Nat.le_refl _
  | some room => exact Nat.min_le_left _ _

theorem fitting_of_room {w : Writer} {room : Nat} (h : w.room = some room) (n : Nat) :
    w.fitting n = min n room := by
  rw [fitting, h, capped]

/-- Of two things given one after the other the second gets the room that the first leaves. -/
theorem fitting_fill (w : Writer) (data : List UInt8) (n : Nat) :
    w.fitting (data.length + n) = w.fitting data.length + (w.fill data).fitting n := by
  simp only [fitting, fill]
  cases w.room with
  | none => rfl
  | some room =>
    simp only [Option.map_some, capped]
    omega

theorem bytes_fill (w : Writer) (data : List UInt8) :
    (w.fill data).bytes = w.bytes ++ data.take (w.fitting data.length) := by
  simp [bytes, fill]

@[simp] theorem refusal_fill (w : Writer) (data : List UInt8) :
    (w.fill data).refusal = w.refusal := rfl

@[simp] theorem fill_nil (w : Writer) : w.fill [] = w := by
  have hroom : w.room.map (· - 0) = w.room := by simp
  have htaken : w.taken ++ ([] : List UInt8) = w.taken := Array.toList_inj.1 (by simp)
  simp only [fill, List.take_nil, List.length_nil, hroom, htaken]

/-- Either everything fits, or the writer is full afterwards. -/
theorem fitting_eq_or_full (w : Writer) (data : List UInt8) :
    w.fitting data.length = data.length ∨ (w.fill data).room = some 0 := by
  simp only [fitting, fill]
  cases w.room with
  | none => exact .inl rfl
  | some room =>
    rw [Option.map_some, Option.some.injEq, capped]
    omega

/-- **Bytes may be given in pieces.** -/
theorem fill_fill (w : Writer) (a b : List UInt8) : (w.fill a).fill b = w.fill (a ++ b) := by
  have htake : (a ++ b).take (w.fitting (a ++ b).length) =
      a.take (w.fitting a.length) ++ b.take ((w.fill a).fitting b.length) := by
    rw [List.length_append, fitting_fill, List.take_append]
    rcases w.fitting_eq_or_full a with hall | hfull
    · rw [hall, List.take_length, List.take_of_length_le (Nat.le_add_right _ _),
        Nat.add_sub_cancel_left]
    · rw [fitting_of_room hfull, Nat.min_zero, Nat.add_zero,
        Nat.sub_eq_zero_of_le (w.fitting_le _)]
  have htaken : w.taken ++ a.take (w.fitting a.length) ++ b.take ((w.fill a).fitting b.length) =
      w.taken ++ (a ++ b).take (w.fitting (a ++ b).length) := by
    rw [htake]
    exact Array.toList_inj.1 (by simp)
  have hroom : (w.room.map (· - a.length)).map (· - b.length) =
      w.room.map (· - (a ++ b).length) := by
    rw [Option.map_map, List.length_append]
    congr 1
    funext room
    exact Nat.sub_sub room a.length b.length
  simp only [fill, mk.injEq, and_true]
  exact ⟨htaken, hroom⟩

/-! ## Writing -/

theorem fitting_fitting (w : Writer) (n : Nat) : w.fitting (w.fitting n) = w.fitting n := by
  simp only [fitting]
  cases w.room with
  | none => rfl
  | some room => exact Nat.min_eq_left (Nat.min_le_right n room)

/-- One call takes some of the bytes that fit, and at least one of them if there is one. -/
theorem write_eq {w : Writer} (hc : w.pace.IsPositive) (hr : w.room ≠ some 0) {data : List UInt8}
    (hd : data ≠ []) :
    ∃ n, 0 < n ∧ n ≤ data.length ∧ w.fitting n = n ∧
      w.write data = (some n, w.fill (data.take n)) := by
  obtain ⟨count, hcount⟩ :
      ∃ n, n = w.fitting (capped data.length (w.pace.most w.taken.size)) := ⟨_, rfl⟩
  have hpos : 0 < count := by
    rw [hcount]
    exact capped_pos (capped_pos (List.length_pos_iff.2 hd) (hc _)) hr
  have hle : count ≤ data.length := by
    rw [hcount]
    exact Nat.le_trans (w.fitting_le _) (capped_le _ _)
  have hfits : w.fitting count = count := by rw [hcount, fitting_fitting]
  have hlen : (data.take count).length = count := by rw [List.length_take, Nat.min_eq_left hle]
  have hwrite : w.write data = (some count, { w with
      taken := w.taken ++ data.take count
      room := w.room.map (· - count) }) := by
    rw [hcount]
    exact if_neg hr
  refine ⟨count, hpos, hle, hfits, ?_⟩
  rw [hwrite, fill, hlen, hfits, List.take_take, Nat.min_self]

theorem fill_of_full {w : Writer} (hr : w.room = some 0) (data : List UInt8) : w.fill data = w := by
  obtain ⟨taken, room, pace, silent⟩ := w
  obtain rfl : room = some 0 := hr
  simp [fill, fitting, capped]

/-- A full writer fails. -/
theorem write_of_full {w : Writer} (hr : w.room = some 0) (data : List UInt8) :
    w.write data = (if w.silent then some 0 else none, w) := if_pos hr

/-- Whether a writer takes `n` bytes. -/
def outcome (w : Writer) (n : Nat) : Except Fault Unit :=
  if w.fitting n = n then .ok () else .error w.refusal

theorem outcome_zero (w : Writer) : w.outcome 0 = .ok () := if_pos (Nat.le_zero.1 (w.fitting_le 0))

theorem outcome_fill {w : Writer} {data : List UInt8} (h : w.fitting data.length = data.length)
    (n : Nat) : (w.fill data).outcome n = w.outcome (data.length + n) := by
  rw [outcome, outcome, fitting_fill, h, refusal_fill]
  simp only [Nat.add_left_cancel_iff]

theorem push_eq {w : Writer} (hc : w.pace.IsPositive) {data : List UInt8} {calls : Nat}
    (hle : data.length ≤ calls) : push data w calls = (w.outcome data.length, w.fill data) := by
  induction calls generalizing data w with
  | zero =>
    obtain rfl := List.eq_nil_of_length_eq_zero (Nat.le_zero.1 hle)
    rw [push, fill_nil, List.length_nil, outcome_zero]
  | succ calls ih =>
    rw [push]
    split
    · next hd => rw [hd, fill_nil, List.length_nil, outcome_zero]
    · next hd =>
      by_cases hr : w.room = some 0
      · have hfull : w.fitting data.length = 0 := by rw [fitting_of_room hr, Nat.min_zero]
        have hne : 0 ≠ data.length := fun h => hd (List.eq_nil_of_length_eq_zero h.symm)
        rw [write_of_full hr, outcome, hfull, if_neg hne, fill_of_full hr, refusal]
        cases w.silent <;> rfl
      · obtain ⟨n, hpos, hn, hfits, hw⟩ := write_eq hc hr hd
        obtain ⟨m, rfl⟩ := Nat.exists_eq_succ_of_ne_zero (Nat.pos_iff_ne_zero.1 hpos)
        have htake : (data.take (m + 1)).length = m + 1 := by
          rw [List.length_take, Nat.min_eq_left hn]
        have hdrop : (data.drop (m + 1)).length ≤ calls := by
          rw [List.length_drop]
          omega
        rw [hw]
        show push (data.drop (m + 1)) (w.fill (data.take (m + 1))) calls = _
        rw [ih (w := w.fill (data.take (m + 1))) hc hdrop, fill_fill,
          outcome_fill (by rw [htake, hfits]), ← List.length_append, List.take_append_drop]

/-- **As much as fits reaches the writer**, and everything has to fit. -/
theorem writeAll_eq {w : Writer} (hc : w.pace.IsPositive) (data : List UInt8) :
    w.writeAll data = (w.outcome data.length, w.fill data) :=
  push_eq hc (Nat.le_refl _)

/-! ## Accepting writers -/

/-- A writer that takes everything, though perhaps not at once. -/
structure Accepting (w : Writer) : Prop where
  room_eq : w.room = none
  isPositive : w.pace.IsPositive

/-- The writer after more bytes reached it. -/
def append (w : Writer) (data : List UInt8) : Writer := { w with taken := w.taken ++ data }

theorem unlimited_accepting : unlimited.Accepting := ⟨rfl, Pace.isPositive_none⟩

theorem Accepting.append {w : Writer} (h : w.Accepting) (data : List UInt8) :
    (w.append data).Accepting := ⟨h.room_eq, h.isPositive⟩

theorem Accepting.fitting_eq {w : Writer} (h : w.Accepting) (n : Nat) : w.fitting n = n := by
  rw [fitting, h.room_eq, capped]

theorem Accepting.fill_eq {w : Writer} (h : w.Accepting) (data : List UInt8) :
    w.fill data = w.append data := by
  rw [fill, h.fitting_eq, List.take_length, h.room_eq, Option.map_none, Writer.append, h.room_eq]

@[simp] theorem append_nil (w : Writer) : w.append [] = w := by
  simp [append]

theorem append_append (w : Writer) (a b : List UInt8) :
    (w.append a).append b = w.append (a ++ b) := by
  simp only [append, mk.injEq, and_true]
  exact Array.toList_inj.1 (by simp)

@[simp] theorem bytes_append (w : Writer) (data : List UInt8) :
    (w.append data).bytes = w.bytes ++ data := by
  simp [bytes, append]

@[simp] theorem bytes_unlimited : unlimited.bytes = [] := rfl

/-- **Writing everything to an accepting writer appends everything.** -/
theorem Accepting.writeAll_eq {w : Writer} (h : w.Accepting) (data : List UInt8) :
    w.writeAll data = (.ok (), w.append data) := by
  rw [Writer.writeAll_eq h.isPositive, outcome, h.fitting_eq, if_pos rfl, h.fill_eq]

end Writer
end ContentOverlay
