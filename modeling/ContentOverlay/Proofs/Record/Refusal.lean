import Mathlib
import ContentOverlay.Proofs.Record.Writing

/-!
# What a failed writing leaves behind

A record is written in many calls, and the writer may refuse any of them.  But its bytes do not
depend on where the calls are cut, so what has reached a writer of limited room is simply as much of
the record's bytes as there was room for, be it that the cut is inside a number or between two
records.  The error names the field in which the first byte lies that did not get in.

* `front` and `obstacle?` split a list of fields at the first that cannot be produced; `partAt?`
  says to which field a byte belongs.
* `writeFields_of_fits` and `writeFields_of_full` say what comes of writing the fields, for every
  writer.
* `Misfit` is what the check before the writing finds, and `kindError?_eq_some_iff` says so.  After
  it nothing is written at all.
* `encode_reaches` puts this together.
-/

set_option autoImplicit false

namespace ContentOverlay
namespace Record

open Pace (dribble dribble_isPositive)

/-! ## Fields up to the first that cannot be produced -/

/-- The bytes of the fields before the first that cannot be produced. -/
def front : List Field → List UInt8
  | [] => []
  | .failure _ :: _ => []
  | .bytes _ data :: fs => data ++ front fs

/-- Why the first field that cannot be produced cannot be produced. -/
def obstacle? : List Field → Option Failure
  | [] => none
  | .failure why :: _ => some why
  | .bytes _ _ :: fs => obstacle? fs

/-- The part of the record to which the byte at a place belongs. -/
def partAt? : List Field → Nat → Option Part
  | [], _ => none
  | .failure _ :: _, _ => none
  | .bytes part data :: fs, i =>
    if i < data.length then some part else partAt? fs (i - data.length)

/-- Fields yield what is before the first obstacle, if there is none. -/
theorem yields_iff_front {fs : List Field} {data : List UInt8} :
    Yields fs data ↔ front fs = data ∧ obstacle? fs = none := by
  induction fs generalizing data with
  | nil => rw [yields_nil_iff, front, obstacle?, eq_comm, and_iff_left rfl]
  | cons f fs ih =>
    cases f with
    | failure why => exact iff_of_false not_yields_failure (by simp [obstacle?])
    | bytes part bytes =>
      simp only [yields_cons_iff, ih, front, obstacle?]
      refine ⟨?_, ?_⟩
      · rintro ⟨_, rfl, rfl, hnone⟩
        exact ⟨rfl, hnone⟩
      · rintro ⟨rfl, hnone⟩
        exact ⟨_, rfl, rfl, hnone⟩

theorem mem_of_obstacle? {fs : List Field} {why : Failure} (h : obstacle? fs = some why) :
    .failure why ∈ fs := by
  induction fs with
  | nil => exact absurd h (by simp [obstacle?])
  | cons f fs ih =>
    cases f with
    | failure why' =>
      obtain rfl : why' = why := Option.some.inj h
      exact List.mem_cons_self
    | bytes part data => exact List.mem_cons_of_mem _ (ih h)

/-! ## Writing the fields -/

variable {w : Writer} {fs : List Field} {room : Nat}

/-- There is room for everything up to the first obstacle, and only this can be in the way. -/
theorem writeFields_of_fits (hc : w.pace.IsPositive)
    (h : w.fitting (front fs).length = (front fs).length) :
    writeFields fs w = ((obstacle? fs).elim (.ok ()) .error, w.fill (front fs)) := by
  induction fs generalizing w with
  | nil => rw [writeFields, front, obstacle?, Writer.fill_nil, Option.elim_none]
  | cons f fs ih =>
    cases f with
    | failure why => rw [writeFields, front, obstacle?, Writer.fill_nil, Option.elim_some]
    | bytes part data =>
      rw [front, List.length_append, Writer.fitting_fill] at h
      have hdata : w.fitting data.length = data.length := by
        have := w.fitting_le data.length
        have := (w.fill data).fitting_le (front fs).length
        omega
      have hrest : (w.fill data).fitting (front fs).length = (front fs).length := by omega
      rw [writeFields, Writer.writeAll_eq hc, Writer.outcome, if_pos hdata]
      show writeFields fs (w.fill data) = _
      rw [ih (w := w.fill data) hc hrest, front, obstacle?, Writer.fill_fill]

/-- There is no room for the byte at this place, and the field to which it belongs fails. -/
theorem writeFields_of_full (hc : w.pace.IsPositive) (hr : w.room = some room)
    (h : room < (front fs).length) :
    ∃ part ∈ partAt? fs room, writeFields fs w =
      (.error (.error ⟨part, writeCause w.refusal⟩), w.fill (front fs)) := by
  induction fs generalizing w room with
  | nil => exact absurd h (Nat.not_lt_zero _)
  | cons f fs ih =>
    cases f with
    | failure why => exact absurd h (Nat.not_lt_zero _)
    | bytes part data =>
      rw [partAt?, writeFields, Writer.writeAll_eq hc, front, ← Writer.fill_fill]
      by_cases hdata : room < data.length
      · have hnot : w.fitting data.length ≠ data.length := by
          rw [Writer.fitting_of_room hr]
          omega
        have hfull : (w.fill data).room = some 0 := (w.fitting_eq_or_full data).resolve_left hnot
        refine ⟨part, if_pos hdata, ?_⟩
        rw [Writer.outcome, if_neg hnot, Writer.fill_of_full hfull]
      · have hfits : w.fitting data.length = data.length := by
          rw [Writer.fitting_of_room hr]
          omega
        have hroom : (w.fill data).room = some (room - data.length) := by
          rw [Writer.fill, hr, Option.map_some]
        rw [front, List.length_append] at h
        obtain ⟨part', hpart, hwrite⟩ := ih (w := w.fill data) hc hroom (by omega)
        refine ⟨part', (if_neg hdata).trans hpart, ?_⟩
        rw [Writer.outcome, if_pos hfits]
        exact hwrite

/-! ## The check before -/

/-- What the check before the writing finds: the first value that is not of the record's kind, or
that there are values although the kind is undefined. -/
inductive Misfit (r : Record) : Error → Prop
  | undefined {values : List Value} (hv : r.values = some values) (hk : r.kind = .undefined)
      (hne : values ≠ []) : Misfit r ⟨.values r.name, .undefinedHoldsNothing⟩
  | first {before after : List Value} {v : Value} (hv : r.values = some (before ++ v :: after))
      (hk : r.kind ≠ .undefined) (hbefore : ∀ u ∈ before, u.kind = r.kind) (hne : v.kind ≠ r.kind) :
      Misfit r ⟨.value before.length r.name, .wrongKind r.kind v.kind⟩

theorem firstStranger_eq_some_iff {name : Name} {kind : Kind} {index : Nat} {values : List Value}
    {e : Error} : firstStranger name kind index values = some e ↔
      ∃ before v after, values = before ++ v :: after ∧ (∀ u ∈ before, u.kind = kind) ∧
        v.kind ≠ kind ∧ e = ⟨.value (index + before.length) name, .wrongKind kind v.kind⟩ := by
  induction values generalizing index with
  | nil => simp [firstStranger]
  | cons u values ih =>
    rw [firstStranger]
    split
    · next hu =>
      rw [ih]
      refine ⟨?_, ?_⟩
      · rintro ⟨before, v, after, rfl, hbefore, hne, rfl⟩
        refine ⟨u :: before, v, after, rfl, List.forall_mem_cons.2 ⟨hu, hbefore⟩, hne, ?_⟩
        rw [List.length_cons, Nat.add_assoc, Nat.add_comm 1]
      · rintro ⟨before, v, after, hvalues, hbefore, hne, rfl⟩
        cases before with
        | nil => exact absurd ((List.cons.inj hvalues).1 ▸ hu) hne
        | cons u' before =>
          obtain ⟨rfl, rfl⟩ := List.cons.inj hvalues
          refine ⟨before, v, after, rfl, fun w hw => hbefore w (List.mem_cons_of_mem _ hw), hne, ?_⟩
          rw [List.length_cons, Nat.add_assoc, Nat.add_comm 1]
    · next hu =>
      rw [Option.some.injEq]
      refine ⟨?_, ?_⟩
      · rintro rfl
        exact ⟨[], u, values, rfl, by simp, hu, rfl⟩
      · rintro ⟨before, v, after, hvalues, hbefore, hne, rfl⟩
        cases before with
        | nil => rw [(List.cons.inj hvalues).1, List.length_nil, Nat.add_zero]
        | cons u' before =>
          exact absurd ((List.cons.inj hvalues).1 ▸ hbefore u' List.mem_cons_self) hu

/-- **What the check finds.** -/
theorem kindError?_eq_some_iff {r : Record} {e : Error} : r.kindError? = some e ↔ r.Misfit e := by
  obtain ⟨name, kind, values⟩ := r
  constructor
  · intro h
    match values, h with
    | some values, h =>
      simp only [kindError?] at h
      split at h
      · next hu =>
        obtain rfl := Option.some.inj h
        exact .undefined rfl hu.1 (by simpa using hu.2)
      · next hu =>
        obtain ⟨before, v, after, rfl, hbefore, hne, rfl⟩ := firstStranger_eq_some_iff.1 h
        rw [Nat.zero_add]
        exact .first rfl (fun hk => hu ⟨hk, by simp⟩) hbefore hne
  · rintro (@⟨vs, hv, hk, hne⟩ | @⟨before, after, v, hv, hk, hbefore, hne⟩)
    · obtain rfl : values = some vs := hv
      exact if_pos ⟨hk, by simpa using hne⟩
    · obtain rfl : values = some (before ++ v :: after) := hv
      have hfirst : firstStranger name kind 0 (before ++ v :: after) =
          some ⟨.value (0 + before.length) name, .wrongKind kind v.kind⟩ :=
        firstStranger_eq_some_iff.2 ⟨before, v, after, rfl, hbefore, hne, rfl⟩
      rw [Nat.zero_add] at hfirst
      exact (if_neg fun hu => hk hu.1).trans hfirst

/-- The check finds something exactly if some value is not of the record's kind. -/
theorem exists_misfit_iff {r : Record} :
    (∃ e, r.Misfit e) ↔ ∃ values ∈ r.values, ∃ v ∈ values, v.kind ≠ r.kind := by
  simp only [← kindError?_eq_some_iff, ← Option.ne_none_iff_exists', ne_eq, kindError?_eq_none_iff]
  push Not
  rfl

/-! ## Records -/

/-- The bytes of a record are what its fields amount to, if all of them can be produced. -/
theorem writes_iff_front {capacity : Nat} {r : Record} {p : List UInt8} :
    Writes capacity p r ↔ front (fields capacity r) = p ∧ obstacle? (fields capacity r) = none := by
  rw [← yields_fields_iff, yields_iff_front]

theorem encode_of_misfit {capacity : Nat} {r : Record} {e : Error} (h : r.Misfit e) (w : Writer) :
    encode capacity r w = (.error (.error e), w) := by
  rw [encode, fields, kindError?_eq_some_iff.2 h, writeFields]

section
variable {capacity : Nat} {r : Record} {p : List UInt8}

theorem encode_of_fits (hp : Writes capacity p r) (hc : w.pace.IsPositive) (hr : w.room = some room)
    (h : p.length ≤ room) : encode capacity r w = (.ok (), w.fill p) := by
  obtain ⟨rfl, hnone⟩ := writes_iff_front.1 hp
  have hfits : w.fitting (front (fields capacity r)).length =
      (front (fields capacity r)).length := by
    rw [Writer.fitting_of_room hr, Nat.min_eq_left h]
  rw [encode, writeFields_of_fits hc hfits, hnone, Option.elim_none]

theorem encode_of_full (hp : Writes capacity p r) (hc : w.pace.IsPositive) (hr : w.room = some room)
    (h : room < p.length) : ∃ part ∈ partAt? (fields capacity r) room,
      encode capacity r w = (.error (.error ⟨part, writeCause w.refusal⟩), w.fill p) := by
  obtain ⟨rfl, -⟩ := writes_iff_front.1 hp
  exact writeFields_of_full hc hr h

end

/-! ## Records in which nothing is too long -/

theorem textFields_eq {text : List UInt8} (h : text.length < countBound) :
    textFields text = [.bytes .textLength (fourBytes text.length), .bytes .text text] := by
  rw [textFields, numberField, if_pos h]

theorem not_mem_valueFields {capacity : Nat} {v : Value} {e : Error}
    (h : ∀ text ∈ textOf? v, text.length < countBound) :
    .failure (.error e) ∉ valueFields capacity v := by
  rw [valueFields]
  split
  · simp
  · cases ht : textOf? v with
    | none => simp
    | some text => simp [textFields_eq (h text ht)]

/-- No error is among the fields of a record whose values are of its kind and in which nothing is
too long. -/
theorem Fitting.not_mem_fields {capacity : Nat} {r : Record} (h : r.Fitting) (e : Error) :
    .failure (.error e) ∉ fields capacity r := by
  rw [fields, kindError?_eq_none_iff.2 h.kind_eq]
  dsimp only
  rw [bodyFields, textFields_eq h.name_fits]
  cases hv : r.values with
  | none => simp
  | some values =>
    have hvalues : ∀ v ∈ values, .failure (.error e) ∉ valueFields capacity v :=
      fun v hmem => not_mem_valueFields (h.texts_fit values hv v hmem)
    simpa [numberField, h.count_fits values hv] using hvalues

/-- The writing of such a record into a writer that takes everything succeeds, or it breaks off. -/
theorem Fitting.encode_accepting {r : Record} (h : r.Fitting) (capacity : Nat)
    (hw : w.Accepting) :
    (∃ p, Writes capacity p r ∧ encode capacity r w = (.ok (), w.append p)) ∨
      (¬ ∃ p, Writes capacity p r) ∧
        ∃ why w', encode capacity r w = (.error why, w') ∧ ∀ e, why ≠ .error e := by
  have hwrite : writeFields (fields capacity r) w = _ :=
    writeFields_of_fits hw.isPositive (hw.fitting_eq _)
  rw [hw.fill_eq] at hwrite
  cases ho : obstacle? (fields capacity r) with
  | none =>
    rw [ho, Option.elim_none] at hwrite
    exact .inl ⟨_, writes_iff_front.2 ⟨rfl, ho⟩, hwrite⟩
  | some why =>
    rw [ho, Option.elim_some] at hwrite
    refine .inr ⟨?_, why, _, hwrite, ?_⟩
    · rintro ⟨p, hp⟩
      rw [(writes_iff_front.1 hp).2] at ho
      exact absurd ho (by simp)
    · rintro e rfl
      exact h.not_mem_fields e (mem_of_obstacle? ho)

/-! ## Cutting off -/

/-- A record with a truth value, and perhaps with other values behind it. -/
def affirmed (others : List Value) : Record := ⟨⟨"", "b"⟩, .boolean, some (.boolean true :: others)⟩

end Record
end ContentOverlay
