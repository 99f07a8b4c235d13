import Mathlib
import ContentOverlay.Proofs.Calendar.Rfc3339
import ContentOverlay.Proofs.Decimal.Notation
import ContentOverlay.Proofs.Identity
import ContentOverlay.Proofs.Name
import ContentOverlay.Value.Text

/-!
# Which values read back from their texts

The text of a value is read as an equal value, except where the text cannot say everything: no text
stands for a NaN in the sense of equality, a name needs its braces in the right places, and a date
loses the seconds of its offset, a leap second within a minute and the form of an unusual year.
`Faithful` is what is left, and `read_text?_iff` says that it is exact.  Reading back never gives an
equal value that is not the value itself.
-/

set_option autoImplicit false

namespace ContentOverlay
namespace Value

/-- Whether the text of a value says all about it. -/
def Faithful : Value → Prop
  | double x => x.isNaN = false
  | date d => Rfc3339.Exact d
  | name n => n.WellFormed
  | _ => True

/-! ## What is read -/

theorem mapError_eq_ok_iff {α ε ε' : Type} {a : Except ε α} {f : ε → ε'} {x : α} :
    a.mapError f = .ok x ↔ a = .ok x := by
  cases a <;> simp [Except.mapError]

theorem map_eq_ok_iff {α β ε : Type} {a : Except ε α} {f : α → β} {y : β} :
    a.map f = .ok y ↔ ∃ x, a = .ok x ∧ f x = y := by
  cases a <;> simp [Except.map]

theorem read_eq_ok_iff {kind : Kind} {text : String} {v : Value} :
    read kind text = .ok v ↔ readBody kind text = .ok v := by
  rw [read, mapError_eq_ok_iff]

theorem read_double_eq_ok_iff {text : String} {x : Binary64} :
    read .double text = .ok (double x) ↔ Binary64.read text = .ok x := by
  rw [read_eq_ok_iff, readBody, map_eq_ok_iff]
  simp only [mapError_eq_ok_iff, double.injEq, exists_eq_right]

theorem read_date_eq_ok_iff {text : String} {d : DateTime} :
    read .date text = .ok (date d) ↔ Rfc3339.read text = .ok d := by
  rw [read_eq_ok_iff, readBody, map_eq_ok_iff]
  simp only [mapError_eq_ok_iff, date.injEq, exists_eq_right]

theorem read_name_eq_ok_iff {text : String} {n : Name} :
    read .name text = .ok (name n) ↔ Name.read text = .ok n := by
  rw [read_eq_ok_iff, readBody, map_eq_ok_iff]
  simp only [mapError_eq_ok_iff, name.injEq, exists_eq_right]

/-- What is read is a value of the kind that was asked for, and it has a text. -/
theorem kind_and_text_of_read {kind : Kind} {text : String} {v : Value}
    (h : read kind text = .ok v) : v.kind = kind ∧ ∃ s, v.text? = some s := by
  rw [read_eq_ok_iff] at h
  cases kind with
  | string | binary | path =>
    obtain rfl := Except.ok.inj h
    exact ⟨rfl, _, rfl⟩
  | undefined => cases h
  | long | double | name | reference =>
    obtain ⟨x, -, rfl⟩ := map_eq_ok_iff.1 h
    exact ⟨rfl, _, rfl⟩
  | boolean =>
    obtain ⟨b, -, rfl⟩ := map_eq_ok_iff.1 h
    cases b <;> exact ⟨rfl, _, rfl⟩
  | date =>
    obtain ⟨d, hd, rfl⟩ := map_eq_ok_iff.1 h
    exact ⟨rfl, _, if_pos (Rfc3339.hasLocal_of_read (mapError_eq_ok_iff.1 hd))⟩

/-- A name that is read as a value is well formed. -/
theorem wellFormed_of_read {kind : Kind} {text : String} {n : Name}
    (h : read kind text = .ok (name n)) : n.WellFormed := by
  obtain rfl : Kind.name = kind := (kind_and_text_of_read h).1
  exact Name.wellFormed_of_read (read_name_eq_ok_iff.1 h)

/-- A date that is read as a value is written completely. -/
theorem exact_of_read {kind : Kind} {text : String} {d : DateTime}
    (h : read kind text = .ok (date d)) : Rfc3339.Exact d := by
  obtain rfl : Kind.date = kind := (kind_and_text_of_read h).1
  exact Rfc3339.exact_of_read (read_date_eq_ok_iff.1 h)

theorem equal_double_of_isNaN {x : Binary64} (h : x.isNaN = true) (v : Value) :
    v.equal (double x) = false := by
  cases v <;> simp [equal, Binary64.equal, h]

/-- A faithful value is no NaN, and so it equals itself. -/
theorem Faithful.equal_self {v : Value} (h : v.Faithful) : v.equal v = true := by
  cases v with
  | double x => simp [equal, Binary64.equal, show x.isNaN = false from h]
  | date d => simp [equal, DateTime.sameInstant]
  | _ => simp [equal]

/-! ## Sort by sort -/

/-- Where the text is read as the value itself, only the comparison is left. -/
theorem Faithful.read_iff {v v' : Value} {text : String} (hf : v.Faithful)
    (hread : readBody v.kind text = .ok v) :
    readBody v.kind text = .ok v' ∧ v'.equal v = true ↔ v' = v ∧ v.Faithful := by
  rw [hread, Except.ok.injEq, eq_comm (a := v)]
  refine ⟨fun h => ⟨h.1, hf⟩, ?_⟩
  rintro ⟨rfl, -⟩
  exact ⟨rfl, hf.equal_self⟩

theorem read_double_iff {x : Binary64} {v' : Value} :
    readBody .double x.write = .ok v' ∧ v'.equal (double x) = true ↔
      v' = double x ∧ (double x).Faithful := by
  by_cases hx : x.isNaN = true
  · refine ⟨?_, ?_⟩
    · rintro ⟨-, he⟩
      rw [equal_double_of_isNaN hx] at he
      exact absurd he Bool.false_ne_true
    · rintro ⟨-, hf⟩
      rw [show x.isNaN = false from hf] at hx
      exact absurd hx Bool.false_ne_true
  · rw [Bool.not_eq_true] at hx
    refine Faithful.read_iff (v := double x) hx ?_
    rw [kind, readBody, Binary64.read_write hx]
    rfl

theorem read_name_iff {n : Name} {v' : Value} :
    readBody .name n.text = .ok v' ↔ v' = name n ∧ n.WellFormed := by
  rw [readBody, map_eq_ok_iff]
  simp only [mapError_eq_ok_iff, Name.read_text_eq_ok_iff]
  refine ⟨?_, ?_⟩
  · rintro ⟨m, ⟨rfl, hw⟩, rfl⟩
    exact ⟨rfl, hw⟩
  · rintro ⟨rfl, hw⟩
    exact ⟨n, ⟨rfl, hw⟩, rfl⟩

theorem read_date_iff {d : DateTime} {v' : Value} {text : String}
    (ht : Rfc3339.write? d = some text) :
    readBody .date text = .ok v' ∧ v'.equal (date d) = true ↔ v' = date d ∧ Rfc3339.Exact d := by
  rw [readBody, map_eq_ok_iff]
  simp only [mapError_eq_ok_iff]
  refine ⟨?_, ?_⟩
  · rintro ⟨⟨e, hr, rfl⟩, he⟩
    obtain ⟨rfl, hexact⟩ := (Rfc3339.read_write?_eq_ok_iff ht).1 ⟨hr, he⟩
    exact ⟨rfl, hexact⟩
  · rintro ⟨rfl, hexact⟩
    obtain ⟨hr, he⟩ := (Rfc3339.read_write?_eq_ok_iff ht).2 ⟨rfl, hexact⟩
    exact ⟨⟨d, hr, rfl⟩, he⟩

/-- **A text reads back as an equal value exactly if the value is faithful**, and then as the value
itself. -/
theorem read_text?_iff {v v' : Value} {text : String} (hb : v.kind ≠ .binary)
    (ht : v.text? = some text) :
    read v.kind text = .ok v' ∧ v'.equal v = true ↔ v' = v ∧ v.Faithful := by
  rw [read_eq_ok_iff]
  cases v with
  | binary payload => exact absurd rfl hb
  | string t =>
    obtain rfl := Option.some.inj ht
    exact Faithful.read_iff (v := string t) trivial rfl
  | path t =>
    obtain rfl := Option.some.inj ht
    exact Faithful.read_iff (v := path t) trivial rfl
  | long n =>
    obtain rfl := Option.some.inj ht
    refine Faithful.read_iff (v := long n) trivial ?_
    rw [kind, readBody, Decimal.readInteger_writeInteger]
    rfl
  | boolean b =>
    refine Faithful.read_iff (v := boolean b) trivial ?_
    cases b with
    | true =>
      obtain rfl := Option.some.inj ht
      rfl
    | false =>
      obtain rfl := Option.some.inj ht
      rfl
  | reference id =>
    obtain rfl := Option.some.inj ht
    refine Faithful.read_iff (v := reference id) trivial ?_
    rw [kind, readBody, readReference, NodeId.read?_text]
    rfl
  | double x =>
    obtain rfl := Option.some.inj ht
    exact read_double_iff
  | name n =>
    obtain rfl := Option.some.inj ht
    rw [kind, read_name_iff]
    refine ⟨And.left, ?_⟩
    rintro ⟨rfl, hw⟩
    exact ⟨⟨rfl, hw⟩, Faithful.equal_self (v := name n) hw⟩
  | date d => exact read_date_iff ht

end Value
end ContentOverlay
