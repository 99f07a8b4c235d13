import Mathlib
import ContentOverlay.Proofs.Value.Text

/-!
# Normal forms of texts

The readers accept many spellings of a value, and the writers use one of them.  To read a text and
to write down what was read is therefore a normalisation (`normal?`): the outcome is read as the
same value, so that nothing changes when it is normalised again, and two texts have the same outcome
exactly if they are read as the same value.

This rests on what was read being `Faithful`: a name that was read has its braces in the right
places, and a date that was read has an offset of whole minutes and a year of four digits.  Two
kinds stay out.  The text of a payload need not read back at all, and for a NaN there is only one
text.
-/

set_option autoImplicit false

namespace ContentOverlay
namespace Value

/-- What is read is written completely, unless it is a double, which might be a NaN. -/
theorem faithful_of_read {kind : Kind} {text : String} {v : Value} (hd : kind ≠ .double)
    (h : read kind text = .ok v) : v.Faithful := by
  obtain ⟨hkind, -⟩ := kind_and_text_of_read h
  cases v with
  | double x => exact absurd hkind.symm hd
  | name n => exact wellFormed_of_read h
  | date d => exact exact_of_read h
  | _ => trivial

/-- The normal form of a text: the text of the value that is read from it. -/
def normal? (kind : Kind) (text : String) : Option String :=
  match read kind text with
  | .ok v => v.text?
  | .error _ => none

theorem normal?_of_read {kind : Kind} {text : String} {v : Value} (h : read kind text = .ok v) :
    normal? kind text = v.text? := by
  rw [normal?, h]

/-- **Accepted texts have a stable normal form.**  A text that is read as a value has a normal form,
which is the text of that value; the normal form is read as the same value, down to the offset of a
date, and is its own normal form.  Texts with the same normal form are read as the same value. -/
theorem normal_form_of_read {kind : Kind} {t : String} {v : Value} (hb : kind ≠ .binary)
    (hd : kind ≠ .double) (h : read kind t = .ok v) :
    ∃ s, v.text? = some s ∧ normal? kind t = some s ∧ read kind s = .ok v ∧
      normal? kind s = some s ∧
      ∀ t' v', read kind t' = .ok v' → (normal? kind t' = some s ↔ v' = v) := by
  have hback : ∀ {t v}, read kind t = .ok v → ∃ s, v.text? = some s ∧ read kind s = .ok v := by
    intro t v h
    obtain ⟨rfl, s, hs⟩ := kind_and_text_of_read h
    exact ⟨s, hs, ((read_text?_iff hb hs).2 ⟨rfl, faithful_of_read hd h⟩).1⟩
  obtain ⟨s, hs, hread⟩ := hback h
  refine ⟨s, hs, (normal?_of_read h).trans hs, hread, (normal?_of_read hread).trans hs,
    fun t' v' h' => ?_⟩
  rw [normal?_of_read h']
  refine ⟨fun hs' => ?_, fun he => he ▸ hs⟩
  obtain ⟨s', hs'', hread'⟩ := hback h'
  obtain rfl : s' = s := Option.some.inj (hs''.symm.trans hs')
  exact Except.ok.inj (hread'.symm.trans hread)

/-- Half of a leap second, in a spelling that is nowhere the normal one, and in the normal one. -/
theorem normal_form_of_read_leapSecond :
    ∃ v, read .date "2016-12-31t23:59:60.5000-00:00" = .ok v ∧
      read .date "2016-12-31T23:59:60.500+00:00" = .ok v ∧
      normal? .date "2016-12-31T23:59:60.500+00:00" = some "2016-12-31T23:59:60.500+00:00" := by
  obtain ⟨v, hv⟩ : ∃ v, read .date "2016-12-31t23:59:60.5000-00:00" = .ok v := ⟨_, rfl⟩
  have hs : normal? .date "2016-12-31t23:59:60.5000-00:00" = some "2016-12-31T23:59:60.500+00:00" :=
    by decide +kernel
  obtain ⟨s, -, ht, hread, hnormal, -⟩ := normal_form_of_read (by decide) (by decide) hv
  obtain rfl : s = "2016-12-31T23:59:60.500+00:00" := Option.some.inj (ht.symm.trans hs)
  exact ⟨v, hv, hread, hnormal⟩

example : normal? .long "-007" = some "-7" := by decide

example : normal? .name "a" = some "\x7b\x7da" := by decide

example : normal? .reference "urn:UUID:0123ABCD-0123-0123-0123-0123456789AB" =
    some "0123abcd-0123-0123-0123-0123456789ab" := by decide +kernel

end Value
end ContentOverlay
