import Mathlib
import ContentOverlay.Proofs.Value.Text

/-!
# The dates that a text can say

The text of a date has an offset of whole minutes, and the reader wants a year of four digits and
takes a leap second only where leap seconds occur.  A date with all of this is read back as itself,
down to the nanosecond and into the leap second.  Of the other dates none is, and this file says
what becomes of each.

* A date whose local time is outside the years that dates reach has no text.
* A date whose local year does not have four digits is refused, and so is one whose offset rounds to
  24 hours.
* Every other date is read as another instant.

`date_reads_back_iff` puts this together.
-/

set_option autoImplicit false

namespace ContentOverlay
namespace Rfc3339

/-- A local year of four digits is not far from the start of 1970. -/
theorem localSeconds_bounds {d : DateTime} (hy : 0 ≤ d.localDate.year)
    (hy' : d.localDate.year ≤ 9999) :
    -86400000000 ≤ d.localSeconds ∧ d.localSeconds < 259200086400 := by
  have hdate : (⟨d.localDate.year.toNat, d.localDate.month, d.localDate.day⟩ : Calendar.Civil) =
      d.localDate := by
    rw [Int.toNat_of_nonneg hy]
  have hday : Calendar.isDay d.localDate = true := Calendar.isDay_civilOfDays _
  have hdays : Calendar.daysOfCivil d.localDate = d.localSeconds / 86400 :=
    Calendar.daysOfCivil_civilOfDays _
  rw [← hdate] at hday hdays
  obtain ⟨hlow, hhigh⟩ := daysOfCivil_bounds (by omega) hday
  rw [hdays] at hlow hhigh
  omega

theorem hasLocal_of_year {d : DateTime} (hy : 0 ≤ d.localDate.year)
    (hy' : d.localDate.year ≤ 9999) : d.hasLocal = true := by
  obtain ⟨hlow, hhigh⟩ := localSeconds_bounds hy hy'
  rw [DateTime.hasLocal, Calendar.firstSecond, Calendar.lastSecond, decide_eq_true_eq]
  omega

/-- The offset that is written is one of less than a day unless it was rounded up to it. -/
theorem roundedOffset_bounds_iff {offset : Int} :
    (-86400 < roundedOffset offset ∧ roundedOffset offset < 86400) ↔ offset.natAbs < 86370 := by
  rw [roundedOffset]
  split <;> omega

/-- The reader finds a date in the text, unless the offset in it is too large. -/
theorem exists_shown?_iff {d : DateTime} (hy : 0 ≤ d.localDate.year)
    (hy' : d.localDate.year ≤ 9999) : (∃ e, shown? d = some e) ↔ d.offset.natAbs < 86370 := by
  obtain ⟨hlow, hhigh⟩ := localSeconds_bounds hy hy'
  have hminutes : roundedOffset d.offset % 60 = 0 := by
    rw [roundedOffset]
    split <;> omega
  rw [← roundedOffset_bounds_iff, shown?]
  refine ⟨?_, fun hoffset => ?_⟩
  · rintro ⟨e, he⟩
    obtain ⟨-, -, hoffset⟩ := eq_of_of? he
    exact hoffset ▸ ⟨e.offset_gt, e.offset_lt⟩
  · have hsecond : shownSecond d ≤ 60 := by
      have hnanos := d.nanos_lt
      rw [shownSecond]
      omega
    obtain ⟨hlow', hhigh'⟩ := hoffset
    refine ⟨_, dif_pos ⟨?_, ?_, ?_, fun hleap => ?_, hlow', hhigh'⟩⟩
    · rw [Calendar.firstSecond]
      split_ifs <;> omega
    · rw [Calendar.lastSecond]
      split_ifs <;> omega
    · split_ifs <;> omega
    · have h60 : shownSecond d = 60 := by
        by_contra h
        rw [if_neg h] at hleap
        omega
      rw [if_pos h60]
      omega

end Rfc3339

namespace Value

open Rfc3339 (Exact characters)

theorem text?_date {d : DateTime} {t : String} :
    (date d).text? = some t ↔ d.hasLocal = true ∧ String.ofList (characters d) = t := by
  rw [text?, Rfc3339.write?]
  split
  · next h => rw [Option.some.injEq, and_iff_right h]
  · next h => exact iff_of_false (by simp) fun hd => h hd.1

/-- **Which dates read back, and what becomes of the others.**  A date has a text exactly if it has
a local time.  The text is read as the date itself exactly if the offset is a number of minutes, a
leap second follows the last second of a minute, and the local year has four digits.  Any other text
of a date is read as another instant, if the local year has four digits and the offset does not
round to 24 hours, and it is refused otherwise. -/
theorem date_reads_back_iff (d : DateTime) :
    ((∃ t, (date d).text? = some t) ↔ d.hasLocal = true) ∧
    ((∃ t, (date d).text? = some t ∧ Value.read .date t = .ok (date d)) ↔
      d.offset % 60 = 0 ∧ d.IsRegular ∧ 0 ≤ d.localDate.year ∧ d.localDate.year ≤ 9999) ∧
    ∀ t, (date d).text? = some t →
      ¬ (d.offset % 60 = 0 ∧ d.IsRegular ∧ 0 ≤ d.localDate.year ∧ d.localDate.year ≤ 9999) →
      if 0 ≤ d.localDate.year ∧ d.localDate.year ≤ 9999 ∧ d.offset.natAbs < 86370 then
        ∃ e, Value.read .date t = .ok (date e) ∧ ¬ (e.seconds = d.seconds ∧ e.nanos = d.nanos)
      else ∃ fault, Value.read .date t = .error fault := by
  have hiff : ∀ {t}, (date d).text? = some t → ∀ {e}, Rfc3339.read t = .ok e ∧
      e.sameInstant d = true ↔ e = d ∧ Exact d := fun ht => Rfc3339.read_write?_eq_ok_iff ht
  refine ⟨?_, ⟨?_, fun h => ?_⟩, fun t ht hnot => ?_⟩
  · simp only [text?_date, exists_and_left, exists_eq', and_true]
  · rintro ⟨t, ht, hread⟩
    exact ((hiff ht).1 ⟨read_date_eq_ok_iff.1 hread, by simp [DateTime.sameInstant]⟩).2
  · have ht := text?_date.2 ⟨Rfc3339.hasLocal_of_year h.2.2.1 h.2.2.2, rfl⟩
    exact ⟨_, ht, read_date_eq_ok_iff.2 ((hiff ht).2 ⟨rfl, h⟩).1⟩
  · obtain ⟨-, rfl⟩ := text?_date.1 ht
    have hrefused : (∀ e, Rfc3339.read (String.ofList (characters d)) ≠ .ok e) →
        ∃ fault, Value.read .date (String.ofList (characters d)) = .error fault := by
      intro hno
      rw [Value.read, readBody]
      cases hr : Rfc3339.read (String.ofList (characters d)) with
      | ok e => exact absurd hr (hno e)
      | error fault => exact ⟨_, rfl⟩
    split
    · next h =>
      obtain ⟨hy, hy', hoffset⟩ := h
      obtain ⟨e, he⟩ := (Rfc3339.exists_shown?_iff hy hy').2 hoffset
      have hread : Rfc3339.read (String.ofList (characters d)) = .ok e := by
        rw [Rfc3339.read_characters hy hy', he]
      refine ⟨e, read_date_eq_ok_iff.2 hread, ?_⟩
      rintro ⟨hs, hn⟩
      exact hnot ((hiff ht).1 ⟨hread, by simp [DateTime.sameInstant, hs, hn]⟩).2
    · next h =>
      refine hrefused fun e hread => ?_
      by_cases hy : 0 ≤ d.localDate.year ∧ d.localDate.year ≤ 9999
      · rw [Rfc3339.read_characters hy.1 hy.2] at hread
        cases hs : Rfc3339.shown? d with
        | some e => exact h ⟨hy.1, hy.2, (Rfc3339.exists_shown?_iff hy.1 hy.2).1 ⟨e, hs⟩⟩
        | none =>
          rw [hs] at hread
          cases hread
      · exact Rfc3339.read_characters_of_year hy e hread

/-- Half a second into a leap second, shown an hour and a half ahead. -/
def leapSecond : DateTime :=
  ⟨1483228799, 1500000000, 5400, by decide, by decide, by decide, by decide, by decide⟩

/-- The same half second into a leap second, where it follows another second of the minute. -/
def strayLeapSecond : DateTime :=
  ⟨1483228764, 1500000000, 5400, by decide, by decide, by decide, by decide, by decide⟩

/-- Half a second into the year 2000, shown a minute and a half ahead. -/
def betweenMinutes : DateTime :=
  ⟨946684800, 500000000, 90, by decide, by decide, by decide, by decide, by decide⟩

/-- The last nanosecond that dates reach, shown an hour ahead. -/
def beyondLast : DateTime :=
  ⟨8210266876799, 999999999, 3600, by decide, by decide, by decide, by decide, by decide⟩

/-- A leap second reads back at the end of a minute and not within it, half a minute is lost, and
the last nanosecond has no text where an hour more is shown. -/
theorem date_reads_back_iff_leapSecond :
    (∃ t, (date leapSecond).text? = some t ∧ Value.read .date t = .ok (date leapSecond)) ∧
    (¬ ∃ t, (date strayLeapSecond).text? = some t ∧
      Value.read .date t = .ok (date strayLeapSecond)) ∧
    (∃ t, (date betweenMinutes).text? = some t ∧ ∃ e, Value.read .date t = .ok (date e) ∧
      ¬ (e.seconds = 946684800 ∧ e.nanos = 500000000)) ∧
    ¬ ∃ t, (date beyondLast).text? = some t := by
  obtain ⟨-, hleap, -⟩ := date_reads_back_iff leapSecond
  obtain ⟨-, hstray, -⟩ := date_reads_back_iff strayLeapSecond
  obtain ⟨htext, -, hother⟩ := date_reads_back_iff betweenMinutes
  obtain ⟨hlast, -, -⟩ := date_reads_back_iff beyondLast
  obtain ⟨t, ht⟩ := htext.2 (by decide)
  have hread := hother t ht (by decide)
  rw [if_pos (by decide)] at hread
  exact ⟨hleap.2 (by decide), fun h => absurd (hstray.1 h) (by decide), ⟨t, ht, hread⟩,
    fun h => absurd (hlast.1 h) (by decide)⟩

end Value
end ContentOverlay
