import Mathlib
import ContentOverlay.Calendar.Civil

/-!
# Day numbers and dates

The date of a day number is a date that the calendar has, and the day number of that date is the
number again.

Both directions go through the same parts of a day: its 400 year era, the century, the four year
span and the year in it, and the day of the year, all counted from 1 March (`Parts`).  Every part
but the first has a bound, and the last century, the last span and the last year of a span are the
longer ones.  A 29 February is the day 365 of a year of 366 days, which is the last of its span.

The years follow each other without gaps (`newYear`), and so the day number of a date is in the year
of the date (`year_civilOfDays_daysOfCivil`).
-/

set_option autoImplicit false

namespace ContentOverlay
namespace Calendar

/-- The parts of a day. -/
structure Parts (shifted : Int) (era : Int) (century span year day : Nat) : Prop where
  century_le : century ≤ 3
  span_le : span ≤ 24
  year_le : year ≤ 3
  day_le : day ≤ 365
  /-- Only the last year of a span has 366 days, and the span at the end of a century has none such
  unless the century is the last one. -/
  year_eq_of_day : day = 365 → year = 3 ∧ (span = 24 → century = 3)
  shifted_eq : shifted = era * 146097 + (36524 * century + 1461 * span + 365 * year + day : Nat)

/-- A month, counted from March, and the day of the month make up the day of the year. -/
theorem monthFromMarch_le {day : Nat} (h : day ≤ 365) : (5 * day + 2) / 153 ≤ 11 := by
  omega

/-- The date of the parts of a day. -/
def dateOf (era : Int) (century span year day : Nat) : Civil :=
  let monthFromMarch := (5 * day + 2) / 153
  let month := if monthFromMarch < 10 then monthFromMarch + 3 else monthFromMarch - 9
  { year := era * 400 + (100 * century + 4 * span + year : Nat) + (if month ≤ 2 then 1 else 0)
    month := month
    day := day - (153 * monthFromMarch + 2) / 5 + 1 }

theorem exists_parts (days : Int) : ∃ era century span year day,
    Parts (days + epochShift) era century span year day ∧
      civilOfDays days = dateOf era century span year day := by
  generalize hs : days + epochShift = shifted
  refine ⟨shifted / 146097, min ((shifted % 146097).toNat / 36524) 3,
    ((shifted % 146097).toNat - 36524 * min ((shifted % 146097).toNat / 36524) 3) / 1461,
    min (((shifted % 146097).toNat - 36524 * min ((shifted % 146097).toNat / 36524) 3) %
      1461 / 365) 3,
    ((shifted % 146097).toNat - 36524 * min ((shifted % 146097).toNat / 36524) 3) % 1461 -
      365 * min (((shifted % 146097).toNat - 36524 * min ((shifted % 146097).toNat / 36524) 3) %
        1461 / 365) 3, ?_, by rw [civilOfDays, hs]; rfl⟩
  have hera : shifted = shifted / 146097 * 146097 + ((shifted % 146097).toNat : Int) := by omega
  have hlt : (shifted % 146097).toNat < 146097 := by omega
  generalize shifted / 146097 = era at hera
  generalize (shifted % 146097).toNat = dayOfEra at *
  have hcentury : dayOfEra - 36524 * min (dayOfEra / 36524) 3 ≤ 36524 ∧
      36524 * min (dayOfEra / 36524) 3 ≤ dayOfEra ∧
      (dayOfEra - 36524 * min (dayOfEra / 36524) 3 = 36524 → min (dayOfEra / 36524) 3 = 3) := by
    omega
  have hcentury_le : min (dayOfEra / 36524) 3 ≤ 3 := Nat.min_le_right _ _
  generalize min (dayOfEra / 36524) 3 = century at *
  obtain ⟨h₁, h₂, h₃⟩ := hcentury
  have hspan : 1461 * ((dayOfEra - 36524 * century) / 1461) +
      (dayOfEra - 36524 * century) % 1461 = dayOfEra - 36524 * century :=
    Nat.div_add_mod _ _
  have hday : (dayOfEra - 36524 * century) % 1461 < 1461 := Nat.mod_lt _ (by decide)
  generalize (dayOfEra - 36524 * century) / 1461 = span at *
  generalize (dayOfEra - 36524 * century) % 1461 = dayOfSpan at *
  refine ⟨hcentury_le, ?_, Nat.min_le_right _ _, ?_, ?_, ?_⟩ <;> omega

/-- **The calendar has the date of every day.** -/
theorem isDay_civilOfDays (days : Int) : isDay (civilOfDays days) = true := by
  obtain ⟨era, century, span, year, day, h, heq⟩ := exists_parts days
  obtain ⟨h₁, h₂, h₃, h₄, h₅, -⟩ := h
  have hmonth := monthFromMarch_le h₄
  have hlow : (153 * ((5 * day + 2) / 153) + 2) / 5 ≤ day := by omega
  have hhigh : day < (153 * ((5 * day + 2) / 153 + 1) + 2) / 5 := by omega
  rw [heq, isDay, decide_eq_true_eq, dateOf]
  simp only
  generalize (5 * day + 2) / 153 = monthFromMarch at *
  rw [daysInMonth]
  -- February is the eleventh month from March, and the only one whose length depends on the year
  by_cases hfeb : monthFromMarch = 11
  · subst hfeb
    simp only [isLeapYear]
    norm_num
    split_ifs <;> omega
  · have hlt : monthFromMarch < 11 := by omega
    interval_cases monthFromMarch <;> norm_num <;> omega

/-- **The day number of the date of a day is the day.** -/
theorem daysOfCivil_civilOfDays (days : Int) : daysOfCivil (civilOfDays days) = days := by
  obtain ⟨era, century, span, year, day, h, heq⟩ := exists_parts days
  obtain ⟨h₁, h₂, h₃, h₄, -, h₆⟩ := h
  have hmonth := monthFromMarch_le h₄
  have hlow : (153 * ((5 * day + 2) / 153) + 2) / 5 ≤ day := by omega
  rw [heq, daysOfCivil, dateOf]
  simp only
  generalize (5 * day + 2) / 153 = monthFromMarch at *
  have hback : (if (if monthFromMarch < 10 then monthFromMarch + 3 else monthFromMarch - 9) ≤ 2
      then (if monthFromMarch < 10 then monthFromMarch + 3 else monthFromMarch - 9) + 9
      else (if monthFromMarch < 10 then monthFromMarch + 3 else monthFromMarch - 9) - 3) =
      monthFromMarch := by
    split_ifs <;> omega
  rw [hback]
  split_ifs <;> omega

/-! ## Years -/

/-- The day number of 1 January.  It is the day 306 of the year that began on 1 March before. -/
def newYear (year : Int) : Int :=
  (year - 1) * 365 + (year - 1) / 4 - (year - 1) / 100 + (year - 1) / 400 + 306 - epochShift

theorem newYear_le {y z : Int} (h : y ≤ z) : newYear y ≤ newYear z := by
  rw [newYear, newYear]
  obtain rfl | hlt := h.eq_or_lt
  · exact le_rfl
  · omega

theorem newYear_succ (year : Int) :
    newYear (year + 1) = newYear year + if isLeapYear year then 366 else 365 := by
  rw [newYear, newYear, isLeapYear]
  simp only [decide_eq_true_eq]
  split <;> omega

/-- January and February end the year that began on 1 March before. -/
theorem daysOfCivil_of_le_two {year : Int} {month day : Nat} (h₁ : 1 ≤ month) (h₂ : month ≤ 2)
    (hday : 1 ≤ day) :
    daysOfCivil ⟨year, month, day⟩ = newYear year + (31 * (month - 1) + (day - 1) : Nat) := by
  rw [daysOfCivil, newYear]
  simp only [if_pos h₂]
  omega

/-- The other months begin one. -/
theorem daysOfCivil_of_two_lt {year : Int} {month day : Nat} (h : 2 < month) (hday : 1 ≤ day) :
    daysOfCivil ⟨year, month, day⟩ =
      newYear (year + 1) - 306 + ((153 * (month - 3) + 2) / 5 + (day - 1) : Nat) := by
  rw [daysOfCivil, newYear]
  simp only [if_neg h.not_ge]
  omega

/-- The days of a year lie between its first day and the first day of the next. -/
theorem newYear_le_daysOfCivil_lt {date : Civil} (h : isDay date = true) :
    newYear date.year ≤ daysOfCivil date ∧ daysOfCivil date < newYear (date.year + 1) := by
  obtain ⟨year, month, day⟩ := date
  obtain ⟨h₁, h₂, h₃, h₄⟩ : 1 ≤ month ∧ month ≤ 12 ∧ 1 ≤ day ∧ day ≤ daysInMonth year month :=
    of_decide_eq_true h
  have hsucc := newYear_succ year
  rw [daysInMonth] at h₄
  by_cases hwinter : month ≤ 2
  · rw [daysOfCivil_of_le_two h₁ hwinter h₃]
    dsimp only
    split_ifs at h₄ hsucc <;> omega
  · rw [daysOfCivil_of_two_lt (by omega) h₃]
    dsimp only
    split_ifs at h₄ hsucc <;> omega

/-- **The date of the day number of a date is in the same year.** -/
theorem year_civilOfDays_daysOfCivil {date : Civil} (h : isDay date = true) :
    (civilOfDays (daysOfCivil date)).year = date.year := by
  have hback := newYear_le_daysOfCivil_lt (isDay_civilOfDays (daysOfCivil date))
  rw [daysOfCivil_civilOfDays] at hback
  have hdate := newYear_le_daysOfCivil_lt h
  by_contra hne
  obtain hlt | hlt := lt_or_gt_of_ne hne
  · have := newYear_le hlt
    omega
  · have := newYear_le hlt
    omega

end Calendar
end ContentOverlay
