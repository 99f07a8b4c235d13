import Mathlib
import ContentOverlay.Calendar.Rfc3339
import ContentOverlay.Proofs.Calendar.Civil
import ContentOverlay.Proofs.Decimal.Integer

/-!
# Which dates read back

The text of a date keeps neither the seconds of its offset nor, outside the years 0000 to 9999, the
four digits that the reader wants for the year.  A leap second is kept at the end of a minute only:
elsewhere the text has the next second instead.  Everything else survives.

* `read_characters` — for a year of four digits, the reader goes through the whole text and ends
  with the local time and the rounded offset.
* `read_write?_eq_ok_iff` — so the text of a date is read as the same instant exactly if the offset
  is a number of minutes, a leap second is where leap seconds occur, and the local year has four
  digits, and then it is read as the same date, offset and leap second included.
* `exists_fields_of_read` — the other way round, what was read from any text is made of a day of
  such a year, a time of day and such an offset.  So its own text keeps all of it (`exact_of_read`).

The local time alone does not tell whether there is a leap second: the second 60 is written only
when it stands at the end of a local minute, which it does if the offset is a number of minutes.
-/

set_option autoImplicit false

namespace ContentOverlay
namespace Rfc3339

open Decimal (chars number digitsOf digit? toDigits_eq_map)

/-! ## Fields of digits -/

/-- A number in a field that is wide enough for it. -/
theorem padded_eq_chars {width n : Nat} (hw : 0 < width) (h : n < 10 ^ width) :
    ∃ ds, padded width n = chars ds ∧ ds.length = width ∧ number ds = n ∧ ∀ d ∈ ds, d < 10 := by
  obtain ⟨ds, hchars, hnum, hlt, -⟩ := toDigits_eq_map n
  have hlen : ds.length ≤ width := by
    rw [← Nat.length_toDigits_le_iff (by decide) hw, hchars, chars, List.length_map] at h
    exact h
  refine ⟨List.replicate (width - ds.length) 0 ++ ds, ?_, ?_, ?_, fun d hd => ?_⟩
  · rw [padded, hchars, chars, List.length_map, chars, List.map_append, List.map_replicate]
    rfl
  · rw [List.length_append, List.length_replicate, Nat.sub_add_cancel hlen]
  · rw [Decimal.number_append, Decimal.number_replicate_zero, Nat.zero_mul, Nat.zero_add, hnum]
  · rcases List.mem_append.1 hd with hd | hd
    · rw [List.eq_of_mem_replicate hd]
      decide
    · exact hlt d hd

theorem moreDigits_chars {ds : List Nat} (hds : ∀ d ∈ ds, d < 10) (acc : Nat) (rest : List Char) :
    moreDigits acc ds.length (chars ds ++ rest) =
      .ok (acc * 10 ^ ds.length + number ds, rest) := by
  induction ds generalizing acc with
  | nil => simp [moreDigits, chars, number]
  | cons d ds ih =>
    have hcons := Decimal.number_append [d] ds
    rw [List.singleton_append] at hcons
    rw [List.length_cons, chars, List.map_cons, List.cons_append, moreDigits,
      Decimal.digit?_digitChar (hds d List.mem_cons_self)]
    show moreDigits (acc * 10 + d) ds.length (chars ds ++ rest) = _
    rw [ih (fun e he => hds e (List.mem_cons_of_mem _ he)), hcons, pow_succ]
    simp only [number, List.foldl_cons, List.foldl_nil, Except.ok.injEq, Prod.mk.injEq, and_true]
    ring

theorem fixedDigits_padded {width n : Nat} (hw : 0 < width) (h : n < 10 ^ width)
    (rest : List Char) : fixedDigits width (padded width n ++ rest) = .ok (n, rest) := by
  obtain ⟨ds, hchars, rfl, rfl, hlt⟩ := padded_eq_chars hw h
  rw [fixedDigits, hchars, moreDigits_chars hlt, Nat.zero_mul, Nat.zero_add]

theorem oneOf_cons {allowed : List Char} {c : Char} (h : c ∈ allowed) (rest : List Char) :
    oneOf allowed (c :: rest) = .ok ((), rest) := by
  rw [oneOf, if_pos h]

/-! ## Fractions -/

theorem fraction_padded {width n : Nat} (hw : 0 < width) (hw' : width ≤ 9) (h : n < 10 ^ width)
    {rest : List Char} (hrest : ∀ c ∈ rest.head?, digit? c = none) :
    fraction ('.' :: (padded width n ++ rest)) = .ok (n * 10 ^ (9 - width), rest) := by
  obtain ⟨ds, hchars, rfl, rfl, hlt⟩ := padded_eq_chars hw h
  obtain ⟨d, ds, rfl⟩ := List.exists_cons_of_length_pos hw
  rw [fraction, hchars, Decimal.digitsOf_append hlt hrest]
  show Except.ok (number ((d :: ds).take 9) * Nat.pow 10 (9 - ((d :: ds).take 9).length), rest) = _
  rw [List.take_of_length_le hw']
  rfl

/-- Between the time and the offset, the fraction reads back. -/
theorem fraction_writeFraction {nanos : Nat} (h : nanos < 1000000000) {c : Char}
    (hc : c = '+' ∨ c = '-') (rest : List Char) :
    fraction (writeFraction nanos ++ c :: rest) = .ok (nanos, c :: rest) := by
  have hrest : ∀ d ∈ (c :: rest).head?, digit? d = none := by
    intro d hd
    obtain rfl := Option.mem_some_iff.1 hd
    rcases hc with rfl | rfl <;> decide
  rw [writeFraction]
  split
  · next h₀ =>
    rw [h₀, List.nil_append]
    rcases hc with rfl | rfl <;> rfl
  · split
    · rw [List.cons_append, fraction_padded (by decide) (by decide) (by omega) hrest,
        show nanos / 1000000 * 10 ^ (9 - 3) = nanos by omega]
    · split
      · rw [List.cons_append, fraction_padded (by decide) (by decide) (by omega) hrest,
          show nanos / 1000 * 10 ^ (9 - 6) = nanos by omega]
      · rw [List.cons_append, fraction_padded (by decide) (by decide) (by omega) hrest,
          show nanos * 10 ^ (9 - 9) = nanos by omega]

/-! ## Offsets -/

/-- The offset that is written: the nearest number of minutes, in seconds. -/
def roundedOffset (offset : Int) : Int :=
  let minutes : Int := ((offset.natAbs + 30) / 60 : Nat)
  if offset < 0 then -(minutes * 60) else minutes * 60

theorem roundedOffset_eq_iff {offset : Int} : roundedOffset offset = offset ↔ offset % 60 = 0 := by
  rw [roundedOffset]
  split <;> omega

theorem twoDigits_padded {n : Nat} (h : n < 100) (rest : List Char) :
    twoDigits (padded 2 n ++ rest) = .ok ((n / 10, n % 10), rest) := by
  obtain ⟨ds, hchars, hlen, rfl, hlt⟩ := padded_eq_chars (by decide : 0 < 2) h
  obtain ⟨a, b, rfl⟩ := List.length_eq_two.1 hlen
  have ha := hlt a (by simp)
  have hb := hlt b (by simp)
  have hnum : number [a, b] = a * 10 + b := by simp [number]
  rw [hchars, hnum, chars, List.map_cons, List.map_cons, List.map_nil, List.cons_append,
    List.cons_append, twoDigits, Decimal.digit?_digitChar ha, Decimal.digit?_digitChar hb,
    show (a * 10 + b) / 10 = a by omega, show (a * 10 + b) % 10 = b by omega]
  rfl

theorem offset_writeOffset {o : Int} (h₁ : -86400 < o) (h₂ : o < 86400) :
    offset (writeOffset o) = .ok (roundedOffset o, []) := by
  rw [writeOffset, offset, roundedOffset]
  have hm : (o.natAbs + 30) / 60 ≤ 1440 := by omega
  generalize (o.natAbs + 30) / 60 = minutes at hm
  have htwo := twoDigits_padded (by omega : minutes % 60 < 100) []
  rw [List.append_nil] at htwo
  have hten : ¬ 6 ≤ minutes % 60 / 10 := by omega
  by_cases hneg : o < 0
  · simp only [hneg, if_true]
    simp [twoDigits_padded (by omega : minutes / 60 < 100), oneOf_cons, htwo, hten, bind,
      Except.bind, pure, Except.pure]
    omega
  · simp only [hneg, if_false]
    simp [twoDigits_padded (by omega : minutes / 60 < 100), oneOf_cons, htwo, hten, bind,
      Except.bind, pure, Except.pure]
    omega

/-! ## Dates -/

theorem length_le_utf8ByteSize (cs : List Char) : cs.length ≤ (String.ofList cs).utf8ByteSize := by
  induction cs with
  | nil => exact Nat.zero_le _
  | cons c cs ih =>
    have hcons : String.ofList (c :: cs) = String.singleton c ++ String.ofList cs := by
      rw [String.singleton_eq_ofList, ← String.ofList_append, List.singleton_append]
    rw [hcons, String.utf8ByteSize_append, String.utf8ByteSize_singleton, List.length_cons]
    have := c.utf8Size_pos
    omega

/-- The second that a date shows: up to 60 in a leap second. -/
def shownSecond (d : DateTime) : Nat := d.secondOfDay % 60 + d.nanos / 1000000000

/-- The date that the reader makes of the local time and the offset that a date shows. -/
def shown? (d : DateTime) : Option DateTime :=
  DateTime.of? (d.localSeconds - d.localSeconds % 60 +
      (if shownSecond d = 60 then 59 else shownSecond d : Nat) - roundedOffset d.offset)
    ((if shownSecond d = 60 then 1000000000 else 0) + d.nanos % 1000000000)
    (roundedOffset d.offset)

theorem secondOfDay_eq (d : DateTime) : (d.secondOfDay : Int) = d.localSeconds % 86400 := by
  rw [DateTime.secondOfDay]
  omega

/-- **Reading a text with all fields in their places.** -/
theorem read_eq {text : String} {year month day hour minute second nanos : Nat} {east : Int}
    {rest zone : List Char}
    (ht : text.toList = padded 4 year ++ '-' :: (padded 2 month ++ '-' :: (padded 2 day ++
      'T' :: (padded 2 hour ++ ':' :: (padded 2 minute ++ ':' :: (padded 2 second ++ rest))))))
    (hsize : fixedLength ≤ text.utf8ByteSize) (hyear : year < 10000)
    (hday : Calendar.isDay ⟨year, month, day⟩ = true) (hhour : hour < 24) (hminute : minute < 60)
    (hsecond : second ≤ 60) (hnanos : fraction rest = .ok (nanos, zone))
    (heast : offset zone = .ok (east, [])) :
    read text = match DateTime.of? (Calendar.daysOfCivil ⟨year, month, day⟩ * 86400 +
        (hour * 3600 + minute * 60 + (if second = 60 then 59 else second) : Nat) - east)
      ((if second = 60 then 1000000000 else 0) + nanos) east with
    | some d => .ok d
    | none => .error .outOfRange := by
  have hbounds : 1 ≤ month ∧ month ≤ 12 ∧ 1 ≤ day ∧ day ≤ Calendar.daysInMonth year month :=
    of_decide_eq_true hday
  have hdim : Calendar.daysInMonth year month ≤ 31 := by
    rw [Calendar.daysInMonth]
    split_ifs <;> omega
  have hmonth : month < 10 ^ 2 := by omega
  have hdays : day < 10 ^ 2 := by omega
  have hdash : ∀ cs, oneOf ['-'] ('-' :: cs) = .ok ((), cs) := oneOf_cons (by simp)
  have hsep : ∀ cs, oneOf ['t', 'T', ' '] ('T' :: cs) = .ok ((), cs) := oneOf_cons (by simp)
  have hcolon : ∀ cs, oneOf [':'] (':' :: cs) = .ok ((), cs) := oneOf_cons (by simp)
  have hfields : ∀ n < 10 ^ 2, ∀ cs, fixedDigits 2 (padded 2 n ++ cs) = .ok (n, cs) :=
    fun n hn cs => fixedDigits_padded (by decide) hn cs
  have hokbind : ∀ {α β : Type} (a : α) (f : α → Except Fault β), (Except.ok a >>= f) = f a :=
    fun _ _ => rfl
  have hrange : ¬ (24 ≤ hour ∨ 60 ≤ minute ∨ 60 ≤ (if second = 60 then 59 else second)) := by
    split_ifs <;> omega
  have hpair : (if second = 60 then (59, 1000000000) else (second, 0)) =
      ((if second = 60 then 59 else second), (if second = 60 then 1000000000 else 0)) := by
    split_ifs <;> rfl
  rw [read]
  simp only [ht, if_neg (Nat.not_lt.2 hsize), fixedDigits_padded (by decide : 0 < 4) hyear, hokbind,
    hdash, hfields month hmonth, hfields day hdays, hday, hsep, hfields hour (by omega), hcolon,
    hfields minute (by omega), hfields second (by omega), hpair, hnanos, heast, Bool.not_true]
  rw [if_neg Bool.false_ne_true, if_neg hrange, if_neg (by simp)]
  rfl

theorem le_length_padded (width n : Nat) : width ≤ (padded width n).length := by
  rw [padded, List.length_append, List.length_replicate]
  omega

/-- The fields of a date whose year has four digits. -/
theorem characters_eq {d : DateTime} (hy : 0 ≤ d.localDate.year) (hy' : d.localDate.year ≤ 9999) :
    characters d = padded 4 d.localDate.year.toNat ++ '-' ::
      (padded 2 d.localDate.month ++ '-' :: (padded 2 d.localDate.day ++
        'T' :: (padded 2 (d.secondOfDay / 3600) ++ ':' :: (padded 2 (d.secondOfDay / 60 % 60) ++
          ':' :: (padded 2 (shownSecond d) ++
            (writeFraction (d.nanos % 1000000000) ++ writeOffset d.offset)))))) := by
  rw [characters, writeYear, if_pos ⟨hy, hy'⟩]
  simp only [List.append_assoc, List.cons_append, shownSecond]

theorem fixedLength_le {d : DateTime} (hy : 0 ≤ d.localDate.year) (hy' : d.localDate.year ≤ 9999) :
    fixedLength ≤ (String.ofList (characters d)).utf8ByteSize := by
  refine le_trans ?_ (length_le_utf8ByteSize _)
  rw [characters_eq hy hy']
  simp only [List.length_append, List.length_cons, fixedLength]
  have := le_length_padded 4 d.localDate.year.toNat
  have := le_length_padded 2 d.localDate.month
  have := le_length_padded 2 d.localDate.day
  have := le_length_padded 2 (d.secondOfDay / 3600)
  have := le_length_padded 2 (d.secondOfDay / 60 % 60)
  have := le_length_padded 2 (shownSecond d)
  omega

/-- The day and the time of day, as they are shown, make the local time up to the second. -/
theorem localSeconds_of_fields (d : DateTime) (second : Nat) :
    Calendar.daysOfCivil d.localDate * 86400 + ((d.secondOfDay / 3600 * 3600 +
        d.secondOfDay / 60 % 60 * 60 + second : Nat) : Int) =
      d.localSeconds - d.localSeconds % 60 + (second : Int) := by
  have hsecond := secondOfDay_eq d
  rw [DateTime.localDate, Calendar.daysOfCivil_civilOfDays (d.localSeconds / 86400)]
  push_cast
  omega

/-- The reader goes through the whole text of a date whose local year has four digits. -/
theorem read_characters {d : DateTime} (hy : 0 ≤ d.localDate.year) (hy' : d.localDate.year ≤ 9999) :
    read (String.ofList (characters d)) =
      match shown? d with
      | some e => .ok e
      | none => .error .outOfRange := by
  have hsecond := secondOfDay_eq d
  have hdate : (⟨d.localDate.year.toNat, d.localDate.month, d.localDate.day⟩ : Calendar.Civil) =
      d.localDate := by
    rw [Int.toNat_of_nonneg hy]
  have hday : Calendar.isDay ⟨d.localDate.year.toNat, d.localDate.month, d.localDate.day⟩ =
      true := by
    rw [hdate]
    exact Calendar.isDay_civilOfDays _
  have hzone : fraction (writeFraction (d.nanos % 1000000000) ++ writeOffset d.offset) =
      .ok (d.nanos % 1000000000, writeOffset d.offset) := by
    refine fraction_writeFraction (by omega) ?_ _
    split_ifs <;> simp
  have hnanos := d.nanos_lt
  have hshown : shownSecond d ≤ 60 := by
    rw [shownSecond]
    omega
  rw [read_eq (String.toList_ofList.trans (characters_eq hy hy')) (fixedLength_le hy hy')
    (by omega) hday (by omega) (by omega) hshown hzone
    (offset_writeOffset d.offset_gt d.offset_lt), hdate, localSeconds_of_fields, shown?]

/-- A year that does not have four digits is written with a sign in front, which no date has. -/
theorem read_characters_of_year {d : DateTime}
    (hy : ¬ (0 ≤ d.localDate.year ∧ d.localDate.year ≤ 9999)) (e : DateTime) :
    read (String.ofList (characters d)) ≠ .ok e := by
  obtain ⟨c, cs, hchars, hc⟩ : ∃ c cs, characters d = c :: cs ∧ digit? c = none := by
    rw [characters, writeYear, if_neg hy]
    refine ⟨if d.localDate.year < 0 then '-' else '+', _, rfl, ?_⟩
    split_ifs <;> decide
  have hfour : fixedDigits 4 (c :: cs) = .error .invalid := by
    rw [fixedDigits, moreDigits, hc]
  rw [read, String.toList_ofList, hchars, hfour]
  split_ifs <;> exact fun h => nomatch h

/-! ## The offset decides -/

theorem of?_self {d : DateTime} (h : d.IsRegular) :
    DateTime.of? d.seconds d.nanos d.offset = some d := by
  rw [DateTime.of?, dif_pos ⟨d.firstSecond_le, d.le_lastSecond, d.nanos_lt, h, d.offset_gt,
    d.offset_lt⟩]

theorem isRegular_of_of? {seconds : Int} {nanos : Nat} {offset : Int} {e : DateTime}
    (h : DateTime.of? seconds nanos offset = some e) : e.IsRegular := by
  rw [DateTime.of?] at h
  split at h
  · next hvalid =>
    obtain rfl := Option.some.inj h
    exact hvalid.2.2.2.1
  · exact absurd h (by simp)

theorem eq_of_of? {seconds : Int} {nanos : Nat} {offset : Int} {e : DateTime}
    (h : DateTime.of? seconds nanos offset = some e) :
    e.seconds = seconds ∧ e.nanos = nanos ∧ e.offset = offset := by
  rw [DateTime.of?] at h
  split at h
  · obtain rfl := Option.some.inj h
    exact ⟨rfl, rfl, rfl⟩
  · exact absurd h (by simp)

/-- With an offset of whole minutes nothing is lost.  The last second of a minute is the last second
of a local minute then, and so a leap second there is shown as the second 60. -/
theorem shown?_eq_self {d : DateTime} (h : d.offset % 60 = 0) (hr : d.IsRegular) :
    shown? d = some d := by
  have hsecond := secondOfDay_eq d
  have hlocal : d.localSeconds = d.seconds + d.offset := rfl
  have hnanos := d.nanos_lt
  have hoffset := roundedOffset_eq_iff.2 h
  conv_rhs => rw [← of?_self hr]
  rw [shown?, hoffset]
  by_cases hleap : 1000000000 ≤ d.nanos
  · have hlast := hr hleap
    have h60 : shownSecond d = 60 := by
      rw [shownSecond]
      omega
    rw [if_pos h60, if_pos h60]
    congr 1 <;> omega
  · have h60 : shownSecond d = d.secondOfDay % 60 := by
      rw [shownSecond]
      omega
    rw [if_neg (by omega), if_neg (by omega), h60]
    congr 1 <;> omega

/-- What the reader finds is a regular date.  So a date with a leap second elsewhere is taken for
another instant. -/
theorem isRegular_of_sameInstant {d e : DateTime} (h : shown? d = some e)
    (he : e.sameInstant d = true) : d.IsRegular := by
  have hregular := isRegular_of_of? h
  rw [DateTime.sameInstant, Bool.and_eq_true, beq_iff_eq, beq_iff_eq] at he
  rwa [DateTime.IsRegular, he.1, he.2] at hregular

/-- With any other offset the instant is another one, if it is one at all. -/
theorem offset_of_sameInstant {d e : DateTime} (h : shown? d = some e)
    (he : e.sameInstant d = true) : d.offset % 60 = 0 := by
  have hsecond := secondOfDay_eq d
  have hlocal : d.localSeconds = d.seconds + d.offset := rfl
  have hnanos := d.nanos_lt
  rw [DateTime.sameInstant, Bool.and_eq_true, beq_iff_eq, beq_iff_eq] at he
  rw [shown?] at h
  rw [← roundedOffset_eq_iff]
  by_cases h60 : shownSecond d = 60
  · rw [if_pos h60, if_pos h60] at h
    obtain ⟨hs, -, -⟩ := eq_of_of? h
    rw [shownSecond] at h60
    omega
  · rw [if_neg h60, if_neg h60] at h
    obtain ⟨hs, hn, -⟩ := eq_of_of? h
    rw [shownSecond] at hs
    omega

/-- Whether the text of a date keeps all of it: the offset, the leap second and the year. -/
def Exact (d : DateTime) : Prop :=
  d.offset % 60 = 0 ∧ d.IsRegular ∧ 0 ≤ d.localDate.year ∧ d.localDate.year ≤ 9999

/-- **Which dates read back.**  The text of a date is read as the same instant exactly if the offset
is a number of minutes, a leap second follows the last second of a minute, and the local year has
four digits, and then it is read as the same date. -/
theorem read_write?_eq_ok_iff {d e : DateTime} {text : String} (ht : write? d = some text) :
    read text = .ok e ∧ e.sameInstant d = true ↔ e = d ∧ Exact d := by
  obtain rfl : String.ofList (characters d) = text := by
    rw [write?] at ht
    split at ht
    · exact Option.some.inj ht
    · exact absurd ht (by simp)
  by_cases hy : 0 ≤ d.localDate.year ∧ d.localDate.year ≤ 9999
  · rw [read_characters hy.1 hy.2]
    refine ⟨?_, ?_⟩
    · rintro ⟨hread, he⟩
      cases hshown : shown? d with
      | none =>
        rw [hshown] at hread
        exact absurd hread (by simp)
      | some e' =>
        rw [hshown, Except.ok.injEq] at hread
        subst hread
        have hoffset := offset_of_sameInstant hshown he
        have hregular := isRegular_of_sameInstant hshown he
        rw [shown?_eq_self hoffset hregular] at hshown
        exact ⟨(Option.some.inj hshown).symm, hoffset, hregular, hy⟩
    · rintro ⟨rfl, hoffset, hregular, -⟩
      rw [shown?_eq_self hoffset hregular]
      exact ⟨rfl, by simp [DateTime.sameInstant]⟩
  · refine ⟨?_, ?_⟩
    · rintro ⟨hread, -⟩
      exact absurd hread (read_characters_of_year hy e)
    · rintro ⟨-, -, -, hexact⟩
      exact absurd hexact hy

/-! ## Dates that were read -/

theorem exists_of_bind {α β : Type} {a : Except Fault α} {f : α → Except Fault β} {b : β}
    (h : a >>= f = .ok b) : ∃ x, a = .ok x ∧ f x = .ok b := by
  cases a with
  | error why => cases h
  | ok x => exact ⟨x, rfl, h⟩

/-- So many digits make a number of so many places. -/
theorem lt_of_moreDigits {acc count n : Nat} {cs rest : List Char}
    (h : moreDigits acc count cs = .ok (n, rest)) : n < (acc + 1) * 10 ^ count := by
  induction count generalizing acc cs with
  | zero =>
    rw [moreDigits] at h
    cases h
    omega
  | succ count ih =>
    cases cs with
    | nil => cases h
    | cons c cs =>
      rw [moreDigits] at h
      split at h
      · next d hd =>
        have hd := Decimal.lt_of_digit? hd
        have := ih h
        rw [Nat.pow_succ]
        calc n < (acc * 10 + d + 1) * 10 ^ count := this
          _ ≤ ((acc + 1) * 10) * 10 ^ count := Nat.mul_le_mul_right _ (by omega)
          _ = (acc + 1) * (10 ^ count * 10) := by ring
      · cases h

/-- A day of a year of four digits is not far from the start of 1970. -/
theorem daysOfCivil_bounds {year month day : Nat} (hyear : year < 10000)
    (hday : Calendar.isDay ⟨year, month, day⟩ = true) :
    -1000000 ≤ Calendar.daysOfCivil ⟨year, month, day⟩ ∧
      Calendar.daysOfCivil ⟨year, month, day⟩ ≤ 3000000 := by
  have hbounds : 1 ≤ month ∧ month ≤ 12 ∧ 1 ≤ day ∧ day ≤ Calendar.daysInMonth year month :=
    of_decide_eq_true hday
  have hdim : Calendar.daysInMonth year month ≤ 31 := by
    rw [Calendar.daysInMonth]
    split_ifs <;> omega
  rw [Calendar.daysOfCivil, Calendar.epochShift]
  dsimp only
  split_ifs <;> omega

/-- An offset is read in hours and minutes. -/
theorem offset_mod_of_offset {cs rest : List Char} {east : Int} (h : offset cs = .ok (east, rest)) :
    east % 60 = 0 := by
  cases cs with
  | nil => cases h
  | cons c cs =>
    rw [offset] at h
    split at h
    · cases h
      rfl
    · split at h
      · obtain ⟨⟨⟨h₁, h₀⟩, cs⟩, -, h⟩ := exists_of_bind h
        obtain ⟨⟨⟨⟩, cs⟩, -, h⟩ := exists_of_bind h
        obtain ⟨⟨⟨m₁, m₀⟩, cs⟩, -, h⟩ := exists_of_bind h
        dsimp only at h
        split at h
        · cases h
        · cases h
          split <;> exact Int.emod_eq_zero_of_dvd (by omega)
      · cases h

/-- **What a date was read from**: a day of a year of four digits, a time of that day, and an offset
at the end of the text.  A leap second is where leap seconds occur. -/
theorem exists_fields_of_read {text : String} {d : DateTime} (h : read text = .ok d) :
    ∃ (year month day time : Nat) (zone : List Char), year < 10000 ∧
      Calendar.isDay ⟨year, month, day⟩ = true ∧ time < 86400 ∧ offset zone = .ok (d.offset, []) ∧
      d.localSeconds = Calendar.daysOfCivil ⟨year, month, day⟩ * 86400 + time ∧ d.IsRegular := by
  rw [read] at h
  split at h
  · cases h
  obtain ⟨⟨year, cs⟩, hyear, h⟩ := exists_of_bind h
  obtain ⟨⟨⟨⟩, cs⟩, -, h⟩ := exists_of_bind h
  obtain ⟨⟨month, cs⟩, -, h⟩ := exists_of_bind h
  obtain ⟨⟨⟨⟩, cs⟩, -, h⟩ := exists_of_bind h
  obtain ⟨⟨day, cs⟩, -, h⟩ := exists_of_bind h
  dsimp only at h
  split at h
  · cases h
  next hday =>
  obtain ⟨⟨⟨⟩, cs⟩, -, h⟩ := exists_of_bind h
  obtain ⟨⟨hour, cs⟩, -, h⟩ := exists_of_bind h
  obtain ⟨⟨⟨⟩, cs⟩, -, h⟩ := exists_of_bind h
  obtain ⟨⟨minute, cs⟩, -, h⟩ := exists_of_bind h
  obtain ⟨⟨⟨⟩, cs⟩, -, h⟩ := exists_of_bind h
  obtain ⟨⟨second, cs⟩, -, h⟩ := exists_of_bind h
  obtain ⟨⟨nanos, zone⟩, -, h⟩ := exists_of_bind h
  dsimp only at h
  generalize (if second = 60 then (59, 1000000000) else (second, 0)) = shown at h
  obtain ⟨second, leap⟩ := shown
  dsimp only at h
  split at h
  · cases h
  next hrange =>
  obtain ⟨⟨east, cs⟩, heast, h⟩ := exists_of_bind h
  dsimp only at h
  split at h
  · cases h
  next hend =>
  split at h
  · next e he =>
    cases h
    obtain ⟨hseconds, -, hoffset⟩ := eq_of_of? he
    have hyear := lt_of_moreDigits hyear
    rw [ne_eq, not_not] at hend
    refine ⟨year, month, day, hour * 3600 + minute * 60 + second, zone, by omega,
      by simpa using hday, by omega, by rw [heast, hoffset, hend], ?_, isRegular_of_of? he⟩
    rw [DateTime.localSeconds, hseconds, hoffset]
    omega
  · cases h

/-- **A date that was read has a local time**, since its year has four digits. -/
theorem hasLocal_of_read {text : String} {d : DateTime} (h : read text = .ok d) :
    d.hasLocal = true := by
  obtain ⟨year, month, day, time, zone, hyear, hday, htime, -, hlocal, -⟩ :=
    exists_fields_of_read h
  obtain ⟨hlow, hhigh⟩ := daysOfCivil_bounds hyear hday
  rw [DateTime.hasLocal, hlocal, Calendar.firstSecond, Calendar.lastSecond, decide_eq_true_eq]
  omega

/-- **The text of a date that was read keeps all of it.** -/
theorem exact_of_read {text : String} {d : DateTime} (h : read text = .ok d) : Exact d := by
  obtain ⟨year, month, day, time, zone, hyear, hday, htime, hzone, hlocal, hregular⟩ :=
    exists_fields_of_read h
  have hdays : d.localSeconds / 86400 = Calendar.daysOfCivil ⟨year, month, day⟩ := by
    rw [hlocal]
    omega
  have hback := Calendar.year_civilOfDays_daysOfCivil hday
  rw [Exact, DateTime.localDate, hdays, hback]
  exact ⟨offset_mod_of_offset hzone, hregular, Int.natCast_nonneg year, by dsimp only; omega⟩

end Rfc3339
end ContentOverlay
