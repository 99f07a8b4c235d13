import Mathlib
import ContentOverlay.Proofs.Decimal.Integer
import ContentOverlay.Proofs.Toml.Quoted
import ContentOverlay.Toml.Document

/-!
# Documents of plain settings

A document whose lines are settings, each a bare key and a quoted text or a whole number, is read as
the list of its settings.

* A number is tried as a moment and as a decimal before it is read as an integer; where a line feed
  follows its digits it is neither (`value_digits`).
* `lines_setting` goes over one line, whose key must be new.
-/

set_option autoImplicit false

namespace ContentOverlay
namespace Toml

open Decimal (chars digit?)

/-! ## Digits -/

variable {rest : List Char}

/-- The digits up to a character that is neither a digit nor an underscore. -/
theorem moreDigits_append {ok : Char → Bool} (hline : ok '_' = false) {cs : List Char}
    (hcs : ∀ c ∈ cs, ok c = true) {d : Char} (hd : ok d = false) (hd' : d ≠ '_') :
    moreDigits ok (cs ++ d :: rest) = (cs, d :: rest) := by
  induction cs with
  | nil =>
    rw [List.nil_append, moreDigits, if_neg (by simp [hd])]
    exact fun _ _ h => absurd h hd'
  | cons c cs ih =>
    have hc := hcs c List.mem_cons_self
    have ih := ih fun e he => hcs e (List.mem_cons_of_mem _ he)
    rw [List.cons_append, moreDigits, if_pos hc, ih]
    rintro _ _ rfl
    exact absurd (hc.symm.trans hline) (by decide)

/-- The characters of a number: digits, of which the first is no zero. -/
structure IsNumeral (cs : List Char) : Prop where
  isDigit_of_mem : ∀ c ∈ cs, isDigit c = true
  head?_ne : cs.head? ≠ some '0'
  ne_nil : cs ≠ []

theorem isNumeral_toDigits {n : Nat} (hn : 0 < n) : IsNumeral (Nat.toDigits 10 n) := by
  obtain ⟨ds, hchars, -, hlt, hne⟩ := Decimal.toDigits_eq_map n
  refine ⟨fun c hc => ?_, ?_, ?_⟩
  · rw [hchars] at hc
    obtain ⟨d, hd, rfl⟩ := List.mem_map.1 hc
    rw [isDigit, Decimal.digit?_digitChar (hlt d hd), Option.isSome_some]
  · clear hchars hlt hne
    induction n using Nat.strong_induction_on with
    | _ n ih =>
      by_cases h : n < 10
      · have hall : ∀ m < 10, 0 < m → [m.digitChar].head? ≠ some '0' := by decide
        rw [Nat.toDigits_of_lt_base h]
        exact hall n h hn
      · rw [Nat.toDigits_of_base_le (by decide) (by omega), List.head?_append]
        have hhead := ih (n / 10) (by omega) (by omega)
        obtain ⟨ds, hchars, -, -, hne⟩ := Decimal.toDigits_eq_map (n / 10)
        obtain ⟨d, ds, rfl⟩ := List.exists_cons_of_ne_nil hne
        rw [hchars] at hhead ⊢
        exact hhead
  · rw [hchars, chars, Ne, List.map_eq_nil_iff]
    exact hne

variable {cs : List Char}

/-- Where the digits end before a line feed, a number of so many digits has no other character than
a digit or the line feed behind it. -/
theorem symbol_of_fixed (hcs : ∀ c ∈ cs, isDigit c = true) {s : Char} (hs : isDigit s = false)
    (hs' : s ≠ '\n') {count n : Nat} {after : List Char}
    (h : fixed count (cs ++ '\n' :: rest) = some (n, after)) : symbol s after = none := by
  rw [fixed] at h
  split at h
  · next hds =>
    obtain ⟨-, rfl⟩ := Prod.mk.inj (Option.some.inj h)
    have hle : count ≤ cs.length := by
      by_contra hlt
      obtain ⟨k, hk⟩ : ∃ k, count - cs.length = k + 1 := ⟨count - cs.length - 1, by omega⟩
      have hmem : '\n' ∈ (cs ++ '\n' :: rest).take count := by
        rw [List.take_append, hk, List.take_succ_cons]
        exact List.mem_append_right _ List.mem_cons_self
      exact absurd (List.all_eq_true.1 hds.2 _ hmem) (by decide)
    rw [List.drop_append_of_le_length hle]
    cases hdrop : cs.drop count with
    | nil => exact if_neg hs'
    | cons c tail =>
      have hc : c ∈ cs := List.mem_of_mem_drop (hdrop ▸ List.mem_cons_self)
      refine if_neg ?_
      rintro rfl
      exact absurd (hs.symm.trans (hcs s hc)) (by decide)
  · cases h

/-- A number is no date and no time of day. -/
theorem moment_digits (hcs : ∀ c ∈ cs, isDigit c = true) :
    moment (cs ++ '\n' :: rest) = none := by
  have hdate : date (cs ++ '\n' :: rest) = none := by
    rw [date]
    cases h : fixed 4 (cs ++ '\n' :: rest) with
    | none => rfl
    | some p =>
      have hsymbol := symbol_of_fixed hcs (s := '-') (by decide) (by decide) h
      simp only [Option.bind_eq_bind, Option.bind_some, hsymbol, Option.bind_none]
  have htime : time (cs ++ '\n' :: rest) = none := by
    rw [time, twoDigits]
    cases h : fixed 2 (cs ++ '\n' :: rest) with
    | none => rfl
    | some p =>
      have hsymbol := symbol_of_fixed hcs (s := ':') (by decide) (by decide) h
      simp only [Option.bind_eq_bind]
      split_ifs <;> simp [hsymbol]
  rw [moment, hdate]
  exact htime

theorem whole_numeral (h : IsNumeral cs) :
    whole (cs ++ '\n' :: rest) = some (cs, '\n' :: rest) := by
  obtain ⟨hcs, hhead, hne⟩ := h
  obtain ⟨c, cs, rfl⟩ := List.exists_cons_of_ne_nil hne
  have hc := hcs c List.mem_cons_self
  have hsign : sign (c :: cs ++ '\n' :: rest) = ([], c :: cs ++ '\n' :: rest) := by
    rw [List.cons_append, sign]
    · rintro _ h
      rw [(List.cons.inj h).1] at hc
      exact absurd hc (by decide)
    · rintro _ h
      rw [(List.cons.inj h).1] at hc
      exact absurd hc (by decide)
  have hdigits : digits isDigit (c :: cs ++ '\n' :: rest) = some (c :: cs, '\n' :: rest) := by
    rw [List.cons_append, digits, if_pos hc, moreDigits_append (by decide)
      (fun e he => hcs e (List.mem_cons_of_mem _ he)) (by decide) (by decide)]
  rw [whole, hsign]
  dsimp only
  split
  · next h =>
    exact absurd (congrArg List.head? h) hhead
  · rw [hdigits]
    rfl

theorem readQuoted_of_ne {c : Char} (hd : c ≠ '"') (hs : c ≠ '\'') :
    readQuoted (c :: cs) = none := by
  rw [readQuoted]
  · rw [readLine]
    · exact fun _ h => hd (List.cons.inj h).1
    · exact fun _ h => hs (List.cons.inj h).1
  · exact fun _ h => hd (List.cons.inj h).1
  · exact fun _ h => hs (List.cons.inj h).1

/-- A number that has 64 bits with its sign is read as itself. -/
theorem integer_toDigits {n : Nat} (hn : 0 < n) (hlt : n < integerBound) :
    integer (Nat.toDigits 10 n ++ '\n' :: rest) = some ((n : Int), '\n' :: rest) := by
  have hnum := isNumeral_toDigits hn
  have hbound : (n : Int) < 9223372036854775808 := by
    rw [integerBound] at hlt
    omega
  have hint : (Int64.ofInt n).toInt = n := Int64.toInt_ofInt_of_le (by omega) hbound
  have hread : Decimal.readInteger (String.ofList (Nat.toDigits 10 n)) = .ok (Int64.ofInt n) := by
    have htext : Decimal.writeInteger (Int64.ofInt n) = String.ofList (Nat.toDigits 10 n) := by
      rw [Decimal.writeInteger, hint, ← Nat.toList_repr, String.ofList_toList]
      rfl
    rw [← htext, Decimal.readInteger_writeInteger]
  -- no base is named, since the first digit is no zero
  have hzero : ∀ c more, Nat.toDigits 10 n ++ '\n' :: rest = '0' :: c :: more → False := by
    intro c more h
    obtain ⟨d, cs, hchars⟩ := List.exists_cons_of_ne_nil hnum.ne_nil
    have hhead := hnum.head?_ne
    rw [hchars] at h hhead
    exact hhead (congrArg some (List.cons.inj h).1)
  rw [integer]
  · rw [whole_numeral hnum]
    dsimp only
    rw [hread]
    dsimp only
    rw [hint]
  · exact fun _ h => hzero _ _ h
  · exact fun _ h => hzero _ _ h
  · exact fun _ h => hzero _ _ h

/-! ## Values -/

/-- A value of these two sorts, and what it is read as. -/
inductive Plain : List Char → Node → Prop
  | text (t : String) : Plain (writeQuoted t) (.text t)
  | integer {n : Nat} (hn : 0 < n) (hlt : n < integerBound) :
      Plain (Nat.toDigits 10 n) (.integer n)

theorem exists_writeQuoted (t : String) :
    ∃ q cs, writeQuoted t = q :: cs ∧ (q = '"' ∨ q = '\'') := by
  rw [writeQuoted]
  cases quotingOf t.toList with
  | basic | basicLines => exact ⟨_, _, rfl, .inl rfl⟩
  | literal | literalLines => exact ⟨_, _, rfl, .inr rfl⟩

theorem scalar_of_plain {v : List Char} {node : Node} (h : Plain v node) (rest : List Char) :
    scalar (v ++ '\n' :: rest) = some (node, '\n' :: rest) := by
  cases h with
  | text t =>
    simp only [scalar, firstOf, readAs]
    rw [readQuoted_writeQuoted t (by simp) (by simp)]
    rfl
  | @integer n hn hlt =>
    have hnum := isNumeral_toDigits hn
    have hquoted : readQuoted (Nat.toDigits 10 n ++ '\n' :: rest) = none := by
      obtain ⟨c, cs, hchars⟩ := List.exists_cons_of_ne_nil hnum.ne_nil
      have hc := hnum.isDigit_of_mem c (hchars ▸ List.mem_cons_self)
      rw [hchars]
      refine readQuoted_of_ne ?_ ?_
      · rintro rfl
        exact absurd hc (by decide)
      · rintro rfl
        exact absurd hc (by decide)
    have hdecimal : decimal (Nat.toDigits 10 n ++ '\n' :: rest) = none := by
      rw [decimal, whole_numeral hnum]
      rfl
    simp only [scalar, firstOf, readAs]
    rw [hquoted, moment_digits hnum.isDigit_of_mem, hdecimal, integer_toDigits hn hlt]
    rfl

/-- A plain value does not begin like an array or a table, nor with a blank. -/
theorem Plain.exists_cons {v : List Char} {node : Node} (h : Plain v node) :
    ∃ c cs, v = c :: cs ∧ isBlank c = false ∧ c ≠ '[' ∧ c ≠ '\x7b' := by
  cases h with
  | text t =>
    obtain ⟨q, cs, hcs, rfl | rfl⟩ := exists_writeQuoted t
    · exact ⟨_, _, hcs, by decide⟩
    · exact ⟨_, _, hcs, by decide⟩
  | @integer n hn _ =>
    have hnum := isNumeral_toDigits hn
    obtain ⟨c, cs, hchars⟩ := List.exists_cons_of_ne_nil hnum.ne_nil
    have hc := hnum.isDigit_of_mem c (hchars ▸ List.mem_cons_self)
    have hne : ∀ d, isDigit d = false → c ≠ d := by
      rintro d hd rfl
      exact absurd (hc.symm.trans hd) (by decide)
    refine ⟨c, cs, hchars, ?_, hne _ (by decide), hne _ (by decide)⟩
    rw [isBlank, decide_eq_false_iff_not]
    rintro (h | h)
    · exact hne _ (by decide) h
    · exact hne _ (by decide) h

theorem value_of_plain {v : List Char} {node : Node} (h : Plain v node) (depth : Nat) :
    value (depth + 1) (v ++ '\n' :: rest) = some (node, '\n' :: rest) := by
  have hscalar := scalar_of_plain h rest
  obtain ⟨c, cs, rfl, -, hbracket, hbrace⟩ := h.exists_cons
  rw [← hscalar, List.cons_append, value]
  · exact fun _ h => hbracket (List.cons.inj h).1
  · exact fun _ h => hbrace (List.cons.inj h).1

/-! ## Settings -/

/-- A key that needs no quotes. -/
structure IsBareKey (key : String) : Prop where
  isBare_of_mem : ∀ c ∈ key.toList, isBare c = true
  ne_nil : key.toList ≠ []

theorem ne_of_isBare {c d : Char} (hc : isBare c = true) (hd : isBare d = false) : c ≠ d := by
  rintro rfl
  exact absurd (hc.symm.trans hd) (by decide)

theorem IsBareKey.exists_cons {key : String} (h : IsBareKey key) :
    ∃ c cs, key.toList = c :: cs ∧ isBare c = true := by
  obtain ⟨c, cs, hchars⟩ := List.exists_cons_of_ne_nil h.ne_nil
  exact ⟨c, cs, hchars, h.isBare_of_mem c (hchars ▸ List.mem_cons_self)⟩

theorem isBlank_of_isBare {c : Char} (h : isBare c = true) : isBlank c = false := by
  rw [isBlank, decide_eq_false_iff_not]
  rintro (hc | hc)
  · exact ne_of_isBare h (by decide) hc
  · exact ne_of_isBare h (by decide) hc

/-- A bare key before an equals sign is a path. -/
theorem keyPath_append {key : String} (h : IsBareKey key) :
    keyPath (key.toList ++ ' ' :: '=' :: rest) = some ([key], '=' :: rest) := by
  obtain ⟨c, cs, hchars, hc⟩ := h.exists_cons
  have hskip : skipBlanks (key.toList ++ ' ' :: '=' :: rest) =
      key.toList ++ ' ' :: '=' :: rest := by
    rw [hchars, skipBlanks, List.cons_append, List.dropWhile_cons_of_neg]
    rw [isBlank_of_isBare hc]
    decide
  have hline : readLine (key.toList ++ ' ' :: '=' :: rest) = none := by
    rw [hchars, List.cons_append, readLine]
    · exact fun _ h => ne_of_isBare hc (by decide) (List.cons.inj h).1
    · exact fun _ h => ne_of_isBare hc (by decide) (List.cons.inj h).1
  have hspaced : spacedKey (key.toList ++ ' ' :: '=' :: rest) = some (key, '=' :: rest) := by
    have htake : (key.toList ++ ' ' :: '=' :: rest).takeWhile isBare = key.toList := by
      rw [List.takeWhile_append_of_pos h.isBare_of_mem]
      simp [show isBare ' ' = false by decide]
    have hdrop : (key.toList ++ ' ' :: '=' :: rest).dropWhile isBare = ' ' :: '=' :: rest := by
      rw [List.dropWhile_append_of_pos h.isBare_of_mem]
      simp [show isBare ' ' = false by decide]
    rw [spacedKey, hskip, simpleKey, hline]
    dsimp only
    rw [htake, hdrop]
    split
    · next hnil => exact absurd hnil h.ne_nil
    · rw [Option.map_some, String.ofList_toList]
      rfl
  have hlen : (key.toList ++ ' ' :: '=' :: rest).length =
      (key.toList.length + rest.length + 1) + 1 := by
    rw [List.length_append, List.length_cons, List.length_cons]
    omega
  rw [keyPath, hlen, separated, hspaced]
  rfl

/-- A bare key and a plain value on a line. -/
theorem keyValue_setting {key : String} (hkey : IsBareKey key) {v : List Char} {node : Node}
    (hv : Plain v node) (depth : Nat) (rest : List Char) :
    keyValue (value (depth + 1)) (key.toList ++ ' ' :: '=' :: ' ' :: (v ++ '\n' :: rest)) =
      some (([key], node), '\n' :: rest) := by
  have hskip : skipBlanks (' ' :: (v ++ '\n' :: rest)) = v ++ '\n' :: rest := by
    obtain ⟨c, cs, rfl, hblank, -⟩ := hv.exists_cons
    rw [skipBlanks, List.dropWhile_cons_of_pos (by decide), List.cons_append,
      List.dropWhile_cons_of_neg]
    rw [hblank]
    decide
  rw [keyValue, keyPath_append hkey]
  simp only [symbol, if_true, hskip, value_of_plain hv, Option.map_some]

/-- **A line with a new setting adds it to the document.** -/
theorem lines_setting {key : String} (hkey : IsBareKey key) {v : List Char} {node : Node}
    (hv : Plain v node) {es : Entries} (hnew : es.get? key = none) (fuel : Nat) :
    lines ⟨es, []⟩ (fuel + 1) (key.toList ++ ' ' :: '=' :: ' ' :: (v ++ '\n' :: rest)) =
      lines ⟨es.push key node, []⟩ fuel rest := by
  have hadd : Progress.add ⟨es, []⟩ [key] node = some ⟨es.push key node, []⟩ := by
    simp only [Progress.add, Entries.within, Entries.insertDotted, hnew, Option.map_some]
  have hend : endOfLine? ('\n' :: rest) = some rest := rfl
  have hread := keyValue_setting hkey hv (depthBound - 2) rest
  obtain ⟨c, cs, hchars, hc⟩ := hkey.exists_cons
  have hne : ∀ d, isBare d = false → c ≠ d := fun d hd => ne_of_isBare hc hd
  rw [hchars, List.cons_append] at hread ⊢
  generalize cs ++ ' ' :: '=' :: ' ' :: (v ++ '\n' :: rest) = more at hread
  have hskip : skipBlanks (c :: more) = c :: more := by
    rw [skipBlanks, List.dropWhile_cons_of_neg]
    rw [isBlank_of_isBare hc]
    decide
  have hfeed : lineEnd? (c :: more) = none :=
    lineEnd?_cons_of_ne (hne _ (by decide)) (hne _ (by decide)) more
  have hline : line ⟨es, []⟩ (c :: more) = some (⟨es.push key node, []⟩, rest) := by
    rw [line]
    · rw [show depthBound - 1 = depthBound - 2 + 1 from rfl, hread]
      dsimp only
      rw [hadd, Option.bind_some, line.endLine, hend, Option.map_some]
    · exact fun _ h => hne _ (by decide) (List.cons.inj h).1
    · exact fun _ h => hne _ (by decide) (List.cons.inj h).1
  rw [lines, hskip]
  split
  · next h => cases h
  · next h => exact absurd (List.cons.inj h).1 (hne _ (by decide))
  · next h =>
    obtain ⟨rfl, rfl⟩ := List.cons.inj h
    rw [hfeed]
    dsimp only
    rw [hline, Option.bind_some]

end Toml
end ContentOverlay
