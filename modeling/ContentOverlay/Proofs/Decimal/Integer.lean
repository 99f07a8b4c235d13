import Mathlib
import ContentOverlay.Decimal.Integer

/-!
# Whole numbers and their texts

A number is written with the characters of its digits (`toDigits_eq_map`), so what a reader makes of
a text that was written follows from what it makes of a list of digits: `digitsOf_append` for the
digits at the front of a text, `appendDigits_digits` for the reader of 64 bit numbers.

A whole number of 64 bits reads back as itself (`readInteger_writeInteger`), the smallest one too,
whose absolute value has no place among the positive numbers.  The reader never leaves the range on
the way, since the number only grows away from zero.
-/

set_option autoImplicit false

namespace ContentOverlay
namespace Decimal

/-! ## Digits -/

/-- The characters of a list of digits. -/
def chars (ds : List Nat) : List Char := ds.map Nat.digitChar

theorem digit?_digitChar {d : Nat} (h : d < 10) : digit? d.digitChar = some d := by
  revert d
  decide

theorem lt_of_digit? {c : Char} {d : Nat} (h : digit? c = some d) : d < 10 := by
  rw [digit?] at h
  split at h
  · next hc =>
    have hnine : c.toNat ≤ '9'.toNat := hc.2
    have : '9'.toNat - '0'.toNat = 9 := rfl
    obtain rfl := Option.some.inj h
    omega
  · cases h

theorem digitChar_ne_of_digit? {d : Nat} (h : d < 10) {c : Char} (hc : digit? c = none) :
    d.digitChar ≠ c := by
  intro he
  rw [← he, digit?_digitChar h] at hc
  exact absurd hc (by simp)

theorem number_append (as bs : List Nat) :
    number (as ++ bs) = number as * 10 ^ bs.length + number bs := by
  have hfrom : ∀ (acc : Nat), bs.foldl (fun acc d => acc * 10 + d) acc =
      acc * 10 ^ bs.length + number bs := by
    induction bs with
    | nil => simp [number]
    | cons b bs ih =>
      intro acc
      rw [show number (b :: bs) = bs.foldl (fun acc d => acc * 10 + d) (0 * 10 + b) from rfl,
        List.foldl_cons, ih, ih, List.length_cons, pow_succ]
      ring
  rw [number, List.foldl_append, hfrom]
  rfl

@[simp] theorem number_replicate_zero (n : Nat) : number (List.replicate n 0) = 0 := by
  induction n with
  | zero => rfl
  | succ n ih => rw [List.replicate_succ', number_append, ih, number, List.foldl_cons]; simp

/-- **A number is written with the characters of its digits.** -/
theorem toDigits_eq_map (n : Nat) :
    ∃ ds, Nat.toDigits 10 n = chars ds ∧ number ds = n ∧ (∀ d ∈ ds, d < 10) ∧ ds ≠ [] := by
  induction n using Nat.strong_induction_on with
  | _ n ih =>
    by_cases h : n < 10
    · refine ⟨[n], Nat.toDigits_of_lt_base h, ?_, by simpa using h, by simp⟩
      simp [number]
    · obtain ⟨ds, hchars, hnum, hlt, hne⟩ := ih (n / 10) (by omega)
      refine ⟨ds ++ [n % 10], ?_, ?_, ?_, by simp⟩
      · rw [Nat.toDigits_of_base_le (by decide) (by omega), hchars, chars, chars, List.map_append]
        rfl
      · rw [number_append, hnum, List.length_singleton, pow_one]
        simp only [number, List.foldl_cons, List.foldl_nil]
        omega
      · intro d hd
        rcases List.mem_append.1 hd with hd | hd
        · exact hlt d hd
        · rw [List.mem_singleton.1 hd]
          omega

/-- The digits at the front of a text, up to a character that is none. -/
theorem digitsOf_append {ds : List Nat} (hds : ∀ d ∈ ds, d < 10) {rest : List Char}
    (hrest : ∀ c ∈ rest.head?, digit? c = none) : digitsOf (chars ds ++ rest) = (ds, rest) := by
  induction ds with
  | nil =>
    cases rest with
    | nil => rfl
    | cons c rest =>
      have hc := hrest c rfl
      simp [digitsOf, chars, hc]
  | cons d ds ih =>
    have hd := digit?_digitChar (hds d List.mem_cons_self)
    have ih := ih fun e he => hds e (List.mem_cons_of_mem _ he)
    rw [digitsOf, Prod.mk.injEq] at ih ⊢
    simp only [chars, List.map_cons, List.cons_append, List.takeWhile_cons, List.dropWhile_cons,
      hd, Option.isSome_some, if_true, List.filterMap_cons_some hd]
    exact ⟨congrArg (d :: ·) ih.1, ih.2⟩

theorem digitsOf_chars {ds : List Nat} (hds : ∀ d ∈ ds, d < 10) :
    digitsOf (chars ds) = (ds, []) := by
  have := @digitsOf_append ds hds [] (by simp)
  rwa [List.append_nil] at this

/-! ## Numbers of 64 bits -/

/-- A natural number with a sign. -/
def signed (negative : Bool) (n : Nat) : Int := if negative then -n else n

theorem fits_iff {n : Int} :
    fits n = true ↔ -9223372036854775808 ≤ n ∧ n < 9223372036854775808 := by
  simp [fits]

theorem fits_signed_of_le {negative : Bool} {m n : Nat} (h : m ≤ n)
    (hn : fits (signed negative n) = true) : fits (signed negative m) = true := by
  rw [fits_iff, signed] at hn ⊢
  split_ifs at hn ⊢ <;> omega

/-- Digit after digit the number grows away from zero; if the last one fits then all do. -/
theorem appendDigits_digits (negative : Bool) {ds : List Nat} (hds : ∀ d ∈ ds, d < 10) (acc : Nat)
    (hfit : fits (signed negative (acc * 10 ^ ds.length + number ds)) = true) :
    appendDigits negative (signed negative acc) (chars ds) =
      .ok (signed negative (acc * 10 ^ ds.length + number ds)) := by
  induction ds generalizing acc with
  | nil => simp [appendDigits, chars, number]
  | cons d ds ih =>
    have hvalue : acc * 10 ^ (d :: ds).length + number (d :: ds) =
        (acc * 10 + d) * 10 ^ ds.length + number ds := by
      have hcons := number_append [d] ds
      rw [List.singleton_append] at hcons
      rw [hcons, List.length_cons, pow_succ]
      simp only [number, List.foldl_cons, List.foldl_nil]
      ring
    rw [hvalue] at hfit ⊢
    have hle : acc * 10 + d ≤ (acc * 10 + d) * 10 ^ ds.length + number ds :=
      Nat.le_add_right_of_le (Nat.le_mul_of_pos_right _ (Nat.pow_pos (by decide)))
    have hten : signed negative acc * 10 = signed negative (acc * 10) := by
      simp only [signed]
      split_ifs <;> push_cast <;> ring
    have hnext : (if negative then signed negative acc * 10 - (d : Int)
        else signed negative acc * 10 + d) = signed negative (acc * 10 + d) := by
      simp only [signed]
      split_ifs <;> push_cast <;> ring
    rw [chars, List.map_cons, appendDigits, digit?_digitChar (hds d List.mem_cons_self)]
    show (if !fits (signed negative acc * 10) then Except.error _
      else if fits (if negative then signed negative acc * 10 - (d : Int)
        else signed negative acc * 10 + d) then
          appendDigits negative (if negative then signed negative acc * 10 - (d : Int)
            else signed negative acc * 10 + d) (chars ds)
        else Except.error _) = _
    rw [hnext, hten, fits_signed_of_le (by omega) hfit, fits_signed_of_le hle hfit]
    exact ih (fun e he => hds e (List.mem_cons_of_mem _ he)) _ hfit

theorem fits_toInt (n : Int64) : fits n.toInt = true := by
  have h₁ := n.le_toInt
  have h₂ := n.toInt_lt
  rw [fits_iff]
  omega

theorem readInteger_of_toList {text : String} {ds : List Nat} (hds : ∀ d ∈ ds, d < 10)
    (hne : ds ≠ []) (ht : text.toList = chars ds) :
    readInteger text = (appendDigits false 0 (chars ds)).map Int64.ofInt := by
  obtain ⟨d, ds, rfl⟩ := List.exists_cons_of_ne_nil hne
  have hd := hds d List.mem_cons_self
  have hplus : d.digitChar ≠ '+' := digitChar_ne_of_digit? hd (by decide)
  have hminus : d.digitChar ≠ '-' := digitChar_ne_of_digit? hd (by decide)
  rw [readInteger, ht, chars, List.map_cons]
  split
  · next h => exact absurd h (by simp)
  · next h => exact absurd (List.cons.inj h).1 hplus
  · next h => exact absurd (List.cons.inj h).1 hminus
  · next h => exact absurd (List.cons.inj h).1 hplus
  · next h => exact absurd (List.cons.inj h).1 hminus
  · rfl

theorem readInteger_of_toList_minus {text : String} {ds : List Nat} (hne : ds ≠ [])
    (ht : text.toList = '-' :: chars ds) :
    readInteger text = (appendDigits true 0 (chars ds)).map Int64.ofInt := by
  obtain ⟨d, ds, rfl⟩ := List.exists_cons_of_ne_nil hne
  rw [readInteger, ht]
  rfl

/-- **A whole number reads back from its text.** -/
theorem readInteger_writeInteger (n : Int64) : readInteger (writeInteger n) = .ok n := by
  have hfit := fits_toInt n
  have hofInt := n.ofInt_toInt
  rw [writeInteger]
  generalize n.toInt = i at hfit hofInt
  cases i with
  | ofNat k =>
    obtain ⟨ds, hchars, hnum, hlt, hne⟩ := toDigits_eq_map k
    have ht : (ToString.toString (Int.ofNat k)).toList = chars ds := by
      rw [← hchars]
      exact Nat.toList_repr
    have happ := appendDigits_digits false hlt 0
      (by rw [Nat.zero_mul, Nat.zero_add, hnum]; exact hfit)
    rw [Nat.zero_mul, Nat.zero_add, hnum] at happ
    rw [readInteger_of_toList hlt hne ht, show (0 : Int) = signed false 0 from rfl, happ]
    exact congrArg Except.ok hofInt
  | negSucc k =>
    obtain ⟨ds, hchars, hnum, hlt, hne⟩ := toDigits_eq_map (k + 1)
    have ht : (ToString.toString (Int.negSucc k)).toList = '-' :: chars ds := by
      rw [← hchars, ← Nat.toList_repr]
      show ("-" ++ (k + 1).repr).toList = _
      rw [String.toList_append]
      rfl
    have happ := appendDigits_digits true hlt 0
      (by rw [Nat.zero_mul, Nat.zero_add, hnum]; exact hfit)
    rw [Nat.zero_mul, Nat.zero_add, hnum] at happ
    rw [readInteger_of_toList_minus hne ht, show (0 : Int) = signed true 0 from rfl, happ]
    exact congrArg Except.ok hofInt

end Decimal
end ContentOverlay
