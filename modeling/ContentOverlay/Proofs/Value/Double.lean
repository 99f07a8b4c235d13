import Mathlib
import ContentOverlay.Proofs.Decimal.Fewest
import ContentOverlay.Proofs.Value.Text

/-!
# Doubles and the numbers that their texts denote

The text of a finite double denotes a rational number (`Denotes`), and between the double and that
number there are three facts.  The double is the nearest one to the number, so the text says which
double is meant.  No decimal with fewer digits has this double as its nearest.  And the reader gives
the nearest double of the number that a text denotes, whatever the text.

Together they say that no bit of a double gets lost in its text (`double_keeps_bits`).  What is left
are the infinities, which have a word each, and the NaNs, which share one.
-/

set_option autoImplicit false

namespace ContentOverlay
namespace Binary64

/-! ## Sign and magnitude -/

theorem lt_signBit_of_le {M : Nat} (h : M ≤ infinity) : M < signBit :=
  h.trans_lt (by decide)

theorem toNat_ofMagnitude {M : Nat} (negative : Bool) (h : M < signBit) :
    (ofMagnitude negative M).bits.toNat = if negative then signBit + M else M := by
  rw [ofMagnitude, UInt64.toNat_ofNat', Nat.mod_eq_of_lt]
  rw [signBit] at *
  split <;> omega

theorem magnitude_ofMagnitude {M : Nat} (negative : Bool) (h : M < signBit) :
    (ofMagnitude negative M).magnitude = M := by
  rw [magnitude, toNat_ofMagnitude negative h]
  split
  · rw [Nat.add_mod_left, Nat.mod_eq_of_lt h]
  · exact Nat.mod_eq_of_lt h

theorem negative_ofMagnitude {M : Nat} (negative : Bool) (h : M < signBit) :
    (ofMagnitude negative M).negative = negative := by
  rw [Binary64.negative, toNat_ofMagnitude negative h]
  cases negative with
  | true => exact decide_eq_true (Nat.le_add_right _ _)
  | false => exact decide_eq_false (Nat.not_le_of_lt h)

/-! ## Texts that denote a number -/

/-- The text is a numeral that denotes the number `q`, behind a minus if `negative` and otherwise
behind a plus or no sign. -/
def Denotes (text : String) (negative : Bool) (q : ℚ) : Prop :=
  (splitSign text.toList).1 = negative ∧
    ∃ digits scale, numeral (splitSign text.toList).2 = some (digits, scale) ∧
      (digits : ℚ) * 10 ^ scale = q

/-- **A numeral is read as the nearest double of the number that it denotes.** -/
theorem read_of_denotes {text : String} {negative : Bool} {q : ℚ} (h : Denotes text negative q) :
    ∃ y, read text = .ok y ∧ y.negative = negative ∧ IsNearest y.magnitude q := by
  obtain ⟨rfl, digits, scale, hnum, rfl⟩ := h
  have hnearest := isNearest_nearestDecimal digits scale
  have hlt := lt_signBit_of_le hnearest.le_infinity
  have hne : text.toList ≠ [] := by
    intro hnil
    have hnone : numeral (splitSign []).2 = none := by decide
    rw [hnil, hnone] at hnum
    cases hnum
  refine ⟨ofMagnitude (splitSign text.toList).1 (nearestDecimal digits scale), ?_,
    negative_ofMagnitude _ hlt, ?_⟩
  · rw [read, if_neg hne]
    dsimp only
    rw [readMagnitude, hnum]
  · rwa [magnitude_ofMagnitude _ hlt]

/-- The text of a double is its sign and the body behind it. -/
theorem denotes_signed {body : List Char} {digits : Nat} {scale : Int} (negative : Bool)
    (hhead : ∀ c ∈ body.head?, c ≠ '-' ∧ c ≠ '+') (hne : body ≠ [])
    (hnum : numeral body = some (digits, scale)) :
    Denotes (String.ofList (if negative then '-' :: body else body)) negative
      (digits * 10 ^ scale) := by
  have hsplit := splitSign_signed negative hhead hne
  rw [Denotes, String.toList_ofList, hsplit]
  exact ⟨rfl, digits, scale, hnum, rfl⟩

/-- **The text of a finite double denotes its shortest decimal**: a number that the double is
nearest to, with no more digits than any other decimal of that kind. -/
theorem denotes_write {x : Binary64} (hfin : x.magnitude < infinity) :
    ∃ (digits : Nat) (scale : Int), Denotes x.write x.negative (digits * 10 ^ scale) ∧
      IsNearest x.magnitude (digits * 10 ^ scale) ∧
      ∀ (d : Nat) (s : Int), IsNearest x.magnitude (d * 10 ^ s) →
        (Nat.toDigits 10 digits).length ≤ (Nat.toDigits 10 d).length := by
  have hnan : x.isNaN = false := decide_eq_false hfin.not_gt
  have hinf : x.isInfinite = false := decide_eq_false hfin.ne
  rw [write, hnan, if_neg Bool.false_ne_true, hinf]
  dsimp only
  rw [if_neg Bool.false_ne_true]
  by_cases hzero : x.magnitude = 0
  · have hbody : x.isZero = true := decide_eq_true hzero
    rw [if_pos hbody, hzero]
    refine ⟨0, 0, denotes_signed _ (by simp) (by simp) (by decide), ?_, fun d s _ => ?_⟩
    · exact isNearest_nearestDecimal 0 0
    · exact Nat.length_toDigits_pos
  · have hbody : x.isZero = false := decide_eq_false hzero
    have hpos := Nat.pos_of_ne_zero hzero
    rw [hbody, if_neg Bool.false_ne_true]
    obtain ⟨d, s, hnum, heq⟩ := numeral_positional (shortest x.magnitude).1 (shortest x.magnitude).2
    refine ⟨(shortest x.magnitude).1, (shortest x.magnitude).2, ?_, ?_, fun d s hd => ?_⟩
    · rw [← heq]
      exact denotes_signed _ (head?_positional _ _) (positional_ne_nil _ _) hnum
    · exact (rounds_iff_isNearest hpos hfin).1 (shortest_rounds hpos hfin)
    · exact length_shortest_le hpos hfin ((rounds_iff_isNearest hpos hfin).2 hd)

theorem read_write_of_isNaN {x : Binary64} (h : x.isNaN = true) : read x.write = .ok nan := by
  rw [write, if_pos h]
  decide

end Binary64

namespace Value

open Binary64 (Denotes IsNearest infinity)

/-- **The text of a double keeps every bit.**  Every double that is a number is read back with the
same bits, whether it is a zero of either sign, a subnormal or an infinity, and every NaN as a NaN.
For finite doubles this is so because the text denotes a number to which the double is nearest, with
as few digits as any such number has, and because a text that denotes a number is always read as the
nearest double, with its sign. -/
theorem double_keeps_bits (x : Binary64) :
    (∃ text, (double x).text? = some text ∧
      (∃ y, Value.read .double text = .ok (double y) ∧
        if x.isNaN then y.isNaN = true else y.bits = x.bits) ∧
      (x.magnitude < infinity → ∃ (digits : Nat) (scale : Int),
        Denotes text x.negative (digits * 10 ^ scale) ∧
        IsNearest x.magnitude (digits * 10 ^ scale) ∧
        ∀ (d : Nat) (s : Int), IsNearest x.magnitude (d * 10 ^ s) →
          (Nat.toDigits 10 digits).length ≤ (Nat.toDigits 10 d).length)) ∧
    ∀ (text : String) (negative : Bool) (q : ℚ), Denotes text negative q →
      ∃ y, Value.read .double text = .ok (double y) ∧ y.negative = negative ∧
        IsNearest y.magnitude q := by
  refine ⟨⟨x.write, rfl, ?_, Binary64.denotes_write⟩, fun text negative q h => ?_⟩
  · by_cases hx : x.isNaN = true
    · refine ⟨Binary64.nan, read_double_eq_ok_iff.2 (Binary64.read_write_of_isNaN hx), ?_⟩
      rw [if_pos hx]
      decide
    · refine ⟨x, read_double_eq_ok_iff.2 (Binary64.read_write (Bool.not_eq_true _ ▸ hx)), ?_⟩
      rw [if_neg hx]
  · obtain ⟨y, hy, hrest⟩ := Binary64.read_of_denotes h
    exact ⟨y, read_double_eq_ok_iff.2 hy, hrest⟩

end Value
end ContentOverlay
