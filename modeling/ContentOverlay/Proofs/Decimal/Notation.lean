import Mathlib
import ContentOverlay.Decimal.Notation
import ContentOverlay.Proofs.Decimal.Integer
import ContentOverlay.Proofs.Decimal.Shortest

/-!
# Doubles read back

The text of a double is a sign, and then a word or the positional form of its shortest decimal.  The
positional form may show other digits than the decimal has, with zeros behind or in front, but it
denotes the same number (`numeral_positional`).  That number rounds to the double, so the double is
what the text reads as: `read_write`, for every double that is a number.
-/

set_option autoImplicit false

namespace ContentOverlay
namespace Binary64

open Decimal (chars number digitsOf digit? toDigits_eq_map)

/-! ## Numerals -/

theorem numeral_whole {whole : List Nat} (hw : ∀ d ∈ whole, d < 10) (hne : whole ≠ []) :
    numeral (chars whole) = some (number whole, 0) := by
  rw [numeral, Decimal.digitsOf_chars hw]
  show (if whole = [] ∧ ([] : List Nat) = [] then none else (exponentPart []).map _) = _
  rw [if_neg fun h => hne h.1, exponentPart, Option.map_some, List.append_nil]
  rfl

theorem numeral_fraction {whole fraction : List Nat} (hw : ∀ d ∈ whole, d < 10)
    (hf : ∀ d ∈ fraction, d < 10) (hne : whole ≠ []) :
    numeral (chars whole ++ '.' :: chars fraction) =
      some (number (whole ++ fraction), -(fraction.length : Int)) := by
  have hpoint : ∀ c ∈ ('.' :: chars fraction).head?, digit? c = none := by
    intro c hc
    obtain rfl := Option.mem_some_iff.1 hc
    decide
  rw [numeral, Decimal.digitsOf_append hw hpoint]
  show (if whole = [] ∧ (digitsOf (chars fraction)).1 = [] then none
    else (exponentPart (digitsOf (chars fraction)).2).map fun (e : Int) =>
      (number (whole ++ (digitsOf (chars fraction)).1),
        e - (digitsOf (chars fraction)).1.length)) = _
  rw [Decimal.digitsOf_chars hf, if_neg fun h => hne h.1, exponentPart, Option.map_some,
    Int.zero_sub]

/-- **The positional form of a decimal denotes the decimal.** -/
theorem numeral_positional (digits : Nat) (scale : Int) :
    ∃ d s, numeral (positional digits scale) = some (d, s) ∧
      (d : ℚ) * 10 ^ s = digits * 10 ^ scale := by
  obtain ⟨ds, hchars, hnum, hlt, hne⟩ := toDigits_eq_map digits
  have hlen : (chars ds).length = ds.length := List.length_map _
  have hzeros : ∀ n, List.replicate n '0' = chars (List.replicate n 0) := fun n => by
    rw [chars, List.map_replicate]
    rfl
  have hzero_lt : ∀ n, ∀ d ∈ List.replicate n 0, d < 10 := fun n d hd => by
    rw [List.eq_of_mem_replicate hd]
    decide
  have happ_lt : ∀ {as bs : List Nat}, (∀ d ∈ as, d < 10) → (∀ d ∈ bs, d < 10) →
      ∀ d ∈ as ++ bs, d < 10 := fun ha hb d hd => (List.mem_append.1 hd).elim (ha d) (hb d)
  rw [positional, hchars]
  simp only
  split
  · next hs =>
    obtain ⟨n, rfl⟩ := Int.eq_ofNat_of_zero_le hs
    rw [Int.toNat_natCast, hzeros, chars, chars, ← List.map_append]
    refine ⟨_, 0, numeral_whole (happ_lt hlt (hzero_lt n)) (by simp [hne]), ?_⟩
    rw [Decimal.number_append, Decimal.number_replicate_zero, hnum, List.length_replicate,
      zpow_zero, zpow_natCast]
    push_cast
    ring
  · next hs =>
    obtain ⟨n, hn⟩ := Int.eq_ofNat_of_zero_le (by omega : 0 ≤ -scale)
    obtain rfl : scale = -(n : Int) := by omega
    rw [Int.neg_neg, Int.toNat_natCast, hlen]
    split
    · next hlt' =>
      rw [chars, ← List.map_take, ← List.map_drop]
      have htake : ds.take (ds.length - n) ≠ [] := by
        rw [← List.length_pos_iff, List.length_take]
        omega
      refine ⟨_, _, numeral_fraction (fun d hd => hlt d (List.mem_of_mem_take hd))
        (fun d hd => hlt d (List.mem_of_mem_drop hd)) htake, ?_⟩
      rw [List.take_append_drop, hnum, List.length_drop, Nat.sub_sub_self hlt'.le]
    · next hlt' =>
      rw [List.cons_append, List.cons_append, hzeros, chars, chars, ← List.map_append]
      refine ⟨_, _, numeral_fraction (by simp : ∀ d ∈ [0], d < 10)
        (happ_lt (hzero_lt _) hlt) (by simp), ?_⟩
      rw [← List.append_assoc, Decimal.number_append, List.singleton_append,
        ← List.replicate_succ, Decimal.number_replicate_zero, hnum, List.length_append,
        List.length_replicate, Nat.zero_mul, Nat.zero_add, Nat.sub_add_cancel (by omega)]

/-- The positional form begins with a digit. -/
theorem positional_eq_cons (digits : Nat) (scale : Int) :
    ∃ d < 10, ∃ rest, positional digits scale = d.digitChar :: rest := by
  obtain ⟨ds, hchars, -, hlt, hne⟩ := toDigits_eq_map digits
  obtain ⟨d, ds, rfl⟩ := List.exists_cons_of_ne_nil hne
  have hd := hlt d List.mem_cons_self
  rw [positional, hchars]
  simp only
  split
  · exact ⟨d, hd, _, rfl⟩
  · split
    · next hlt' =>
      obtain ⟨n, hn⟩ := Nat.exists_eq_succ_of_ne_zero (Nat.sub_ne_zero_of_lt hlt')
      rw [hn]
      exact ⟨d, hd, _, rfl⟩
    · exact ⟨0, by decide, _, rfl⟩

theorem positional_ne_nil (digits : Nat) (scale : Int) : positional digits scale ≠ [] := by
  obtain ⟨d, -, rest, hcons⟩ := positional_eq_cons digits scale
  rw [hcons]
  exact List.cons_ne_nil _ _

theorem head?_positional (digits : Nat) (scale : Int) :
    ∀ c ∈ (positional digits scale).head?, c ≠ '-' ∧ c ≠ '+' := by
  obtain ⟨d, hd, rest, hcons⟩ := positional_eq_cons digits scale
  rw [hcons]
  intro c hc
  obtain rfl := Option.mem_some_iff.1 hc
  exact ⟨Decimal.digitChar_ne_of_digit? hd (by decide),
    Decimal.digitChar_ne_of_digit? hd (by decide)⟩

/-! ## Magnitudes -/

theorem ofMagnitude_magnitude (x : Binary64) : ofMagnitude x.negative x.magnitude = x := by
  have hlt : x.bits.toNat < 18446744073709551616 := x.bits.toNat_lt
  have hbits : (if x.negative then signBit + x.magnitude else x.magnitude) = x.bits.toNat := by
    rw [negative, magnitude, signBit]
    split
    · next h =>
      have := of_decide_eq_true h
      omega
    · next h =>
      have := of_decide_eq_false (Bool.not_eq_true _ ▸ h)
      omega
  rw [ofMagnitude, hbits, UInt64.ofNat_toNat]

/-- A magnitude that is no infinity and no zero reads back from its shortest decimal. -/
theorem readMagnitude_shortest {M : Nat} (hM : 0 < M) (hfin : M < infinity) :
    readMagnitude (positional (shortest M).1 (shortest M).2) = some M := by
  obtain ⟨d, s, hnum, heq⟩ := numeral_positional (shortest M).1 (shortest M).2
  have hrounds := shortest_rounds hM hfin
  rw [← heq] at hrounds
  rw [readMagnitude, hnum]
  exact congrArg some (nearestDecimal_eq_of_rounds hM hfin hrounds)

/-! ## Doubles -/

/-- A sign is split off again, as what stands behind it has none of its own. -/
theorem splitSign_signed {cs : List Char} (negative : Bool)
    (hhead : ∀ c ∈ cs.head?, c ≠ '-' ∧ c ≠ '+') (hne : cs ≠ []) :
    splitSign (if negative then '-' :: cs else cs) = (negative, cs) := by
  cases negative with
  | true => rfl
  | false =>
    obtain ⟨c, cs, rfl⟩ := List.exists_cons_of_ne_nil hne
    obtain ⟨hminus, hplus⟩ := hhead c rfl
    show splitSign (c :: cs) = _
    rw [splitSign]
    · exact fun _ h => hminus (List.cons.inj h).1
    · exact fun _ h => hplus (List.cons.inj h).1

theorem read_ofList {cs : List Char} {M : Nat} (negative : Bool) (hM : readMagnitude cs = some M)
    (hhead : ∀ c ∈ cs.head?, c ≠ '-' ∧ c ≠ '+') (hne : cs ≠ []) :
    read (String.ofList (if negative then '-' :: cs else cs)) = .ok (ofMagnitude negative M) := by
  have hne' : (if negative then '-' :: cs else cs) ≠ [] := by
    split
    · simp
    · exact hne
  rw [read, String.toList_ofList, if_neg hne', splitSign_signed negative hhead hne]
  dsimp only
  rw [hM]

/-- **A double reads back from its text**, unless it is no number. -/
theorem read_write {x : Binary64} (h : x.isNaN = false) : read x.write = .ok x := by
  have hle : x.magnitude ≤ infinity := Nat.le_of_not_lt (of_decide_eq_false h)
  rw [write, h, if_neg Bool.false_ne_true]
  conv_rhs => rw [← ofMagnitude_magnitude x]
  by_cases hinf : x.isInfinite = true
  · rw [if_pos hinf, of_decide_eq_true hinf]
    exact read_ofList _ (by decide) (by simp) (by simp)
  · rw [if_neg hinf]
    have hfin : x.magnitude < infinity := lt_of_le_of_ne hle fun he => hinf (decide_eq_true he)
    by_cases hzero : x.isZero = true
    · rw [if_pos hzero, of_decide_eq_true hzero]
      exact read_ofList _ (by decide) (by simp) (by simp)
    · rw [if_neg hzero]
      have hpos : 0 < x.magnitude :=
        Nat.pos_of_ne_zero fun he => hzero (decide_eq_true he)
      exact read_ofList _ (readMagnitude_shortest hpos hfin) (head?_positional _ _)
        (positional_ne_nil _ _)

end Binary64
end ContentOverlay
