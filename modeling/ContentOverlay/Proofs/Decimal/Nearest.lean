import Mathlib
import ContentOverlay.Decimal.Binary64

/-!
# Which numbers round to a double

A finite double of magnitude `M` is `m · 2 ^ e` with `m = significand M` and `e = exponent M`.  The
numbers that round to it reach half a unit of its last place to either side (`Rounds`), but only a
quarter below a power of two, where the next smaller double is only half as far away.  The ends
belong to it when `m` is even.

`nearest_eq_of_rounds` says that this is what `nearest` does.  A number in the upper part of the
interval has the exponent `e` itself.  One below a power of two has the exponent before it, and
there the rounding carries into the next power of two: the same double, reached as `2 ^ 53` units.
-/

set_option autoImplicit false

namespace ContentOverlay
namespace Binary64

/-! ## Powers with negative exponents -/

/-- A power is a quotient of two powers with natural exponents, one of which is zero. -/
theorem zpow_eq_div {b : Nat} (hb : 0 < b) (k : Int) :
    (b : ℚ) ^ k = (Nat.pow b k.toNat : Nat) / (Nat.pow b (-k).toNat : Nat) := by
  have hb0 : (b : ℚ) ≠ 0 := by exact_mod_cast hb.ne'
  rcases Int.le_total 0 k with h | h
  · obtain ⟨n, rfl⟩ := Int.eq_ofNat_of_zero_le h
    have hneg : (-(n : Int)).toNat = 0 := by omega
    rw [hneg, Int.toNat_natCast, zpow_natCast]
    simp
  · obtain ⟨n, hn⟩ := Int.eq_ofNat_of_zero_le (Int.neg_nonneg.2 h)
    obtain rfl : k = -(n : Int) := by omega
    have hneg : (-(n : Int)).toNat = 0 := by omega
    rw [hneg, Int.neg_neg, Int.toNat_natCast, zpow_neg, zpow_natCast]
    simp

theorem two_zpow_pos (k : Int) : (0 : ℚ) < 2 ^ k := zpow_pos (by norm_num) k

/-! ## The parts of `nearest` -/

/-- **The integer next to a quotient**, the even one if two are equally near. -/
theorem roundedQuotient_eq {num den m : Nat} (hd : 0 < den)
    (hlow : (m : ℚ) - 1 / 2 ≤ num / den) (hhigh : (num / den : ℚ) ≤ m + 1 / 2)
    (hodd : m % 2 = 1 → (m : ℚ) - 1 / 2 < num / den ∧ (num / den : ℚ) < m + 1 / 2) :
    roundedQuotient num den = m := by
  have hd' : (0 : ℚ) < den := by exact_mod_cast hd
  have hlow' : 2 * m * den ≤ 2 * num + den := by
    rw [le_div_iff₀ hd'] at hlow
    exact_mod_cast (by linarith : (2 * m * den : ℚ) ≤ 2 * num + den)
  have hhigh' : 2 * num ≤ 2 * m * den + den := by
    rw [div_le_iff₀ hd'] at hhigh
    exact_mod_cast (by linarith : (2 * num : ℚ) ≤ 2 * m * den + den)
  have hodd' : m % 2 = 1 → 2 * m * den < 2 * num + den ∧ 2 * num < 2 * m * den + den := by
    intro hm
    obtain ⟨h₁, h₂⟩ := hodd hm
    rw [lt_div_iff₀ hd'] at h₁
    rw [div_lt_iff₀ hd'] at h₂
    exact ⟨by exact_mod_cast (by linarith : (2 * m * den : ℚ) < 2 * num + den),
      by exact_mod_cast (by linarith : (2 * num : ℚ) < 2 * m * den + den)⟩
  obtain ⟨q, r, hr, rfl⟩ : ∃ q r, r < den ∧ num = den * q + r :=
    ⟨num / den, num % den, Nat.mod_lt _ hd, (Nat.div_add_mod num den).symm⟩
  have hquot : (den * q + r) / den = q := by
    rw [Nat.mul_add_div hd, Nat.div_eq_of_lt hr, Nat.add_zero]
  have hrem : (den * q + r) % den = r := by
    rw [Nat.mul_add_mod, Nat.mod_eq_of_lt hr]
  have hm : m = q ∨ m = q + 1 := by
    have h₁ : q < m + 1 := by
      by_contra hlt
      have : (m + 1) * den ≤ q * den := Nat.mul_le_mul_right den (by omega)
      nlinarith
    have h₂ : m < q + 2 := by
      by_contra hlt
      have : (q + 2) * den ≤ m * den := Nat.mul_le_mul_right den (by omega)
      nlinarith
    omega
  rw [roundedQuotient, hquot, hrem]
  rcases hm with rfl | rfl
  · have h₁ : 2 * r ≤ den := by nlinarith
    have h₂ : m % 2 = 1 → 2 * r < den := fun h => by nlinarith [(hodd' h).2]
    split_ifs <;> omega
  · have h₁ : den ≤ 2 * r := by nlinarith
    have h₂ : (q + 1) % 2 = 1 → den < 2 * r := fun h => by nlinarith [(hodd' h).1]
    split_ifs <;> omega

/-- The quotient lies between the power of two of its logarithm and the next one. -/
theorem floorLog2_spec {num den : Nat} (hn : 0 < num) (hd : 0 < den) :
    (2 : ℚ) ^ floorLog2 num den ≤ num / den ∧ (num / den : ℚ) < 2 ^ (floorLog2 num den + 1) := by
  have hn' : (0 : ℚ) < num := by exact_mod_cast hn
  have hd' : (0 : ℚ) < den := by exact_mod_cast hd
  have htwo : (2 : ℚ) ≠ 0 := by norm_num
  have hnum₁ : (2 : ℚ) ^ (num.log2 : Int) ≤ num := by
    rw [zpow_natCast]
    exact_mod_cast Nat.log2_self_le hn.ne'
  have hnum₂ : (num : ℚ) < 2 ^ ((num.log2 : Int) + 1) := by
    rw [zpow_add_one₀ htwo, zpow_natCast, ← pow_succ]
    exact_mod_cast Nat.lt_log2_self
  have hden₁ : (2 : ℚ) ^ (den.log2 : Int) ≤ den := by
    rw [zpow_natCast]
    exact_mod_cast Nat.log2_self_le hd.ne'
  have hden₂ : (den : ℚ) < 2 ^ ((den.log2 : Int) + 1) := by
    rw [zpow_add_one₀ htwo, zpow_natCast, ← pow_succ]
    exact_mod_cast Nat.lt_log2_self
  set k : Int := (num.log2 : Int) - den.log2 with hk
  have hupper : (num / den : ℚ) < 2 ^ (k + 1) := by
    rw [div_lt_iff₀ hd']
    calc (num : ℚ) < 2 ^ ((num.log2 : Int) + 1) := hnum₂
      _ = 2 ^ (k + 1) * 2 ^ (den.log2 : Int) := by
        rw [← zpow_add₀ htwo]
        congr 1
        omega
      _ ≤ 2 ^ (k + 1) * den := mul_le_mul_of_nonneg_left hden₁ (two_zpow_pos _).le
  have hlower : (2 : ℚ) ^ (k - 1) ≤ num / den := by
    rw [le_div_iff₀ hd']
    calc (2 : ℚ) ^ (k - 1) * den ≤ 2 ^ (k - 1) * 2 ^ ((den.log2 : Int) + 1) :=
          mul_le_mul_of_nonneg_left hden₂.le (two_zpow_pos _).le
      _ = 2 ^ (num.log2 : Int) := by
        rw [← zpow_add₀ htwo]
        congr 1
        omega
      _ ≤ num := hnum₁
  have htest : den * Nat.pow 2 k.toNat ≤ num * Nat.pow 2 (-k).toNat ↔
      (2 : ℚ) ^ k ≤ num / den := by
    have hpow : (0 : ℚ) < (Nat.pow 2 (-k).toNat : Nat) := by
      exact_mod_cast Nat.pow_pos (n := (-k).toNat) (by decide : 0 < 2)
    rw [show (2 : ℚ) = ((2 : Nat) : ℚ) from rfl, zpow_eq_div (by decide), div_le_div_iff₀ hpow hd']
    rw [mul_comm (den : Nat)]
    exact_mod_cast Iff.rfl
  rw [floorLog2]
  simp only [← hk]
  by_cases h : (2 : ℚ) ^ k ≤ num / den
  · rw [if_pos (htest.2 h)]
    exact ⟨h, hupper⟩
  · rw [if_neg fun h' => h (htest.1 h'), Int.sub_add_cancel]
    exact ⟨hlower, lt_of_not_ge h⟩

theorem floorLog2_eq {num den : Nat} (hn : 0 < num) (hd : 0 < den) {k : Int}
    (hlow : (2 : ℚ) ^ k ≤ num / den) (hhigh : (num / den : ℚ) < 2 ^ (k + 1)) :
    floorLog2 num den = k := by
  obtain ⟨h₁, h₂⟩ := floorLog2_spec hn hd
  have h₃ := (zpow_lt_zpow_iff_right₀ (by norm_num : (1 : ℚ) < 2)).1 (h₁.trans_lt hhigh)
  have h₄ := (zpow_lt_zpow_iff_right₀ (by norm_num : (1 : ℚ) < 2)).1 (hlow.trans_lt h₂)
  omega

/-- The quotient that is rounded, in units of `2 ^ e`. -/
theorem scaled_div_scaled (num den : Nat) (e : Int) :
    ((num * Nat.pow 2 (-e).toNat : Nat) / (den * Nat.pow 2 e.toNat : Nat) : ℚ) =
      num / den / 2 ^ e := by
  have hup : ((Nat.pow 2 e.toNat : Nat) : ℚ) ≠ 0 := by
    exact_mod_cast (Nat.pow_pos (n := e.toNat) (by decide : 0 < 2)).ne'
  have hdown : ((Nat.pow 2 (-e).toNat : Nat) : ℚ) ≠ 0 := by
    exact_mod_cast (Nat.pow_pos (n := (-e).toNat) (by decide : 0 < 2)).ne'
  rw [show (2 : ℚ) ^ e = ((2 : Nat) : ℚ) ^ e from rfl, zpow_eq_div (by decide), Nat.cast_mul,
    Nat.cast_mul]
  field_simp

/-- Rounding at the exponent `e`, once it is known. -/
theorem nearest_eq {num den m : Nat} {e : Int} (hn : 0 < num) (hd : 0 < den)
    (he : max (-1074) (floorLog2 num den - 52) = e)
    (hlow : ((m : ℚ) - 1 / 2) * 2 ^ e ≤ num / den) (hhigh : (num / den : ℚ) ≤ (m + 1 / 2) * 2 ^ e)
    (hodd : m % 2 = 1 →
      ((m : ℚ) - 1 / 2) * 2 ^ e < num / den ∧ (num / den : ℚ) < (m + 1 / 2) * 2 ^ e) :
    nearest num den = min infinity ((e + 1074).toNat * fractionBound + m) := by
  have hpos := two_zpow_pos e
  have hup : 0 < Nat.pow 2 e.toNat := Nat.pow_pos (by decide)
  have hround : roundedQuotient (num * Nat.pow 2 (-e).toNat) (den * Nat.pow 2 e.toNat) = m := by
    refine roundedQuotient_eq (Nat.mul_pos hd hup) ?_ ?_ fun hm => ?_
    · rwa [scaled_div_scaled, le_div_iff₀ hpos]
    · rwa [scaled_div_scaled, div_le_iff₀ hpos]
    · rw [scaled_div_scaled, lt_div_iff₀ hpos, div_lt_iff₀ hpos]
      exact hodd hm
  rw [nearest, if_neg hn.ne', he]
  show min infinity ((e + 1074).toNat * fractionBound + roundedQuotient _ _) = _
  rw [hround]

/-! ## The parts of a finite magnitude -/

theorem significand_pos {M : Nat} (h : 0 < M) : 0 < significand M := by
  rw [significand, fractionBound]
  split_ifs <;> omega

theorem significand_lt (M : Nat) : significand M < 2 * fractionBound := by
  rw [significand, fractionBound]
  split_ifs <;> omega

theorem le_exponent (M : Nat) : -1074 ≤ exponent M := by
  rw [exponent, fractionBound]
  split_ifs <;> omega

theorem exponent_le {M : Nat} (h : M < infinity) : exponent M ≤ 971 := by
  rw [infinity, fractionBound] at h
  rw [exponent, fractionBound]
  split_ifs <;> omega

/-- Only at the lowest exponent are there significands of fewer than 53 bits. -/
theorem fractionBound_le_significand {M : Nat} (h : -1074 < exponent M) :
    fractionBound ≤ significand M := by
  rw [exponent] at h
  rw [significand]
  split_ifs at h ⊢ <;> omega

/-- The magnitudes count the doubles in order. -/
theorem magnitude_eq (M : Nat) :
    (exponent M + 1074).toNat * fractionBound + significand M = M := by
  rw [exponent, significand]
  split
  · exact Nat.zero_add M
  · next h =>
    have hquot : 1 ≤ M / fractionBound := (Nat.one_le_div_iff (by decide)).2 (Nat.not_lt.1 h)
    have hunits : (((M / fractionBound : Nat) : Int) - 1075 + 1074).toNat + 1 =
        M / fractionBound := by
      omega
    have hdiv := Nat.div_add_mod' M fractionBound
    rw [← hunits, Nat.add_mul, Nat.one_mul] at hdiv
    omega

/-! ## The interval of a double -/

/-- How far the interval of a double reaches down, in units of its last place. -/
def reachBelow (M : Nat) : ℚ :=
  if significand M = fractionBound ∧ -1074 < exponent M then 1 / 4 else 1 / 2

theorem reachBelow_le (M : Nat) : reachBelow M ≤ 1 / 2 := by
  rw [reachBelow]
  split_ifs <;> norm_num

theorem le_reachBelow (M : Nat) : 1 / 4 ≤ reachBelow M := by
  rw [reachBelow]
  split_ifs <;> norm_num

/-- **The numbers that round to the double of magnitude `M`.** -/
structure Rounds (M : Nat) (q : ℚ) : Prop where
  low_le : (significand M - reachBelow M) * 2 ^ exponent M ≤ q
  le_high : q ≤ (significand M + 1 / 2) * 2 ^ exponent M
  /-- The ends belong to an even double. -/
  strict : significand M % 2 = 1 → (significand M - reachBelow M) * 2 ^ exponent M < q ∧
    q < (significand M + 1 / 2) * 2 ^ exponent M

theorem Rounds.pos {M : Nat} {q : ℚ} (h : Rounds M q) (hM : 0 < M) : 0 < q := by
  refine lt_of_lt_of_le (mul_pos ?_ (two_zpow_pos _)) h.low_le
  have h₁ : (1 : ℚ) ≤ significand M := by exact_mod_cast significand_pos hM
  linarith [reachBelow_le M]

theorem Rounds.lt {M : Nat} {q : ℚ} (h : Rounds M q) : q < 2 ^ (exponent M + 53) := by
  refine lt_of_le_of_lt h.le_high ?_
  have hpow : (2 : ℚ) ^ (exponent M + 53) = 9007199254740992 * 2 ^ exponent M := by
    rw [zpow_add₀ (by norm_num), mul_comm]
    norm_num
  rw [hpow]
  refine mul_lt_mul_of_pos_right ?_ (two_zpow_pos _)
  have h₁ : significand M + 1 ≤ 9007199254740992 := significand_lt M
  have h₂ : (significand M + 1 : ℚ) ≤ 9007199254740992 := by exact_mod_cast h₁
  linarith

theorem Rounds.num_pos {num den M : Nat} (hd : 0 < den) (hM : 0 < M) (h : Rounds M (num / den)) :
    0 < num := by
  have hd' : (0 : ℚ) < den := by exact_mod_cast hd
  have := h.pos hM
  rw [lt_div_iff₀ hd', zero_mul] at this
  exact_mod_cast this

theorem two_zpow_add_52 (e : Int) : (2 : ℚ) ^ (e + 52) = fractionBound * 2 ^ e := by
  rw [zpow_add₀ (by norm_num), mul_comm, fractionBound]
  norm_num

/-- A number of the interval that has the exponent of the double itself. -/
theorem nearest_eq_of_rounds_of_le {num den M : Nat} (hd : 0 < den) (hM : 0 < M)
    (hfin : M < infinity) (h : Rounds M (num / den))
    (hcase : exponent M = -1074 ∨ (2 : ℚ) ^ (exponent M + 52) ≤ num / den) :
    nearest num den = M := by
  have hn := h.num_pos hd hM
  have hpow := two_zpow_pos (exponent M)
  have he : max (-1074) (floorLog2 num den - 52) = exponent M := by
    have hlog := (floorLog2_spec hn hd).1
    have hlt := (zpow_lt_zpow_iff_right₀ (by norm_num : (1 : ℚ) < 2)).1 (hlog.trans_lt h.lt)
    rcases hcase with hbot | hge
    · omega
    · rw [floorLog2_eq hn hd hge (by rw [Int.add_assoc]; exact h.lt)]
      have := le_exponent M
      omega
  rw [nearest_eq hn hd he (m := significand M), magnitude_eq, min_eq_right hfin.le]
  · refine le_trans (mul_le_mul_of_nonneg_right ?_ hpow.le) h.low_le
    linarith [reachBelow_le M]
  · exact h.le_high
  · intro hodd
    refine ⟨lt_of_le_of_lt (mul_le_mul_of_nonneg_right ?_ hpow.le) (h.strict hodd).1,
      (h.strict hodd).2⟩
    linarith [reachBelow_le M]

/-- Only below a power of two does the interval have numbers of the exponent before. -/
theorem Rounds.significand_eq {M : Nat} {q : ℚ} (h : Rounds M q) (hexp : -1074 < exponent M)
    (hlt : q < 2 ^ (exponent M + 52)) : significand M = fractionBound := by
  refine le_antisymm ?_ (fractionBound_le_significand hexp)
  by_contra hgt
  have h₁ : (fractionBound + 1 : ℚ) ≤ significand M := by
    exact_mod_cast Nat.lt_of_not_le hgt
  have h₂ : (fractionBound : ℚ) * 2 ^ exponent M ≤
      (significand M - reachBelow M) * 2 ^ exponent M :=
    mul_le_mul_of_nonneg_right (by linarith [reachBelow_le M]) (two_zpow_pos _).le
  linarith [h.low_le, two_zpow_add_52 (exponent M)]

/-- A number of the interval that is below a power of two and has the exponent before. -/
theorem nearest_eq_of_rounds_of_lt {num den M : Nat} (hd : 0 < den) (hM : 0 < M)
    (hfin : M < infinity) (h : Rounds M (num / den)) (hexp : -1074 < exponent M)
    (hlt : (num / den : ℚ) < 2 ^ (exponent M + 52)) : nearest num den = M := by
  have hn := h.num_pos hd hM
  have hm := h.significand_eq hexp hlt
  have hreach : reachBelow M = 1 / 4 := if_pos ⟨hm, hexp⟩
  have hhalf : (2 : ℚ) ^ exponent M = 2 * 2 ^ (exponent M - 1) := by
    rw [zpow_sub_one₀ (by norm_num)]
    ring
  have hpow := two_zpow_pos (exponent M - 1)
  have hlow := h.low_le
  rw [hm, hreach, hhalf] at hlow
  rw [two_zpow_add_52, hhalf] at hlt
  have hF : (fractionBound : ℚ) = 4503599627370496 := by norm_num [fractionBound]
  have he : max (-1074) (floorLog2 num den - 52) = exponent M - 1 := by
    have hpow51 : (2 : ℚ) ^ (exponent M + 51) = fractionBound * 2 ^ (exponent M - 1) := by
      rw [show exponent M + 51 = (exponent M - 1) + 52 by omega, two_zpow_add_52]
    rw [floorLog2_eq hn hd (k := exponent M + 51)]
    · omega
    · rw [hpow51]
      nlinarith
    · rw [show exponent M + 51 + 1 = exponent M + 52 by omega, two_zpow_add_52, hhalf]
      exact hlt
  rw [nearest_eq hn hd he (m := 2 * fractionBound)]
  · have hM' := magnitude_eq M
    rw [hm, show (exponent M + 1074).toNat = (exponent M - 1 + 1074).toNat + 1 by omega,
      Nat.add_mul] at hM'
    rw [show (exponent M - 1 + 1074).toNat * fractionBound + 2 * fractionBound = M by omega,
      min_eq_right hfin.le]
  · push_cast
    linarith
  · push_cast
    linarith
  · intro hodd
    rw [Nat.mul_mod_right] at hodd
    exact absurd hodd (by decide)

/-- **The nearest double of a number in the interval is the double of the interval.** -/
theorem nearest_eq_of_rounds {num den M : Nat} (hd : 0 < den) (hM : 0 < M) (hfin : M < infinity)
    (h : Rounds M (num / den)) : nearest num den = M := by
  by_cases hcase : exponent M = -1074 ∨ (2 : ℚ) ^ (exponent M + 52) ≤ num / den
  · exact nearest_eq_of_rounds_of_le hd hM hfin h hcase
  · obtain ⟨hbot, hlt⟩ := not_or.1 hcase
    have hexp : -1074 < exponent M := lt_of_le_of_ne (le_exponent M) (Ne.symm hbot)
    exact nearest_eq_of_rounds_of_lt hd hM hfin h hexp (lt_of_not_ge hlt)

end Binary64
end ContentOverlay
