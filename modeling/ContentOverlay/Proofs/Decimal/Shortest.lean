import Mathlib
import ContentOverlay.Decimal.Shortest
import ContentOverlay.Proofs.Decimal.Nearest

/-!
# The shortest decimal rounds to its double

`Decimal.Shortest` looks for a decimal in the interval of a double, from the coarsest grid on.  Here
its integer comparisons are read as statements about rational numbers (`contains_onGrid_iff`): a hit
on a grid is a number that rounds to the double.

The search has an end, after which it takes the nearest point of the last grid without looking.
That point is in the interval too, because the last grid is fine enough: its step is less than half
a unit in the last place of the double (`ten_zpow_scaleAbove_lt`).  So whatever the search gives
rounds to the double (`shortest_rounds`), and a decimal that rounds to a double is read as that
double (`nearestDecimal_eq_of_rounds`).
-/

set_option autoImplicit false

namespace ContentOverlay
namespace Binary64

theorem ten_zpow_pos (k : Int) : (0 : ℚ) < 10 ^ k := zpow_pos (by norm_num) k

/-! ## The interval as a set of rational numbers -/

theorem interval_den_pos (M : Nat) : 0 < (interval M).den := Nat.pow_pos (by decide)

/-- The natural numbers of an interval stand for a multiple of `2 ^ exponent M`. -/
theorem scaled_div_den (M a : Nat) :
    ((a * Nat.pow 2 (exponent M - 2).toNat : Nat) : ℚ) / (interval M).den =
      a / 4 * 2 ^ exponent M := by
  have h : (2 : ℚ) ^ (exponent M - 2) =
      (Nat.pow 2 (exponent M - 2).toNat : Nat) / (interval M).den :=
    zpow_eq_div (by decide) _
  have hsub : (2 : ℚ) ^ (exponent M - 2) = 2 ^ exponent M / 4 := by
    rw [zpow_sub₀ (by norm_num)]
    norm_num
  rw [Nat.cast_mul, mul_div_assoc, ← h, hsub]
  ring

theorem mid_div_den (M : Nat) :
    ((interval M).mid : ℚ) / (interval M).den = significand M * 2 ^ exponent M := by
  rw [show (interval M).mid = 4 * significand M * Nat.pow 2 (exponent M - 2).toNat from rfl,
    scaled_div_den]
  push_cast
  ring

theorem high_div_den (M : Nat) :
    ((interval M).high : ℚ) / (interval M).den = (significand M + 1 / 2) * 2 ^ exponent M := by
  rw [show (interval M).high = (4 * significand M + 2) * Nat.pow 2 (exponent M - 2).toNat from rfl,
    scaled_div_den]
  push_cast
  ring

theorem low_div_den {M : Nat} (hM : 0 < M) :
    ((interval M).low : ℚ) / (interval M).den =
      (significand M - reachBelow M) * 2 ^ exponent M := by
  have hpos := significand_pos hM
  by_cases h : significand M = fractionBound ∧ -1074 < exponent M
  · have hlow : (interval M).low =
        (4 * significand M - 1) * Nat.pow 2 (exponent M - 2).toNat := by
      simp only [interval, if_pos h]
    rw [hlow, scaled_div_den, reachBelow, if_pos h, Nat.cast_sub (by omega)]
    push_cast
    ring
  · have hlow : (interval M).low =
        (4 * significand M - 2) * Nat.pow 2 (exponent M - 2).toNat := by
      simp only [interval, if_neg h]
    rw [hlow, scaled_div_den, reachBelow, if_neg h, Nat.cast_sub (by omega)]
    push_cast
    ring

/-- Comparing on the grid of a scale is comparing with a decimal of that scale. -/
theorem le_onGrid_iff {a d n : Nat} (hd : 0 < d) (scale : Int) :
    a * Nat.pow 10 (-scale).toNat ≤ n * (d * Nat.pow 10 scale.toNat) ↔
      (a : ℚ) / d ≤ n * 10 ^ scale := by
  have hd' : (0 : ℚ) < d := by exact_mod_cast hd
  have hpow : (0 : ℚ) < (Nat.pow 10 (-scale).toNat : Nat) := by
    exact_mod_cast Nat.pow_pos (n := (-scale).toNat) (by decide : 0 < 10)
  rw [show (10 : ℚ) = ((10 : Nat) : ℚ) from rfl, zpow_eq_div (by decide), ← mul_div_assoc,
    div_le_div_iff₀ hd' hpow, mul_right_comm, mul_assoc (n : ℚ), mul_comm (d : ℚ), ← mul_assoc]
  rw [← mul_assoc, mul_right_comm (n : Nat)]
  exact_mod_cast Iff.rfl

theorem onGrid_le_iff {a d n : Nat} (hd : 0 < d) (scale : Int) :
    n * (d * Nat.pow 10 scale.toNat) ≤ a * Nat.pow 10 (-scale).toNat ↔
      n * 10 ^ scale ≤ (a : ℚ) / d := by
  have hd' : (0 : ℚ) < d := by exact_mod_cast hd
  have hpow : (0 : ℚ) < (Nat.pow 10 (-scale).toNat : Nat) := by
    exact_mod_cast Nat.pow_pos (n := (-scale).toNat) (by decide : 0 < 10)
  rw [show (10 : ℚ) = ((10 : Nat) : ℚ) from rfl, zpow_eq_div (by decide), ← mul_div_assoc,
    div_le_div_iff₀ hpow hd', mul_assoc (n : ℚ), mul_comm _ (d : ℚ)]
  exact_mod_cast Iff.rfl

/-- **A hit on a grid rounds to the double**, and every number of the grid that does is a hit. -/
theorem contains_onGrid_iff {M : Nat} (hM : 0 < M) (scale : Int) (n : Nat) :
    ((interval M).onGrid scale).contains n = true ↔ Rounds M (n * 10 ^ scale) := by
  have hd := interval_den_pos M
  have hlow := le_onGrid_iff (a := (interval M).low) (n := n) hd scale
  have hhigh := onGrid_le_iff (a := (interval M).high) (n := n) hd scale
  rw [low_div_den hM] at hlow
  rw [high_div_den] at hhigh
  have hlow' := not_congr (onGrid_le_iff (a := (interval M).low) (n := n) hd scale)
  have hhigh' := not_congr (le_onGrid_iff (a := (interval M).high) (n := n) hd scale)
  rw [low_div_den hM, not_le, not_le] at hlow'
  rw [high_div_den, not_le, not_le] at hhigh'
  rw [Interval.contains]
  by_cases heven : significand M % 2 = 0
  · rw [if_pos (show ((interval M).onGrid scale).closed = true from decide_eq_true heven),
      Bool.and_eq_true, decide_eq_true_eq, decide_eq_true_eq]
    refine ⟨?_, ?_⟩
    · rintro ⟨h₁, h₂⟩
      exact ⟨hlow.1 h₁, hhigh.1 h₂, fun hodd => by omega⟩
    · rintro ⟨h₁, h₂, -⟩
      exact ⟨hlow.2 h₁, hhigh.2 h₂⟩
  · rw [if_neg (show ¬ ((interval M).onGrid scale).closed = true from by
      rw [show ((interval M).onGrid scale).closed = decide (significand M % 2 = 0) from rfl,
        decide_eq_true_eq]
      exact heven), Bool.and_eq_true, decide_eq_true_eq, decide_eq_true_eq]
    refine ⟨?_, ?_⟩
    · rintro ⟨h₁, h₂⟩
      have h₃ := hlow'.1 h₁
      have h₄ := hhigh'.1 h₂
      exact ⟨h₃.le, h₄.le, fun _ => ⟨h₃, h₄⟩⟩
    · rintro ⟨-, -, h⟩
      have hodd := h (Nat.mod_two_ne_zero.1 heven)
      exact ⟨hlow'.2 hodd.1, hhigh'.2 hodd.2⟩

theorem contains_of_neighbour? {i : Interval} {n : Nat} (h : i.neighbour? = some n) :
    i.contains n = true := by
  rw [Interval.neighbour?] at h
  split at h
  · next h₁ h₂ =>
    rw [Interval.nearer] at h
    split at h
    · exact Option.some.inj h ▸ h₁
    · exact Option.some.inj h ▸ h₂
  · next h₁ _ => exact Option.some.inj h ▸ h₁
  · next _ h₂ => exact Option.some.inj h ▸ h₂
  · exact absurd h (by simp)

/-! ## The last grid -/

/-- Between two powers of two that enclose it, a power of ten can be compared with powers of two. -/
theorem ten_zpow_lt_two_zpow {t k : Int} (h₁ : 10 * t < 3 * k) (h₂ : 23 * t < 7 * k) :
    (10 : ℚ) ^ t < 2 ^ k := by
  have hone : (1 : ℚ) < 2 := by norm_num
  rcases Int.le_total 0 t with ht | ht
  · refine lt_of_pow_lt_pow_left₀ 3 (two_zpow_pos k).le ?_
    calc ((10 : ℚ) ^ t) ^ 3 = 1000 ^ t := by
          rw [← zpow_natCast, ← zpow_mul, mul_comm, zpow_mul]
          norm_num
      _ ≤ 1024 ^ t := zpow_le_zpow_left₀ ht (by norm_num) (by norm_num)
      _ = 2 ^ (10 * t) := by
          rw [zpow_mul]
          norm_num
      _ < 2 ^ (3 * k) := (zpow_lt_zpow_iff_right₀ hone).2 h₁
      _ = (2 ^ k) ^ 3 := by
          rw [← zpow_natCast, ← zpow_mul, mul_comm]
          norm_num
  · refine lt_of_pow_lt_pow_left₀ 7 (two_zpow_pos k).le ?_
    obtain ⟨u, hu⟩ := Int.eq_ofNat_of_zero_le (Int.neg_nonneg.2 ht)
    obtain rfl : t = -(u : Int) := by omega
    calc ((10 : ℚ) ^ (-(u : Int))) ^ 7 = ((10000000 : ℚ) ^ u)⁻¹ := by
          rw [zpow_neg, inv_pow, zpow_natCast, ← pow_mul, mul_comm, pow_mul]
          norm_num
      _ ≤ ((8388608 : ℚ) ^ u)⁻¹ :=
          inv_anti₀ (by positivity) (pow_le_pow_left₀ (by norm_num) (by norm_num) u)
      _ = 2 ^ (23 * -(u : Int)) := by
          rw [zpow_mul, zpow_neg, zpow_natCast]
          norm_num
      _ < 2 ^ (7 * k) := (zpow_lt_zpow_iff_right₀ hone).2 h₂
      _ = (2 ^ k) ^ 7 := by
          rw [← zpow_natCast, ← zpow_mul, mul_comm]
          norm_num

/-- The last grid of the search is finer than half a unit in the last place. -/
theorem ten_zpow_scaleAbove_lt {M : Nat} (hM : 0 < M) (hfin : M < infinity) :
    (10 : ℚ) ^ (scaleAbove M - 24) < 2 ^ (exponent M - 1) := by
  have hlog : (significand M).log2 < 53 := by
    rw [Nat.log2_lt (significand_pos hM).ne']
    exact significand_lt M
  have h₁ := le_exponent M
  have h₂ := exponent_le hfin
  have h₃ : scaleAbove M =
      (((significand M).log2 : Int) + exponent M + 1) * 30103 / 100000 + 1 := rfl
  exact ten_zpow_lt_two_zpow (by omega) (by omega)

/-- The nearer neighbour is at most half a step away. -/
theorem abs_nearer_sub_le {i : Interval} (hd : 0 < i.den) :
    |(i.nearer (i.mid / i.den) : ℚ) - i.mid / i.den| ≤ 1 / 2 := by
  have hd' : (0 : ℚ) < i.den := by exact_mod_cast hd
  have hdiv : (i.mid : ℚ) = i.den * (i.mid / i.den : Nat) + (i.mid % i.den : Nat) := by
    exact_mod_cast (Nat.div_add_mod i.mid i.den).symm
  have hquot : (i.mid : ℚ) / i.den = (i.mid / i.den : Nat) + (i.mid % i.den : Nat) / i.den := by
    rw [hdiv]
    field_simp
  have hrem : ((i.mid % i.den : Nat) : ℚ) / i.den < 1 := by
    rw [div_lt_one hd']
    exact_mod_cast Nat.mod_lt _ hd
  have hrem₀ : 0 ≤ ((i.mid % i.den : Nat) : ℚ) / i.den := by positivity
  rw [Interval.nearer]
  split
  · next h =>
    have hhalf : ((i.mid % i.den : Nat) : ℚ) / i.den ≤ 1 / 2 := by
      rw [div_le_iff₀ hd']
      have : ((2 * (i.mid % i.den) : Nat) : ℚ) < i.den := by exact_mod_cast h
      push_cast at this
      linarith
    rw [hquot, abs_le]
    constructor <;> linarith
  · next h =>
    have hhalf : 1 / 2 ≤ ((i.mid % i.den : Nat) : ℚ) / i.den := by
      rw [le_div_iff₀ hd']
      have : (i.den : ℚ) ≤ (2 * (i.mid % i.den) : Nat) := by exact_mod_cast Nat.le_of_not_lt h
      push_cast at this
      linarith
    rw [hquot, abs_le]
    push_cast
    constructor <;> linarith

/-- The double on a grid. -/
theorem mid_onGrid (M : Nat) (scale : Int) :
    (((interval M).onGrid scale).mid : ℚ) / ((interval M).onGrid scale).den * 10 ^ scale =
      significand M * 2 ^ exponent M := by
  have hd : ((interval M).den : ℚ) ≠ 0 := by exact_mod_cast (interval_den_pos M).ne'
  have hup : ((Nat.pow 10 scale.toNat : Nat) : ℚ) ≠ 0 := by
    exact_mod_cast (Nat.pow_pos (n := scale.toNat) (by decide : 0 < 10)).ne'
  have hdown : ((Nat.pow 10 (-scale).toNat : Nat) : ℚ) ≠ 0 := by
    exact_mod_cast (Nat.pow_pos (n := (-scale).toNat) (by decide : 0 < 10)).ne'
  rw [← mid_div_den,
    show ((interval M).onGrid scale).mid = (interval M).mid * Nat.pow 10 (-scale).toNat from rfl,
    show ((interval M).onGrid scale).den = (interval M).den * Nat.pow 10 scale.toNat from rfl,
    show (10 : ℚ) = ((10 : Nat) : ℚ) from rfl, zpow_eq_div (by decide), Nat.cast_mul, Nat.cast_mul]
  field_simp

theorem onGrid_den_pos (M : Nat) (scale : Int) : 0 < ((interval M).onGrid scale).den :=
  Nat.mul_pos (interval_den_pos M) (Nat.pow_pos (by decide))

/-- On a grid that is fine enough, the nearest point to a double rounds to it. -/
theorem rounds_nearer {M : Nat} {scale : Int} (hfine : (10 : ℚ) ^ scale < 2 ^ (exponent M - 1)) :
    let g := (interval M).onGrid scale
    Rounds M (g.nearer (g.mid / g.den) * 10 ^ scale) := by
  intro g
  have hten := ten_zpow_pos scale
  have htwo := two_zpow_pos (exponent M)
  have hmid : (g.mid : ℚ) / g.den * 10 ^ scale = significand M * 2 ^ exponent M :=
    mid_onGrid M scale
  have hhalf : (2 : ℚ) ^ (exponent M - 1) = 2 ^ exponent M / 2 := by
    rw [zpow_sub_one₀ (by norm_num)]
    ring
  rw [hhalf] at hfine
  have hnear := abs_le.1 (abs_nearer_sub_le (onGrid_den_pos M scale))
  have hlow : (significand M - 1 / 4) * 2 ^ exponent M <
      (g.nearer (g.mid / g.den) : ℚ) * 10 ^ scale := by
    have := mul_le_mul_of_nonneg_right hnear.1 hten.le
    rw [sub_mul, hmid] at this
    linarith
  have hhigh : (g.nearer (g.mid / g.den) : ℚ) * 10 ^ scale <
      (significand M + 1 / 2) * 2 ^ exponent M := by
    have := mul_le_mul_of_nonneg_right hnear.2 hten.le
    rw [sub_mul, hmid] at this
    linarith
  have hreach : (significand M - reachBelow M) * 2 ^ exponent M ≤
      (significand M - 1 / 4) * 2 ^ exponent M :=
    mul_le_mul_of_nonneg_right (by linarith [le_reachBelow M]) htwo.le
  exact ⟨(hreach.trans_lt hlow).le, hhigh.le, fun _ => ⟨hreach.trans_lt hlow, hhigh⟩⟩

/-! ## The search -/

/-- Whatever the search gives rounds to the double, if its last grid is fine enough. -/
theorem firstHit_rounds {M : Nat} (hM : 0 < M) (grids : Nat) (scale : Int)
    (hfine : (10 : ℚ) ^ (scale - grids) < 2 ^ (exponent M - 1)) :
    Rounds M ((firstHit (interval M) grids scale).1 *
      10 ^ (firstHit (interval M) grids scale).2) := by
  induction grids generalizing scale with
  | zero =>
    rw [Nat.cast_zero, Int.sub_zero] at hfine
    exact rounds_nearer hfine
  | succ grids ih =>
    rw [firstHit]
    cases h : ((interval M).onGrid scale).neighbour? with
    | some n => exact (contains_onGrid_iff hM scale n).1 (contains_of_neighbour? h)
    | none =>
      refine ih (scale - 1) ?_
      rwa [show scale - 1 - (grids : Int) = scale - ((grids + 1 : Nat) : Int) by omega]

/-- **The shortest decimal of a double rounds to it.** -/
theorem shortest_rounds {M : Nat} (hM : 0 < M) (hfin : M < infinity) :
    Rounds M ((shortest M).1 * 10 ^ (shortest M).2) :=
  firstHit_rounds hM 24 (scaleAbove M) (ten_zpow_scaleAbove_lt hM hfin)

/-! ## Reading a decimal -/

/-- The number of a decimal lies in its place. -/
theorem lt_ten_zpow_places (digits : Nat) (scale : Int) :
    (digits : ℚ) * 10 ^ scale < 10 ^ ((Nat.toDigits 10 digits).length + scale) := by
  have h : digits < 10 ^ (Nat.toDigits 10 digits).length :=
    (Nat.length_toDigits_le_iff (by decide) Nat.length_toDigits_pos).1 (Nat.le_refl _)
  rw [zpow_add₀ (by norm_num), zpow_natCast]
  exact mul_lt_mul_of_pos_right (by exact_mod_cast h) (ten_zpow_pos scale)

theorem ten_zpow_places_le {digits : Nat} (hd : 0 < digits) (scale : Int) :
    (10 : ℚ) ^ ((Nat.toDigits 10 digits).length + scale - 1) ≤ digits * 10 ^ scale := by
  obtain ⟨n, hn⟩ : ∃ n, (Nat.toDigits 10 digits).length = n + 1 :=
    ⟨_, (Nat.succ_pred_eq_of_pos Nat.length_toDigits_pos).symm⟩
  have h : 10 ^ n ≤ digits := by
    by_cases hzero : n = 0
    · rw [hzero]
      exact hd
    · by_contra hlt
      have := (Nat.length_toDigits_le_iff (by decide) (Nat.pos_of_ne_zero hzero)).2
        (Nat.lt_of_not_le hlt)
      omega
  rw [hn, show ((n + 1 : Nat) : Int) + scale - 1 = n + scale by omega, zpow_add₀ (by norm_num),
    zpow_natCast]
  exact mul_le_mul_of_nonneg_right (by exact_mod_cast h) (ten_zpow_pos scale).le

/-- **The double nearest to a decimal in the interval of a double is that double.**  The shortcuts
for decimals out of range are not taken, as the interval lies in the range. -/
theorem nearestDecimal_eq_of_rounds {M digits : Nat} {scale : Int} (hM : 0 < M)
    (hfin : M < infinity) (h : Rounds M (digits * 10 ^ scale)) :
    nearestDecimal digits scale = M := by
  have hten := ten_zpow_pos scale
  have hd : 0 < digits := by
    have := pos_of_mul_pos_left (h.pos hM) hten.le
    exact_mod_cast this
  have hone : (1 : ℚ) < 10 := by norm_num
  have h₁ : ¬ ((Nat.toDigits 10 digits).length : Int) + scale < -400 := by
    intro hlt
    have hlow : (2 : ℚ) ^ (-1075 : Int) ≤ digits * 10 ^ scale := by
      refine le_trans ?_ h.low_le
      have hhalf : (1 / 2 : ℚ) ≤ significand M - reachBelow M := by
        have : (1 : ℚ) ≤ significand M := by exact_mod_cast significand_pos hM
        linarith [reachBelow_le M]
      calc (2 : ℚ) ^ (-1075 : Int) = 1 / 2 * 2 ^ (-1074 : Int) := by
            rw [show (-1075 : Int) = -1074 - 1 by norm_num, zpow_sub_one₀ (by norm_num)]
            ring
        _ ≤ 1 / 2 * 2 ^ exponent M :=
            mul_le_mul_of_nonneg_left (zpow_le_zpow_right₀ (by norm_num) (le_exponent M))
              (by norm_num)
        _ ≤ (significand M - reachBelow M) * 2 ^ exponent M :=
            mul_le_mul_of_nonneg_right hhalf (two_zpow_pos _).le
    have := (lt_ten_zpow_places digits scale).trans
      ((zpow_lt_zpow_iff_right₀ hone).2 hlt)
    exact absurd (hlow.trans_lt (this.trans (ten_zpow_lt_two_zpow (k := -1075) (by decide)
      (by decide)))) (lt_irrefl _)
  have h₂ : ¬ 400 < ((Nat.toDigits 10 digits).length : Int) + scale := by
    intro hgt
    have hhigh : (digits : ℚ) * 10 ^ scale < 2 ^ (1200 : Int) :=
      h.lt.trans ((zpow_lt_zpow_iff_right₀ (by norm_num)).2 (by have := exponent_le hfin; omega))
    have hpow : (2 : ℚ) ^ (1200 : Int) ≤ 10 ^ (400 : Int) := by
      rw [show (1200 : Int) = 3 * 400 by norm_num, zpow_mul]
      exact zpow_le_zpow_left₀ (by norm_num) (by norm_num) (by norm_num)
    have hplaces : (10 : ℚ) ^ (400 : Int) ≤ digits * 10 ^ scale :=
      le_trans ((zpow_le_zpow_iff_right₀ hone).2 (by omega)) (ten_zpow_places_le hd scale)
    exact absurd (hhigh.trans_le (hpow.trans hplaces)) (lt_irrefl _)
  rw [nearestDecimal, if_neg hd.ne']
  simp only [if_neg h₁, if_neg h₂]
  refine nearest_eq_of_rounds (Nat.pow_pos (by decide)) hM hfin ?_
  rw [Nat.cast_mul, mul_div_assoc, ← zpow_eq_div (by decide)]
  exact h

end Binary64
end ContentOverlay
