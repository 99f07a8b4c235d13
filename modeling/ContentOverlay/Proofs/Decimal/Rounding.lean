import Mathlib
import ContentOverlay.Proofs.Decimal.Shortest

/-!
# The nearest double of any number

The doubles stand for rational numbers (`amount`), and these grow with the magnitude, by one unit in
the last place at each step (`amount_succ`).  Rounding is then a matter of the points halfway
between neighbours: a number that is `Beyond` the point above `N` is no longer rounded to `N` or
below.  The point itself goes to the even neighbour.

* `IsNearest M q` — the specification: no double is nearer to `q` than the one of magnitude `M`, and
  if another one is as near then `M` is even.  Infinity takes part in this at `2 ^ 1024`, where the
  next double would be.
* `isNearest_iff` — the specification in terms of the two halfway points around `M`.  So there is
  one nearest magnitude at most (`IsNearest.unique`), and the interval of a finite double has the
  numbers that are nearest to it (`rounds_iff_isNearest`).
* `isNearest_nearest`, `isNearest_nearestDecimal` — every quotient and every decimal is rounded to
  its nearest double, also those below the smallest double and beyond the largest one.
-/

set_option autoImplicit false

namespace ContentOverlay
namespace Binary64

/-! ## The numbers that doubles stand for -/

/-- The number that a magnitude stands for.  Infinity stands where the next double would be. -/
def amount (M : Nat) : ℚ := significand M * 2 ^ exponent M

theorem amount_zero : amount 0 = 0 := by
  rw [amount, significand, if_pos (by decide), Nat.cast_zero, zero_mul]

/-- The next magnitude has the next significand, or it is the next power of two. -/
theorem parts_succ (M : Nat) :
    (exponent (M + 1) = exponent M ∧ significand (M + 1) = significand M + 1) ∨
      (exponent (M + 1) = exponent M + 1 ∧ significand (M + 1) = fractionBound ∧
        significand M + 1 = 2 * fractionBound) := by
  rw [exponent, exponent, significand, significand]
  by_cases h : M + 1 < fractionBound
  · rw [if_pos h, if_pos h, if_pos (Nat.lt_of_succ_lt h), if_pos (Nat.lt_of_succ_lt h)]
    exact .inl ⟨rfl, rfl⟩
  · rw [fractionBound] at h
    rw [fractionBound, if_neg h, if_neg h]
    split <;> omega

theorem significand_mod_two (M : Nat) : significand M % 2 = M % 2 := by
  rw [significand, fractionBound]
  split_ifs <;> omega

/-- The next double is one unit in the last place away. -/
theorem amount_succ (M : Nat) : amount (M + 1) = amount M + 2 ^ exponent M := by
  rcases parts_succ M with ⟨he, hs⟩ | ⟨he, hs, hs'⟩
  · rw [amount, amount, he, hs]
    push_cast
    ring
  · have hsig : (significand M : ℚ) = 2 * fractionBound - 1 := by
      rw [eq_sub_iff_add_eq]
      exact_mod_cast hs'
    rw [amount, amount, he, hs, hsig, zpow_add_one₀ (by norm_num)]
    ring

theorem amount_strictMono : StrictMono amount :=
  strictMono_nat_of_lt_succ fun M => by
    rw [amount_succ]
    exact lt_add_of_pos_right _ (two_zpow_pos _)

/-! ## Halfway points -/

/-- The point halfway between a double and the next one. -/
def midpoint (N : Nat) : ℚ := amount N + 2 ^ exponent N / 2

theorem midpoint_eq (N : Nat) : midpoint N = (amount N + amount (N + 1)) / 2 := by
  rw [midpoint, amount_succ]
  ring

theorem midpoint_strictMono : StrictMono midpoint :=
  strictMono_nat_of_lt_succ fun N => by
    have h₁ := amount_strictMono (Nat.lt_add_one N)
    have h₂ := amount_strictMono (Nat.lt_add_one (N + 1))
    rw [midpoint_eq, midpoint_eq]
    linarith

/-- Whether a number is rounded to a magnitude above `N`. -/
def Beyond (N : Nat) (q : ℚ) : Prop := midpoint N < q ∨ midpoint N = q ∧ N % 2 = 1

section

variable {M N : Nat} {q : ℚ}

theorem not_beyond_iff : ¬ Beyond N q ↔ q < midpoint N ∨ midpoint N = q ∧ N % 2 = 0 := by
  rw [Beyond, not_or, not_and, not_lt, le_iff_lt_or_eq, eq_comm (a := q), Nat.mod_two_not_eq_one]
  refine ⟨?_, ?_⟩
  · rintro ⟨h | h, he⟩
    · exact .inl h
    · exact .inr ⟨h, he h⟩
  · rintro (h | ⟨h, he⟩)
    · exact ⟨.inl h, fun hq => absurd hq h.ne'⟩
    · exact ⟨.inr h, fun _ => he⟩

theorem Beyond.midpoint_le (h : Beyond N q) : midpoint N ≤ q := by
  rcases h with h | ⟨h, -⟩
  · exact h.le
  · exact h.le

theorem le_midpoint_of_not_beyond (h : ¬ Beyond N q) : q ≤ midpoint N := by
  rcases not_beyond_iff.1 h with h | ⟨h, -⟩
  · exact h.le
  · exact h.ge

theorem Beyond.mono {N' : Nat} (h : Beyond N q) (hN : N' ≤ N) : Beyond N' q := by
  rcases Nat.eq_or_lt_of_le hN with rfl | hlt
  · exact h
  · exact .inl ((midpoint_strictMono hlt).trans_le h.midpoint_le)

/-! ## The specification of rounding -/

/-- **The magnitude whose double is nearest to a number**, the even one if two are equally near. -/
structure IsNearest (M : Nat) (q : ℚ) : Prop where
  le_infinity : M ≤ infinity
  near : ∀ N ≤ infinity, |q - amount M| ≤ |q - amount N|
  even : ∀ N ≤ infinity, N ≠ M → |q - amount M| = |q - amount N| → M % 2 = 0

/-- Which of two numbers is nearer is decided at the point halfway between them. -/
theorem abs_sub_le_abs_sub_iff {a b : ℚ} (h : a < b) :
    |q - b| ≤ |q - a| ↔ (a + b) / 2 ≤ q := by
  have hsq : (q - a) ^ 2 - (q - b) ^ 2 = 2 * (b - a) * (q - (a + b) / 2) := by ring
  rw [← sq_le_sq, ← sub_nonneg, hsq, mul_nonneg_iff_of_pos_left (by linarith), sub_nonneg]

theorem abs_sub_le_abs_sub_iff' {a b : ℚ} (h : a < b) :
    |q - a| ≤ |q - b| ↔ q ≤ (a + b) / 2 := by
  have hsq : (q - b) ^ 2 - (q - a) ^ 2 = 2 * (b - a) * ((a + b) / 2 - q) := by ring
  rw [← sq_le_sq, ← sub_nonneg, hsq, mul_nonneg_iff_of_pos_left (by linarith), sub_nonneg]

/-- Beyond the halfway point below it, a double is nearer than all smaller ones.  At the point
itself the one below is as near. -/
theorem Beyond.near (h : Beyond M q) (hN : N ≤ M) :
    |q - amount (M + 1)| ≤ |q - amount N| ∧
      (|q - amount (M + 1)| = |q - amount N| → (M + 1) % 2 = 0) := by
  have hlt := amount_strictMono (Nat.lt_succ_of_le hN)
  have hle : (amount N + amount (M + 1)) / 2 ≤ midpoint M := by
    have := amount_strictMono.monotone hN
    rw [midpoint_eq]
    linarith
  refine ⟨(abs_sub_le_abs_sub_iff hlt).2 (hle.trans h.midpoint_le), fun he => ?_⟩
  have hq := (abs_sub_le_abs_sub_iff' hlt).1 he.ge
  rcases h with h | ⟨-, hodd⟩
  · exact absurd (hq.trans hle) (not_le.2 h)
  · omega

/-- Up to the halfway point above it, a double is nearer than all larger ones. -/
theorem near_of_not_beyond (h : ¬ Beyond M q) (hN : M < N) :
    |q - amount M| ≤ |q - amount N| ∧ (|q - amount M| = |q - amount N| → M % 2 = 0) := by
  have hlt := amount_strictMono hN
  have hle : midpoint M ≤ (amount M + amount N) / 2 := by
    have := amount_strictMono.monotone (Nat.succ_le_of_lt hN)
    rw [midpoint_eq]
    linarith
  refine ⟨(abs_sub_le_abs_sub_iff' hlt).2 ((le_midpoint_of_not_beyond h).trans hle), fun he => ?_⟩
  have hq := (abs_sub_le_abs_sub_iff hlt).1 he.ge
  rcases not_beyond_iff.1 h with h | ⟨-, heven⟩
  · exact absurd (hle.trans hq) (not_le.2 h)
  · exact heven

/-- **The nearest magnitude, by the halfway points around it.** -/
theorem isNearest_iff : IsNearest M q ↔
    M ≤ infinity ∧ (∀ N, N + 1 = M → Beyond N q) ∧ (M < infinity → ¬ Beyond M q) := by
  refine ⟨?_, ?_⟩
  · rintro ⟨hle, hnear, heven⟩
    refine ⟨hle, ?_, fun hlt => ?_⟩
    · rintro N rfl
      have hN : N ≤ infinity := Nat.le_of_succ_le hle
      have hlt := amount_strictMono (Nat.lt_add_one N)
      have hmid : midpoint N ≤ q := by
        rw [midpoint_eq, ← abs_sub_le_abs_sub_iff hlt]
        exact hnear N hN
      rcases hmid.lt_or_eq with h | h
      · exact .inl h
      · refine .inr ⟨h, ?_⟩
        rw [midpoint_eq] at h
        have := heven N hN (Nat.lt_add_one N).ne (le_antisymm (hnear N hN)
          ((abs_sub_le_abs_sub_iff' hlt).2 h.ge))
        omega
    · have hsucc := amount_strictMono (Nat.lt_add_one M)
      have hmid : q ≤ midpoint M := by
        rw [midpoint_eq, ← abs_sub_le_abs_sub_iff' hsucc]
        exact hnear (M + 1) hlt
      rw [not_beyond_iff]
      rcases hmid.lt_or_eq with h | h
      · exact .inl h
      · refine .inr ⟨h.symm, ?_⟩
        rw [midpoint_eq] at h
        exact heven (M + 1) hlt (Nat.lt_add_one M).ne' (le_antisymm (hnear (M + 1) hlt)
          ((abs_sub_le_abs_sub_iff hsucc).2 h.ge))
  · rintro ⟨hle, hbelow, habove⟩
    have hall : ∀ N ≤ infinity, N ≠ M → |q - amount M| ≤ |q - amount N| ∧
        (|q - amount M| = |q - amount N| → M % 2 = 0) := by
      intro N hN hne
      rcases Nat.lt_or_gt_of_ne hne with hlt | hgt
      · obtain ⟨P, rfl⟩ := Nat.exists_eq_succ_of_ne_zero (Nat.ne_zero_of_lt hlt)
        exact (hbelow P rfl).near (Nat.le_of_lt_succ hlt)
      · exact near_of_not_beyond (habove (hgt.trans_le hN)) hgt
    refine ⟨hle, fun N hN => ?_, fun N hN hne => (hall N hN hne).2⟩
    by_cases hne : N = M
    · rw [hne]
    · exact (hall N hN hne).1

/-- There is one nearest magnitude at most. -/
theorem IsNearest.unique (hM : IsNearest M q) (hN : IsNearest N q) : M = N := by
  -- the larger one would be beyond the smaller one
  have hle : ∀ {M N : Nat}, IsNearest M q → IsNearest N q → M ≤ N := by
    intro M N hM hN
    obtain ⟨hle, hbelow, -⟩ := isNearest_iff.1 hM
    obtain ⟨-, -, habove⟩ := isNearest_iff.1 hN
    by_contra hlt
    obtain ⟨P, rfl⟩ := Nat.exists_eq_succ_of_ne_zero (Nat.ne_zero_of_lt (Nat.lt_of_not_le hlt))
    exact habove (by omega) ((hbelow P rfl).mono (by omega))
  exact le_antisymm (hle hM hN) (hle hN hM)

/-! ## The interval of a double -/

theorem high_eq_midpoint (M : Nat) : (significand M + 1 / 2) * 2 ^ exponent M = midpoint M := by
  rw [midpoint, amount]
  ring

/-- The interval of a double begins halfway to the double before. -/
theorem low_eq_midpoint (N : Nat) :
    (significand (N + 1) - reachBelow (N + 1)) * 2 ^ exponent (N + 1) = midpoint N := by
  have hreach : reachBelow (N + 1) * 2 ^ exponent (N + 1) = 2 ^ exponent N / 2 := by
    rcases parts_succ N with ⟨he, hs⟩ | ⟨he, hs, -⟩
    · have hnot : ¬ (significand (N + 1) = fractionBound ∧ -1074 < exponent (N + 1)) := by
        rintro ⟨hs', he'⟩
        rw [he] at he'
        have := fractionBound_le_significand he'
        omega
      rw [reachBelow, if_neg hnot, he]
      ring
    · have hexp := le_exponent N
      rw [reachBelow, if_pos ⟨hs, by omega⟩, he, zpow_add_one₀ (by norm_num)]
      ring
  have hsucc := amount_succ N
  rw [sub_mul, hreach, midpoint]
  rw [amount] at hsucc
  rw [hsucc]
  ring

theorem rounds_succ_iff : Rounds (N + 1) q ↔ Beyond N q ∧ ¬ Beyond (N + 1) q := by
  have hlow := low_eq_midpoint N
  have hhigh := high_eq_midpoint (N + 1)
  have hparity := significand_mod_two (N + 1)
  refine ⟨?_, ?_⟩
  · rintro ⟨h₁, h₂, h₃⟩
    rw [hlow] at h₁ h₃
    rw [hhigh] at h₂ h₃
    rw [hparity] at h₃
    rw [not_beyond_iff, Beyond]
    rcases Nat.mod_two_eq_zero_or_one N with hN | hN
    · have := h₃ (by omega)
      exact ⟨.inl this.1, .inl this.2⟩
    · refine ⟨?_, ?_⟩
      · exact h₁.lt_or_eq.imp_right fun h => ⟨h, hN⟩
      · exact h₂.lt_or_eq.imp_right fun h => ⟨h.symm, by omega⟩
  · rintro ⟨h₁, h₂⟩
    refine ⟨?_, ?_, ?_⟩
    · rw [hlow]
      exact h₁.midpoint_le
    · rw [hhigh]
      exact le_midpoint_of_not_beyond h₂
    · rw [hlow, hhigh, hparity]
      intro hodd
      refine ⟨?_, ?_⟩
      · exact h₁.resolve_right fun h => by omega
      · exact (not_beyond_iff.1 h₂).resolve_right fun h => by omega

/-- **The interval of a finite double has the numbers that are nearest to it.** -/
theorem rounds_iff_isNearest (hM : 0 < M) (hfin : M < infinity) : Rounds M q ↔ IsNearest M q := by
  obtain ⟨N, rfl⟩ := Nat.exists_eq_succ_of_ne_zero hM.ne'
  rw [rounds_succ_iff, isNearest_iff]
  refine ⟨?_, ?_⟩
  · rintro ⟨h₁, h₂⟩
    exact ⟨hfin.le, fun P hP => Nat.succ.inj hP ▸ h₁, fun _ => h₂⟩
  · rintro ⟨-, h₁, h₂⟩
    exact ⟨h₁ N rfl, h₂ hfin⟩

end

/-! ## Quotients -/

section

variable {num den : Nat}

/-- An even integer is reached from half a unit below it on. -/
theorem le_roundedQuotient {m : Nat} (hd : 0 < den) (heven : m % 2 = 0)
    (h : (m : ℚ) - 1 / 2 ≤ num / den) : m ≤ roundedQuotient num den := by
  have hd' : (0 : ℚ) < den := by exact_mod_cast hd
  have hle : 2 * m * den ≤ 2 * num + den := by
    rw [le_div_iff₀ hd'] at h
    exact_mod_cast (by linarith : (2 * m * den : ℚ) ≤ 2 * num + den)
  have hdiv := Nat.div_add_mod num den
  have hlt : m < num / den + 2 := by
    by_contra hge
    have := Nat.mul_le_mul_right den (Nat.le_of_not_lt hge)
    have := Nat.mod_lt num hd
    nlinarith
  have hlast : m = num / den + 1 → den ≤ 2 * (num % den) := by
    intro hm
    rw [hm] at hle
    nlinarith
  simp only [roundedQuotient]
  split_ifs <;> omega

/-- Up to half of the smallest double the nearest one is zero. -/
theorem nearest_eq_zero (hd : 0 < den) (h : ¬ Beyond 0 (num / den)) : nearest num den = 0 := by
  by_cases hn : num = 0
  · rw [nearest, if_pos hn]
  · have hle := le_midpoint_of_not_beyond h
    rw [midpoint, amount_zero, zero_add] at hle
    have hlog := (floorLog2_spec (Nat.pos_of_ne_zero hn) hd).1
    have hquot : (0 : ℚ) ≤ num / den := by positivity
    have hpow := two_zpow_pos (exponent 0)
    have hexp : max (-1074) (floorLog2 num den - 52) = exponent 0 := by
      have hlt : (2 : ℚ) ^ floorLog2 num den < 2 ^ exponent 0 := by linarith
      have := (zpow_lt_zpow_iff_right₀ (by norm_num : (1 : ℚ) < 2)).1 hlt
      have : exponent 0 = -1074 := rfl
      omega
    rw [nearest_eq (Nat.pos_of_ne_zero hn) hd hexp (m := 0)]
    · rfl
    · push_cast
      linarith
    · push_cast
      linarith
    · exact fun hodd => absurd hodd (by decide)

/-- The last halfway point is half a unit below the power of two that infinity stands for. -/
theorem last_midpoint :
    midpoint (infinity - 1) = (2 * fractionBound - 1 / 2) * 2 ^ (971 : Int) := by
  have hs : significand (infinity - 1) = 2 * fractionBound - 1 := by decide
  have he : exponent (infinity - 1) = 971 := by decide
  rw [midpoint, amount, hs, he, Nat.cast_sub (by decide), Nat.cast_mul, Nat.cast_ofNat,
    Nat.cast_one]
  generalize (2 : ℚ) ^ (971 : Int) = unit
  ring

/-- From the last halfway point on the nearest double is infinity. -/
theorem nearest_eq_infinity (hd : 0 < den) (h : Beyond (infinity - 1) (num / den)) :
    nearest num den = infinity := by
  have hle := h.midpoint_le
  rw [last_midpoint] at hle
  have hF : (fractionBound : ℚ) = 4503599627370496 := by norm_num [fractionBound]
  have hlow : (2 : ℚ) ^ (971 + 52 : Int) ≤ num / den := by
    refine le_trans ?_ hle
    rw [two_zpow_add_52]
    exact mul_le_mul_of_nonneg_right (by norm_num [hF]) (two_zpow_pos 971).le
  have hn : 0 < num := by
    have hpos := (two_zpow_pos _).trans_le hlow
    rw [lt_div_iff₀ (by exact_mod_cast hd), zero_mul] at hpos
    exact_mod_cast hpos
  obtain ⟨hlog, hlog'⟩ := floorLog2_spec hn hd
  obtain ⟨e, he⟩ : ∃ e, floorLog2 num den = e + 52 := ⟨floorLog2 num den - 52, by omega⟩
  have hexp : 971 ≤ e := by
    have := (zpow_lt_zpow_iff_right₀ (by norm_num : (1 : ℚ) < 2)).1 (hlow.trans_lt hlog')
    omega
  have hround : ∀ m : Nat, m % 2 = 0 → ((m : ℚ) - 1 / 2) * 2 ^ e ≤ num / den →
      m ≤ roundedQuotient (num * Nat.pow 2 (-e).toNat) (den * Nat.pow 2 e.toNat) := by
    intro m hm hmq
    refine le_roundedQuotient (Nat.mul_pos hd (Nat.pow_pos (by decide))) hm ?_
    rwa [scaled_div_scaled, le_div_iff₀ (two_zpow_pos e)]
  rw [nearest, if_neg hn.ne', he, show max (-1074) (e + 52 - 52) = e by omega]
  refine Nat.min_eq_left ?_
  rcases hexp.eq_or_lt with rfl | hlt
  · have := hround (2 * fractionBound) (by decide) (by
      rw [Nat.cast_mul, Nat.cast_ofNat]
      exact hle)
    rw [infinity, fractionBound] at *
    omega
  · have := hround fractionBound (by decide) (by
      rw [he, two_zpow_add_52] at hlog
      exact le_trans (mul_le_mul_of_nonneg_right (by norm_num) (two_zpow_pos e).le) hlog)
    rw [infinity, fractionBound] at *
    omega

theorem isNearest_zero {q : ℚ} (h : ¬ Beyond 0 q) : IsNearest 0 q :=
  isNearest_iff.2 ⟨Nat.zero_le _, fun N hN => absurd hN N.succ_ne_zero, fun _ => h⟩

theorem isNearest_infinity {q : ℚ} (h : Beyond (infinity - 1) q) : IsNearest infinity q :=
  isNearest_iff.2 ⟨le_rfl, fun N hN => by rwa [← hN] at h, fun hlt => absurd hlt (lt_irrefl _)⟩

/-- **A quotient is rounded to its nearest double.**  The first magnitude that it is not beyond is
the one. -/
theorem isNearest_nearest (num : Nat) {den : Nat} (hd : 0 < den) :
    IsNearest (nearest num den) (num / den) := by
  by_cases h : ∃ M, ¬ Beyond M (num / den) ∧ M < infinity
  · classical
    obtain ⟨hnot, hfin⟩ := Nat.find_spec h
    have hmin : ∀ N < Nat.find h, Beyond N (num / den) := by
      intro N hN
      by_contra hnot'
      exact Nat.find_min h hN ⟨hnot', hN.trans hfin⟩
    generalize Nat.find h = M at hnot hfin hmin
    cases M with
    | zero =>
      rw [nearest_eq_zero hd hnot]
      exact isNearest_zero hnot
    | succ N =>
      have hrounds := rounds_succ_iff.2 ⟨hmin N (Nat.lt_add_one N), hnot⟩
      rw [nearest_eq_of_rounds hd (Nat.succ_pos N) hfin hrounds]
      exact (rounds_iff_isNearest (Nat.succ_pos N) hfin).1 hrounds
  · have hlast : Beyond (infinity - 1) (num / den) := by
      by_contra hnot
      exact h ⟨_, hnot, by decide⟩
    rw [nearest_eq_infinity hd hlast]
    exact isNearest_infinity hlast

end

/-! ## Decimals -/

theorem last_midpoint_lt : midpoint (infinity - 1) < 10 ^ (400 : Int) := by
  have htwo : (2 : ℚ) ≠ 0 := by norm_num
  have hunits : (2 * fractionBound - 1 / 2 : ℚ) < 2 ^ (53 : Int) := by norm_num [fractionBound]
  calc midpoint (infinity - 1)
      = (2 * fractionBound - 1 / 2) * 2 ^ (971 : Int) := last_midpoint
    _ < 2 ^ (53 : Int) * 2 ^ (971 : Int) := mul_lt_mul_of_pos_right hunits (two_zpow_pos _)
    _ = 2 ^ (53 + 971 : Int) := (zpow_add₀ htwo _ _).symm
    _ ≤ 2 ^ (3 * 400 : Int) := zpow_le_zpow_right₀ (by norm_num) (by norm_num)
    _ = (2 ^ (3 : Int)) ^ (400 : Int) := zpow_mul _ _ _
    _ ≤ 10 ^ (400 : Int) := zpow_le_zpow_left₀ (by norm_num) (by norm_num) (by norm_num)

/-- **A decimal is rounded to its nearest double**, also where its power of ten is not computed. -/
theorem isNearest_nearestDecimal (digits : Nat) (scale : Int) :
    IsNearest (nearestDecimal digits scale) (digits * 10 ^ scale) := by
  have hone : (1 : ℚ) < 10 := by norm_num
  have hmid : midpoint 0 = 2 ^ (-1075 : Int) := by
    rw [midpoint, amount_zero, zero_add, show exponent 0 = -1075 + 1 from rfl,
      zpow_add_one₀ (by norm_num)]
    ring
  rw [nearestDecimal]
  split
  · next hd =>
    rw [hd, Nat.cast_zero, zero_mul]
    refine isNearest_zero (not_beyond_iff.2 (.inl ?_))
    rw [hmid]
    exact two_zpow_pos _
  · next hd =>
    dsimp only
    split
    · next hsmall =>
      refine isNearest_zero (not_beyond_iff.2 (.inl ?_))
      rw [hmid]
      exact (lt_ten_zpow_places digits scale).trans
        (((zpow_lt_zpow_iff_right₀ hone).2 hsmall).trans
          (ten_zpow_lt_two_zpow (by decide) (by decide)))
    · split
      · next hlarge =>
        refine isNearest_infinity (.inl ?_)
        have hplaces : (10 : ℚ) ^ (400 : Int) ≤ digits * 10 ^ scale :=
          le_trans ((zpow_le_zpow_iff_right₀ hone).2 (by omega))
            (ten_zpow_places_le (Nat.pos_of_ne_zero hd) scale)
        exact last_midpoint_lt.trans_le hplaces
      · have hden : 0 < Nat.pow 10 (-scale).toNat := Nat.pow_pos (by decide)
        have hquot := isNearest_nearest (digits * Nat.pow 10 scale.toNat) hden
        rwa [Nat.cast_mul, mul_div_assoc, ← zpow_eq_div (by decide)] at hquot

end Binary64
end ContentOverlay
