import Mathlib
import ContentOverlay.Proofs.Decimal.Rounding

/-!
# No shorter decimal

The search for the shortest decimal goes from coarse grids to fine ones and stops at the first that
has a point in the interval of the double.  So no point of a coarser grid rounds to the double: not
on the grids before it, where both neighbours of the double were looked at
(`not_rounds_of_neighbour?`), and not on those above the first one, whose steps are larger than the
double (`le_scaleAbove_of_rounds`).

From this it follows that no decimal with fewer digits rounds to the double.  With fewer digits it
would be smaller than the shortest decimal, and between the two there would be a power of ten, which
lies on a coarser grid (`length_shortest_le`).
-/

set_option autoImplicit false

namespace ContentOverlay
namespace Binary64

section

variable {M n : Nat} {scale : Int}

theorem Rounds.convex {a b c : ℚ} (ha : Rounds M a) (hb : Rounds M b) (hac : a ≤ c) (hcb : c ≤ b) :
    Rounds M c where
  low_le := ha.low_le.trans hac
  le_high := hcb.trans hb.le_high
  strict hodd := ⟨(ha.strict hodd).1.trans_le hac, hcb.trans_lt (hb.strict hodd).2⟩

theorem rounds_amount (M : Nat) : Rounds M (significand M * 2 ^ exponent M) := by
  have hpow := two_zpow_pos (exponent M)
  have hlow : (significand M - reachBelow M) * 2 ^ exponent M < significand M * 2 ^ exponent M :=
    mul_lt_mul_of_pos_right (by linarith [le_reachBelow M]) hpow
  have hhigh : significand M * 2 ^ exponent M < (significand M + 1 / 2 : ℚ) * 2 ^ exponent M :=
    mul_lt_mul_of_pos_right (by linarith) hpow
  exact ⟨hlow.le, hhigh.le, fun _ => ⟨hlow, hhigh⟩⟩

/-! ## Grids without a hit -/

/-- If any point of a grid rounds to the double then one of the two next to the double does. -/
theorem not_rounds_of_neighbour? (hM : 0 < M)
    (h : ((interval M).onGrid scale).neighbour? = none) : ¬ Rounds M (n * 10 ^ scale) := by
  intro hn
  have hd : (0 : ℚ) < ((interval M).onGrid scale).den := by exact_mod_cast onGrid_den_pos M scale
  have hten := ten_zpow_pos scale
  have hmid := mid_onGrid M scale
  have hcontains := contains_onGrid_iff hM scale
  have hamount := rounds_amount M
  rw [← hmid] at hamount
  generalize (interval M).onGrid scale = g at h hd hmid hcontains hamount
  have hfloor : ((g.mid / g.den : Nat) : ℚ) ≤ g.mid / g.den := Nat.cast_div_le
  have hceil : (g.mid : ℚ) / g.den < (g.mid / g.den : Nat) + 1 := by
    rw [div_lt_iff₀' hd]
    exact_mod_cast Nat.lt_mul_div_succ g.mid (Nat.cast_pos.1 hd)
  have hhit : g.contains (g.mid / g.den) = true ∨ g.contains (g.mid / g.den + 1) = true := by
    rw [hcontains, hcontains]
    rcases Nat.lt_or_ge (g.mid / g.den) n with hlt | hge
    · refine .inr (hamount.convex hn ?_ ?_)
      · push_cast
        exact mul_le_mul_of_nonneg_right hceil.le hten.le
      · exact mul_le_mul_of_nonneg_right (by exact_mod_cast hlt) hten.le
    · refine .inl (hn.convex hamount ?_ ?_)
      · exact mul_le_mul_of_nonneg_right (by exact_mod_cast hge) hten.le
      · exact mul_le_mul_of_nonneg_right hfloor hten.le
  rw [Interval.neighbour?] at h
  split at h
  · cases h
  · cases h
  · cases h
  · next h₁ h₂ =>
    rw [h₁, h₂] at hhit
    simp at hhit

/-- A power of ten that is above a power of two, by two fractions next to their logarithms. -/
theorem two_zpow_le_ten_zpow {t k : Int} (h₁ : 28 * t ≤ 93 * k) (h₂ : 31 * t ≤ 103 * k) :
    (2 : ℚ) ^ t ≤ 10 ^ k := by
  have hone : (1 : ℚ) ≤ 10 := by norm_num
  rcases Int.le_total 0 t with ht | ht
  · refine le_of_pow_le_pow_left₀ (n := 93) (by decide) (ten_zpow_pos k).le ?_
    calc ((2 : ℚ) ^ t) ^ 93 = (2 ^ 93) ^ t := by
          rw [← zpow_natCast, ← zpow_mul, mul_comm, zpow_mul, zpow_natCast]
      _ ≤ (10 ^ 28) ^ t := zpow_le_zpow_left₀ ht (by norm_num) (by norm_num)
      _ = 10 ^ (28 * t) := by
          rw [zpow_mul]
          norm_num
      _ ≤ 10 ^ (93 * k) := zpow_le_zpow_right₀ hone h₁
      _ = (10 ^ k) ^ 93 := by
          rw [← zpow_natCast, ← zpow_mul, mul_comm]
          norm_num
  · refine le_of_pow_le_pow_left₀ (n := 103) (by decide) (ten_zpow_pos k).le ?_
    obtain ⟨u, hu⟩ := Int.eq_ofNat_of_zero_le (Int.neg_nonneg.2 ht)
    obtain rfl : t = -(u : Int) := by omega
    calc ((2 : ℚ) ^ (-(u : Int))) ^ 103 = ((2 ^ 103) ^ u)⁻¹ := by
          rw [zpow_neg, inv_pow, zpow_natCast, ← pow_mul, mul_comm, pow_mul]
      _ ≤ ((10 ^ 31) ^ u)⁻¹ :=
          inv_anti₀ (by positivity) (pow_le_pow_left₀ (by norm_num) (by norm_num) u)
      _ = 10 ^ (31 * -(u : Int)) := by
          rw [zpow_mul, zpow_neg, zpow_natCast]
          norm_num
      _ ≤ 10 ^ (103 * k) := zpow_le_zpow_right₀ hone h₂
      _ = (10 ^ k) ^ 103 := by
          rw [← zpow_natCast, ← zpow_mul, mul_comm]
          norm_num

/-- The grids above the first one are too coarse. -/
theorem le_scaleAbove_of_rounds (hM : 0 < M) (hfin : M < infinity)
    (h : Rounds M (n * 10 ^ scale)) : scale ≤ scaleAbove M := by
  have hsig := significand_pos hM
  have hlog : (significand M).log2 < 53 := by
    rw [Nat.log2_lt hsig.ne']
    exact significand_lt M
  have hlow := le_exponent M
  have hhigh := exponent_le hfin
  obtain ⟨t, ht⟩ : ∃ t, ((significand M).log2 : Int) + 1 + exponent M = t := ⟨_, rfl⟩
  have hlt : (n : ℚ) * 10 ^ scale < 2 ^ t := by
    refine h.le_high.trans_lt ?_
    rw [← ht, zpow_add₀ (by norm_num)]
    refine mul_lt_mul_of_pos_right ?_ (two_zpow_pos _)
    have hle : (significand M + 1 : ℚ) ≤ 2 ^ (((significand M).log2 : Int) + 1) := by
      rw [zpow_add_one₀ (by norm_num), zpow_natCast, ← pow_succ]
      exact_mod_cast Nat.succ_le_of_lt Nat.lt_log2_self
    linarith
  have hn : (1 : ℚ) ≤ n := by
    have := pos_of_mul_pos_left (h.pos hM) (ten_zpow_pos scale).le
    exact_mod_cast this
  by_contra hgt
  have hstart : scaleAbove M =
      (((significand M).log2 : Int) + exponent M + 1) * 30103 / 100000 + 1 := rfl
  have htwo : (2 : ℚ) ^ t ≤ 10 ^ scale := two_zpow_le_ten_zpow (by omega) (by omega)
  have hten := le_mul_of_one_le_left (ten_zpow_pos scale).le hn
  exact absurd (hlt.trans_le (htwo.trans hten)) (lt_irrefl _)

/-! ## The search -/

/-- The search stops at the coarsest grid on which a point rounds to the double. -/
theorem le_firstHit_of_rounds (hM : 0 < M) {grids : Nat} {start : Int}
    (hstart : ∀ (n : Nat) (scale : Int), Rounds M (n * 10 ^ scale) → scale ≤ start)
    (h : Rounds M (n * 10 ^ scale)) : scale ≤ (firstHit (interval M) grids start).2 := by
  induction grids generalizing start with
  | zero => exact hstart n scale h
  | succ grids ih =>
    rw [firstHit]
    cases hn : ((interval M).onGrid start).neighbour? with
    | some m => exact hstart n scale h
    | none =>
      refine ih fun m s hs => Int.le_sub_one_of_lt (lt_of_le_of_ne (hstart m s hs) ?_)
      rintro rfl
      exact not_rounds_of_neighbour? hM hn hs

theorem le_shortest_of_rounds (hM : 0 < M) (hfin : M < infinity)
    (h : Rounds M (n * 10 ^ scale)) : scale ≤ (shortest M).2 :=
  le_firstHit_of_rounds hM (fun _ _ => le_scaleAbove_of_rounds hM hfin) h

/-- **No decimal that rounds to a double has fewer digits than its shortest one.** -/
theorem length_shortest_le (hM : 0 < M) (hfin : M < infinity) (h : Rounds M (n * 10 ^ scale)) :
    (Nat.toDigits 10 (shortest M).1).length ≤ (Nat.toDigits 10 n).length := by
  have hshort := shortest_rounds hM hfin
  have hcoarse : ∀ {n : Nat} {scale : Int}, Rounds M (n * 10 ^ scale) → scale ≤ (shortest M).2 :=
    le_shortest_of_rounds hM hfin
  have hpos : 0 < (shortest M).1 := by
    have := pos_of_mul_pos_left (hshort.pos hM) (ten_zpow_pos _).le
    exact_mod_cast this
  have hscale := hcoarse h
  by_contra hlt
  -- a power of ten between the two decimals lies on a coarser grid
  obtain ⟨power, hpower⟩ :
      ∃ power, ((Nat.toDigits 10 (shortest M).1).length : Int) + (shortest M).2 - 1 = power :=
    ⟨_, rfl⟩
  have hbelow : (n : ℚ) * 10 ^ scale ≤ 10 ^ power :=
    (lt_ten_zpow_places n scale).le.trans (zpow_le_zpow_right₀ (by norm_num) (by omega))
  have habove := ten_zpow_places_le hpos (shortest M).2
  rw [hpower] at habove
  have hbetween : Rounds M ((1 : Nat) * 10 ^ power) := by
    rw [Nat.cast_one, one_mul]
    exact h.convex hshort hbelow habove
  have := hcoarse hbetween
  have := Nat.length_toDigits_pos (b := 10) (n := n)
  omega

end

end Binary64
end ContentOverlay
