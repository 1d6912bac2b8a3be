import LezPrograms.FlooredPowerError

/-! # Growth of a floored power in its exponent

The exponents `n` and `n + 1` follow different chains of floors, so a factor of at
least one does not make the next power at least the previous one by itself. A small
excess over one loses less in the floors than the next power gains, since the
quadratic terms of the whole chain stay below one excess. A large excess outweighs
the relative loss of all the floors. The two cases overlap while twice the cube of
the exponent stays below the scale. -/

set_option autoImplicit false

namespace LezPrograms.FlooredPower

theorem scaledMul_surplus (scale a b s t : ℕ) (hs : 0 < scale) (ha : scale + s ≤ a)
    (hb : scale + t ≤ b) : scale + (s + t) ≤ scaledMul scale a b := by
  rw [scaledMul, Nat.le_div_iff_mul_le hs]
  calc (scale + (s + t)) * scale ≤ (scale + s) * (scale + t) := by nlinarith [Nat.zero_le (s * t)]
    _ ≤ a * b := Nat.mul_le_mul ha hb

/-- The excesses of the factors add up at least. -/
theorem power_surplus (scale : ℕ) (hs : 0 < scale) (exponent : ℕ) :
    ∀ (result base s t : ℕ), scale + s ≤ result → scale + t ≤ base →
      scale + (s + exponent * t) ≤ power scale exponent result base := by
  induction exponent using Nat.strong_induction_on with
  | h exponent ih =>
    intro result base s t hr hb
    by_cases h0 : exponent = 0
    · subst h0
      simpa using hr
    · rw [power_step _ _ _ _ h0]
      have hsplit : exponent * t = exponent / 2 * (t + t) + exponent % 2 * t := by
        conv_lhs => rw [← Nat.div_add_mod exponent 2]
        ring
      have hsquare := scaledMul_surplus scale base base t t hs hb hb
      rcases Nat.mod_two_eq_zero_or_one exponent with hm | hm
      · rw [hm, if_neg (by decide)]
        have := ih (exponent / 2) (by omega) result _ s (t + t) hr hsquare
        rw [hm] at hsplit
        omega
      · rw [hm, if_pos rfl]
        have := ih (exponent / 2) (by omega) _ _ (s + t) (t + t)
          (scaledMul_surplus scale result base s t hs hr hb) hsquare
        rw [hm] at hsplit
        omega

section
variable (scale n base : ℕ) (hs : 2 * (n + 1) ^ 3 ≤ scale)
include hs

/-- The linear gain of the next power covers the quadratic terms of this one. -/
theorem power_le_succ_of_small (d : ℕ) (hsmall : n * (n + 1) * d ≤ scale) :
    power scale n scale (scale + d) ≤ power scale (n + 1) scale (scale + d) := by
  have hpos : 0 < scale := lt_of_lt_of_le (by positivity) hs
  have hlinear := power_surplus scale hpos (n + 1) scale (scale + d) 0 d (Nat.add_zero _).le le_rfl
  rw [Nat.zero_add] at hlinear
  refine le_trans ?_ hlinear
  rcases Nat.eq_zero_or_pos n with rfl | hn
  · rw [power_zero]
    exact Nat.le_add_right _ _
  · have hnd : n * d + n * d ≤ scale := by
      calc n * d + n * d ≤ n * (n * d) + n * d :=
            Nat.add_le_add_right (Nat.le_mul_of_pos_left _ hn) _
        _ = n * (n + 1) * d := by ring
        _ ≤ scale := hsmall
    have hdn : d ≤ n * d := Nat.le_mul_of_pos_left _ hn
    have hbase : (scale + d) * (scale - d) ≤ scale * scale := by
      obtain ⟨k, rfl⟩ : ∃ k, scale = d + k := ⟨scale - d, by omega⟩
      rw [Nat.add_sub_cancel_left]
      nlinarith [Nat.zero_le (d * d)]
    have hexcess := power_excess scale hpos n scale (scale + d) 0 d (by omega) (by simp) hbase
    rw [Nat.zero_add] at hexcess
    obtain ⟨k, hk⟩ : ∃ k, scale = n * d + k := ⟨scale - n * d, by omega⟩
    have hrest : scale - n * d = k := by omega
    rw [hrest] at hexcess
    -- what the next power gains, scaled by the room that the excesses leave
    have hgain : n * d * (n * d) ≤ d * k := by
      have hroom : n * (n * d) ≤ k := by
        have : n * (n + 1) * d = n * (n * d) + n * d := by ring
        omega
      calc n * d * (n * d) = d * (n * (n * d)) := by ring
        _ ≤ d * k := Nat.mul_le_mul_left _ hroom
    refine Nat.le_of_mul_le_mul_right (c := k) ?_ (by omega)
    calc power scale n scale (scale + d) * k ≤ scale * scale := hexcess
      _ = (scale + n * d) * k + n * d * (n * d) := by
        rw [hk]
        ring
      _ ≤ (scale + n * d) * k + d * k := Nat.add_le_add_left hgain _
      _ = (scale + (n + 1) * d) * k := by ring

/-- One more factor outweighs the relative loss of all floors. -/
theorem power_le_succ_of_large (hlarge : scale + 2 * (n + 1) ≤ base) :
    power scale n scale base ≤ power scale (n + 1) scale base := by
  have hpos : 0 < scale := lt_of_lt_of_le (by positivity) hs
  have hcube : 2 * (n + 1) ≤ scale := by
    refine le_trans ?_ hs
    exact Nat.mul_le_mul_left _ (Nat.le_self_pow (by decide) _)
  have hS : (0 : ℚ) < scale := scale_pos scale hpos
  have hupper := power_ratio_le (K := ℚ) scale hpos n scale base 1 (ratio ℚ scale base)
    (ratio_scale scale hpos).le le_rfl
  have hlower := kept_le_power (K := ℚ) scale hpos (n + 1) scale base 0 0 1 (ratio ℚ scale base)
    zero_le_one (ratio_nonneg scale hpos base) le_rfl (by omega)
    (by rw [pow_zero, mul_one, ratio_scale scale hpos]) (by rw [pow_zero, mul_one])
  rw [one_mul] at hupper hlower
  rw [Nat.zero_add, Nat.zero_add, Nat.mul_one] at hlower
  have hloss : 1 - ((n + 1 : ℕ) : ℚ) / scale ≤ kept ℚ scale ^ (n + 1) := by
    have hbernoulli := one_add_mul_le_pow (a := -(1 / (scale : ℚ))) (by
      have : 1 / (scale : ℚ) ≤ 1 := by
        rw [div_le_one hS]
        exact Nat.one_le_cast.mpr hpos
      linarith) (n + 1)
    rw [← sub_eq_add_neg] at hbernoulli
    refine le_trans (le_of_eq ?_) hbernoulli
    ring
  have hgain : 1 ≤ ratio ℚ scale base * (1 - ((n + 1 : ℕ) : ℚ) / scale) := by
    rw [ratio, one_sub_div hS.ne', div_mul_div_comm, one_le_div (mul_pos hS hS)]
    have h1 : (scale : ℚ) + 2 * ((n + 1 : ℕ) : ℚ) ≤ base := by exact_mod_cast hlarge
    have h2 : 2 * ((n + 1 : ℕ) : ℚ) ≤ scale := by exact_mod_cast hcube
    have h3 : (0 : ℚ) ≤ ((n + 1 : ℕ) : ℚ) := Nat.cast_nonneg _
    nlinarith
  have hpow : 0 ≤ ratio ℚ scale base ^ n := pow_nonneg (ratio_nonneg scale hpos base) n
  have hchain : ratio ℚ scale (power scale n scale base)
      ≤ ratio ℚ scale (power scale (n + 1) scale base) := by
    calc ratio ℚ scale (power scale n scale base) ≤ ratio ℚ scale base ^ n * 1 := by
          rwa [mul_one]
      _ ≤ ratio ℚ scale base ^ n * (ratio ℚ scale base * (1 - ((n + 1 : ℕ) : ℚ) / scale)) :=
        mul_le_mul_of_nonneg_left hgain hpow
      _ = ratio ℚ scale base ^ (n + 1) * (1 - ((n + 1 : ℕ) : ℚ) / scale) := by ring
      _ ≤ ratio ℚ scale base ^ (n + 1) * kept ℚ scale ^ (n + 1) :=
        mul_le_mul_of_nonneg_left hloss (pow_nonneg (ratio_nonneg scale hpos base) _)
      _ ≤ _ := hlower
  exact Nat.cast_le.mp ((div_le_div_iff_of_pos_right hS).mp hchain)

theorem power_le_succ (hb : scale ≤ base) :
    power scale n scale base ≤ power scale (n + 1) scale base := by
  obtain ⟨d, rfl⟩ := Nat.exists_eq_add_of_le hb
  rcases Nat.le_total (n * (n + 1) * d) scale with hsmall | hlarge
  · exact power_le_succ_of_small scale n hs d hsmall
  · refine power_le_succ_of_large scale n _ hs (Nat.add_le_add_left ?_ _)
    rcases Nat.eq_zero_or_pos n with rfl | hn
    · omega
    · refine Nat.le_of_mul_le_mul_left (c := n * (n + 1)) ?_ (Nat.mul_pos hn (Nat.succ_pos n))
      calc n * (n + 1) * (2 * (n + 1)) ≤ (n + 1) * (n + 1) * (2 * (n + 1)) :=
            Nat.mul_le_mul_right _ (Nat.mul_le_mul_right _ (Nat.le_succ n))
        _ = 2 * (n + 1) ^ 3 := by ring
        _ ≤ scale := hs
        _ ≤ n * (n + 1) * d := hlarge

end

/-- Powers of a factor of at least one grow with the exponent while the exponent is small against
the scale. -/
theorem power_mono (scale base m n : ℕ) (hb : scale ≤ base) (hmn : m ≤ n)
    (hs : 2 * n ^ 3 ≤ scale) : power scale m scale base ≤ power scale n scale base := by
  induction n, hmn using Nat.le_induction with
  | base => exact le_rfl
  | succ n hmn ih =>
    refine (ih (le_trans ?_ hs)).trans (power_le_succ scale n base hs hb)
    exact Nat.mul_le_mul_left _ (Nat.pow_le_pow_left (Nat.le_succ n) 3)

end LezPrograms.FlooredPower
