import LezPrograms.Stablecoin.Math

/-! # Compounding against the unbounded power

A 128-bit result is the unbounded power. The loop reaches a result whenever the
excess of the rate over one, times the exponent, stays below two percent. A
512-bit result is the unbounded power or lies above `saturationFloor`. -/

set_option autoImplicit false

namespace LezPrograms.Stablecoin.Compounding
open LezPrograms.Checked LezPrograms.Checked.Unsigned LezPrograms.FlooredPower
open LezPrograms.Stablecoin.Math

/-- The compounded rate with the floors of the code and without a width. -/
def exactFactor (rate : U128) (elapsed : U64) : ℕ :=
  power fixedPointOne.val elapsed.val fixedPointOne.val rate.val

def exactProjection (anchor rate : U128) (since now : U64) : ℕ :=
  anchor.val * exactFactor rate (clampedElapsed now since) / fixedPointOne.val

theorem fixedPointOne_pos : 0 < fixedPointOne.val := by simp

theorem exactFactor_zero (rate : U128) (elapsed : U64) (h : elapsed.val = 0) :
    exactFactor rate elapsed = fixedPointOne.val := by
  simp [exactFactor, h]

theorem exactFactor_one (elapsed : U64) :
    exactFactor fixedPointOne elapsed = fixedPointOne.val := by
  apply le_antisymm
  · exact power_le _ _ _ _ le_rfl le_rfl
  · exact le_power _ fixedPointOne_pos _ _ _ le_rfl

theorem clampedElapsed_le (now since : U64) : (clampedElapsed now since).val ≤ 604800000 := by
  rw [clampedElapsed, minimum_val]
  exact Nat.min_le_right _ _

theorem compoundLoop_eq (exponent : ℕ) : ∀ (result base y : U128),
    compoundLoop exponent result base = .ok y →
      y.val = power fixedPointOne.val exponent result.val base.val := by
  induction exponent using Nat.strong_induction_on with
  | h exponent ih =>
    intro result base y hy
    rw [compoundLoop] at hy
    by_cases h0 : exponent = 0
    · subst h0
      simp only [if_true, Except.ok.injEq] at hy
      simp [hy]
    · rw [if_neg h0] at hy
      simp only [bind_eq_ok, ite_eq_ok, pure_eq_ok, mulDiv_eq_ok] at hy
      obtain ⟨result', hr, base', hb, hy⟩ := hy
      rw [ih _ (by omega) _ _ _ hy, power_pos _ _ _ _ h0]
      congr 1
      · rcases hr with ⟨hm, -, hr⟩ | ⟨hm, rfl⟩
        · rw [if_pos hm, hr, scaledMul]
        · rw [if_neg hm]
      · rcases hb with ⟨hp, -, hb⟩ | ⟨hp, rfl⟩
        · rw [if_pos hp, hb, scaledMul]
        · rw [if_neg hp]

theorem compoundRate_eq (rate : U128) (elapsed : U64) (y : U128)
    (h : compoundRate rate elapsed = .ok y) : y.val = exactFactor rate elapsed := by
  unfold compoundRate at h
  split at h
  · rename_i h0
    rw [exactFactor_zero _ _ h0, ← Except.ok.inj h]
  · split at h
    · rename_i h1
      rw [h1, exactFactor_one, ← Except.ok.inj h]
    · exact compoundLoop_eq _ _ _ _ h

theorem computeCurrentAccumulatedRate_eq (anchor rate v : U128) (since now : U64)
    (h : computeCurrentAccumulatedRate anchor rate since now = .ok v) :
    v.val = exactProjection anchor rate since now := by
  simp only [computeCurrentAccumulatedRate, bind_eq_ok, mulDiv_eq_ok] at h
  obtain ⟨factor, hf, -, hv⟩ := h
  rw [hv, compoundRate_eq _ _ _ hf, exactProjection]

/-- A factor within two percent of one in the sense of the excess bound fits 128 bits. -/
theorem within_excess_lt (x s : ℕ) (hs : 50 * s ≤ fixedPointOne.val)
    (hx : x * (fixedPointOne.val - s) ≤ fixedPointOne.val * fixedPointOne.val) :
    49 * x ≤ 50 * fixedPointOne.val := by
  have hF : 49 * fixedPointOne.val ≤ 50 * (fixedPointOne.val - s) := by omega
  have hpos := fixedPointOne_pos
  apply Nat.le_of_mul_le_mul_right _ hpos
  calc 49 * x * fixedPointOne.val = x * (49 * fixedPointOne.val) := by ring
    _ ≤ x * (50 * (fixedPointOne.val - s)) := Nat.mul_le_mul_left _ hF
    _ = 50 * (x * (fixedPointOne.val - s)) := by ring
    _ ≤ 50 * (fixedPointOne.val * fixedPointOne.val) := Nat.mul_le_mul_left _ hx
    _ = 50 * fixedPointOne.val * fixedPointOne.val := by ring

theorem mulDiv_one_exists (a b : U128) (s t : ℕ) (hst : 50 * (s + t) ≤ fixedPointOne.val)
    (ha : a.val * (fixedPointOne.val - s) ≤ fixedPointOne.val * fixedPointOne.val)
    (hb : b.val * (fixedPointOne.val - t) ≤ fixedPointOne.val * fixedPointOne.val) :
    ∃ y, mulDiv a b fixedPointOne = .ok y ∧
      y.val * (fixedPointOne.val - (s + t)) ≤ fixedPointOne.val * fixedPointOne.val := by
  have hbound := scaledMul_excess _ _ _ s t fixedPointOne_pos (by omega) ha hb
  have hlt := within_excess_lt _ _ hst hbound
  have hfit : scaledMul fixedPointOne.val a.val b.val < 2 ^ 128 := by
    have : 50 * fixedPointOne.val < 49 * 2 ^ 128 := by norm_num
    omega
  exact ⟨⟨_, hfit⟩, (mulDiv_eq_ok _ _ _ _).mpr ⟨fixedPointOne_pos.ne', rfl⟩, hbound⟩

theorem compoundLoop_exists (exponent : ℕ) : ∀ (result base : U128) (s t : ℕ),
    50 * (s + exponent * t) ≤ fixedPointOne.val →
    result.val * (fixedPointOne.val - s) ≤ fixedPointOne.val * fixedPointOne.val →
    base.val * (fixedPointOne.val - t) ≤ fixedPointOne.val * fixedPointOne.val →
    ∃ y, compoundLoop exponent result base = .ok y := by
  induction exponent using Nat.strong_induction_on with
  | h exponent ih =>
    intro result base s t hbudget hr hb
    rw [compoundLoop]
    by_cases h0 : exponent = 0
    · simp [h0]
    · rw [if_neg h0]
      have hsplit : exponent * t = exponent / 2 * (t + t) + exponent % 2 * t := by
        conv_lhs => rw [← Nat.div_add_mod exponent 2]
        ring
      have hresult : ∃ result' s', (if exponent % 2 = 1 then mulDiv result base fixedPointOne
          else pure result) = .ok result' ∧ s' = s + exponent % 2 * t ∧
          result'.val * (fixedPointOne.val - s') ≤ fixedPointOne.val * fixedPointOne.val := by
        rcases Nat.mod_two_eq_zero_or_one exponent with hm | hm
        · exact ⟨result, s, by simp [hm, pure, Except.pure], by simp [hm], hr⟩
        · rw [hm] at hsplit
          obtain ⟨y, hy, hyb⟩ := mulDiv_one_exists result base s t (by omega) hr hb
          exact ⟨y, s + t, by simp [hm, hy], by simp [hm], hyb⟩
      obtain ⟨result', s', hres, hs', hres'⟩ := hresult
      rw [hres, ok_bind]
      rcases Nat.eq_zero_or_pos (exponent / 2) with hp | hp
      · exact ⟨result', by simp [hp, pure, Except.pure, bind, Except.bind]⟩
      · have htt : t + t ≤ exponent / 2 * (t + t) := Nat.le_mul_of_pos_left _ hp
        obtain ⟨base', hbase, hbase'⟩ := mulDiv_one_exists base base t t (by omega) hb hb
        rw [if_pos hp, hbase, ok_bind]
        exact ih _ (by omega) _ _ s' (t + t) (by omega) hres' hbase'

/-- A rate whose excess over one is at most `d` compounds within 128 bits over every
exponent for which `d` times the exponent is at most two percent of one. -/
theorem compoundRate_exists (rate : U128) (elapsed : U64) (d : ℕ)
    (hd : 50 * (elapsed.val * d) ≤ fixedPointOne.val) (hrate : rate.val ≤ fixedPointOne.val + d) :
    ∃ y, compoundRate rate elapsed = .ok y := by
  unfold compoundRate
  split
  · exact ⟨_, rfl⟩
  · rename_i h0
    split
    · exact ⟨_, rfl⟩
    · have hle : d ≤ elapsed.val * d := Nat.le_mul_of_pos_left _ (Nat.pos_of_ne_zero h0)
      refine compoundLoop_exists _ _ _ 0 d (by omega) (by simp) ?_
      obtain ⟨u, hu⟩ : ∃ u, fixedPointOne.val = d + u := ⟨fixedPointOne.val - d, by omega⟩
      have hsub : fixedPointOne.val - d = u := by omega
      rw [hsub]
      calc rate.val * u ≤ (fixedPointOne.val + d) * u := Nat.mul_le_mul_right _ hrate
        _ ≤ fixedPointOne.val * fixedPointOne.val := by
          rw [hu]
          nlinarith [Nat.zero_le (d * d)]

theorem exactFactor_upper (rate : U128) (elapsed : U64) (d : ℕ)
    (hd : 50 * (elapsed.val * d) ≤ fixedPointOne.val) (hrate : rate.val ≤ fixedPointOne.val + d) :
    49 * exactFactor rate elapsed ≤ 50 * fixedPointOne.val := by
  rcases Nat.eq_zero_or_pos elapsed.val with h0 | h0
  · rw [exactFactor_zero _ _ h0]
    omega
  · have hle : d ≤ elapsed.val * d := Nat.le_mul_of_pos_left _ h0
    refine within_excess_lt _ (0 + elapsed.val * d) (by omega)
      (power_excess _ fixedPointOne_pos _ _ _ 0 d (by omega) (by simp) ?_)
    obtain ⟨u, hu⟩ : ∃ u, fixedPointOne.val = d + u := ⟨fixedPointOne.val - d, by omega⟩
    have hsub : fixedPointOne.val - d = u := by omega
    rw [hsub]
    calc rate.val * u ≤ (fixedPointOne.val + d) * u := Nat.mul_le_mul_right _ hrate
      _ ≤ fixedPointOne.val * fixedPointOne.val := by
        rw [hu]
        nlinarith [Nat.zero_le (d * d)]

theorem exactFactor_lower (rate : U128) (elapsed : U64) (d : ℕ)
    (hrate : fixedPointOne.val ≤ rate.val + d) :
    fixedPointOne.val ≤ exactFactor rate elapsed + elapsed.val * d := by
  have h := power_deficit _ fixedPointOne_pos elapsed.val fixedPointOne.val rate.val 0 d
    (by omega) hrate
  simpa [exactFactor] using h

theorem exactFactor_ge_one (rate : U128) (elapsed : U64)
    (hrate : fixedPointOne.val ≤ rate.val) : fixedPointOne.val ≤ exactFactor rate elapsed :=
  le_power _ fixedPointOne_pos _ _ _ hrate

end LezPrograms.Stablecoin.Compounding
