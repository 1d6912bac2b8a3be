import LezPrograms.Stablecoin.Compounding

/-! # Where the 512-bit projections saturate

A rate of at most one never saturates. A rate above one keeps both loop
variables at or above one, so a saturated product is never scaled back below
`saturationFloor`. A projection is therefore exact or enormous. -/

set_option autoImplicit false

namespace LezPrograms.Stablecoin.Saturation
open LezPrograms.Checked LezPrograms.Checked.Unsigned LezPrograms.FlooredPower
open LezPrograms.Stablecoin.Math LezPrograms.Stablecoin.Compounding

def saturationFloor : ℕ := (maxValue 512).val / fixedPointOne.val

theorem two_pow_double (n : ℕ) (h : n = 256 + 256) : (2 : ℕ) ^ n = 2 ^ 256 * 2 ^ 256 := by
  rw [h]
  exact pow_add 2 256 256

theorem le_maxValue_512 (n : ℕ) (h : n < 2 ^ 256 * 2 ^ 256) : n ≤ (maxValue 512).val :=
  (le_maxValue_iff 512 n).mpr (h.trans_eq (two_pow_double 512 rfl).symm)

theorem saturationFloor_ge : 2 ^ 256 * 2 ^ 128 ≤ saturationFloor := by
  have hfit := le_maxValue_512 (2 ^ 256 * 2 ^ 128 * fixedPointOne.val) (by norm_num)
  exact (Nat.le_div_iff_mul_le fixedPointOne_pos).mpr hfit

theorem wideProduct_fst (a b : U512) : (wideProduct a b).1 = saturatingMul a b := by
  unfold wideProduct saturatingMul
  generalize checkedMul a b = outcome
  cases outcome with
  | none => exact Option.getD_none.symm
  | some product => exact Option.getD_some.symm

def wideStep (a b : U512) : U512 := divNat (wideProduct a b).1 fixedPointOne.val

theorem wideStep_val (a b : U512) :
    (wideStep a b).val = scaledMul fixedPointOne.val a.val b.val ∨
      (wideStep a b).val = saturationFloor := by
  rw [wideStep, divNat_val, wideProduct_fst, saturatingMul_val, scaledMul, saturationFloor]
  rcases Nat.le_total (a.val * b.val) (maxValue 512).val with h | h
  · exact Or.inl (by rw [min_eq_left h])
  · exact Or.inr (by rw [min_eq_right h])

theorem wideStep_ge (a b : U512) (c : ℕ) (hc : c ≤ saturationFloor)
    (h : c * fixedPointOne.val ≤ a.val * b.val) : c ≤ (wideStep a b).val := by
  rcases wideStep_val a b with hv | hv
  · rw [hv, scaledMul, Nat.le_div_iff_mul_le fixedPointOne_pos]
    exact h
  · rw [hv]
    exact hc

theorem wideStep_exact (a b : U512) (ha : a.val ≤ fixedPointOne.val)
    (hb : b.val ≤ fixedPointOne.val) :
    (wideStep a b).val = scaledMul fixedPointOne.val a.val b.val := by
  have hprod : a.val * b.val ≤ fixedPointOne.val * fixedPointOne.val := Nat.mul_le_mul ha hb
  have hfit : a.val * b.val ≤ (maxValue 512).val :=
    le_maxValue_512 _ (lt_of_le_of_lt hprod (by norm_num))
  rw [wideStep, divNat_val, wideProduct_fst, saturatingMul_val, scaledMul, min_eq_left hfit]

theorem compoundLoopWide_pos (exponent : ℕ) (result base : U512) (saturated : Bool)
    (h : exponent ≠ 0) : ∃ flag, compoundLoopWide exponent result base saturated =
      compoundLoopWide (exponent / 2)
        (if exponent % 2 = 1 then wideStep result base else result)
        (if 0 < exponent / 2 then wideStep base base else base) flag := by
  rw [compoundLoopWide, if_neg h]
  by_cases hm : exponent % 2 = 1 <;> by_cases hp : 0 < exponent / 2 <;>
    simp only [hm, hp, if_true, if_false, wideStep] <;> exact ⟨_, rfl⟩

theorem compoundLoopWide_zero (result base : U512) (saturated : Bool) :
    compoundLoopWide 0 result base saturated = (result, saturated) := by
  rw [compoundLoopWide]
  simp

/-- Factors at most one never leave 512 bits. -/
theorem compoundLoopWide_exact (exponent : ℕ) : ∀ (result base : U512) (saturated : Bool),
    result.val ≤ fixedPointOne.val → base.val ≤ fixedPointOne.val →
    (compoundLoopWide exponent result base saturated).1.val =
      power fixedPointOne.val exponent result.val base.val := by
  induction exponent using Nat.strong_induction_on with
  | h exponent ih =>
    intro result base saturated hr hb
    by_cases h0 : exponent = 0
    · subst h0
      rw [compoundLoopWide_zero, power_zero]
    · obtain ⟨flag, hstep⟩ := compoundLoopWide_pos exponent result base saturated h0
      have hres : (if exponent % 2 = 1 then wideStep result base else result).val =
          if exponent % 2 = 1 then scaledMul fixedPointOne.val result.val base.val
          else result.val := by
        split
        · exact wideStep_exact result base hr hb
        · rfl
      have hbase : (if 0 < exponent / 2 then wideStep base base else base).val =
          if 0 < exponent / 2 then scaledMul fixedPointOne.val base.val base.val
          else base.val := by
        split
        · exact wideStep_exact base base hb hb
        · rfl
      rw [hstep, power_pos _ _ _ _ h0, ih _ (by omega), hres, hbase]
      · rw [hres]
        split
        · exact scaledMul_le _ _ _ _ hr hb
        · exact hr
      · rw [hbase]
        split
        · exact scaledMul_le _ _ _ _ hb hb
        · exact hb

theorem wideStep_of_mulDiv (a b y : U128) (x z : U512) (hx : x.val = a.val) (hz : z.val = b.val)
    (h : mulDiv a b fixedPointOne = .ok y) : (wideStep x z).val = y.val := by
  have hprod : x.val * z.val < 2 ^ 256 := by
    rw [hx, hz]
    exact product_lt a b
  have hfit : x.val * z.val ≤ (maxValue 512).val :=
    le_maxValue_512 _ (hprod.trans (by norm_num))
  rw [wideStep, divNat_val, wideProduct_fst, saturatingMul_val, min_eq_left hfit,
    ((mulDiv_eq_ok _ _ _ _).mp h).2, hx, hz]

/-- Where the 128-bit loop has a result, the 512-bit loop has the same. -/
theorem compoundLoopWide_of_ok (exponent : ℕ) : ∀ (result base y : U128) (x z : U512)
    (saturated : Bool), x.val = result.val → z.val = base.val →
    compoundLoop exponent result base = .ok y →
    (compoundLoopWide exponent x z saturated).1.val = y.val := by
  induction exponent using Nat.strong_induction_on with
  | h exponent ih =>
    intro result base y x z saturated hx hz h
    rw [compoundLoop] at h
    by_cases h0 : exponent = 0
    · subst h0
      simp only [if_true, Except.ok.injEq] at h
      rw [compoundLoopWide_zero, hx, h]
    · rw [if_neg h0] at h
      simp only [bind_eq_ok, ite_eq_ok, pure_eq_ok] at h
      obtain ⟨result', hr, base', hb, h⟩ := h
      obtain ⟨flag, hstep⟩ := compoundLoopWide_pos exponent x z saturated h0
      rw [hstep]
      apply ih _ (by omega) result' base' y _ _ _ _ _ h
      · rcases hr with ⟨hm, hr⟩ | ⟨hm, rfl⟩
        · rw [if_pos hm]
          exact wideStep_of_mulDiv _ _ _ _ _ hx hz hr
        · rwa [if_neg hm]
      · rcases hb with ⟨hp, hb⟩ | ⟨hp, rfl⟩
        · rw [if_pos hp]
          exact wideStep_of_mulDiv _ _ _ _ _ hz hz hb
        · rwa [if_neg hp]

theorem compoundRateWide_of_ok (rate : U128) (elapsed : U64) (y : U128)
    (h : compoundRate rate elapsed = .ok y) : (compoundRateWide rate elapsed).val = y.val := by
  unfold compoundRate at h
  unfold compoundRateWide compoundRateWideResult
  by_cases h0 : elapsed.val = 0
  · rw [if_pos h0] at h
    rw [if_pos (Or.inl h0), ← Except.ok.inj h]
    rfl
  · rw [if_neg h0] at h
    by_cases h1 : rate = fixedPointOne
    · rw [if_pos h1] at h
      rw [if_pos (Or.inr h1), ← Except.ok.inj h]
      rfl
    · rw [if_neg h1] at h
      rw [if_neg (by tauto)]
      exact compoundLoopWide_of_ok _ _ _ _ _ _ _ oneWide_val (widen_val _ _) h

/-- A rate that compounds within 128 bits is projected exactly. -/
theorem projectForwardWide_of_ok (anchor rate y : U128) (since now : U64)
    (h : compoundRate rate (clampedElapsed now since) = .ok y) :
    (projectForwardWide anchor rate since now).val = exactProjection anchor rate since now := by
  have hfactor := compoundRateWide_of_ok rate _ y h
  have hprod : anchor.val * y.val < 2 ^ 256 := product_lt anchor y
  have hfit : anchor.val * y.val ≤ (maxValue 512).val :=
    le_maxValue_512 _ (hprod.trans (by norm_num))
  rw [projectForwardWide, divNat_val, saturatingMul_val, widen_val, hfactor, min_eq_left hfit,
    exactProjection, compoundRate_eq rate _ y h]

/-- The wide value is at least one and equals the exact value or is saturated. -/
def Faithful (wide : U512) (exact : ℕ) : Prop :=
  fixedPointOne.val ≤ wide.val ∧ (wide.val = exact ∨ saturationFloor ≤ wide.val)

theorem one_le_floor : fixedPointOne.val ≤ saturationFloor := by
  exact le_trans (by norm_num) saturationFloor_ge

theorem wideStep_faithful (a b : U512) (x y : ℕ) (ha : Faithful a x) (hb : Faithful b y) :
    Faithful (wideStep a b) (scaledMul fixedPointOne.val x y) := by
  obtain ⟨ha1, ha2⟩ := ha
  obtain ⟨hb1, hb2⟩ := hb
  refine ⟨wideStep_ge a b _ one_le_floor (Nat.mul_le_mul ha1 hb1), ?_⟩
  rcases ha2 with ha2 | ha2
  · rcases hb2 with hb2 | hb2
    · rcases wideStep_val a b with hv | hv
      · exact Or.inl (by rw [hv, ha2, hb2])
      · exact Or.inr (by rw [hv])
    · refine Or.inr (wideStep_ge a b _ le_rfl ?_)
      rw [Nat.mul_comm]
      exact Nat.mul_le_mul ha1 hb2
  · exact Or.inr (wideStep_ge a b _ le_rfl (Nat.mul_le_mul ha2 hb1))

theorem compoundLoopWide_faithful (exponent : ℕ) :
    ∀ (result base : U512) (saturated : Bool) (x y : ℕ),
    Faithful result x → Faithful base y →
    Faithful (compoundLoopWide exponent result base saturated).1
      (power fixedPointOne.val exponent x y) := by
  induction exponent using Nat.strong_induction_on with
  | h exponent ih =>
    intro result base saturated x y hr hb
    by_cases h0 : exponent = 0
    · subst h0
      rw [compoundLoopWide_zero, power_zero]
      exact hr
    · obtain ⟨flag, hstep⟩ := compoundLoopWide_pos exponent result base saturated h0
      rw [hstep, power_pos _ _ _ _ h0]
      apply ih _ (by omega)
      · split
        · exact wideStep_faithful result base x y hr hb
        · exact hr
      · split
        · exact wideStep_faithful base base y y hb hb
        · exact hb

theorem compoundRateWide_exact_or_saturated (rate : U128) (elapsed : U64) :
    (compoundRateWide rate elapsed).val = exactFactor rate elapsed ∨
      saturationFloor ≤ (compoundRateWide rate elapsed).val := by
  unfold compoundRateWide compoundRateWideResult
  split
  · rename_i h
    refine Or.inl ?_
    rcases h with h0 | h1
    · rw [exactFactor_zero _ _ h0]
      rfl
    · rw [h1, exactFactor_one]
      rfl
  · rcases Nat.le_total rate.val fixedPointOne.val with hle | hge
    · have hexact := compoundLoopWide_exact elapsed.val oneWide (widen rate (by decide)) false
        oneWide_val.le (by rw [widen_val]; exact hle)
      rw [widen_val, oneWide_val] at hexact
      exact Or.inl hexact
    · exact (compoundLoopWide_faithful _ _ _ _ _ _ ⟨oneWide_val.ge, Or.inl oneWide_val⟩
        ⟨by rw [widen_val]; exact hge, Or.inl (widen_val _ _)⟩).2

/-- A wide projection is the exact projection, or it is at least the saturation floor,
scaled by the anchor it started from. -/
theorem projectForwardWide_exact_or_saturated (anchor rate : U128) (since now : U64) :
    (projectForwardWide anchor rate since now).val = exactProjection anchor rate since now ∨
      min (anchor.val * saturationFloor / fixedPointOne.val) saturationFloor ≤
        (projectForwardWide anchor rate since now).val := by
  unfold projectForwardWide exactProjection
  rw [divNat_val, saturatingMul_val, widen_val]
  rcases compoundRateWide_exact_or_saturated rate (clampedElapsed now since) with h | h
  · rw [h]
    rcases Nat.le_total (anchor.val * exactFactor rate (clampedElapsed now since))
        (maxValue 512).val with hle | hge
    · exact Or.inl (by rw [min_eq_left hle])
    · exact Or.inr (by
        rw [min_eq_right hge]
        exact min_le_right _ _)
  · refine Or.inr ?_
    have hmul := Nat.div_le_div_right (c := fixedPointOne.val) (Nat.mul_le_mul_left anchor.val h)
    rcases Nat.le_total (anchor.val * (compoundRateWide rate (clampedElapsed now since)).val)
        (maxValue 512).val with hle | hge
    · rw [min_eq_left hle]
      exact le_trans (min_le_left _ _) hmul
    · rw [min_eq_right hge]
      exact min_le_right _ _

end LezPrograms.Stablecoin.Saturation
