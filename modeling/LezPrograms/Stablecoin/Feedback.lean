import LezPrograms.Stablecoin.Controller

/-! # The controller is a negative feedback

A higher market price never raises the rate or the integral term, a higher prior
integral term never lowers them. Every operation of a tick is monotone: the products
with nonnegative gains, the divisions toward zero, both clamps and the rule at the
price bounds. -/

set_option autoImplicit false

namespace LezPrograms.Stablecoin.Controller
open LezPrograms.Checked LezPrograms.Checked.Unsigned LezPrograms.Stablecoin.Math

theorem clampToMagnitude_val (value : I256) (magnitude : Magnitude) :
    (clampToMagnitude value magnitude).val
      = max (-magnitude.bound.val) (min value.val magnitude.bound.val) := by
  have hm := magnitude.nonneg
  have hn : magnitude.negate.val = -magnitude.bound.val := rfl
  unfold clampToMagnitude
  split
  · omega
  · split
    · omega
    · show value.val = _
      omega

theorem unboundedRate_val (adjustment : I128)
    (h : -rateDeltaClamp.val ≤ adjustment.val ∧ adjustment.val ≤ rateDeltaClamp.val) :
    ((unboundedRate adjustment).val : ℤ) = fixedPointOne.val + adjustment.val := by
  simp only [unboundedRate, Signed.saturatingAdd, fixedPointOneSigned_val, fixedPointOne_val,
    rateDeltaClamp_val] at h ⊢
  norm_num
  omega

theorem boundedRate_mono (price a b : U128) (h : a.val ≤ b.val) :
    (boundedRate price a).val ≤ (boundedRate price b).val := by
  unfold boundedRate
  split
  · rw [maximum_val, maximum_val]
    exact max_le_max_right _ h
  · split
    · rw [minimum_val, minimum_val]
      exact min_le_min_right _ h
    · exact h

theorem truncDiv_val (a : I256) (n : ℕ) : (a.truncDiv n).val = a.val.tdiv n := rfl

/-- The two terms of a tick over unbounded integers. -/
def proportionalTerm (kp error : ℤ) : ℤ := (kp * error).tdiv fixedPointOne.val

def integralDelta (ki error elapsed : ℤ) : ℤ := (ki * error * elapsed).tdiv fixedPointOne.val

def clamped (n : ℤ) : ℤ := max (-rateDeltaClamp.val) (min n rateDeltaClamp.val)

theorem clamped_mono (m n : ℤ) (h : m ≤ n) : clamped m ≤ clamped n := by
  unfold clamped
  omega

def tickIntegral (integral ki error elapsed : ℤ) : ℤ :=
  clamped (integral + integralDelta ki error elapsed)

def tickAdjustment (integral kp ki error elapsed : ℤ) : ℤ :=
  clamped (proportionalTerm kp error + tickIntegral integral ki error elapsed)

section
variable (price market : U128) (integral kp ki : I128) (elapsed : U64) (output : ControllerOutput)

/-- A completed tick, in terms of the unbounded adjustment. -/
theorem runControllerTick_values
    (h : runControllerTick price market integral kp ki elapsed = .ok output) :
    output.controllerIntegralTerm.val
        = tickIntegral integral.val ki.val (price.val - market.val) elapsed.val ∧
      ∃ rate : U128, (rate.val : ℤ) = fixedPointOne.val
          + tickAdjustment integral.val kp.val ki.val (price.val - market.val) elapsed.val ∧
        output.redemptionRatePerMillisecond = boundedRate price rate := by
  simp only [runControllerTick, bind_eq_ok, expect_eq_ok, pure_eq_ok, Signed.checkedSub_eq_some,
    Signed.checkedMul_eq_some, Signed.checkedAdd_eq_some] at h
  obtain ⟨error, he, product, hp, integralProduct, hi, window, hw, sum, hs, adjustment, ha,
    rfl⟩ := h
  have herror : error.val = (price.val : ℤ) - market.val := he
  have hintegral : (clampToMagnitude sum integralMagnitude).val
      = tickIntegral integral.val ki.val (price.val - market.val) elapsed.val := by
    rw [clampToMagnitude_val, hs, truncDiv_val, hw, hi, herror]
    rfl
  refine ⟨hintegral, _, ?_, rfl⟩
  rw [unboundedRate_val _ (clampToMagnitude_bounds _ rateDeltaMagnitude), clampToMagnitude_val, ha,
    truncDiv_val, hp, herror]
  congr 1
  rw [tickAdjustment, ← hintegral]
  rfl

end

theorem fixedPointOne_cast_pos : (0 : ℤ) < fixedPointOne.val := by norm_num

section
variable (kp ki : ℤ) (hkp : 0 ≤ kp) (hki : 0 ≤ ki) (elapsed : ℕ)

include hkp in
theorem proportionalTerm_mono (e e' : ℤ) (h : e' ≤ e) :
    proportionalTerm kp e' ≤ proportionalTerm kp e :=
  Int.tdiv_le_tdiv fixedPointOne_cast_pos (mul_le_mul_of_nonneg_left h hkp)

include hki in
theorem integralDelta_mono (e e' : ℤ) (h : e' ≤ e) :
    integralDelta ki e' elapsed ≤ integralDelta ki e elapsed := by
  refine Int.tdiv_le_tdiv fixedPointOne_cast_pos ?_
  exact mul_le_mul_of_nonneg_right (mul_le_mul_of_nonneg_left h hki) (Int.natCast_nonneg _)

theorem proportionalTerm_zero : proportionalTerm kp 0 = 0 := by
  rw [proportionalTerm, mul_zero, Int.zero_tdiv]

theorem integralDelta_zero : integralDelta ki 0 elapsed = 0 := by
  rw [integralDelta, mul_zero, zero_mul, Int.zero_tdiv]

include hki in
theorem tickIntegral_mono (i i' e e' : ℤ) (hi : i' ≤ i) (he : e' ≤ e) :
    tickIntegral i' ki e' elapsed ≤ tickIntegral i ki e elapsed :=
  clamped_mono _ _ (add_le_add hi (integralDelta_mono ki hki elapsed e e' he))

include hkp hki in
theorem tickAdjustment_mono (i i' e e' : ℤ) (hi : i' ≤ i) (he : e' ≤ e) :
    tickAdjustment i' kp ki e' elapsed ≤ tickAdjustment i kp ki e elapsed :=
  clamped_mono _ _ (add_le_add (proportionalTerm_mono kp hkp e e' he)
    (tickIntegral_mono ki hki elapsed i i' e e' hi he))

/-- Without an error and without a prior term nothing is adjusted. -/
theorem tickAdjustment_zero : tickAdjustment 0 kp ki 0 elapsed = 0 := by
  rw [tickAdjustment, tickIntegral, proportionalTerm_zero, integralDelta_zero]
  rfl

end

section
variable (price : U128) (kp ki : I128) (elapsed : U64) (hgains : GainsInBand kp ki)
include hgains

theorem runControllerTick_mono (market market' : U128) (integral integral' : I128)
    (output output' : ControllerOutput) (hm : market.val ≤ market'.val)
    (hi : integral'.val ≤ integral.val)
    (h : runControllerTick price market integral kp ki elapsed = .ok output)
    (h' : runControllerTick price market' integral' kp ki elapsed = .ok output') :
    output'.redemptionRatePerMillisecond.val ≤ output.redemptionRatePerMillisecond.val ∧
      output'.controllerIntegralTerm.val ≤ output.controllerIntegralTerm.val := by
  obtain ⟨⟨hkp, -⟩, hki, -⟩ := hgains
  obtain ⟨hv, rate, hrate, hr⟩ := runControllerTick_values _ _ _ _ _ _ _ h
  obtain ⟨hv', rate', hrate', hr'⟩ := runControllerTick_values _ _ _ _ _ _ _ h'
  have herror : (price.val : ℤ) - market'.val ≤ price.val - market.val := by omega
  have hadjust := tickAdjustment_mono kp.val ki.val hkp hki elapsed.val _ _ _ _ hi herror
  refine ⟨?_, ?_⟩
  · rw [hr, hr']
    exact boundedRate_mono price rate' rate (by omega)
  · rw [hv, hv']
    exact tickIntegral_mono ki.val hki elapsed.val _ _ _ _ hi herror

/-- Above the market the rate does not point down, below it not up. -/
theorem runControllerTick_direction (market : U128) (integral : I128) (output : ControllerOutput)
    (h : runControllerTick price market integral kp ki elapsed = .ok output) :
    (market.val ≤ price.val → 0 ≤ integral.val → price.val < maximumRedemptionPrice.val →
        fixedPointOne.val ≤ output.redemptionRatePerMillisecond.val) ∧
      (price.val ≤ market.val → integral.val ≤ 0 → minimumRedemptionPrice.val < price.val →
        output.redemptionRatePerMillisecond.val ≤ fixedPointOne.val) := by
  obtain ⟨⟨hkp, -⟩, hki, -⟩ := hgains
  obtain ⟨-, rate, hrate, hr⟩ := runControllerTick_values _ _ _ _ _ _ _ h
  have hzero := tickAdjustment_zero kp.val ki.val elapsed.val
  rw [hr]
  constructor
  · intro hm hi hmax
    have hadjust := tickAdjustment_mono kp.val ki.val hkp hki elapsed.val integral.val 0
      (price.val - market.val) 0 hi (by omega)
    have hup : fixedPointOne.val ≤ rate.val := by omega
    unfold boundedRate
    split
    · rw [maximum_val]
      exact le_max_right _ _
    · rwa [if_neg (by omega)]
  · intro hm hi hmin
    have hadjust := tickAdjustment_mono kp.val ki.val hkp hki elapsed.val 0 integral.val 0
      (price.val - market.val) hi (by omega)
    have hdown : rate.val ≤ fixedPointOne.val := by omega
    unfold boundedRate
    rw [if_neg (by omega)]
    split
    · rw [minimum_val]
      exact min_le_right _ _
    · exact hdown

end

/-- At a bound of the price the rate does not point further outside. -/
theorem boundedRate_inward (price rate : U128) :
    (price.val ≤ minimumRedemptionPrice.val → fixedPointOne.val ≤ (boundedRate price rate).val) ∧
      (maximumRedemptionPrice.val ≤ price.val →
        (boundedRate price rate).val ≤ fixedPointOne.val) := by
  constructor
  · intro h
    rw [boundedRate, if_pos h, maximum_val]
    exact le_max_right _ _
  · intro h
    have hband : minimumRedemptionPrice.val < maximumRedemptionPrice.val := by norm_num
    rw [boundedRate, if_neg (by omega), if_pos h, minimum_val]
    exact min_le_right _ _

/-- With gains in their bands the rate and the integral term do not rise with the market price and do
not fall with the prior integral term, the rate points from the market price to the redemption
price, and at a price bound never further outside. -/
theorem controller_negative_feedback (price : U128) (kp ki : I128) (elapsed : U64)
    (hgains : GainsInBand kp ki) (market : U128) (integral : I128) (output : ControllerOutput)
    (h : runControllerTick price market integral kp ki elapsed = .ok output) :
    (∀ (market' : U128) (integral' : I128) (output' : ControllerOutput),
      market.val ≤ market'.val → integral'.val ≤ integral.val →
      runControllerTick price market' integral' kp ki elapsed = .ok output' →
        output'.redemptionRatePerMillisecond.val ≤ output.redemptionRatePerMillisecond.val ∧
        output'.controllerIntegralTerm.val ≤ output.controllerIntegralTerm.val) ∧
    (market.val ≤ price.val → 0 ≤ integral.val → price.val < maximumRedemptionPrice.val →
      fixedPointOne.val ≤ output.redemptionRatePerMillisecond.val) ∧
    (price.val ≤ market.val → integral.val ≤ 0 → minimumRedemptionPrice.val < price.val →
      output.redemptionRatePerMillisecond.val ≤ fixedPointOne.val) ∧
    (price.val ≤ minimumRedemptionPrice.val →
      fixedPointOne.val ≤ output.redemptionRatePerMillisecond.val) ∧
    (maximumRedemptionPrice.val ≤ price.val →
      output.redemptionRatePerMillisecond.val ≤ fixedPointOne.val) := by
  obtain ⟨hup, hdown⟩ := runControllerTick_direction price kp ki elapsed hgains _ _ _ h
  obtain ⟨-, rate, -, hr⟩ := runControllerTick_values _ _ _ _ _ _ _ h
  obtain ⟨hlow, hhigh⟩ := boundedRate_inward price rate
  rw [← hr] at hlow hhigh
  exact ⟨fun market' integral' output' hm hi h' =>
    runControllerTick_mono price kp ki elapsed hgains market market' integral integral' output
      output' hm hi h h', hup, hdown, hlow, hhigh⟩

def firstTick : Outcome ControllerOutput :=
  runControllerTick fixedPointOne ⟨2000000000000000000000000000, by norm_num⟩ ⟨0, by norm_num⟩
    ⟨1000000000000000, by norm_num⟩ ⟨1000000000, by norm_num⟩ ⟨1000, by norm_num⟩

theorem first_tick_points_down :
    ∃ output, firstTick = .ok output ∧ output.redemptionRatePerMillisecond.val
      = 999999999998999000000000000 ∧ output.redemptionRatePerMillisecond.val ≤ fixedPointOne.val := by
  have h : firstTick = .ok ⟨⟨999999999998999000000000000, by norm_num⟩,
      ⟨-1000000000000, by norm_num⟩⟩ := by decide +kernel
  obtain ⟨-, -, hdown, -⟩ := controller_negative_feedback _ _ _ _
    ⟨⟨by norm_num, by norm_num⟩, by norm_num, by norm_num⟩ _ _ _ h
  exact ⟨_, h, rfl, hdown (by norm_num) le_rfl (by norm_num)⟩

end LezPrograms.Stablecoin.Controller
