import LezPrograms.Stablecoin.Compounding
import LezPrograms.Stablecoin.Step

/-! # Bounds on the stored rates and prices

What the parameter bands, the controller's clamps and the price clamp maintain
together, and what follows for the projections. -/

set_option autoImplicit false

namespace LezPrograms.Stablecoin
open LezPrograms.Checked LezPrograms.Checked.Unsigned LezPrograms.Lee
open LezPrograms.Stablecoin.Math LezPrograms.Stablecoin.Controller LezPrograms.Stablecoin.Compounding
open LezPrograms.Stablecoin.Saturation

def RatioInBand (ratio : U128) : Prop :=
  minCollateralizationRatio.val ≤ ratio.val ∧ ratio.val ≤ maxCollateralizationRatio.val

def TimingInBand (milliseconds : U64) : Prop :=
  1 ≤ milliseconds.val ∧ milliseconds.val ≤ maxTimingMilliseconds.val

structure ParametersBounded (p : ProtocolParameters) : Prop where
  feeLower : fixedPointOne.val ≤ p.stabilityFeePerMillisecond.val
  feeUpper : p.stabilityFeePerMillisecond.val ≤ maxStabilityFeePerMillisecond.val
  gains : GainsInBand p.controllerProportionalGain p.controllerIntegralGain
  ratio : RatioInBand p.minimumCollateralizationRatio
  interval : TimingInBand p.minimumMillisecondsBetweenRateUpdates
  age : TimingInBand p.maximumOraclePriceAgeMilliseconds

/-- The price, the rate within `rateDeltaClamp` (10^16) of one, and the integral term. -/
structure RedemptionBounded (r : RedemptionPriceState) : Prop where
  priceLower : minimumRedemptionPrice.val ≤ r.redemptionPriceAtLastUpdate.val
  priceUpper : r.redemptionPriceAtLastUpdate.val ≤ maximumRedemptionPrice.val
  rateLower : fixedPointOne.val ≤ r.redemptionRatePerMillisecond.val + 10000000000000000
  rateUpper : r.redemptionRatePerMillisecond.val ≤ fixedPointOne.val + 10000000000000000
  integralLower : -integralClamp.val ≤ r.controllerIntegralTerm.val
  integralUpper : r.controllerIntegralTerm.val ≤ integralClamp.val

theorem stabilityFeeInBand_bounds (rate : U128) (label : String)
    (h : assertStabilityFeeInBand rate label = .ok ()) :
    fixedPointOne.val ≤ rate.val ∧ rate.val ≤ maxStabilityFeePerMillisecond.val := by
  simpa only [assertStabilityFeeInBand, bind_eq_ok, ensure_eq_ok, exists_const] using h

theorem controllerGainsInBand_bounds (proportional integral : I128)
    (h : assertControllerGainsInBand proportional integral = .ok ()) :
    GainsInBand proportional integral := by
  simp only [assertControllerGainsInBand, bind_eq_ok, ensure_eq_ok, exists_const] at h
  exact ⟨⟨h.1.1, h.1.2⟩, h.2.1, h.2.2⟩

theorem collateralizationRatioInBand_bounds (ratio : U128) (label : String)
    (h : assertCollateralizationRatioInBand ratio label = .ok ()) : RatioInBand ratio := by
  simpa only [assertCollateralizationRatioInBand, bind_eq_ok, ensure_eq_ok, exists_const,
    RatioInBand] using h

theorem timingInBand_bounds (milliseconds : U64) (label : String)
    (h : assertTimingMillisecondsInBand milliseconds label = .ok ()) :
    TimingInBand milliseconds := by
  simpa only [assertTimingMillisecondsInBand, bind_eq_ok, ensure_eq_ok, exists_const,
    TimingInBand] using h

theorem ParametersUpdate.bounded (p p' : ProtocolParameters) (signer : AccountId)
    (h : ParametersUpdate p signer p') (hp : ParametersBounded p) : ParametersBounded p' := by
  cases h with
  | ratio newRatio label _ band =>
    exact { hp with ratio := collateralizationRatioInBand_bounds newRatio label band }
  | gains proportional integral _ band =>
    exact { hp with gains := controllerGainsInBand_bounds proportional integral band }
  | timing minimum maximum minimumLabel maximumLabel _ hmin hmax =>
    exact { hp with
      interval := timingInBand_bounds minimum minimumLabel hmin
      age := timingInBand_bounds maximum maximumLabel hmax }
  | _ => exact { hp with }

/-- A setter leaves the two definitions of the instance alone. -/
theorem ParametersUpdate.definitions_kept (p p' : ProtocolParameters) (signer : AccountId)
    (h : ParametersUpdate p signer p') :
    p'.stablecoinDefinitionId = p.stablecoinDefinitionId ∧
      p'.collateralDefinitionId = p.collateralDefinitionId := by
  cases h <;> exact ⟨rfl, rfl⟩

theorem ParametersBounded.set_fee (p : ProtocolParameters) (hp : ParametersBounded p) (rate : U128)
    (label : String) (h : assertStabilityFeeInBand rate label = .ok ()) :
    ParametersBounded { p with stabilityFeePerMillisecond := rate } :=
  { hp with
    feeLower := (stabilityFeeInBand_bounds rate label h).1
    feeUpper := (stabilityFeeInBand_bounds rate label h).2 }

theorem advanceRedemptionPrice_bounded (p : ProtocolParameters) (r r' : RedemptionPriceState)
    (price : U128) (now : U64) (h : advanceRedemptionPrice p r price now = .ok r') :
    RedemptionBounded r' := by
  simp only [advanceRedemptionPrice, bind_eq_ok, pure_eq_ok] at h
  obtain ⟨output, ho, rfl⟩ := h
  obtain ⟨⟨h1, h2⟩, h3, h4⟩ := runControllerTick_bounds _ _ _ _ _ _ _ ho
  obtain ⟨h5, h6⟩ := boundRedemptionPrice_bounds (computeCurrentRedemptionPriceWide
    r.redemptionPriceAtLastUpdate r.redemptionRatePerMillisecond r.lastUpdatedAt now)
  exact ⟨h5, h6, h1, h2, h3, h4⟩

theorem redemptionBounded_at_one (price : U128) (now : U64)
    (hl : minimumRedemptionPrice.val ≤ price.val) (hu : price.val ≤ maximumRedemptionPrice.val) :
    RedemptionBounded ⟨price, fixedPointOne, ⟨0, zero_mem_i128⟩, now⟩ :=
  ⟨hl, hu, Nat.le_add_right _ _, Nat.le_add_right _ _, by norm_num, by norm_num⟩

theorem resetState_bounded (r : RedemptionPriceState) (now : U64) :
    RedemptionBounded (resetState r now) :=
  redemptionBounded_at_one _ now (boundRedemptionPrice_bounds _).1 (boundRedemptionPrice_bounds _).2

theorem parametersInBand_bounds (params : InitializeProgramParams)
    (admin definition collateral oracle : AccountId)
    (h : assertParametersInBand params = .ok ()) :
    ParametersBounded (initialParameters params admin definition collateral oracle) ∧
    (minimumRedemptionPrice.val ≤ params.initialRedemptionPrice.val ∧
      params.initialRedemptionPrice.val ≤ maximumRedemptionPrice.val) := by
  simp only [assertParametersInBand, bind_eq_ok, ensure_eq_ok, exists_const] at h
  obtain ⟨_, hfee, _, hratio, _, hgains, _, hinterval, _, hage, hprice, -⟩ := h
  obtain ⟨hlower, hupper⟩ := stabilityFeeInBand_bounds _ _ hfee
  exact ⟨⟨hlower, hupper, controllerGainsInBand_bounds _ _ hgains,
    collateralizationRatioInBand_bounds _ _ hratio, timingInBand_bounds _ _ hinterval,
    timingInBand_bounds _ _ hage⟩, hprice⟩

theorem accrueFees_spec (p : ProtocolParameters) (a : StabilityFeeAccumulator) (now : U64)
    (accrual : FeeAccrual) (h : accrueFees p a now = .ok accrual) :
    a.accumulatedRateAtLastAccrual.val ≤ accrual.accumulator.accumulatedRateAtLastAccrual.val ∧
      accrual.accumulator.totalNormalizedDebt = a.totalNormalizedDebt ∧
      accrual.accruedFees.val = a.totalNormalizedDebt.val *
        (accrual.accumulator.accumulatedRateAtLastAccrual.val
          - a.accumulatedRateAtLastAccrual.val) / fixedPointOne.val := by
  simp only [accrueFees, bind_eq_ok, expect_eq_ok, checkedSub_eq_some, mulDiv_eq_ok,
    pure_eq_ok] at h
  obtain ⟨current, -, delta, hd, fees, ⟨-, hf⟩, rfl⟩ := h
  refine ⟨by simp only; omega, rfl, ?_⟩
  rw [hf]
  simp only
  rw [show delta.val = current.val - a.accumulatedRateAtLastAccrual.val by omega]

theorem exactProjection_le (anchor rate : U128) (since now : U64) (d : ℕ)
    (hd : 50 * (604800000 * d) ≤ fixedPointOne.val) (hrate : rate.val ≤ fixedPointOne.val + d) :
    49 * exactProjection anchor rate since now ≤ 50 * anchor.val := by
  have hwindow : (clampedElapsed now since).val * d ≤ 604800000 * d :=
    Nat.mul_le_mul_right d (clampedElapsed_le now since)
  have hfactor := exactFactor_upper rate (clampedElapsed now since) d (by omega) hrate
  have hdiv := Nat.div_mul_le_self (anchor.val * exactFactor rate (clampedElapsed now since))
    fixedPointOne.val
  apply Nat.le_of_mul_le_mul_right _ fixedPointOne_pos
  calc 49 * exactProjection anchor rate since now * fixedPointOne.val
      = 49 * (exactProjection anchor rate since now * fixedPointOne.val) := by ring
    _ ≤ 49 * (anchor.val * exactFactor rate (clampedElapsed now since)) :=
        Nat.mul_le_mul_left 49 hdiv
    _ = anchor.val * (49 * exactFactor rate (clampedElapsed now since)) := by ring
    _ ≤ anchor.val * (50 * fixedPointOne.val) := Nat.mul_le_mul_left _ hfactor
    _ = 50 * anchor.val * fixedPointOne.val := by ring

theorem exactProjection_pos (anchor rate : U128) (since now : U64) (d : ℕ)
    (hd : 2 * (604800000 * d) ≤ fixedPointOne.val) (hrate : fixedPointOne.val ≤ rate.val + d)
    (hanchor : 2 ≤ anchor.val) : 0 < exactProjection anchor rate since now := by
  have hwindow : (clampedElapsed now since).val * d ≤ 604800000 * d :=
    Nat.mul_le_mul_right d (clampedElapsed_le now since)
  have hfactor := exactFactor_lower rate (clampedElapsed now since) d hrate
  apply Nat.div_pos _ fixedPointOne_pos
  calc fixedPointOne.val ≤ 2 * exactFactor rate (clampedElapsed now since) := by omega
    _ ≤ anchor.val * exactFactor rate (clampedElapsed now since) :=
        Nat.mul_le_mul_right _ hanchor

/-- With the redemption state in its bounds, the price projects exactly, within 128 bits and
above zero, at every clock reading. -/
theorem RedemptionBounded.projection (r : RedemptionPriceState) (h : RedemptionBounded r)
    (now : U64) :
    (computeCurrentRedemptionPriceWide r.redemptionPriceAtLastUpdate
        r.redemptionRatePerMillisecond r.lastUpdatedAt now).val
      = exactProjection r.redemptionPriceAtLastUpdate r.redemptionRatePerMillisecond
        r.lastUpdatedAt now ∧
    (computeCurrentRedemptionPriceWide r.redemptionPriceAtLastUpdate
        r.redemptionRatePerMillisecond r.lastUpdatedAt now).val < 2 ^ 128 ∧
    0 < (computeCurrentRedemptionPriceWide r.redemptionPriceAtLastUpdate
        r.redemptionRatePerMillisecond r.lastUpdatedAt now).val := by
  have hd : 50 * (604800000 * 10000000000000000) ≤ fixedPointOne.val := by norm_num
  have hwindow : (clampedElapsed now r.lastUpdatedAt).val * 10000000000000000
      ≤ 604800000 * 10000000000000000 := Nat.mul_le_mul_right _ (clampedElapsed_le _ _)
  obtain ⟨y, hy⟩ := compoundRate_exists r.redemptionRatePerMillisecond
    (clampedElapsed now r.lastUpdatedAt) 10000000000000000
    (le_trans (Nat.mul_le_mul_left 50 hwindow) hd) h.rateUpper
  have hexact := projectForwardWide_of_ok r.redemptionPriceAtLastUpdate
    r.redemptionRatePerMillisecond y r.lastUpdatedAt now hy
  have hupper := exactProjection_le r.redemptionPriceAtLastUpdate r.redemptionRatePerMillisecond
    r.lastUpdatedAt now _ hd h.rateUpper
  have hlower := exactProjection_pos r.redemptionPriceAtLastUpdate
    r.redemptionRatePerMillisecond r.lastUpdatedAt now _ (by norm_num) h.rateLower
    (le_trans (by rw [minimumRedemptionPrice_val]; norm_num) h.priceLower)
  have hprice := h.priceUpper
  rw [maximumRedemptionPrice_val] at hprice
  rw [computeCurrentRedemptionPriceWide, hexact]
  refine ⟨rfl, ?_, hlower⟩
  norm_num at hprice ⊢
  omega

/-- The 128-bit fee projection has a result while the accumulator is below half the range. -/
theorem ParametersBounded.fee_projection (p : ProtocolParameters) (hp : ParametersBounded p)
    (accumulated : U128) (since now : U64) (h : 2 * accumulated.val < 2 ^ 128) :
    ∃ y, computeCurrentAccumulatedRate accumulated p.stabilityFeePerMillisecond since now
      = .ok y := by
  have hfee : p.stabilityFeePerMillisecond.val ≤ fixedPointOne.val + 21965000000000000 := by
    rw [fixedPointOne_val]
    exact hp.feeUpper
  have hd : 50 * (604800000 * 21965000000000000) ≤ fixedPointOne.val := by norm_num
  have hwindow : (clampedElapsed now since).val * 21965000000000000
      ≤ 604800000 * 21965000000000000 := Nat.mul_le_mul_right _ (clampedElapsed_le _ _)
  obtain ⟨factor, hfactor⟩ := compoundRate_exists p.stabilityFeePerMillisecond
    (clampedElapsed now since) _ (le_trans (Nat.mul_le_mul_left 50 hwindow) hd) hfee
  have hupper := exactProjection_le accumulated p.stabilityFeePerMillisecond since now _ hd hfee
  have hfit : exactProjection accumulated p.stabilityFeePerMillisecond since now < 2 ^ 128 := by
    omega
  rw [exactProjection, ← compoundRate_eq _ _ _ hfactor] at hfit
  refine ⟨⟨_, hfit⟩, ?_⟩
  rw [computeCurrentAccumulatedRate, hfactor, ok_bind, mulDiv_eq_ok]
  exact ⟨fixedPointOne_pos.ne', rfl⟩

end LezPrograms.Stablecoin
