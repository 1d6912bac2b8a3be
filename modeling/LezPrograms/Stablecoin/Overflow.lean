import Mathlib
import LezPrograms.Stablecoin.Projections

/-! # Where a controller tick overflows

The callers of the controller clamp the window for the projection of the price
only. The integral step multiplies the whole time since the last update with
the error, so an idle program with an extreme market price leaves 256 bits. -/

set_option autoImplicit false

namespace LezPrograms.Stablecoin
open LezPrograms.Checked LezPrograms.Checked.Unsigned LezPrograms.Lee
open LezPrograms.Stablecoin.Math LezPrograms.Stablecoin.Controller

def IntegralStepFits (p : ProtocolParameters) (r : RedemptionPriceState) (oraclePrice : U128)
    (now : U64) : Prop :=
  FitsI256 (p.controllerIntegralGain.val *
    (((boundRedemptionPrice (currentPrice r now)).val : ℤ)
      - (oraclePriceToFixedPoint oraclePrice).val) *
    (now.saturatingSub r.lastUpdatedAt).val)

/-- The advance of the price has a result exactly when the tick has. -/
theorem advanceRedemptionPrice_ok_iff (p : ProtocolParameters) (r : RedemptionPriceState)
    (oraclePrice : U128) (now : U64)
    (hgains : GainsInBand p.controllerProportionalGain p.controllerIntegralGain) :
    (∃ r', advanceRedemptionPrice p r oraclePrice now = .ok r') ↔
      IntegralStepFits p r oraclePrice now := by
  rw [IntegralStepFits, currentPrice, ← runControllerTick_ok_iff _ _ r.controllerIntegralTerm
    p.controllerProportionalGain _ _ hgains]
  simp only [advanceRedemptionPrice, bind_eq_ok, pure_eq_ok]
  constructor
  · rintro ⟨r', output, h, -⟩
    exact ⟨output, h⟩
  · rintro ⟨output, h⟩
    exact ⟨_, output, h, rfl⟩

/-- In every reachable world, for every oracle price and clock reading, the redemption price
advances exactly when the integral step fits. -/
theorem advance_lives_iff_integral_fits (platform : Platform) (genesis : Genesis)
    (events : List Event) :
    ∀ p r, storedParameters (run platform genesis.world events) = some p →
      storedRedemption (run platform genesis.world events) = some r →
      ∀ oraclePrice now, (∃ r', advanceRedemptionPrice p r oraclePrice now = .ok r') ↔
        IntegralStepFits p r oraclePrice now := by
  intro p r hp _ oraclePrice now
  have hb := sound_parameters _ (run_sound platform genesis events) p hp
  exact advanceRedemptionPrice_ok_iff p r oraclePrice now hb.gains

/-- The first advance, a second after the initialization. -/
theorem first_advance_lives :
    ∃ p r, storedParameters firstWorld = some p ∧ storedRedemption firstWorld = some r ∧
      ∃ r', advanceRedemptionPrice p r (2 ^ 64) 1000 = .ok r' := by
  have hp := @Option.some_get _ (storedParameters firstWorld) (by decide +kernel)
  have hr := @Option.some_get _ (storedRedemption firstWorld) (by decide +kernel)
  refine ⟨_, _, hp.symm, hr.symm, ?_⟩
  apply (advance_lives_iff_integral_fits tablePlatform (clockedGenesis 0)
    (firstInitialization ++ firstOpening) _ _ hp.symm hr.symm (2 ^ 64) 1000).mpr
  unfold IntegralStepFits FitsI256
  decide +kernel

/-- Years after the initialization the oracle reports the largest price. -/
def idleYears : Event :=
  .environment fun id =>
    if id = clock01ProgramAccountId then ⟨.key 6, 0, .clock (2 ^ 40), 0⟩
    else if id = .key 70 then
      ⟨.key 7, 0, .oraclePrice ⟨definitionId, .key 20, maxValue 128, 2 ^ 40, .key 8, 0⟩, 0⟩
    else default

def idleWorld : Accounts :=
  run tablePlatform (clockedGenesis 0).world (firstInitialization ++ [idleYears])

/-- There the advance overflows, and the combined poke fails where the accrual alone succeeds. -/
theorem idle_advance_overflows :
    (∃ p r, storedParameters idleWorld = some p ∧ storedRedemption idleWorld = some r ∧
      advanceRedemptionPrice p r (maxValue 128) (2 ^ 40)
        = .error "controller: integral delta overflows I256") ∧
    (transact tablePlatform idleWorld [.key 9] ⟨stablecoinProgramId, [.key 9, parametersId,
      accumulatorId, definitionId, computeStablecoinMasterHoldingPda stablecoinProgramId,
      clock01ProgramAccountId], .stablecoin .accrueStabilityFee, []⟩).toBool = true ∧
    (transact tablePlatform idleWorld [.key 9] ⟨stablecoinProgramId, [.key 9, parametersId,
      accumulatorId, definitionId, computeStablecoinMasterHoldingPda stablecoinProgramId,
      redemptionId, .key 70, clock01ProgramAccountId], .stablecoin .refreshGlobals,
      []⟩).toBool = false := by
  refine ⟨⟨(storedParameters idleWorld).get (by decide +kernel),
    (storedRedemption idleWorld).get (by decide +kernel), (Option.some_get _).symm,
    (Option.some_get _).symm, ?_⟩, ?_, ?_⟩ <;> decide +kernel

end LezPrograms.Stablecoin
