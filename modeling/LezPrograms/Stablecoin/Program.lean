import LezPrograms.Stablecoin.Admin
import LezPrograms.Stablecoin.Positions

/-! # The stablecoin entry point

The instruction fixes the number of accounts it takes. -/

set_option autoImplicit false

namespace LezPrograms.Stablecoin
open LezPrograms.Checked LezPrograms.Lee

def main (self : AccountId) (accounts : List InputAccount) (instruction : Instruction) :
    HandlerResult :=
  match instruction, accounts with
  | .initializeProgram params, [admin, protocolParameters, stabilityFeeAccumulator,
      redemptionPriceState, stablecoinDefinition, stablecoinMasterHolding, collateralDefinition,
      marketPriceOracle, clock] =>
    initializeProgram admin protocolParameters stabilityFeeAccumulator redemptionPriceState
      stablecoinDefinition stablecoinMasterHolding collateralDefinition marketPriceOracle clock
      self params
  | .accrueStabilityFee, [caller, protocolParameters, stabilityFeeAccumulator,
      stablecoinDefinition, stablecoinMasterHolding, clock] =>
    accrueStabilityFee caller protocolParameters stabilityFeeAccumulator stablecoinDefinition
      stablecoinMasterHolding clock self
  | .updateRedemptionRate, [caller, protocolParameters, redemptionPriceState, marketPriceOracle,
      clock] =>
    updateRedemptionRate caller protocolParameters redemptionPriceState marketPriceOracle clock self
  | .refreshGlobals, [caller, protocolParameters, stabilityFeeAccumulator, stablecoinDefinition,
      stablecoinMasterHolding, redemptionPriceState, marketPriceOracle, clock] =>
    refreshGlobals caller protocolParameters stabilityFeeAccumulator stablecoinDefinition
      stablecoinMasterHolding redemptionPriceState marketPriceOracle clock self
  | .openPosition positionNonce initialCollateralAmount, [owner, position, vault,
      userCollateralHolding, collateralDefinition, protocolParameters, clock] =>
    openPosition owner position vault userCollateralHolding collateralDefinition
      protocolParameters clock self positionNonce initialCollateralAmount
  | .depositCollateral amount, [owner, position, vault, userCollateralHolding,
      protocolParameters] =>
    depositCollateral owner position vault userCollateralHolding protocolParameters self amount
  | .generateDebt amount, [owner, position, stablecoinDefinition, userStablecoinHolding,
      stablecoinMasterHolding, stabilityFeeAccumulator, redemptionPriceState, protocolParameters,
      clock] =>
    generateDebt owner position stablecoinDefinition userStablecoinHolding stablecoinMasterHolding
      stabilityFeeAccumulator redemptionPriceState protocolParameters clock self amount
  | .closePosition, [owner, position, vault, protocolParameters] =>
    closePosition owner position vault protocolParameters self
  | .setMinimumCollateralizationRatio newRatio, [admin, protocolParameters] =>
    setMinimumCollateralizationRatio admin protocolParameters self newRatio
  | .setControllerGains newProportionalGain newIntegralGain, [admin, protocolParameters] =>
    setControllerGains admin protocolParameters self newProportionalGain newIntegralGain
  | .setMarketPriceOracle, [admin, protocolParameters, newOracle] =>
    setMarketPriceOracle admin protocolParameters newOracle self
  | .setTimingParameters newMinimum newMaximum, [admin, protocolParameters] =>
    setTimingParameters admin protocolParameters self newMinimum newMaximum
  | .setAdmin newAdminAccountId, [admin, protocolParameters] =>
    setAdmin admin protocolParameters self newAdminAccountId
  | .setFreezeAuthority newFreezeAuthorityAccountId, [admin, protocolParameters] =>
    setFreezeAuthority admin protocolParameters self newFreezeAuthorityAccountId
  | .setStabilityFeePerMillisecond newRate, [admin, protocolParameters, stabilityFeeAccumulator,
      stablecoinDefinition, stablecoinMasterHolding, clock] =>
    setStabilityFeePerMillisecond admin protocolParameters stabilityFeeAccumulator
      stablecoinDefinition stablecoinMasterHolding clock self newRate
  | .freeze, [freezeAuthority, protocolParameters] =>
    freeze freezeAuthority protocolParameters self
  | .unfreeze, [freezeAuthority, protocolParameters] =>
    unfreeze freezeAuthority protocolParameters self
  | .withdrawCollateral amount, [owner, position, vault, userCollateralHolding,
      stabilityFeeAccumulator, redemptionPriceState, protocolParameters, clock] =>
    withdrawCollateral owner position vault userCollateralHolding stabilityFeeAccumulator
      redemptionPriceState protocolParameters clock self amount
  | .repayDebt amount, [owner, position, stablecoinDefinition, userStablecoinHolding,
      stablecoinMasterHolding, stabilityFeeAccumulator, protocolParameters, clock] =>
    repayDebt owner position stablecoinDefinition userStablecoinHolding stablecoinMasterHolding
      stabilityFeeAccumulator protocolParameters clock self amount
  | .resetRedemptionRateController, [authority, protocolParameters, redemptionPriceState, clock] =>
    resetRedemptionRateController authority protocolParameters redemptionPriceState clock self
  | _, _ => .error "wrong number of accounts"

end LezPrograms.Stablecoin
