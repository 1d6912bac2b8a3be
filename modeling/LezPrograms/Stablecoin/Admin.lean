import LezPrograms.Stablecoin.Checks
import LezPrograms.Stablecoin.Pokes

/-! # Administration: initialization, parameter setters, freezing -/

set_option autoImplicit false

namespace LezPrograms.Stablecoin
open LezPrograms.Checked LezPrograms.Checked.Unsigned LezPrograms.Lee
open LezPrograms.Stablecoin.Math LezPrograms.Stablecoin.Controller

def assertOracleQuotes (oracle : InputAccount) (baseAsset quoteAsset : AccountId)
    (decodeText baseText quoteText : String) : Outcome Unit :=
  if oracle.account = default then pure ()
  else do
    let value : TwapOracle.OraclePriceAccount ← expect (tryFrom oracle.account.data) decodeText
    ensure (value.baseAsset = baseAsset) baseText
    ensure (value.quoteAsset = quoteAsset) quoteText

def assertParametersInBand (params : InitializeProgramParams) : Outcome Unit := do
  assertStabilityFeeInBand params.initialStabilityFeePerMillisecond
    "initial_stability_fee_per_millisecond"
  assertCollateralizationRatioInBand params.initialMinimumCollateralizationRatio
    "initial_minimum_collateralization_ratio"
  assertControllerGainsInBand params.initialControllerProportionalGain
    params.initialControllerIntegralGain
  assertTimingMillisecondsInBand params.minimumMillisecondsBetweenRateUpdates
    "minimum_milliseconds_between_rate_updates"
  assertTimingMillisecondsInBand params.maximumOraclePriceAgeMilliseconds
    "maximum_oracle_price_age_milliseconds"
  ensure (minimumRedemptionPrice.val ≤ params.initialRedemptionPrice.val ∧
      params.initialRedemptionPrice.val ≤ maximumRedemptionPrice.val)
    "initial_redemption_price must be within the §8 redemption-price bounds"
  ensure (params.stablecoinName ≠ "") "stablecoin_name must be non-empty"

def initializeProgram (admin protocolParameters stabilityFeeAccumulator redemptionPriceState
    stablecoinDefinition stablecoinMasterHolding collateralDefinition marketPriceOracle clock :
    InputAccount) (stablecoinProgramId : AccountId) (params : InitializeProgramParams) :
    HandlerResult := do
  ensure (admin.isAuthorized = true) "Admin authorization is missing"
  ensure (protocolParameters.account = default) "ProtocolParameters account must be uninitialized"
  ensure (stabilityFeeAccumulator.account = default)
    "StabilityFeeAccumulator account must be uninitialized"
  ensure (redemptionPriceState.account = default)
    "RedemptionPriceState account must be uninitialized"
  ensure (stablecoinDefinition.account = default)
    "StablecoinDefinition account must be uninitialized"
  ensure (stablecoinMasterHolding.account = default)
    "StablecoinMasterHolding account must be uninitialized"
  ensure (protocolParameters.accountId = computeProtocolParametersPda stablecoinProgramId)
    "ProtocolParameters account ID does not match expected PDA derivation"
  ensure (stabilityFeeAccumulator.accountId = computeStabilityFeeAccumulatorPda stablecoinProgramId)
    "StabilityFeeAccumulator account ID does not match expected PDA derivation"
  ensure (redemptionPriceState.accountId = computeRedemptionPriceStatePda stablecoinProgramId)
    "RedemptionPriceState account ID does not match expected PDA derivation"
  ensure (stablecoinDefinition.accountId = computeStablecoinDefinitionPda stablecoinProgramId)
    "StablecoinDefinition account ID does not match expected PDA derivation"
  ensure (stablecoinMasterHolding.accountId = computeStablecoinMasterHoldingPda stablecoinProgramId)
    "StablecoinMasterHolding account ID does not match expected PDA derivation"
  let now ← readClock clock
  ensure (collateralDefinition.account ≠ default)
    "Collateral definition account must be initialized"
  let collateralDef : Token.TokenDefinition AccountId ← expect
    (tryFrom collateralDefinition.account.data)
    "Collateral definition must be a valid TokenDefinition"
  ensure collateralDef.isFungible "Collateral definition must be Fungible"
  assertOracleQuotes marketPriceOracle stablecoinDefinition.accountId collateralDefinition.accountId
    "Market price oracle must decode as OraclePriceAccount"
    "Oracle base_asset must equal the stablecoin definition's account_id"
    "Oracle quote_asset must equal the collateral definition's account_id"
  assertParametersInBand params
  let protocolParametersValue : ProtocolParameters := {
    adminAccountId := admin.accountId
    freezeAuthorityAccountId := params.freezeAuthorityAccountId
    stablecoinDefinitionId := stablecoinDefinition.accountId
    collateralDefinitionId := collateralDefinition.accountId
    marketPriceOracleId := marketPriceOracle.accountId
    stabilityFeePerMillisecond := params.initialStabilityFeePerMillisecond
    controllerProportionalGain := params.initialControllerProportionalGain
    controllerIntegralGain := params.initialControllerIntegralGain
    minimumCollateralizationRatio := params.initialMinimumCollateralizationRatio
    minimumMillisecondsBetweenRateUpdates := params.minimumMillisecondsBetweenRateUpdates
    maximumOraclePriceAgeMilliseconds := params.maximumOraclePriceAgeMilliseconds
    isFrozen := false }
  let newDefinitionCall := (ChainedCall.new collateralDefinition.account.programOwner
    [stablecoinDefinition.accountId, stablecoinMasterHolding.accountId]
    (.token (.newFungibleDefinition params.stablecoinName (zero 128)
      (some stablecoinDefinition.accountId)))).withPdaSeeds
    [computeStablecoinDefinitionPdaSeed, computeStablecoinMasterHoldingPdaSeed]
  pure ([.unchanged admin, .new protocolParameters (.protocolParameters protocolParametersValue),
    .new stabilityFeeAccumulator (.stabilityFeeAccumulator ⟨fixedPointOne, now, zero 128⟩),
    .new redemptionPriceState (.redemptionPriceState
      ⟨params.initialRedemptionPrice, fixedPointOne, ⟨0, zero_mem_i128⟩, now⟩),
    .unchanged stablecoinDefinition, .unchanged stablecoinMasterHolding,
    .unchanged collateralDefinition, .unchanged marketPriceOracle, .unchanged clock],
    [newDefinitionCall])

def setStabilityFeePerMillisecond (admin protocolParameters stabilityFeeAccumulator
    stablecoinDefinition stablecoinMasterHolding clock : InputAccount)
    (stablecoinProgramId : AccountId) (newRate : U128) : HandlerResult := do
  let parameters ← decodeProtocolParameters protocolParameters stablecoinProgramId
  assertAdminAuthorized admin parameters
  assertStabilityFeeInBand newRate "new_stability_fee_per_millisecond"
  let accumulator ← decodeStabilityFeeAccumulator stabilityFeeAccumulator stablecoinProgramId
  let now ← readClock clock
  let accrual ← accrueFees parameters accumulator now
  let surplusMint ← surplusMintCall stablecoinDefinition stablecoinMasterHolding parameters
    stablecoinProgramId accrual.accruedFees
  pure ([.unchanged admin,
    .new protocolParameters (.protocolParameters
      { parameters with stabilityFeePerMillisecond := newRate }),
    .new stabilityFeeAccumulator (.stabilityFeeAccumulator accrual.accumulator),
    .unchanged stablecoinDefinition, .unchanged stablecoinMasterHolding, .unchanged clock],
    surplusMint.toList)

/-- The skeleton of the remaining setters; `mutate` checks and overwrites the named fields. -/
def updateParameters (admin protocolParameters : InputAccount) (stablecoinProgramId : AccountId)
    (mutate : ProtocolParameters → Outcome ProtocolParameters) : HandlerResult := do
  let parameters ← decodeProtocolParameters protocolParameters stablecoinProgramId
  assertAdminAuthorized admin parameters
  let parameters ← mutate parameters
  pure ([.unchanged admin, .new protocolParameters (.protocolParameters parameters)], [])

def setMinimumCollateralizationRatio (admin protocolParameters : InputAccount)
    (stablecoinProgramId : AccountId) (newRatio : U128) : HandlerResult :=
  updateParameters admin protocolParameters stablecoinProgramId fun parameters => do
    assertCollateralizationRatioInBand newRatio "new_minimum_collateralization_ratio"
    pure { parameters with minimumCollateralizationRatio := newRatio }

def setControllerGains (admin protocolParameters : InputAccount) (stablecoinProgramId : AccountId)
    (newProportionalGain newIntegralGain : I128) : HandlerResult :=
  updateParameters admin protocolParameters stablecoinProgramId fun parameters => do
    assertControllerGainsInBand newProportionalGain newIntegralGain
    pure { parameters with
      controllerProportionalGain := newProportionalGain
      controllerIntegralGain := newIntegralGain }

def setTimingParameters (admin protocolParameters : InputAccount) (stablecoinProgramId : AccountId)
    (newMinimumMillisecondsBetweenRateUpdates newMaximumOraclePriceAgeMilliseconds : U64) :
    HandlerResult :=
  updateParameters admin protocolParameters stablecoinProgramId fun parameters => do
    assertTimingMillisecondsInBand newMinimumMillisecondsBetweenRateUpdates
      "new_minimum_milliseconds_between_rate_updates"
    assertTimingMillisecondsInBand newMaximumOraclePriceAgeMilliseconds
      "new_maximum_oracle_price_age_milliseconds"
    pure { parameters with
      minimumMillisecondsBetweenRateUpdates := newMinimumMillisecondsBetweenRateUpdates
      maximumOraclePriceAgeMilliseconds := newMaximumOraclePriceAgeMilliseconds }

def setAdmin (admin protocolParameters : InputAccount) (stablecoinProgramId : AccountId)
    (newAdminAccountId : AccountId) : HandlerResult :=
  updateParameters admin protocolParameters stablecoinProgramId fun parameters =>
    pure { parameters with adminAccountId := newAdminAccountId }

def setFreezeAuthority (admin protocolParameters : InputAccount) (stablecoinProgramId : AccountId)
    (newFreezeAuthorityAccountId : AccountId) : HandlerResult :=
  updateParameters admin protocolParameters stablecoinProgramId fun parameters =>
    pure { parameters with freezeAuthorityAccountId := newFreezeAuthorityAccountId }

def setMarketPriceOracle (admin protocolParameters newOracle : InputAccount)
    (stablecoinProgramId : AccountId) : HandlerResult := do
  let (stateDiffs, chainedCalls) ← updateParameters admin protocolParameters stablecoinProgramId
    fun parameters => do
      assertOracleQuotes newOracle parameters.stablecoinDefinitionId
        parameters.collateralDefinitionId
        "New market price oracle must decode as OraclePriceAccount"
        "New oracle base_asset must equal the stablecoin definition's account_id"
        "New oracle quote_asset must equal the collateral definition's account_id"
      pure { parameters with marketPriceOracleId := newOracle.accountId }
  pure (stateDiffs ++ [.unchanged newOracle], chainedCalls)

def setFrozen (freezeAuthority protocolParameters : InputAccount) (stablecoinProgramId : AccountId)
    (isFrozen : Bool) : HandlerResult := do
  ensure (freezeAuthority.isAuthorized = true) "Freeze authority authorization is missing"
  let parameters ← decodeProtocolParameters protocolParameters stablecoinProgramId
  ensure (freezeAuthority.accountId = parameters.freezeAuthorityAccountId)
    "Signer is not the protocol's freeze authority"
  pure ([.unchanged freezeAuthority,
    .new protocolParameters (.protocolParameters { parameters with isFrozen := isFrozen })], [])

def freeze (freezeAuthority protocolParameters : InputAccount) (stablecoinProgramId : AccountId) :
    HandlerResult :=
  setFrozen freezeAuthority protocolParameters stablecoinProgramId true

def unfreeze (freezeAuthority protocolParameters : InputAccount) (stablecoinProgramId : AccountId) :
    HandlerResult :=
  setFrozen freezeAuthority protocolParameters stablecoinProgramId false

end LezPrograms.Stablecoin
