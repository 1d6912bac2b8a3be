import LezPrograms.Stablecoin.Checks

/-! # Pokes: fee accrual, redemption rate, reset

Each handler checks its accounts in the order of the source, computes the new
state and answers with one diff for each account and the chained calls to the
token program. -/

set_option autoImplicit false

namespace LezPrograms.Stablecoin
open LezPrograms.Checked LezPrograms.Checked.Unsigned LezPrograms.Lee
open LezPrograms.Stablecoin.Math LezPrograms.Stablecoin.Controller

def decodeFeeAccrualInputs (protocolParameters stabilityFeeAccumulator : InputAccount)
    (stablecoinProgramId : AccountId) : Outcome (ProtocolParameters × StabilityFeeAccumulator) := do
  ensure (protocolParameters.account ≠ default) "ProtocolParameters account must be initialized"
  ensure (protocolParameters.account.programOwner = stablecoinProgramId)
    "ProtocolParameters not owned by this stablecoin program"
  ensure (stabilityFeeAccumulator.account ≠ default)
    "StabilityFeeAccumulator account must be initialized"
  ensure (stabilityFeeAccumulator.account.programOwner = stablecoinProgramId)
    "StabilityFeeAccumulator not owned by this stablecoin program"
  ensure (stabilityFeeAccumulator.accountId
      = computeStabilityFeeAccumulatorPda stablecoinProgramId)
    "StabilityFeeAccumulator account ID does not match expected PDA derivation"
  let params ← expect (tryFrom protocolParameters.account.data) "ProtocolParameters must decode"
  let accumulator ← expect (tryFrom stabilityFeeAccumulator.account.data)
    "StabilityFeeAccumulator must decode"
  pure (params, accumulator)

structure FeeAccrual where
  accumulator : StabilityFeeAccumulator
  accruedFees : U128
deriving DecidableEq

def accrueFees (params : ProtocolParameters) (accumulator : StabilityFeeAccumulator) (now : U64) :
    Outcome FeeAccrual := do
  let current ← computeCurrentAccumulatedRate accumulator.accumulatedRateAtLastAccrual
    params.stabilityFeePerMillisecond accumulator.lastAccruedAt now
  let rateDelta ← expect (current.checkedSub accumulator.accumulatedRateAtLastAccrual)
    "Stability fee accumulator must not decrease"
  let accruedFees ← mulDiv accumulator.totalNormalizedDebt rateDelta fixedPointOne
  pure ⟨⟨current, now, accumulator.totalNormalizedDebt⟩, accruedFees⟩

def accrueStabilityFee (caller protocolParameters stabilityFeeAccumulator stablecoinDefinition
    stablecoinMasterHolding clock : InputAccount) (stablecoinProgramId : AccountId) :
    HandlerResult := do
  ensure (caller.isAuthorized = true) "Caller authorization is missing"
  let (params, accumulator) ← decodeFeeAccrualInputs protocolParameters stabilityFeeAccumulator
    stablecoinProgramId
  let now ← readClock clock
  let accrual ← accrueFees params accumulator now
  let surplusMint ← surplusMintCall stablecoinDefinition stablecoinMasterHolding params
    stablecoinProgramId accrual.accruedFees
  pure ([.unchanged caller, .unchanged protocolParameters,
    .new stabilityFeeAccumulator (.stabilityFeeAccumulator accrual.accumulator),
    .unchanged stablecoinDefinition, .unchanged stablecoinMasterHolding, .unchanged clock],
    surplusMint.toList)

def decodeRedemptionInputs (protocolParameters redemptionPriceState : InputAccount)
    (stablecoinProgramId : AccountId) : Outcome (ProtocolParameters × RedemptionPriceState) := do
  ensure (protocolParameters.account ≠ default) "ProtocolParameters account must be initialized"
  ensure (protocolParameters.account.programOwner = stablecoinProgramId)
    "ProtocolParameters not owned by this stablecoin program"
  ensure (redemptionPriceState.account ≠ default)
    "RedemptionPriceState account must be initialized"
  ensure (redemptionPriceState.account.programOwner = stablecoinProgramId)
    "RedemptionPriceState not owned by this stablecoin program"
  ensure (redemptionPriceState.accountId = computeRedemptionPriceStatePda stablecoinProgramId)
    "RedemptionPriceState account ID does not match expected PDA derivation"
  let params ← expect (tryFrom protocolParameters.account.data) "ProtocolParameters must decode"
  let redemption ← expect (tryFrom redemptionPriceState.account.data)
    "RedemptionPriceState must decode"
  pure (params, redemption)

/-- `none` when the bound oracle has no usable observation. -/
def readOracle (marketPriceOracle : InputAccount) (params : ProtocolParameters) :
    Outcome (Option TwapOracle.OraclePriceAccount) := do
  ensure (marketPriceOracle.accountId = params.marketPriceOracleId)
    "Market price oracle account_id does not match ProtocolParameters.market_price_oracle_id"
  if marketPriceOracle.account = default then pure none
  else
    let oracle : Option TwapOracle.OraclePriceAccount := tryFrom marketPriceOracle.account.data
    pure (oracle.filter fun oracle => oracle.baseAsset = params.stablecoinDefinitionId ∧
      oracle.quoteAsset = params.collateralDefinitionId)

def advanceRedemptionPrice (params : ProtocolParameters) (redemption : RedemptionPriceState)
    (oraclePrice : U128) (now : U64) : Outcome RedemptionPriceState := do
  let millisecondsElapsed := now.saturatingSub redemption.lastUpdatedAt
  let currentPrice := boundRedemptionPrice (computeCurrentRedemptionPriceWide
    redemption.redemptionPriceAtLastUpdate redemption.redemptionRatePerMillisecond
    redemption.lastUpdatedAt now)
  let output ← runControllerTick currentPrice (oraclePriceToFixedPoint oraclePrice)
    redemption.controllerIntegralTerm params.controllerProportionalGain
    params.controllerIntegralGain millisecondsElapsed
  pure ⟨currentPrice, output.redemptionRatePerMillisecond, output.controllerIntegralTerm, now⟩

def updateRedemptionRate (caller protocolParameters redemptionPriceState marketPriceOracle clock :
    InputAccount) (stablecoinProgramId : AccountId) : HandlerResult := do
  ensure (caller.isAuthorized = true) "Caller authorization is missing"
  let (params, redemption) ← decodeRedemptionInputs protocolParameters redemptionPriceState
    stablecoinProgramId
  ensure (marketPriceOracle.account ≠ default) "Market price oracle account must be initialized"
  let reading ← readOracle marketPriceOracle params
  let oracle ← expect reading
    "Market price oracle must be an OraclePriceAccount quoting the stablecoin in collateral"
  let now ← readClock clock
  ensure ((now.saturatingSub oracle.timestamp).val ≤ params.maximumOraclePriceAgeMilliseconds.val)
    "Market price oracle observation is stale"
  ensure (0 < oracle.price.val) "Market price oracle reports zero price"
  ensure (params.minimumMillisecondsBetweenRateUpdates.val
      ≤ (now.saturatingSub redemption.lastUpdatedAt).val)
    "update_redemption_rate called too soon since last update"
  let redemptionData ← advanceRedemptionPrice params redemption oracle.price now
  pure ([.unchanged caller, .unchanged protocolParameters,
    .new redemptionPriceState (.redemptionPriceState redemptionData),
    .unchanged marketPriceOracle, .unchanged clock], [])

/-- The oracle price that the combined poke uses; `none` skips its redemption half. -/
def usablePrice (params : ProtocolParameters) (redemption : RedemptionPriceState)
    (oracle : Option TwapOracle.OraclePriceAccount) (now : U64) : Option U128 :=
  let intervalDue := params.minimumMillisecondsBetweenRateUpdates.val
    ≤ (now.saturatingSub redemption.lastUpdatedAt).val
  let usable := oracle.filter fun oracle =>
    (now.saturatingSub oracle.timestamp).val ≤ params.maximumOraclePriceAgeMilliseconds.val ∧
      0 < oracle.price.val
  if intervalDue then usable.map (·.price) else none

def refreshGlobals (caller protocolParameters stabilityFeeAccumulator stablecoinDefinition
    stablecoinMasterHolding redemptionPriceState marketPriceOracle clock : InputAccount)
    (stablecoinProgramId : AccountId) : HandlerResult := do
  ensure (caller.isAuthorized = true) "Caller authorization is missing"
  let (params, accumulator) ← decodeFeeAccrualInputs protocolParameters stabilityFeeAccumulator
    stablecoinProgramId
  let (_, redemption) ← decodeRedemptionInputs protocolParameters redemptionPriceState
    stablecoinProgramId
  let oracle ← readOracle marketPriceOracle params
  let now ← readClock clock
  let accrual ← accrueFees params accumulator now
  let surplusMint ← surplusMintCall stablecoinDefinition stablecoinMasterHolding params
    stablecoinProgramId accrual.accruedFees
  let redemptionDiff ← (match usablePrice params redemption oracle now with
    | some oraclePrice => do
      let redemptionData ← advanceRedemptionPrice params redemption oraclePrice now
      pure (.new redemptionPriceState (.redemptionPriceState redemptionData))
    | none => pure (.unchanged redemptionPriceState))
  pure ([.unchanged caller, .unchanged protocolParameters,
    .new stabilityFeeAccumulator (.stabilityFeeAccumulator accrual.accumulator),
    .unchanged stablecoinDefinition, .unchanged stablecoinMasterHolding, redemptionDiff,
    .unchanged marketPriceOracle, .unchanged clock], surplusMint.toList)

def resetRedemptionRateController (authority protocolParameters redemptionPriceState clock :
    InputAccount) (stablecoinProgramId : AccountId) : HandlerResult := do
  ensure (authority.isAuthorized = true) "Authority authorization is missing"
  let parameters ← decodeProtocolParameters protocolParameters stablecoinProgramId
  ensure (authority.accountId = parameters.adminAccountId ∨
      authority.accountId = parameters.freezeAuthorityAccountId)
    "Signer is neither the protocol's admin nor its freeze authority"
  let redemption ← decodeRedemptionPriceState redemptionPriceState stablecoinProgramId
  let now ← readClock clock
  let currentPrice := boundRedemptionPrice (computeCurrentRedemptionPriceWide
    redemption.redemptionPriceAtLastUpdate redemption.redemptionRatePerMillisecond
    redemption.lastUpdatedAt now)
  let resetState : RedemptionPriceState := ⟨currentPrice, fixedPointOne, ⟨0, zero_mem_i128⟩, now⟩
  pure ([.unchanged authority, .unchanged protocolParameters,
    .new redemptionPriceState (.redemptionPriceState resetState), .unchanged clock], [])

end LezPrograms.Stablecoin
