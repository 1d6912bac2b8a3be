import LezPrograms.Stablecoin.Pokes

/-! # Position instructions -/

set_option autoImplicit false

namespace LezPrograms.Stablecoin
open LezPrograms.Checked LezPrograms.Checked.Unsigned LezPrograms.Lee
open LezPrograms.Stablecoin.Math

def openPosition (owner position vault userCollateralHolding collateralDefinition
    protocolParameters clock : InputAccount) (stablecoinProgramId : AccountId)
    (positionNonce : U64) (initialCollateralAmount : U128) : HandlerResult := do
  ensure (owner.isAuthorized = true) "Owner authorization is missing"
  ensure (userCollateralHolding.isAuthorized = true)
    "User collateral holding authorization is missing"
  ensure (position.account = default) "Position account must be uninitialized"
  ensure (vault.account = default) "Position vault account must be uninitialized"
  let parameters ← decodeProtocolParameters protocolParameters stablecoinProgramId
  ensure (parameters.isFrozen = false) "Protocol is frozen"
  ensure (collateralDefinition.accountId = parameters.collateralDefinitionId)
    "Collateral definition does not match the one bound at initialize_program"
  let now ← readClock clock
  let userHolding : Token.TokenHolding AccountId ← expect (tryFrom userCollateralHolding.account.data)
    "User collateral holding must be a valid TokenHolding"
  ensure (userHolding.definitionId = collateralDefinition.accountId)
    "User collateral holding does not match the collateral definition"
  let tokenProgramId := userCollateralHolding.account.programOwner
  ensure (collateralDefinition.account.programOwner = tokenProgramId)
    "Collateral definition is not owned by the user collateral holding's Token Program"
  let _positionSeed ← verifyPositionAndGetSeed position owner positionNonce stablecoinProgramId
  let vaultSeed ← verifyPositionVaultAndGetSeed vault position.accountId stablecoinProgramId
  let positionData : Position := {
    ownerAccountId := owner.accountId
    positionNonce := positionNonce
    vaultAccountId := vault.accountId
    collateralAmount := initialCollateralAmount
    normalizedDebtAmount := zero 128
    openedAt := now }
  let initializeCall := (ChainedCall.new tokenProgramId
    [collateralDefinition.accountId, vault.accountId]
    (.token .initializeAccount)).withPdaSeeds [vaultSeed]
  let transferCall := ChainedCall.new tokenProgramId
    [userCollateralHolding.accountId, vault.accountId] (.token (.transfer initialCollateralAmount))
  pure ([.unchanged owner, .new position (.position positionData), .unchanged vault,
    .unchanged userCollateralHolding, .unchanged collateralDefinition,
    .unchanged protocolParameters, .unchanged clock], [initializeCall, transferCall])

def fungibleBalance (holding : Token.TokenHolding AccountId) : Outcome U128 :=
  match holding with
  | .fungible _ balance => pure balance
  | .nftMaster .. => .error "Vault must hold a fungible collateral balance"
  | .nftPrintedCopy .. => .error "Vault must hold a fungible collateral balance"

def depositCollateral (owner position vault userCollateralHolding protocolParameters :
    InputAccount) (stablecoinProgramId : AccountId) (amount : U128) : HandlerResult := do
  ensure (owner.isAuthorized = true) "Owner authorization is missing"
  ensure (userCollateralHolding.isAuthorized = true)
    "User collateral holding authorization is missing"
  let positionData ← decodePosition position owner stablecoinProgramId
  ensure (positionData.vaultAccountId = vault.accountId)
    "Position vault_account_id does not match the vault account"
  let parameters ← decodeProtocolParameters protocolParameters stablecoinProgramId
  ensure (vault.account ≠ default) "Vault account must be initialized"
  let vaultHolding : Token.TokenHolding AccountId ← expect (tryFrom vault.account.data)
    "Vault account must hold a valid TokenHolding"
  ensure (vaultHolding.definitionId = parameters.collateralDefinitionId)
    "Vault holding does not match the protocol's collateral definition"
  let vaultBalance ← fungibleBalance vaultHolding
  let tokenProgramId := vault.account.programOwner
  ensure (userCollateralHolding.account.programOwner = tokenProgramId)
    "User collateral holding must be owned by the same Token Program as the vault"
  let userHolding : Token.TokenHolding AccountId ← expect (tryFrom userCollateralHolding.account.data)
    "User holding must be a valid TokenHolding"
  ensure (userHolding.definitionId = parameters.collateralDefinitionId)
    "User collateral holding does not match the protocol's collateral definition"
  let newCollateral ← expect (vaultBalance.checkedAdd amount)
    "Position collateral_amount overflow"
  let transferCall := ChainedCall.new tokenProgramId
    [userCollateralHolding.accountId, vault.accountId] (.token (.transfer amount))
  pure ([.unchanged owner,
    .new position (.position { positionData with collateralAmount := newCollateral }),
    .unchanged vault, .unchanged userCollateralHolding, .unchanged protocolParameters],
    [transferCall])

def closePosition (owner position vault protocolParameters : InputAccount)
    (stablecoinProgramId : AccountId) : HandlerResult := do
  ensure (owner.isAuthorized = true) "Owner authorization is missing"
  let positionData ← decodePosition position owner stablecoinProgramId
  let _parameters ← decodeProtocolParameters protocolParameters stablecoinProgramId
  ensure (positionData.normalizedDebtAmount.val = 0) "Position still has outstanding debt"
  ensure (positionData.collateralAmount.val = 0) "Position still holds collateral"
  ensure (positionData.vaultAccountId = vault.accountId)
    "Position vault_account_id does not match the vault account"
  let vaultHolding : Token.TokenHolding AccountId ← expect (tryFrom vault.account.data)
    "Vault account must hold a valid TokenHolding"
  let vaultBalance ← fungibleBalance vaultHolding
  ensure (vaultBalance.val = 0) "Vault still holds a balance"
  pure ([.unchanged owner, .new position .empty, .unchanged vault, .unchanged protocolParameters],
    [])

def generateDebt (owner position stablecoinDefinition userStablecoinHolding stablecoinMasterHolding
    stabilityFeeAccumulator redemptionPriceState protocolParameters clock : InputAccount)
    (stablecoinProgramId : AccountId) (amount : U128) : HandlerResult := do
  ensure (owner.isAuthorized = true) "Owner authorization is missing"
  let positionData ← decodePosition position owner stablecoinProgramId
  let parameters ← decodeProtocolParameters protocolParameters stablecoinProgramId
  ensure (parameters.isFrozen = false) "Protocol is frozen"
  let accumulator ← decodeStabilityFeeAccumulator stabilityFeeAccumulator stablecoinProgramId
  let redemption ← decodeRedemptionPriceState redemptionPriceState stablecoinProgramId
  let now ← readClock clock
  ensure (stablecoinDefinition.accountId = parameters.stablecoinDefinitionId)
    "Stablecoin definition does not match the one bound at initialize_program"
  ensure (stablecoinDefinition.account ≠ default)
    "Stablecoin definition account must be initialized"
  ensure (userStablecoinHolding.account ≠ default) "User stablecoin holding must be initialized"
  let tokenProgramId := stablecoinDefinition.account.programOwner
  ensure (userStablecoinHolding.account.programOwner = tokenProgramId)
    "User stablecoin holding must be owned by the same Token Program as the definition"
  let userHolding : Token.TokenHolding AccountId ← expect (tryFrom userStablecoinHolding.account.data)
    "User stablecoin holding must hold a valid TokenHolding"
  ensure (userHolding.definitionId = stablecoinDefinition.accountId)
    "User stablecoin holding does not match the stablecoin definition"
  let accrual ← accrueFees parameters accumulator now
  let surplusMint ← surplusMintCall stablecoinDefinition stablecoinMasterHolding parameters
    stablecoinProgramId accrual.accruedFees
  let currentAccumulator := accrual.accumulator.accumulatedRateAtLastAccrual
  let debtDelta ← mulDivCeil amount fixedPointOne currentAccumulator
  let newDebt ← expect (positionData.normalizedDebtAmount.checkedAdd debtDelta)
    "Position normalized_debt_amount overflow"
  let totalNormalizedDebt ← expect (accrual.accumulator.totalNormalizedDebt.checkedAdd debtDelta)
    "Total normalized debt overflow"
  let updatedPosition := { positionData with normalizedDebtAmount := newDebt }
  let currentRedemptionPrice := computeCurrentRedemptionPriceWide
    redemption.redemptionPriceAtLastUpdate redemption.redemptionRatePerMillisecond
    redemption.lastUpdatedAt now
  ensure (currentRedemptionPrice.val ≠ 0) "Redemption price projected to zero"
  assertPositionIsCollateralized updatedPosition (widen currentAccumulator u128_le_u512)
    currentRedemptionPrice parameters.minimumCollateralizationRatio
  let mintCall := (ChainedCall.new tokenProgramId
    [stablecoinDefinition.accountId, userStablecoinHolding.accountId]
    (.token (.mint amount))).withPdaSeeds [computeStablecoinDefinitionPdaSeed]
  pure ([.unchanged owner, .new position (.position updatedPosition),
    .unchanged stablecoinDefinition, .unchanged userStablecoinHolding,
    .unchanged stablecoinMasterHolding,
    .new stabilityFeeAccumulator (.stabilityFeeAccumulator
      { accrual.accumulator with totalNormalizedDebt := totalNormalizedDebt }),
    .unchanged redemptionPriceState, .unchanged protocolParameters, .unchanged clock],
    surplusMint.toList ++ [mintCall])

def repayDebt (owner position stablecoinDefinition userStablecoinHolding stablecoinMasterHolding
    stabilityFeeAccumulator protocolParameters clock : InputAccount)
    (stablecoinProgramId : AccountId) (amount : U128) : HandlerResult := do
  ensure (owner.isAuthorized = true) "Owner authorization is missing"
  let positionData ← decodePosition position owner stablecoinProgramId
  ensure (userStablecoinHolding.isAuthorized = true)
    "User stablecoin holding authorization is missing"
  let parameters ← decodeProtocolParameters protocolParameters stablecoinProgramId
  ensure (stablecoinDefinition.accountId = parameters.stablecoinDefinitionId)
    "Stablecoin definition does not match the one bound at initialize_program"
  ensure (userStablecoinHolding.account ≠ default) "User stablecoin holding must be initialized"
  ensure (stablecoinDefinition.account ≠ default)
    "Stablecoin definition account must be initialized"
  ensure (userStablecoinHolding.account.programOwner = stablecoinDefinition.account.programOwner)
    "Stablecoin holding and definition must be owned by the same Token Program"
  let userHolding : Token.TokenHolding AccountId ← expect (tryFrom userStablecoinHolding.account.data)
    "User stablecoin holding must hold a valid TokenHolding"
  ensure (userHolding.definitionId = stablecoinDefinition.accountId)
    "Stablecoin holding does not match the provided stablecoin definition"
  let accumulator ← decodeStabilityFeeAccumulator stabilityFeeAccumulator stablecoinProgramId
  let now ← readClock clock
  let accrual ← accrueFees parameters accumulator now
  let surplusMint ← surplusMintCall stablecoinDefinition stablecoinMasterHolding parameters
    stablecoinProgramId accrual.accruedFees
  let currentAccumulator := accrual.accumulator.accumulatedRateAtLastAccrual
  let debtDelta ← mulDiv amount fixedPointOne currentAccumulator
  let newDebt ← expect (positionData.normalizedDebtAmount.checkedSub debtDelta)
    "Repay amount exceeds outstanding normalized debt"
  let totalNormalizedDebt ← expect (accrual.accumulator.totalNormalizedDebt.checkedSub debtDelta)
    "Total normalized debt underflow"
  let burnCall := ChainedCall.new userStablecoinHolding.account.programOwner
    [stablecoinDefinition.accountId, userStablecoinHolding.accountId] (.token (.burn amount))
  pure ([.unchanged owner,
    .new position (.position { positionData with normalizedDebtAmount := newDebt }),
    .unchanged stablecoinDefinition, .unchanged userStablecoinHolding,
    .unchanged stablecoinMasterHolding,
    .new stabilityFeeAccumulator (.stabilityFeeAccumulator
      { accrual.accumulator with totalNormalizedDebt := totalNormalizedDebt }),
    .unchanged protocolParameters, .unchanged clock], surplusMint.toList ++ [burnCall])

def assertWithdrawalIsCollateralized (updatedPosition : Position)
    (accumulator : StabilityFeeAccumulator) (redemption : RedemptionPriceState)
    (parameters : ProtocolParameters) (now : U64) (amount : U128) : Outcome Unit :=
  if amount.val ≠ 0 ∧ updatedPosition.normalizedDebtAmount.val ≠ 0 then do
    let currentRedemptionPrice := computeCurrentRedemptionPriceWide
      redemption.redemptionPriceAtLastUpdate redemption.redemptionRatePerMillisecond
      redemption.lastUpdatedAt now
    ensure (currentRedemptionPrice.val ≠ 0) "Redemption price projected to zero"
    assertPositionIsCollateralized updatedPosition
      (computeCurrentAccumulatedRateWide accumulator.accumulatedRateAtLastAccrual
        parameters.stabilityFeePerMillisecond accumulator.lastAccruedAt now)
      currentRedemptionPrice parameters.minimumCollateralizationRatio
  else pure ()

def withdrawCollateral (owner position vault userCollateralHolding stabilityFeeAccumulator
    redemptionPriceState protocolParameters clock : InputAccount)
    (stablecoinProgramId : AccountId) (amount : U128) : HandlerResult := do
  let parameters ← decodeProtocolParameters protocolParameters stablecoinProgramId
  ensure (parameters.isFrozen = false) "Protocol is frozen"
  let accumulator ← decodeStabilityFeeAccumulator stabilityFeeAccumulator stablecoinProgramId
  let redemption ← decodeRedemptionPriceState redemptionPriceState stablecoinProgramId
  let now ← readClock clock
  ensure (owner.isAuthorized = true) "Owner authorization is missing"
  let positionData ← decodePosition position owner stablecoinProgramId
  let vaultSeed ← verifyPositionVaultAndGetSeed vault position.accountId stablecoinProgramId
  ensure (positionData.vaultAccountId = vault.accountId)
    "Position vault_account_id does not match the vault account"
  let vaultHolding : Token.TokenHolding AccountId ← expect (tryFrom vault.account.data)
    "Vault account must hold a valid TokenHolding"
  ensure (vaultHolding.definitionId = parameters.collateralDefinitionId)
    "Vault holding does not match the protocol's collateral definition"
  let tokenProgramId := vault.account.programOwner
  ensure (userCollateralHolding.account ≠ default) "User collateral holding must be initialized"
  ensure (userCollateralHolding.account.programOwner = tokenProgramId)
    "User collateral holding must be owned by the same Token Program as the vault"
  let userHolding : Token.TokenHolding AccountId ← expect (tryFrom userCollateralHolding.account.data)
    "User collateral holding must hold a valid TokenHolding"
  ensure (userHolding.definitionId = parameters.collateralDefinitionId)
    "User collateral holding definition does not match the position's collateral definition"
  let newCollateral ← expect (positionData.collateralAmount.checkedSub amount)
    "Withdrawal amount exceeds position collateral"
  let updatedPosition := { positionData with collateralAmount := newCollateral }
  assertWithdrawalIsCollateralized updatedPosition accumulator redemption parameters now amount
  let transferCall := (ChainedCall.new tokenProgramId
    [vault.accountId, userCollateralHolding.accountId]
    (.token (.transfer amount))).withPdaSeeds [vaultSeed]
  pure ([.unchanged owner, .new position (.position updatedPosition), .unchanged vault,
    .unchanged userCollateralHolding, .unchanged stabilityFeeAccumulator,
    .unchanged redemptionPriceState, .unchanged protocolParameters, .unchanged clock],
    [transferCall])

end LezPrograms.Stablecoin
