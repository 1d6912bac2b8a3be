import LezPrograms.Checked
import LezPrograms.Lee.Identifier

/-! # Stablecoin accounts and instructions -/

set_option autoImplicit false

namespace LezPrograms.Stablecoin
open LezPrograms.Checked LezPrograms.Lee

structure ProtocolParameters where
  adminAccountId : AccountId
  freezeAuthorityAccountId : AccountId
  stablecoinDefinitionId : AccountId
  collateralDefinitionId : AccountId
  marketPriceOracleId : AccountId
  stabilityFeePerMillisecond : U128
  controllerProportionalGain : I128
  controllerIntegralGain : I128
  minimumCollateralizationRatio : U128
  minimumMillisecondsBetweenRateUpdates : U64
  maximumOraclePriceAgeMilliseconds : U64
  isFrozen : Bool
deriving DecidableEq

structure RedemptionPriceState where
  redemptionPriceAtLastUpdate : U128
  redemptionRatePerMillisecond : U128
  controllerIntegralTerm : I128
  lastUpdatedAt : U64
deriving DecidableEq

structure StabilityFeeAccumulator where
  accumulatedRateAtLastAccrual : U128
  lastAccruedAt : U64
  totalNormalizedDebt : U128
deriving DecidableEq

structure Position where
  ownerAccountId : AccountId
  positionNonce : U64
  vaultAccountId : AccountId
  collateralAmount : U128
  normalizedDebtAmount : U128
  openedAt : U64
deriving DecidableEq

structure InitializeProgramParams where
  freezeAuthorityAccountId : AccountId
  initialStabilityFeePerMillisecond : U128
  initialControllerProportionalGain : I128
  initialControllerIntegralGain : I128
  initialMinimumCollateralizationRatio : U128
  minimumMillisecondsBetweenRateUpdates : U64
  maximumOraclePriceAgeMilliseconds : U64
  initialRedemptionPrice : U128
  stablecoinName : String
deriving DecidableEq

inductive Instruction where
  | initializeProgram (params : InitializeProgramParams)
  | accrueStabilityFee
  | updateRedemptionRate
  | refreshGlobals
  | openPosition (positionNonce : U64) (initialCollateralAmount : U128)
  | depositCollateral (amount : U128)
  | generateDebt (amount : U128)
  | closePosition
  | setMinimumCollateralizationRatio (newRatio : U128)
  | setControllerGains (newProportionalGain newIntegralGain : I128)
  | setMarketPriceOracle
  | setTimingParameters (newMinimumMillisecondsBetweenRateUpdates : U64)
      (newMaximumOraclePriceAgeMilliseconds : U64)
  | setAdmin (newAdminAccountId : AccountId)
  | setFreezeAuthority (newFreezeAuthorityAccountId : AccountId)
  | setStabilityFeePerMillisecond (newRate : U128)
  | freeze
  | unfreeze
  | withdrawCollateral (amount : U128)
  | repayDebt (amount : U128)
  | resetRedemptionRateController
deriving DecidableEq

def computeProtocolParametersPda (stablecoinProgramId : AccountId) : AccountId :=
  .forPublicPda stablecoinProgramId (.tag .protocolParameters)

def computeStabilityFeeAccumulatorPda (stablecoinProgramId : AccountId) : AccountId :=
  .forPublicPda stablecoinProgramId (.tag .stabilityFeeAccumulator)

def computeRedemptionPriceStatePda (stablecoinProgramId : AccountId) : AccountId :=
  .forPublicPda stablecoinProgramId (.tag .redemptionPriceState)

def computeStablecoinDefinitionPdaSeed : PdaSeed := .tag .stablecoinDefinition

def computeStablecoinDefinitionPda (stablecoinProgramId : AccountId) : AccountId :=
  .forPublicPda stablecoinProgramId computeStablecoinDefinitionPdaSeed

def computeStablecoinMasterHoldingPdaSeed : PdaSeed := .tag .stablecoinMasterHolding

def computeStablecoinMasterHoldingPda (stablecoinProgramId : AccountId) : AccountId :=
  .forPublicPda stablecoinProgramId computeStablecoinMasterHoldingPdaSeed

def computePositionPdaSeed (ownerId : AccountId) (positionNonce : U64) : PdaSeed :=
  .account ownerId (.word positionNonce.val (.tag .position))

def computePositionPda (stablecoinProgramId ownerId : AccountId) (positionNonce : U64) :
    AccountId :=
  .forPublicPda stablecoinProgramId (computePositionPdaSeed ownerId positionNonce)

def computePositionVaultPdaSeed (positionId : AccountId) : PdaSeed :=
  .account positionId (.tag .positionVault)

def computePositionVaultPda (stablecoinProgramId positionId : AccountId) : AccountId :=
  .forPublicPda stablecoinProgramId (computePositionVaultPdaSeed positionId)

theorem computePositionPda_injective (program o o' : AccountId) (n n' : U64)
    (h : computePositionPda program o n = computePositionPda program o' n') : o = o' ∧ n = n' := by
  simp only [computePositionPda, AccountId.forPublicPda, computePositionPdaSeed,
    AccountId.pda.injEq, PdaSeed.account.injEq, PdaSeed.word.injEq, true_and, and_true] at h
  exact ⟨h.1, Fin.ext h.2⟩

theorem computePositionVaultPda_injective (program p p' : AccountId)
    (h : computePositionVaultPda program p = computePositionVaultPda program p') : p = p' := by
  simpa [computePositionVaultPda, AccountId.forPublicPda, computePositionVaultPdaSeed] using h

end LezPrograms.Stablecoin
