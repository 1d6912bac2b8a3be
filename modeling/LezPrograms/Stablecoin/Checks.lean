import LezPrograms.Lee.Platform
import LezPrograms.Stablecoin.Controller
import LezPrograms.Stablecoin.Saturation

/-! # Checks shared by the stablecoin instructions -/

set_option autoImplicit false

namespace LezPrograms.Stablecoin
open LezPrograms.Checked LezPrograms.Checked.Unsigned LezPrograms.Lee
open LezPrograms.Stablecoin.Math LezPrograms.Stablecoin.Controller

structure CollateralizationValues where
  collateralValue : U512
  requiredCollateralValue : U512
  requirementSaturated : Bool

def CollateralizationValues.isCollateralized (values : CollateralizationValues) : Prop :=
  values.requiredCollateralValue.val ≤ values.collateralValue.val

instance (values : CollateralizationValues) : Decidable values.isCollateralized := by
  unfold CollateralizationValues.isCollateralized
  infer_instance

/-- The product of the operands; the first overflow caps it and ends the loop. -/
def requiredProduct {w : ℕ} : Unsigned w → List (Unsigned w) → Unsigned w × Bool
  | required, [] => (required, false)
  | required, operand :: operands =>
    match checkedMul required operand with
    | some product => requiredProduct product operands
    | none => (maxValue w, true)

def collateralizationValues (collateralAmount normalizedDebtAmount : U128)
    (currentAccumulator currentRedemptionPrice : U512) (minimumCollateralizationRatio : U128) :
    CollateralizationValues :=
  let collateral : U512 := widen collateralAmount u128_le_u512
  let required := requiredProduct (widen normalizedDebtAmount u128_le_u512)
    [currentAccumulator, currentRedemptionPrice, widen minimumCollateralizationRatio u128_le_u512]
  { collateralValue := wrappingMul (wrappingMul (wrappingMul collateral oneWide) oneWide) oneWide
    requiredCollateralValue := required.1
    requirementSaturated := required.2 }

def assertPositionIsCollateralized (position : Position)
    (currentAccumulator currentRedemptionPrice : U512) (minimumCollateralizationRatio : U128) :
    Outcome Unit :=
  if position.normalizedDebtAmount.val = 0 then pure ()
  else
    ensure (collateralizationValues position.collateralAmount position.normalizedDebtAmount
      currentAccumulator currentRedemptionPrice minimumCollateralizationRatio).isCollateralized
      "Position is undercollateralized"

/-- `FIXED_POINT_ONE + 21_965_000_000_000_000`, about 100% a year. -/
def maxStabilityFeePerMillisecond : U128 := ⟨1000000000021965000000000000, by norm_num⟩

/-- `FIXED_POINT_ONE * 1_000` -/
def maximumControllerProportionalGain : I128 := ⟨1000000000000000000000000000000, by norm_num⟩

def maximumControllerIntegralGain : I128 := fixedPointOneSigned

def minCollateralizationRatio : U128 := ⟨1100000000000000000000000000, by norm_num⟩

def maxCollateralizationRatio : U128 := ⟨10000000000000000000000000000, by norm_num⟩

def maxTimingMilliseconds : U64 := ⟨86400000, by norm_num⟩

def assertAdminAuthorized (admin : InputAccount) (parameters : ProtocolParameters) :
    Outcome Unit := do
  ensure (admin.isAuthorized = true) "Admin authorization is missing"
  ensure (admin.accountId = parameters.adminAccountId) "Signer is not the protocol's admin"

def assertStabilityFeeInBand (rate : U128) (label : String) : Outcome Unit := do
  ensure (fixedPointOne.val ≤ rate.val) (label ++ " below FIXED_POINT_ONE")
  ensure (rate.val ≤ maxStabilityFeePerMillisecond.val) (label ++ " above sane upper bound")

def assertCollateralizationRatioInBand (ratio : U128) (label : String) : Outcome Unit := do
  ensure (minCollateralizationRatio.val ≤ ratio.val) (label ++ " below 1.1x")
  ensure (ratio.val ≤ maxCollateralizationRatio.val) (label ++ " above 10x")

def assertControllerGainsInBand (proportionalGain integralGain : I128) : Outcome Unit := do
  ensure (0 ≤ proportionalGain.val ∧ proportionalGain.val ≤ maximumControllerProportionalGain.val)
    "controller_proportional_gain out of band"
  ensure (0 ≤ integralGain.val ∧ integralGain.val ≤ maximumControllerIntegralGain.val)
    "controller_integral_gain out of band"

def assertTimingMillisecondsInBand (milliseconds : U64) (label : String) : Outcome Unit := do
  ensure (1 ≤ milliseconds.val) (label ++ " below minimum 1ms")
  ensure (milliseconds.val ≤ maxTimingMilliseconds.val) (label ++ " above maximum 86_400_000ms")

def surplusMintCall (stablecoinDefinition stablecoinMasterHolding : InputAccount)
    (parameters : ProtocolParameters) (stablecoinProgramId : AccountId) (accruedFees : U128) :
    Outcome (Option ChainedCall) := do
  ensure (stablecoinDefinition.accountId = parameters.stablecoinDefinitionId)
    "Stablecoin definition does not match the one bound at initialize_program"
  ensure (stablecoinDefinition.account ≠ default)
    "Stablecoin definition account must be initialized"
  ensure (stablecoinMasterHolding.accountId = computeStablecoinMasterHoldingPda stablecoinProgramId)
    "Stablecoin master holding account ID does not match expected PDA derivation"
  ensure (stablecoinMasterHolding.account ≠ default)
    "Stablecoin master holding must be initialized"
  let tokenProgramId := stablecoinDefinition.account.programOwner
  ensure (stablecoinMasterHolding.account.programOwner = tokenProgramId)
    "Stablecoin master holding must be owned by the same Token Program as the definition"
  pure (if 0 < accruedFees.val then
    some ((ChainedCall.new tokenProgramId
      [stablecoinDefinition.accountId, stablecoinMasterHolding.accountId]
      (.token (.mint accruedFees))).withPdaSeeds [computeStablecoinDefinitionPdaSeed])
    else none)

def decodeGlobal (account : InputAccount) (expectedId stablecoinProgramId : AccountId)
    (label : String) : Outcome Data := do
  ensure (account.account ≠ default) (label ++ " account must be initialized")
  ensure (account.account.programOwner = stablecoinProgramId)
    (label ++ " account must be owned by the stablecoin program")
  ensure (account.accountId = expectedId)
    (label ++ " account ID does not match expected PDA derivation")
  pure account.account.data

def decodeProtocolParameters (protocolParameters : InputAccount)
    (stablecoinProgramId : AccountId) : Outcome ProtocolParameters := do
  let data ← decodeGlobal protocolParameters (computeProtocolParametersPda stablecoinProgramId)
    stablecoinProgramId "ProtocolParameters"
  expect (tryFrom data) "ProtocolParameters must decode"

def decodeStabilityFeeAccumulator (stabilityFeeAccumulator : InputAccount)
    (stablecoinProgramId : AccountId) : Outcome StabilityFeeAccumulator := do
  let data ← decodeGlobal stabilityFeeAccumulator
    (computeStabilityFeeAccumulatorPda stablecoinProgramId) stablecoinProgramId
    "StabilityFeeAccumulator"
  expect (tryFrom data) "StabilityFeeAccumulator must decode"

def decodeRedemptionPriceState (redemptionPriceState : InputAccount)
    (stablecoinProgramId : AccountId) : Outcome RedemptionPriceState := do
  let data ← decodeGlobal redemptionPriceState (computeRedemptionPriceStatePda stablecoinProgramId)
    stablecoinProgramId "RedemptionPriceState"
  expect (tryFrom data) "RedemptionPriceState must decode"

def verifyPositionAndGetSeed (position owner : InputAccount) (positionNonce : U64)
    (stablecoinProgramId : AccountId) : Outcome PdaSeed := do
  let seed := computePositionPdaSeed owner.accountId positionNonce
  ensure (position.accountId = .forPublicPda stablecoinProgramId seed)
    "Position account ID does not match expected derivation"
  pure seed

def verifyPositionVaultAndGetSeed (vault : InputAccount) (positionId : AccountId)
    (stablecoinProgramId : AccountId) : Outcome PdaSeed := do
  let seed := computePositionVaultPdaSeed positionId
  ensure (vault.accountId = .forPublicPda stablecoinProgramId seed)
    "Position vault account ID does not match expected derivation"
  pure seed

def decodePosition (position owner : InputAccount) (stablecoinProgramId : AccountId) :
    Outcome Position := do
  ensure (position.account ≠ default) "Position account must be initialized"
  ensure (position.account.programOwner = stablecoinProgramId)
    "Position is not owned by this stablecoin program"
  let positionData : Position ← expect (tryFrom position.account.data)
    "Position account must hold valid Position state"
  let _positionSeed ← verifyPositionAndGetSeed position owner positionData.positionNonce
    stablecoinProgramId
  ensure (positionData.ownerAccountId = owner.accountId)
    "Position owner_account_id does not match the owner account"
  pure positionData

def readClock (clock : InputAccount) : Outcome U64 := do
  ensure (clock.accountId = clock01ProgramAccountId)
    "Clock account must be the system CLOCK_01 account"
  ensure (clock.account ≠ default) "Clock account must be initialized"
  clockTimestamp clock.account.data

end LezPrograms.Stablecoin
