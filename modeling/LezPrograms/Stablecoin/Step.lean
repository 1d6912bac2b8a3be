import LezPrograms.Stablecoin.Reading

/-! # What one stablecoin instruction does to the world

`Step` lists the successful executions of the stablecoin program: what they
checked, what they wrote and which calls they chained. -/

set_option autoImplicit false

namespace LezPrograms.Stablecoin
open LezPrograms.Checked LezPrograms.Checked.Unsigned LezPrograms.Lee
open LezPrograms.Stablecoin.Math LezPrograms.Stablecoin.Controller

def Instruction.accrues : Instruction → Bool
  | .accrueStabilityFee | .refreshGlobals | .setStabilityFeePerMillisecond _ => true
  | .generateDebt _ | .repayDebt _ => true
  | _ => false

def Instruction.converts : Instruction → Bool
  | .generateDebt _ | .repayDebt _ => true
  | _ => false

def Instruction.setsParameters : Instruction → Bool
  | .setMinimumCollateralizationRatio _ | .setControllerGains _ _ | .setMarketPriceOracle
  | .setTimingParameters _ _ | .setAdmin _ | .setFreezeAuthority _ | .freeze | .unfreeze => true
  | _ => false

theorem Instruction.setsParameters_idle (instruction : Instruction)
    (h : instruction.setsParameters = true) :
    instruction.accrues = false ∧ instruction.converts = false := by
  cases instruction <;> first | exact ⟨rfl, rfl⟩ | cases h

structure AccrualReads (program : AccountId) (w : Accounts) (parametersId definitionId : AccountId)
    (params : ProtocolParameters) (accumulator : StabilityFeeAccumulator) (now : U64)
    (accrual : FeeAccrual) : Prop where
  parameters : Holds program (w parametersId) (.protocolParameters params)
  accumulates : Holds program (w (computeStabilityFeeAccumulatorPda program))
    (.stabilityFeeAccumulator accumulator)
  clock : (w clock01ProgramAccountId).data = .clock now
  computed : accrueFees params accumulator now = .ok accrual
  definition : definitionId = params.stablecoinDefinitionId
  master : (w (computeStablecoinMasterHoldingPda program)).programOwner
    = (w definitionId).programOwner

structure PositionReads (program : AccountId) (w : Accounts) (authority : List AccountId)
    (ownerId positionId : AccountId) (data : Position) : Prop where
  authorized : ownerId ∈ authority
  stored : Holds program (w positionId) (.position data)
  derived : positionId = computePositionPda program ownerId data.positionNonce
  owner : data.ownerAccountId = ownerId

inductive ParametersUpdate (p : ProtocolParameters) (signer : AccountId) :
    ProtocolParameters → Prop
  | ratio (newRatio : U128) (label : String) (admin : signer = p.adminAccountId)
      (band : assertCollateralizationRatioInBand newRatio label = .ok ()) :
      ParametersUpdate p signer { p with minimumCollateralizationRatio := newRatio }
  | gains (proportional integral : I128) (admin : signer = p.adminAccountId)
      (band : assertControllerGainsInBand proportional integral = .ok ()) :
      ParametersUpdate p signer
        { p with controllerProportionalGain := proportional, controllerIntegralGain := integral }
  | timing (minimum maximum : U64) (minimumLabel maximumLabel : String)
      (admin : signer = p.adminAccountId)
      (minimumBand : assertTimingMillisecondsInBand minimum minimumLabel = .ok ())
      (maximumBand : assertTimingMillisecondsInBand maximum maximumLabel = .ok ()) :
      ParametersUpdate p signer { p with
        minimumMillisecondsBetweenRateUpdates := minimum
        maximumOraclePriceAgeMilliseconds := maximum }
  | admin (new : AccountId) (admin : signer = p.adminAccountId) :
      ParametersUpdate p signer { p with adminAccountId := new }
  | freezeAuthority (new : AccountId) (admin : signer = p.adminAccountId) :
      ParametersUpdate p signer { p with freezeAuthorityAccountId := new }
  | oracle (new : AccountId) (admin : signer = p.adminAccountId) :
      ParametersUpdate p signer { p with marketPriceOracleId := new }
  | frozen (isFrozen : Bool) (freezeAuthority : signer = p.freezeAuthorityAccountId) :
      ParametersUpdate p signer { p with isFrozen := isFrozen }

def resetState (redemption : RedemptionPriceState) (now : U64) : RedemptionPriceState :=
  ⟨boundRedemptionPrice (computeCurrentRedemptionPriceWide redemption.redemptionPriceAtLastUpdate
    redemption.redemptionRatePerMillisecond redemption.lastUpdatedAt now), fixedPointOne,
    ⟨0, zero_mem_i128⟩, now⟩

def initialParameters (params : InitializeProgramParams) (adminId definitionId collateralId
    oracleId : AccountId) : ProtocolParameters :=
  { adminAccountId := adminId
    freezeAuthorityAccountId := params.freezeAuthorityAccountId
    stablecoinDefinitionId := definitionId
    collateralDefinitionId := collateralId
    marketPriceOracleId := oracleId
    stabilityFeePerMillisecond := params.initialStabilityFeePerMillisecond
    controllerProportionalGain := params.initialControllerProportionalGain
    controllerIntegralGain := params.initialControllerIntegralGain
    minimumCollateralizationRatio := params.initialMinimumCollateralizationRatio
    minimumMillisecondsBetweenRateUpdates := params.minimumMillisecondsBetweenRateUpdates
    maximumOraclePriceAgeMilliseconds := params.maximumOraclePriceAgeMilliseconds
    isFrozen := false }

def mintCall (tokenProgram definitionId holdingId : AccountId) (amount : U128) : ChainedCall :=
  (ChainedCall.new tokenProgram [definitionId, holdingId]
    (.token (.mint amount))).withPdaSeeds [computeStablecoinDefinitionPdaSeed]

def burnCall (tokenProgram definitionId holdingId : AccountId) (amount : U128) : ChainedCall :=
  ChainedCall.new tokenProgram [definitionId, holdingId] (.token (.burn amount))

def depositCall (tokenProgram holdingId vaultId : AccountId) (amount : U128) : ChainedCall :=
  ChainedCall.new tokenProgram [holdingId, vaultId] (.token (.transfer amount))

def withdrawCall (tokenProgram positionId vaultId holdingId : AccountId) (amount : U128) :
    ChainedCall :=
  (ChainedCall.new tokenProgram [vaultId, holdingId]
    (.token (.transfer amount))).withPdaSeeds [computePositionVaultPdaSeed positionId]

def initializeVaultCall (tokenProgram definitionId positionId vaultId : AccountId) : ChainedCall :=
  (ChainedCall.new tokenProgram [definitionId, vaultId]
    (.token .initializeAccount)).withPdaSeeds [computePositionVaultPdaSeed positionId]

def newStablecoinCall (tokenProgram definitionId holdingId : AccountId) (name : String) :
    ChainedCall :=
  (ChainedCall.new tokenProgram [definitionId, holdingId]
    (.token (.newFungibleDefinition name (zero 128) (some definitionId)))).withPdaSeeds
    [computeStablecoinDefinitionPdaSeed, computeStablecoinMasterHoldingPdaSeed]

section
variable (self : AccountId)

inductive Step (w : Accounts) (authority : List AccountId) :
    List AccountId → Instruction → Accounts → List ChainedCall → Prop
  | initializeProgram (admin c o : AccountId) (params : InitializeProgramParams) (now : U64)
      (collateral : Token.TokenDefinition AccountId)
      (authorized : admin ∈ authority)
      (freshParameters : w (computeProtocolParametersPda self) = default)
      (freshAccumulator : w (computeStabilityFeeAccumulatorPda self) = default)
      (freshRedemption : w (computeRedemptionPriceStatePda self) = default)
      (freshDefinition : w (computeStablecoinDefinitionPda self) = default)
      (freshMaster : w (computeStablecoinMasterHoldingPda self) = default)
      (clock : (w clock01ProgramAccountId).data = .clock now)
      (collateralData : (w c).data = .tokenDefinition collateral)
      (fungible : collateral.isFungible)
      (bands : assertParametersInBand params = .ok ()) :
      Step w authority [admin, computeProtocolParametersPda self,
          computeStabilityFeeAccumulatorPda self, computeRedemptionPriceStatePda self,
          computeStablecoinDefinitionPda self, computeStablecoinMasterHoldingPda self, c, o,
          clock01ProgramAccountId] (.initializeProgram params)
        (put self (put self (put self w (computeProtocolParametersPda self) (.protocolParameters
            (initialParameters params admin (computeStablecoinDefinitionPda self) c o)))
          (computeStabilityFeeAccumulatorPda self)
            (.stabilityFeeAccumulator ⟨fixedPointOne, now, zero 128⟩))
          (computeRedemptionPriceStatePda self) (.redemptionPriceState
            ⟨params.initialRedemptionPrice, fixedPointOne, ⟨0, zero_mem_i128⟩, now⟩))
        [newStablecoinCall (w c).programOwner (computeStablecoinDefinitionPda self)
          (computeStablecoinMasterHoldingPda self) params.stablecoinName]
  | accrueStabilityFee (caller p d : AccountId) (params : ProtocolParameters)
      (accumulator : StabilityFeeAccumulator) (now : U64) (accrual : FeeAccrual)
      (authorized : caller ∈ authority)
      (reads : AccrualReads self w p d params accumulator now accrual) :
      Step w authority [caller, p, computeStabilityFeeAccumulatorPda self, d,
          computeStablecoinMasterHoldingPda self, clock01ProgramAccountId] .accrueStabilityFee
        (put self w (computeStabilityFeeAccumulatorPda self)
          (.stabilityFeeAccumulator accrual.accumulator))
        (surplusCalls (w d).programOwner d self accrual.accruedFees)
  | updateRedemptionRate (caller p o : AccountId) (params : ProtocolParameters)
      (redemption redemption' : RedemptionPriceState) (oracle : TwapOracle.OraclePriceAccount)
      (now : U64) (authorized : caller ∈ authority)
      (parameters : Holds self (w p) (.protocolParameters params))
      (stored : Holds self (w (computeRedemptionPriceStatePda self))
        (.redemptionPriceState redemption))
      (reading : (w o).data = .oraclePrice oracle)
      (clock : (w clock01ProgramAccountId).data = .clock now)
      (advanced : advanceRedemptionPrice params redemption oracle.price now = .ok redemption') :
      Step w authority [caller, p, computeRedemptionPriceStatePda self, o,
          clock01ProgramAccountId] .updateRedemptionRate
        (put self w (computeRedemptionPriceStatePda self) (.redemptionPriceState redemption')) []
  | refreshFee (caller p d o : AccountId) (params : ProtocolParameters)
      (accumulator : StabilityFeeAccumulator) (now : U64) (accrual : FeeAccrual)
      (authorized : caller ∈ authority)
      (reads : AccrualReads self w p d params accumulator now accrual) :
      Step w authority [caller, p, computeStabilityFeeAccumulatorPda self, d,
          computeStablecoinMasterHoldingPda self, computeRedemptionPriceStatePda self, o,
          clock01ProgramAccountId] .refreshGlobals
        (put self w (computeStabilityFeeAccumulatorPda self)
          (.stabilityFeeAccumulator accrual.accumulator))
        (surplusCalls (w d).programOwner d self accrual.accruedFees)
  | refreshBoth (caller p d o : AccountId) (params : ProtocolParameters)
      (accumulator : StabilityFeeAccumulator) (now : U64) (accrual : FeeAccrual)
      (redemption redemption' : RedemptionPriceState) (oraclePrice : U128)
      (authorized : caller ∈ authority)
      (reads : AccrualReads self w p d params accumulator now accrual)
      (stored : Holds self (w (computeRedemptionPriceStatePda self))
        (.redemptionPriceState redemption))
      (advanced : advanceRedemptionPrice params redemption oraclePrice now = .ok redemption') :
      Step w authority [caller, p, computeStabilityFeeAccumulatorPda self, d,
          computeStablecoinMasterHoldingPda self, computeRedemptionPriceStatePda self, o,
          clock01ProgramAccountId] .refreshGlobals
        (put self (put self w (computeStabilityFeeAccumulatorPda self)
          (.stabilityFeeAccumulator accrual.accumulator))
          (computeRedemptionPriceStatePda self) (.redemptionPriceState redemption'))
        (surplusCalls (w d).programOwner d self accrual.accruedFees)
  | resetRedemptionRateController (signer : AccountId) (params : ProtocolParameters)
      (redemption : RedemptionPriceState) (now : U64) (authorized : signer ∈ authority)
      (parameters : Holds self (w (computeProtocolParametersPda self))
        (.protocolParameters params))
      (entitled : signer = params.adminAccountId ∨ signer = params.freezeAuthorityAccountId)
      (stored : Holds self (w (computeRedemptionPriceStatePda self))
        (.redemptionPriceState redemption))
      (clock : (w clock01ProgramAccountId).data = .clock now) :
      Step w authority [signer, computeProtocolParametersPda self,
          computeRedemptionPriceStatePda self, clock01ProgramAccountId]
        .resetRedemptionRateController
        (put self w (computeRedemptionPriceStatePda self)
          (.redemptionPriceState (resetState redemption now))) []
  | openPosition (owner user c : AccountId) (nonce : U64) (amount : U128)
      (params : ProtocolParameters) (now : U64) (holding : Token.TokenHolding AccountId)
      (authorized : owner ∈ authority) (userAuthorized : user ∈ authority)
      (freshPosition : w (computePositionPda self owner nonce) = default)
      (freshVault : w (computePositionVaultPda self (computePositionPda self owner nonce)) = default)
      (parameters : Holds self (w (computeProtocolParametersPda self))
        (.protocolParameters params))
      (unfrozen : params.isFrozen = false) (collateral : c = params.collateralDefinitionId)
      (clock : (w clock01ProgramAccountId).data = .clock now)
      (userHolding : (w user).data = .tokenHolding holding) (sameToken : holding.definitionId = c)
      (sameProgram : (w c).programOwner = (w user).programOwner) :
      Step w authority [owner, computePositionPda self owner nonce,
          computePositionVaultPda self (computePositionPda self owner nonce), user, c,
          computeProtocolParametersPda self, clock01ProgramAccountId] (.openPosition nonce amount)
        (put self w (computePositionPda self owner nonce) (.position ⟨owner, nonce,
          computePositionVaultPda self (computePositionPda self owner nonce), amount, zero 128,
          now⟩))
        [initializeVaultCall (w user).programOwner c (computePositionPda self owner nonce)
            (computePositionVaultPda self (computePositionPda self owner nonce)),
          depositCall (w user).programOwner user
            (computePositionVaultPda self (computePositionPda self owner nonce)) amount]
  | depositCollateral (owner position user : AccountId) (amount : U128) (data : Position)
      (params : ProtocolParameters) (collateral : AccountId) (balance newCollateral : U128)
      (userAuthorized : user ∈ authority)
      (reads : PositionReads self w authority owner position data)
      (parameters : Holds self (w (computeProtocolParametersPda self))
        (.protocolParameters params))
      (sameToken : collateral = params.collateralDefinitionId)
      (vault : (w data.vaultAccountId).data = .tokenHolding (.fungible collateral balance))
      (sum : newCollateral.val = balance.val + amount.val) :
      Step w authority [owner, position, data.vaultAccountId, user,
          computeProtocolParametersPda self] (.depositCollateral amount)
        (put self w position (.position { data with collateralAmount := newCollateral }))
        [depositCall (w data.vaultAccountId).programOwner user data.vaultAccountId amount]
  | closePosition (owner position token : AccountId) (data : Position) (balance : U128)
      (reads : PositionReads self w authority owner position data)
      (settled : data.normalizedDebtAmount.val = 0) (empty : data.collateralAmount.val = 0)
      (vault : (w data.vaultAccountId).data = .tokenHolding (.fungible token balance))
      (drained : balance.val = 0) :
      Step w authority [owner, position, data.vaultAccountId, computeProtocolParametersPda self]
        .closePosition (put self w position .empty) []
  | generateDebt (owner position d user : AccountId) (amount : U128) (data : Position)
      (params : ProtocolParameters) (accumulator : StabilityFeeAccumulator)
      (redemption : RedemptionPriceState) (now : U64) (accrual : FeeAccrual)
      (debtDelta newDebt newTotal : U128)
      (reads : PositionReads self w authority owner position data)
      (accrues : AccrualReads self w (computeProtocolParametersPda self) d params accumulator now
        accrual)
      (unfrozen : params.isFrozen = false)
      (stored : Holds self (w (computeRedemptionPriceStatePda self))
        (.redemptionPriceState redemption))
      (delta : mulDivCeil amount fixedPointOne accrual.accumulator.accumulatedRateAtLastAccrual
        = .ok debtDelta)
      (debt : newDebt.val = data.normalizedDebtAmount.val + debtDelta.val)
      (total : newTotal.val = accrual.accumulator.totalNormalizedDebt.val + debtDelta.val)
      (priced : (computeCurrentRedemptionPriceWide redemption.redemptionPriceAtLastUpdate
        redemption.redemptionRatePerMillisecond redemption.lastUpdatedAt now).val ≠ 0)
      (collateralized : assertPositionIsCollateralized { data with normalizedDebtAmount := newDebt }
        (widen accrual.accumulator.accumulatedRateAtLastAccrual (by decide))
        (computeCurrentRedemptionPriceWide redemption.redemptionPriceAtLastUpdate
          redemption.redemptionRatePerMillisecond redemption.lastUpdatedAt now)
        params.minimumCollateralizationRatio = .ok ()) :
      Step w authority [owner, position, d, user, computeStablecoinMasterHoldingPda self,
          computeStabilityFeeAccumulatorPda self, computeRedemptionPriceStatePda self,
          computeProtocolParametersPda self, clock01ProgramAccountId] (.generateDebt amount)
        (put self (put self w position (.position { data with normalizedDebtAmount := newDebt }))
          (computeStabilityFeeAccumulatorPda self) (.stabilityFeeAccumulator
            { accrual.accumulator with totalNormalizedDebt := newTotal }))
        (surplusCalls (w d).programOwner d self accrual.accruedFees ++
          [mintCall (w d).programOwner d user amount])
  | repayDebt (owner position d user : AccountId) (amount : U128) (data : Position)
      (params : ProtocolParameters) (accumulator : StabilityFeeAccumulator) (now : U64)
      (accrual : FeeAccrual) (debtDelta newDebt newTotal : U128)
      (reads : PositionReads self w authority owner position data)
      (userAuthorized : user ∈ authority)
      (accrues : AccrualReads self w (computeProtocolParametersPda self) d params accumulator now
        accrual)
      (sameProgram : (w user).programOwner = (w d).programOwner)
      (delta : mulDiv amount fixedPointOne accrual.accumulator.accumulatedRateAtLastAccrual
        = .ok debtDelta)
      (debt : newDebt.val + debtDelta.val = data.normalizedDebtAmount.val)
      (total : newTotal.val + debtDelta.val = accrual.accumulator.totalNormalizedDebt.val) :
      Step w authority [owner, position, d, user, computeStablecoinMasterHoldingPda self,
          computeStabilityFeeAccumulatorPda self, computeProtocolParametersPda self,
          clock01ProgramAccountId] (.repayDebt amount)
        (put self (put self w position (.position { data with normalizedDebtAmount := newDebt }))
          (computeStabilityFeeAccumulatorPda self) (.stabilityFeeAccumulator
            { accrual.accumulator with totalNormalizedDebt := newTotal }))
        (surplusCalls (w d).programOwner d self accrual.accruedFees ++
          [burnCall (w d).programOwner d user amount])
  | withdrawCollateral (owner position user : AccountId) (amount : U128) (data : Position)
      (params : ProtocolParameters) (accumulator : StabilityFeeAccumulator)
      (redemption : RedemptionPriceState) (now : U64) (newCollateral : U128)
      (vaultHolding userHolding : Token.TokenHolding AccountId)
      (reads : PositionReads self w authority owner position data)
      (parameters : Holds self (w (computeProtocolParametersPda self))
        (.protocolParameters params))
      (unfrozen : params.isFrozen = false)
      (accumulates : Holds self (w (computeStabilityFeeAccumulatorPda self))
        (.stabilityFeeAccumulator accumulator))
      (stored : Holds self (w (computeRedemptionPriceStatePda self))
        (.redemptionPriceState redemption))
      (clock : (w clock01ProgramAccountId).data = .clock now)
      (vaultDerived : data.vaultAccountId = computePositionVaultPda self position)
      (vault : (w data.vaultAccountId).data = .tokenHolding vaultHolding)
      (vaultToken : vaultHolding.definitionId = params.collateralDefinitionId)
      (userData : (w user).data = .tokenHolding userHolding)
      (userToken : userHolding.definitionId = params.collateralDefinitionId)
      (rest : newCollateral.val + amount.val = data.collateralAmount.val)
      (collateralized : assertWithdrawalIsCollateralized
        { data with collateralAmount := newCollateral } accumulator redemption params now amount
        = .ok ()) :
      Step w authority [owner, position, data.vaultAccountId, user,
          computeStabilityFeeAccumulatorPda self, computeRedemptionPriceStatePda self,
          computeProtocolParametersPda self, clock01ProgramAccountId] (.withdrawCollateral amount)
        (put self w position (.position { data with collateralAmount := newCollateral }))
        [withdrawCall (w data.vaultAccountId).programOwner position data.vaultAccountId user amount]
  | setStabilityFeePerMillisecond (admin d : AccountId) (newRate : U128)
      (params : ProtocolParameters) (accumulator : StabilityFeeAccumulator) (now : U64)
      (accrual : FeeAccrual) (authorized : admin ∈ authority)
      (entitled : admin = params.adminAccountId)
      (band : assertStabilityFeeInBand newRate "new_stability_fee_per_millisecond" = .ok ())
      (accrues : AccrualReads self w (computeProtocolParametersPda self) d params accumulator now
        accrual) :
      Step w authority [admin, computeProtocolParametersPda self,
          computeStabilityFeeAccumulatorPda self, d, computeStablecoinMasterHoldingPda self,
          clock01ProgramAccountId] (.setStabilityFeePerMillisecond newRate)
        (put self (put self w (computeProtocolParametersPda self)
          (.protocolParameters { params with stabilityFeePerMillisecond := newRate }))
          (computeStabilityFeeAccumulatorPda self) (.stabilityFeeAccumulator accrual.accumulator))
        (surplusCalls (w d).programOwner d self accrual.accruedFees)
  | setParameters (signer : AccountId) (rest : List AccountId) (instruction : Instruction)
      (params params' : ProtocolParameters)
      (setter : instruction.setsParameters = true)
      (authorized : signer ∈ authority)
      (parameters : Holds self (w (computeProtocolParametersPda self))
        (.protocolParameters params))
      (update : ParametersUpdate params signer params') :
      Step w authority (signer :: computeProtocolParametersPda self :: rest) instruction
        (put self w (computeProtocolParametersPda self) (.protocolParameters params')) []

variable (w w' : Accounts) (authority : List AccountId) (diffs : List StateDiff)
  (calls : List ChainedCall)

theorem accrueStabilityFee_step (i p a d m c : AccountId)
    (h : accrueStabilityFee (view w authority i) (view w authority p) (view w authority a)
      (view w authority d) (view w authority m) (view w authority c) self = .ok (diffs, calls))
    (ha : applyDiffs self w diffs = .ok w') :
    Step self w authority [i, p, a, d, m, c] .accrueStabilityFee w' calls := by
  simp only [accrueStabilityFee, bind_eq_ok, ensure_eq_ok, exists_const, pure_eq_ok, Prod.exists,
    decodeFeeAccrualInputs_eq_ok, readClock_eq_ok, surplusMintCall_eq_ok, Prod.mk.injEq] at h
  simp only [view_account, view_isAuthorized, view_accountId] at h
  obtain ⟨hauth, params, accumulator, ⟨⟨-, hp⟩, -, rfl, hacc⟩, now, ⟨rfl, hclock⟩, accrual, haccrue,
    call, ⟨hd, -, rfl, -, hm, hcalls⟩, rfl, rfl⟩ := h
  simp only [applyDiffs_unchanged, applyDiffs_new, view_accountId, applyDiffs_nil,
    Except.ok.injEq] at ha
  obtain ⟨-, rfl⟩ := ha
  rw [hcalls]
  exact Step.accrueStabilityFee i p d params accumulator now accrual hauth
    ⟨hp, hacc, hclock, haccrue, hd, hm⟩

theorem readOracle_eq_ok (account : InputAccount) (params : ProtocolParameters)
    (oracle : TwapOracle.OraclePriceAccount) (h : readOracle account params = .ok (some oracle)) :
    account.account.data = .oraclePrice oracle := by
  simp only [readOracle, bind_eq_ok, ensure_eq_ok, exists_const, ite_eq_ok, pure_eq_ok,
    Option.filter_eq_some_iff, tryFrom_oraclePrice] at h
  rcases h with ⟨-, ⟨-, h⟩ | ⟨-, h, -⟩⟩
  · cases h
  · exact h

theorem updateRedemptionRate_step (i p r o c : AccountId)
    (h : updateRedemptionRate (view w authority i) (view w authority p) (view w authority r)
      (view w authority o) (view w authority c) self = .ok (diffs, calls))
    (ha : applyDiffs self w diffs = .ok w') :
    Step self w authority [i, p, r, o, c] .updateRedemptionRate w' calls := by
  simp only [updateRedemptionRate, bind_eq_ok, ensure_eq_ok, exists_const, pure_eq_ok, Prod.exists,
    decodeRedemptionInputs_eq_ok, readClock_eq_ok, expect_eq_ok, Prod.mk.injEq] at h
  simp only [view_account, view_isAuthorized, view_accountId] at h
  obtain ⟨hauth, params, redemption, ⟨⟨-, hp⟩, -, rfl, hr⟩, -, reading, horacle, oracle, rfl, now,
    ⟨rfl, hclock⟩, -, -, -, redemption', hadv, rfl, rfl⟩ := h
  simp only [applyDiffs_unchanged, applyDiffs_new, view_accountId, applyDiffs_nil,
    Except.ok.injEq] at ha
  obtain ⟨-, rfl⟩ := ha
  exact Step.updateRedemptionRate i p o params redemption redemption' oracle now hauth hp hr
    (readOracle_eq_ok _ _ _ horacle) hclock hadv

theorem refreshGlobals_step (i p a d m r o c : AccountId)
    (h : refreshGlobals (view w authority i) (view w authority p) (view w authority a)
      (view w authority d) (view w authority m) (view w authority r) (view w authority o)
      (view w authority c) self = .ok (diffs, calls))
    (ha : applyDiffs self w diffs = .ok w') :
    Step self w authority [i, p, a, d, m, r, o, c] .refreshGlobals w' calls := by
  simp only [refreshGlobals, bind_eq_ok, ensure_eq_ok, exists_const, pure_eq_ok, Prod.exists,
    decodeFeeAccrualInputs_eq_ok, decodeRedemptionInputs_eq_ok, readClock_eq_ok,
    surplusMintCall_eq_ok, Prod.mk.injEq] at h
  simp only [view_account, view_isAuthorized, view_accountId] at h
  obtain ⟨hauth, params, accumulator, ⟨⟨-, hp⟩, -, rfl, hacc⟩, -, redemption, ⟨-, -, rfl, hr⟩, oracle,
    -, now, ⟨rfl, hclock⟩, accrual, haccrue, call, ⟨hd, -, rfl, -, hm, hcalls⟩, diff, hdiff, rfl,
    rfl⟩ := h
  have reads : AccrualReads self w p d params accumulator now accrual :=
    ⟨hp, hacc, hclock, haccrue, hd, hm⟩
  rw [hcalls]
  split at hdiff
  · simp only [bind_eq_ok, pure_eq_ok] at hdiff
    obtain ⟨redemption', hadv, rfl⟩ := hdiff
    simp only [applyDiffs_unchanged, applyDiffs_new, view_accountId, applyDiffs_nil,
      Except.ok.injEq] at ha
    obtain ⟨-, -, rfl⟩ := ha
    exact Step.refreshBoth i p d o params accumulator now accrual redemption redemption' _ hauth
      reads hr hadv
  · rw [pure_eq_ok] at hdiff
    subst hdiff
    simp only [applyDiffs_unchanged, applyDiffs_new, view_accountId, applyDiffs_nil,
      Except.ok.injEq] at ha
    obtain ⟨-, rfl⟩ := ha
    exact Step.refreshFee i p d o params accumulator now accrual hauth reads

theorem resetRedemptionRateController_step (i p r c : AccountId)
    (h : resetRedemptionRateController (view w authority i) (view w authority p)
      (view w authority r) (view w authority c) self = .ok (diffs, calls))
    (ha : applyDiffs self w diffs = .ok w') :
    Step self w authority [i, p, r, c] .resetRedemptionRateController w' calls := by
  simp only [resetRedemptionRateController, bind_eq_ok, ensure_eq_ok, exists_const, pure_eq_ok,
    decodeProtocolParameters_eq_ok, decodeRedemptionPriceState_eq_ok, readClock_eq_ok,
    Prod.mk.injEq] at h
  simp only [view_account, view_isAuthorized, view_accountId] at h
  obtain ⟨hauth, params, ⟨-, rfl, hp⟩, hent, redemption, ⟨-, rfl, hr⟩, now, ⟨rfl, hclock⟩, rfl,
    rfl⟩ := h
  simp only [applyDiffs_unchanged, applyDiffs_new, view_accountId, applyDiffs_nil,
    Except.ok.injEq] at ha
  obtain ⟨-, rfl⟩ := ha
  exact Step.resetRedemptionRateController i params redemption now hauth hp hent hr hclock

theorem assertAdminAuthorized_eq_ok (admin : InputAccount) (params : ProtocolParameters)
    (u : Unit) : assertAdminAuthorized admin params = .ok u ↔
      admin.isAuthorized = true ∧ admin.accountId = params.adminAccountId := by
  simp only [assertAdminAuthorized, bind_eq_ok, ensure_eq_ok, exists_const]

theorem setStabilityFeePerMillisecond_step (i p a d m c : AccountId) (newRate : U128)
    (h : setStabilityFeePerMillisecond (view w authority i) (view w authority p)
      (view w authority a) (view w authority d) (view w authority m) (view w authority c) self
      newRate = .ok (diffs, calls))
    (ha : applyDiffs self w diffs = .ok w') :
    Step self w authority [i, p, a, d, m, c] (.setStabilityFeePerMillisecond newRate) w' calls := by
  simp only [setStabilityFeePerMillisecond, bind_eq_ok, pure_eq_ok, decodeProtocolParameters_eq_ok,
    decodeStabilityFeeAccumulator_eq_ok, assertAdminAuthorized_eq_ok, readClock_eq_ok,
    surplusMintCall_eq_ok, Prod.mk.injEq, exists_const] at h
  simp only [view_account, view_isAuthorized, view_accountId] at h
  obtain ⟨params, ⟨-, rfl, hp⟩, ⟨hauth, hent⟩, u, hband, accumulator, ⟨-, rfl, hacc⟩, now,
    ⟨rfl, hclock⟩, accrual, haccrue, call, ⟨hd, -, rfl, -, hm, hcalls⟩, rfl, rfl⟩ := h
  simp only [applyDiffs_unchanged, applyDiffs_new, view_accountId, applyDiffs_nil,
    Except.ok.injEq] at ha
  obtain ⟨-, -, rfl⟩ := ha
  rw [hcalls]
  exact Step.setStabilityFeePerMillisecond i d newRate params accumulator now accrual hauth hent
    hband ⟨hp, hacc, hclock, haccrue, hd, hm⟩

theorem updateParameters_step (i p : AccountId)
    (mutate : ProtocolParameters → Outcome ProtocolParameters)
    (hmutate : ∀ params params', i = params.adminAccountId → mutate params = .ok params' →
      ParametersUpdate params i params')
    (rest : List AccountId) (instruction : Instruction)
    (hsetter : instruction.setsParameters = true) (tail : List StateDiff)
    (htail : ∀ v, applyDiffs self v tail = .ok v)
    (h : updateParameters (view w authority i) (view w authority p) self mutate
      = .ok (diffs, calls))
    (ha : applyDiffs self w (diffs ++ tail) = .ok w') :
    Step self w authority (i :: p :: rest) instruction w' calls := by
  simp only [updateParameters, bind_eq_ok, pure_eq_ok, decodeProtocolParameters_eq_ok,
    assertAdminAuthorized_eq_ok, Prod.mk.injEq, exists_const] at h
  simp only [view_account, view_isAuthorized, view_accountId] at h
  obtain ⟨params, ⟨-, rfl, hp⟩, ⟨hauth, hent⟩, params', hnew, rfl, rfl⟩ := h
  simp only [List.cons_append, List.nil_append, applyDiffs_unchanged, applyDiffs_new,
    view_accountId, htail, Except.ok.injEq] at ha
  obtain ⟨-, rfl⟩ := ha
  exact Step.setParameters i rest instruction params params' hsetter hauth hp
    (hmutate _ _ hent hnew)

theorem setFrozen_step (i p : AccountId) (isFrozen : Bool) (rest : List AccountId)
    (instruction : Instruction)
    (hsetter : instruction.setsParameters = true)
    (h : setFrozen (view w authority i) (view w authority p) self isFrozen = .ok (diffs, calls))
    (ha : applyDiffs self w diffs = .ok w') :
    Step self w authority (i :: p :: rest) instruction w' calls := by
  simp only [setFrozen, bind_eq_ok, ensure_eq_ok, exists_const, pure_eq_ok,
    decodeProtocolParameters_eq_ok, Prod.mk.injEq] at h
  simp only [view_account, view_isAuthorized, view_accountId] at h
  obtain ⟨hauth, params, ⟨-, rfl, hp⟩, hent, rfl, rfl⟩ := h
  simp only [applyDiffs_unchanged, applyDiffs_new, view_accountId, applyDiffs_nil,
    Except.ok.injEq] at ha
  obtain ⟨-, rfl⟩ := ha
  exact Step.setParameters i rest instruction params _ hsetter hauth hp (.frozen isFrozen hent)

theorem openPosition_step (o x v u c p k : AccountId) (nonce : U64) (amount : U128)
    (h : openPosition (view w authority o) (view w authority x) (view w authority v)
      (view w authority u) (view w authority c) (view w authority p) (view w authority k) self
      nonce amount = .ok (diffs, calls))
    (ha : applyDiffs self w diffs = .ok w') :
    Step self w authority [o, x, v, u, c, p, k] (.openPosition nonce amount) w' calls := by
  simp only [openPosition, bind_eq_ok, ensure_eq_ok, exists_const, pure_eq_ok, expect_eq_ok,
    tryFrom_holding, decodeProtocolParameters_eq_ok, verifyPositionAndGetSeed_eq_ok,
    verifyPositionVaultAndGetSeed_eq_ok, readClock_eq_ok, Prod.mk.injEq] at h
  simp only [view_account, view_isAuthorized, view_accountId] at h
  obtain ⟨hauth, huser, hx, hv, params, ⟨-, rfl, hp⟩, hfrozen, hc, now, ⟨rfl, hclock⟩, holding,
    hholding, hsame, hprogram, _, ⟨rfl, -⟩, _, ⟨rfl, rfl⟩, rfl, rfl⟩ := h
  simp only [applyDiffs_unchanged, applyDiffs_new, view_accountId, applyDiffs_nil,
    Except.ok.injEq] at ha
  obtain ⟨-, rfl⟩ := ha
  exact Step.openPosition o u c nonce amount params now holding hauth huser hx hv hp hfrozen hc
    hclock hholding hsame hprogram

theorem fungibleBalance_eq_ok (holding : Token.TokenHolding AccountId) (balance : U128) :
    fungibleBalance holding = .ok balance ↔ holding = .fungible holding.definitionId balance := by
  cases holding with
  | fungible d b =>
    simp [fungibleBalance, pure_eq_ok, Token.TokenHolding.definitionId]
  | nftMaster d b => simp [fungibleBalance]
  | nftPrintedCopy d b => simp [fungibleBalance]

theorem depositCollateral_step (o x v u p : AccountId) (amount : U128)
    (h : depositCollateral (view w authority o) (view w authority x) (view w authority v)
      (view w authority u) (view w authority p) self amount = .ok (diffs, calls))
    (ha : applyDiffs self w diffs = .ok w') :
    Step self w authority [o, x, v, u, p] (.depositCollateral amount) w' calls := by
  simp only [depositCollateral, bind_eq_ok, ensure_eq_ok, exists_const, pure_eq_ok, expect_eq_ok,
    tryFrom_holding, decodePosition_eq_ok, decodeProtocolParameters_eq_ok,
    fungibleBalance_eq_ok, checkedAdd_eq_some, Prod.mk.injEq] at h
  simp only [view_account, view_isAuthorized, view_accountId] at h
  obtain ⟨hauth, huser, data, ⟨-, hx, hder, hown⟩, rfl, params, ⟨-, rfl, hp⟩, -, vault, hvault, hsame,
    balance, hbalance, -, _, -, -, new, hnew, rfl, rfl⟩ := h
  simp only [applyDiffs_unchanged, applyDiffs_new, view_accountId, applyDiffs_nil,
    Except.ok.injEq] at ha
  obtain ⟨-, rfl⟩ := ha
  rw [hbalance] at hvault
  exact Step.depositCollateral o x u amount data params vault.definitionId balance new huser
    ⟨hauth, hx, hder, hown⟩ hp hsame hvault hnew

theorem closePosition_step (o x v p : AccountId)
    (h : closePosition (view w authority o) (view w authority x) (view w authority v)
      (view w authority p) self = .ok (diffs, calls))
    (ha : applyDiffs self w diffs = .ok w') :
    Step self w authority [o, x, v, p] .closePosition w' calls := by
  simp only [closePosition, bind_eq_ok, ensure_eq_ok, exists_const, pure_eq_ok, expect_eq_ok,
    tryFrom_holding, fungibleBalance_eq_ok, decodePosition_eq_ok, decodeProtocolParameters_eq_ok,
    Prod.mk.injEq] at h
  simp only [view_account, view_isAuthorized, view_accountId] at h
  obtain ⟨hauth, data, ⟨-, hx, hder, hown⟩, params, ⟨-, rfl, -⟩, hdebt, hcol, rfl, vault, hvault,
    balance, hbalance, hdrained, rfl, rfl⟩ := h
  simp only [applyDiffs_unchanged, applyDiffs_new, view_accountId, applyDiffs_nil,
    Except.ok.injEq] at ha
  obtain ⟨-, rfl⟩ := ha
  rw [hbalance] at hvault
  exact Step.closePosition o x vault.definitionId data balance ⟨hauth, hx, hder, hown⟩ hdebt hcol
    hvault hdrained

theorem generateDebt_step (o x d u m a r p c : AccountId) (amount : U128)
    (h : generateDebt (view w authority o) (view w authority x) (view w authority d)
      (view w authority u) (view w authority m) (view w authority a) (view w authority r)
      (view w authority p) (view w authority c) self amount = .ok (diffs, calls))
    (ha : applyDiffs self w diffs = .ok w') :
    Step self w authority [o, x, d, u, m, a, r, p, c] (.generateDebt amount) w' calls := by
  simp only [generateDebt, bind_eq_ok, ensure_eq_ok, exists_const, pure_eq_ok, expect_eq_ok,
    tryFrom_holding, decodePosition_eq_ok, decodeProtocolParameters_eq_ok,
    decodeStabilityFeeAccumulator_eq_ok, decodeRedemptionPriceState_eq_ok, readClock_eq_ok,
    surplusMintCall_eq_ok, checkedAdd_eq_some, Prod.mk.injEq] at h
  simp only [view_account, view_isAuthorized, view_accountId] at h
  obtain ⟨hauth, data, ⟨-, hx, hder, hown⟩, params, ⟨-, rfl, hp⟩, hfrozen, accumulator,
    ⟨-, rfl, hacc⟩, redemption, ⟨-, rfl, hr⟩, now, ⟨rfl, hclock⟩, hd, -, -, -, _, -, -, accrual,
    haccrue, call, ⟨-, -, rfl, -, hm, hcalls⟩, delta, hdelta, debt, hdebt, total, htotal, hprice,
    u, hcol, rfl, rfl⟩ := h
  simp only [applyDiffs_unchanged, applyDiffs_new, view_accountId, applyDiffs_nil,
    Except.ok.injEq] at ha
  obtain ⟨-, -, rfl⟩ := ha
  rw [hcalls]
  exact Step.generateDebt o x d _ amount data params accumulator redemption now accrual delta debt
    total ⟨hauth, hx, hder, hown⟩ ⟨hp, hacc, hclock, haccrue, hd, hm⟩ hfrozen hr hdelta hdebt htotal
    hprice hcol

theorem repayDebt_step (o x d u m a p c : AccountId) (amount : U128)
    (h : repayDebt (view w authority o) (view w authority x) (view w authority d)
      (view w authority u) (view w authority m) (view w authority a) (view w authority p)
      (view w authority c) self amount = .ok (diffs, calls))
    (ha : applyDiffs self w diffs = .ok w') :
    Step self w authority [o, x, d, u, m, a, p, c] (.repayDebt amount) w' calls := by
  simp only [repayDebt, bind_eq_ok, ensure_eq_ok, exists_const, pure_eq_ok, expect_eq_ok,
    tryFrom_holding, decodePosition_eq_ok, decodeProtocolParameters_eq_ok,
    decodeStabilityFeeAccumulator_eq_ok, readClock_eq_ok, surplusMintCall_eq_ok,
    checkedSub_eq_some, Prod.mk.injEq] at h
  simp only [view_account, view_isAuthorized, view_accountId] at h
  obtain ⟨hauth, data, ⟨-, hx, hder, hown⟩, huser, params, ⟨-, rfl, hp⟩, hd, -, -, hprogram, _, -, -,
    accumulator, ⟨-, rfl, hacc⟩, now, ⟨rfl, hclock⟩, accrual, haccrue, call,
    ⟨-, -, rfl, -, hm, hcalls⟩, delta, hdelta, debt, hdebt, total, htotal, rfl, rfl⟩ := h
  simp only [applyDiffs_unchanged, applyDiffs_new, view_accountId, applyDiffs_nil,
    Except.ok.injEq] at ha
  obtain ⟨-, -, rfl⟩ := ha
  rw [hcalls, hprogram]
  exact Step.repayDebt o x d u amount data params accumulator now accrual delta debt total
    ⟨hauth, hx, hder, hown⟩ huser ⟨hp, hacc, hclock, haccrue, hd, hm⟩ hprogram hdelta hdebt htotal

theorem withdrawCollateral_step (o x v u a r p c : AccountId) (amount : U128)
    (h : withdrawCollateral (view w authority o) (view w authority x) (view w authority v)
      (view w authority u) (view w authority a) (view w authority r) (view w authority p)
      (view w authority c) self amount = .ok (diffs, calls))
    (ha : applyDiffs self w diffs = .ok w') :
    Step self w authority [o, x, v, u, a, r, p, c] (.withdrawCollateral amount) w' calls := by
  simp only [withdrawCollateral, bind_eq_ok, ensure_eq_ok, exists_const, pure_eq_ok, expect_eq_ok,
    tryFrom_holding, decodePosition_eq_ok, decodeProtocolParameters_eq_ok,
    decodeStabilityFeeAccumulator_eq_ok, decodeRedemptionPriceState_eq_ok, readClock_eq_ok,
    verifyPositionVaultAndGetSeed_eq_ok, checkedSub_eq_some, Prod.mk.injEq] at h
  simp only [view_account, view_isAuthorized, view_accountId] at h
  obtain ⟨params, ⟨-, rfl, hp⟩, hfrozen, accumulator, ⟨-, rfl, hacc⟩, redemption, ⟨-, rfl, hr⟩, now,
    ⟨rfl, hclock⟩, hauth, data, ⟨-, hx, hder, hown⟩, _, ⟨hv, rfl⟩, rfl, vault, hvault, hvtoken, -, -,
    holding, hholding, htoken, new, hnew, u, hcol, rfl, rfl⟩ := h
  simp only [applyDiffs_unchanged, applyDiffs_new, view_accountId, applyDiffs_nil,
    Except.ok.injEq] at ha
  obtain ⟨-, rfl⟩ := ha
  exact Step.withdrawCollateral o x _ amount data params accumulator redemption now new vault
    holding ⟨hauth, hx, hder, hown⟩ hp hfrozen hacc hr hclock hv hvault hvtoken hholding htoken hnew
    hcol

theorem initializeProgram_step (i p a r d m k o c : AccountId) (params : InitializeProgramParams)
    (h : initializeProgram (view w authority i) (view w authority p) (view w authority a)
      (view w authority r) (view w authority d) (view w authority m) (view w authority k)
      (view w authority o) (view w authority c) self params = .ok (diffs, calls))
    (ha : applyDiffs self w diffs = .ok w') :
    Step self w authority [i, p, a, r, d, m, k, o, c] (.initializeProgram params) w' calls := by
  simp only [initializeProgram, bind_eq_ok, ensure_eq_ok, exists_const, pure_eq_ok, expect_eq_ok,
    tryFrom_definition, readClock_eq_ok, Prod.mk.injEq] at h
  simp only [view_account, view_isAuthorized, view_accountId] at h
  obtain ⟨hauth, hp, hacc, hr, hd, hm, rfl, rfl, rfl, rfl, rfl, now, ⟨rfl, hclock⟩, -, collateral,
    hcollateral, hfungible, -, -, u, hbands, rfl, rfl⟩ := h
  simp only [applyDiffs_unchanged, applyDiffs_new, view_accountId, applyDiffs_nil,
    Except.ok.injEq] at ha
  obtain ⟨-, -, -, rfl⟩ := ha
  exact Step.initializeProgram i k o params now collateral hauth hp hacc hr hd hm hclock
    hcollateral hfungible hbands

theorem admin_step (i p : AccountId)
    (mutate : ProtocolParameters → Outcome ProtocolParameters)
    (hmutate : ∀ params params', i = params.adminAccountId → mutate params = .ok params' →
      ParametersUpdate params i params')
    (instruction : Instruction)
    (hsetter : instruction.setsParameters = true)
    (h : updateParameters (view w authority i) (view w authority p) self mutate
      = .ok (diffs, calls))
    (ha : applyDiffs self w diffs = .ok w') :
    Step self w authority [i, p] instruction w' calls :=
  updateParameters_step self w w' authority diffs calls i p mutate hmutate [] instruction hsetter []
    (fun _ => rfl) h (by rwa [List.append_nil])

theorem setMarketPriceOracle_step (i p o : AccountId)
    (h : setMarketPriceOracle (view w authority i) (view w authority p) (view w authority o) self
      = .ok (diffs, calls))
    (ha : applyDiffs self w diffs = .ok w') :
    Step self w authority [i, p, o] .setMarketPriceOracle w' calls := by
  simp only [setMarketPriceOracle, bind_eq_ok, Prod.exists, pure_eq_ok, Prod.mk.injEq] at h
  obtain ⟨diffs', calls', h, rfl, rfl⟩ := h
  refine updateParameters_step self w w' authority diffs' calls' i p _ ?_ [o] _ rfl
    [.unchanged (view w authority o)] (fun _ => rfl) h ha
  intro params params' hent hnew
  simp only [bind_eq_ok, pure_eq_ok] at hnew
  obtain ⟨-, -, rfl⟩ := hnew
  exact .oracle _ hent

theorem setMinimumCollateralizationRatio_step (i p : AccountId) (newRatio : U128)
    (h : setMinimumCollateralizationRatio (view w authority i) (view w authority p) self newRatio
      = .ok (diffs, calls))
    (ha : applyDiffs self w diffs = .ok w') :
    Step self w authority [i, p] (.setMinimumCollateralizationRatio newRatio) w' calls := by
  refine admin_step self w w' authority diffs calls i p _ ?_ _ rfl h ha
  intro params params' hent hnew
  simp only [bind_eq_ok, pure_eq_ok] at hnew
  obtain ⟨u, hband, rfl⟩ := hnew
  exact .ratio newRatio _ hent hband

theorem setControllerGains_step (i p : AccountId) (proportional integral : I128)
    (h : setControllerGains (view w authority i) (view w authority p) self proportional integral
      = .ok (diffs, calls))
    (ha : applyDiffs self w diffs = .ok w') :
    Step self w authority [i, p] (.setControllerGains proportional integral) w' calls := by
  refine admin_step self w w' authority diffs calls i p _ ?_ _ rfl h ha
  intro params params' hent hnew
  simp only [bind_eq_ok, pure_eq_ok] at hnew
  obtain ⟨u, hband, rfl⟩ := hnew
  exact .gains proportional integral hent hband

theorem setTimingParameters_step (i p : AccountId) (minimum maximum : U64)
    (h : setTimingParameters (view w authority i) (view w authority p) self minimum maximum
      = .ok (diffs, calls))
    (ha : applyDiffs self w diffs = .ok w') :
    Step self w authority [i, p] (.setTimingParameters minimum maximum) w' calls := by
  refine admin_step self w w' authority diffs calls i p _ ?_ _ rfl h ha
  intro params params' hent hnew
  simp only [bind_eq_ok, pure_eq_ok] at hnew
  obtain ⟨u, hmin, v, hmax, rfl⟩ := hnew
  exact .timing minimum maximum _ _ hent hmin hmax

theorem setAdmin_step (i p new : AccountId)
    (h : setAdmin (view w authority i) (view w authority p) self new = .ok (diffs, calls))
    (ha : applyDiffs self w diffs = .ok w') :
    Step self w authority [i, p] (.setAdmin new) w' calls := by
  refine admin_step self w w' authority diffs calls i p _ ?_ _ rfl h ha
  intro params params' hent hnew
  rw [pure_eq_ok] at hnew
  exact hnew ▸ .admin new hent

theorem setFreezeAuthority_step (i p new : AccountId)
    (h : setFreezeAuthority (view w authority i) (view w authority p) self new = .ok (diffs, calls))
    (ha : applyDiffs self w diffs = .ok w') :
    Step self w authority [i, p] (.setFreezeAuthority new) w' calls := by
  refine admin_step self w w' authority diffs calls i p _ ?_ _ rfl h ha
  intro params params' hent hnew
  rw [pure_eq_ok] at hnew
  exact hnew ▸ .freezeAuthority new hent

/-- Every successful execution of the stablecoin program is one of the listed steps. -/
theorem step_of_main (ids : List AccountId) (instruction : Instruction)
    (h : main self (ids.map (view w authority)) instruction = .ok (diffs, calls))
    (ha : applyDiffs self w diffs = .ok w') :
    Step self w authority ids instruction w' calls := by
  rcases ids with _ | ⟨i, _ | ⟨j, _ | ⟨k, _ | ⟨l, _ | ⟨m, _ | ⟨n, _ | ⟨o, _ | ⟨p, _ | ⟨q, _ |
    ⟨r, ids⟩⟩⟩⟩⟩⟩⟩⟩⟩⟩
  · cases instruction <;> exact absurd h (error_ne_ok _ _)
  · cases instruction <;> exact absurd h (error_ne_ok _ _)
  · cases instruction with
    | setMinimumCollateralizationRatio newRatio =>
      exact setMinimumCollateralizationRatio_step self w w' authority diffs calls i j newRatio h ha
    | setControllerGains proportional integral =>
      exact setControllerGains_step self w w' authority diffs calls i j proportional integral h ha
    | setTimingParameters minimum maximum =>
      exact setTimingParameters_step self w w' authority diffs calls i j minimum maximum h ha
    | setAdmin new => exact setAdmin_step self w w' authority diffs calls i j new h ha
    | setFreezeAuthority new =>
      exact setFreezeAuthority_step self w w' authority diffs calls i j new h ha
    | freeze => exact setFrozen_step self w w' authority diffs calls i j true [] _ rfl h ha
    | unfreeze => exact setFrozen_step self w w' authority diffs calls i j false [] _ rfl h ha
    | _ => exact absurd h (error_ne_ok _ _)
  · cases instruction with
    | setMarketPriceOracle =>
      exact setMarketPriceOracle_step self w w' authority diffs calls i j k h ha
    | _ => exact absurd h (error_ne_ok _ _)
  · cases instruction with
    | closePosition => exact closePosition_step self w w' authority diffs calls i j k l h ha
    | resetRedemptionRateController =>
      exact resetRedemptionRateController_step self w w' authority diffs calls i j k l h ha
    | _ => exact absurd h (error_ne_ok _ _)
  · cases instruction with
    | updateRedemptionRate =>
      exact updateRedemptionRate_step self w w' authority diffs calls i j k l m h ha
    | depositCollateral amount =>
      exact depositCollateral_step self w w' authority diffs calls i j k l m amount h ha
    | _ => exact absurd h (error_ne_ok _ _)
  · cases instruction with
    | accrueStabilityFee =>
      exact accrueStabilityFee_step self w w' authority diffs calls i j k l m n h ha
    | setStabilityFeePerMillisecond newRate =>
      exact setStabilityFeePerMillisecond_step self w w' authority diffs calls i j k l m n newRate
        h ha
    | _ => exact absurd h (error_ne_ok _ _)
  · cases instruction with
    | openPosition nonce amount =>
      exact openPosition_step self w w' authority diffs calls i j k l m n o nonce amount h ha
    | _ => exact absurd h (error_ne_ok _ _)
  · cases instruction with
    | refreshGlobals =>
      exact refreshGlobals_step self w w' authority diffs calls i j k l m n o p h ha
    | repayDebt amount =>
      exact repayDebt_step self w w' authority diffs calls i j k l m n o p amount h ha
    | withdrawCollateral amount =>
      exact withdrawCollateral_step self w w' authority diffs calls i j k l m n o p amount h ha
    | _ => exact absurd h (error_ne_ok _ _)
  · cases instruction with
    | initializeProgram params =>
      exact initializeProgram_step self w w' authority diffs calls i j k l m n o p q params h ha
    | generateDebt amount =>
      exact generateDebt_step self w w' authority diffs calls i j k l m n o p q amount h ha
    | _ => exact absurd h (error_ne_ok _ _)
  · cases instruction <;> exact absurd h (error_ne_ok _ _)

end

end LezPrograms.Stablecoin
