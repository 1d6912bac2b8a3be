import LezPrograms.StablecoinClient.Requests

/-! # Plans for positions

Borrowing, repaying and withdrawing. Each plan makes the checks of the program on
the accounts that were read and answers with the accounts of the instruction. -/

set_option autoImplicit false

namespace LezPrograms.StablecoinClient
open LezPrograms.Checked LezPrograms.Checked.Unsigned LezPrograms.Lee LezPrograms.Stablecoin
open LezPrograms.Stablecoin.Math LezPrograms.Stablecoin.Quotes
open LezPrograms.AmmClient (AccountRead)

structure GenerateDebtPlanRequest where
  stablecoinProgramId : Option AccountId
  ownerId : Option AccountId
  positionNonce : String
  amount : Value
  userStablecoinHoldingId : Option AccountId
  position : AccountRead
  stablecoinDefinition : AccountRead
  userStablecoinHolding : AccountRead
  stabilityFeeAccumulator : AccountRead
  redemptionPriceState : AccountRead
  protocolParameters : AccountRead
  clock : AccountRead

def checkedDebtDelta (amount accumulator : U128) : Option U128 := do
  let product := wrappingMul (widen amount u128_le_u256 : U256) (widen fixedPointOne u128_le_u256)
  let divisor : U256 := widen accumulator u128_le_u256
  let quotient ← checkedDiv product divisor
  let rounded := if product.val % divisor.val = 0 then quotient else wrappingAdd quotient 1
  Unsigned.tryFrom 128 rounded.val

def mintableSupply (data : Data) (definitionId : AccountId) : Outcome U128 := do
  let definition : Token.TokenDefinition AccountId ← expect (tryFrom data)
    "invalid_stablecoin_definition"
  match definition with
  | .fungible _ totalSupply _ authority => do
    ensure (authority = some definitionId) "invalid_stablecoin_mint_authority"
    pure totalSupply
  | .nonFungible .. => .error "invalid_stablecoin_definition"

def generateDebtPlan (request : GenerateDebtPlanRequest) : Outcome Plan := do
  let programId ← parseStablecoinProgramId request.stablecoinProgramId
  let owner ← parseAccountId request.ownerId
  let nonce ← parseDecimalU64 request.positionNonce
  let amount ← parseU128 request.amount
  let destinationId ← parseAccountId request.userStablecoinHoldingId
  let (positionId, position) ← validatedPosition programId owner nonce request.position
  let (parametersId, parameters) ← validatedProtocolParameters programId request.protocolParameters
  ensure (parameters.isFrozen = false) "protocol_frozen"
  let (accumulatorId, accumulator) ← validatedStabilityFeeAccumulator programId
    request.stabilityFeeAccumulator
  let (redemptionId, redemption) ← validatedRedemptionPriceState programId
    request.redemptionPriceState
  let now ← clockTimestamp request.clock
  let (definitionId, definitionAccount) ← requiredAccount request.stablecoinDefinition
  ensure (definitionId = parameters.stablecoinDefinitionId ∧
    definitionId = computeStablecoinDefinitionPda programId) "stablecoin_definition_mismatch"
  let totalSupply ← mintableSupply definitionAccount.data definitionId
  ensure (destinationId ≠ owner ∧ destinationId ≠ definitionId) "invalid_user_stablecoin_holding"
  let (readDestination, destinationAccount) ← requiredAccount request.userStablecoinHolding
  ensure (readDestination = destinationId) "invalid_user_stablecoin_holding"
  ensure (destinationAccount.programOwner = definitionAccount.programOwner) "token_program_mismatch"
  let balance ← holdingBalance destinationAccount.data definitionId
    "stablecoin_definition_mismatch" "invalid_user_stablecoin_holding"
  let _newSupply ← expect (totalSupply.checkedAdd amount) "stablecoin_supply_overflow"
  let _newBalance ← expect (balance.checkedAdd amount) "stablecoin_balance_overflow"
  let currentAccumulator ← expect (checkedAccumulator accumulator.accumulatedRateAtLastAccrual
    parameters.stabilityFeePerMillisecond accumulator.lastAccruedAt now)
    "debt_pricing_arithmetic_error"
  let debtDelta ← expect (checkedDebtDelta amount currentAccumulator)
    "debt_pricing_arithmetic_error"
  let newDebt ← expect (position.normalizedDebtAmount.checkedAdd debtDelta)
    "normalized_debt_overflow"
  let price := computeCurrentRedemptionPriceWide redemption.redemptionPriceAtLastUpdate
    redemption.redemptionRatePerMillisecond redemption.lastUpdatedAt now
  ensure (price.val ≠ 0) "redemption_price_zero"
  ensure (collateralizationValues position.collateralAmount newDebt
    (widen currentAccumulator u128_le_u512) price
    parameters.minimumCollateralizationRatio).isCollateralized "position_undercollateralized"
  pure ⟨programId, [owner, positionId, definitionId, destinationId,
    computeStablecoinMasterHoldingPda programId, accumulatorId, redemptionId, parametersId,
    clock01ProgramAccountId], [true, false, false, false, false, false, false, false, false],
    .generateDebt amount⟩

structure RepayDebtPlanRequest where
  stablecoinProgramId : Option AccountId
  ownerId : Option AccountId
  positionNonce : String
  amount : Value
  userStablecoinHoldingId : Option AccountId
  position : AccountRead
  stablecoinDefinition : AccountRead
  userStablecoinHolding : AccountRead
  stabilityFeeAccumulator : AccountRead
  protocolParameters : AccountRead
  clock : AccountRead

def ensureFungible (data : Data) : Outcome Unit := do
  let definition : Token.TokenDefinition AccountId ← expect (tryFrom data)
    "invalid_stablecoin_definition"
  match definition with
  | .fungible .. => pure ()
  | .nonFungible .. => .error "invalid_stablecoin_definition"

def repaidDebt (amount : U128) (parameters : ProtocolParameters)
    (accumulator : StabilityFeeAccumulator) (now : U64) : Outcome U128 := do
  let currentAccumulator ← computeCurrentAccumulatedRate accumulator.accumulatedRateAtLastAccrual
    parameters.stabilityFeePerMillisecond accumulator.lastAccruedAt now
  mulDiv amount fixedPointOne currentAccumulator

def repayDebtPlan (request : RepayDebtPlanRequest) : Outcome Plan := do
  let programId ← parseStablecoinProgramId request.stablecoinProgramId
  let owner ← parseAccountId request.ownerId
  let positionNonce ← parseDecimalU64 request.positionNonce
  let amount ← parseU128 request.amount
  let holdingId ← parseAccountId request.userStablecoinHoldingId
  let (parametersId, parameters) ← validatedProtocolParameters programId request.protocolParameters
  let (positionId, position) ← validatedPosition programId owner positionNonce request.position
  let (definitionId, definitionAccount) ← requiredAccount request.stablecoinDefinition
  ensure (definitionId = parameters.stablecoinDefinitionId) "stablecoin_definition_mismatch"
  ensureFungible definitionAccount.data
  let (readHoldingId, holdingAccount) ← requiredAccount request.userStablecoinHolding
  ensure (readHoldingId = holdingId) "invalid_user_stablecoin_holding"
  ensure (holdingAccount.programOwner = definitionAccount.programOwner) "token_program_mismatch"
  let balance ← holdingBalance holdingAccount.data definitionId
    "stablecoin_definition_mismatch" "invalid_user_stablecoin_holding"
  ensure (amount.val ≤ balance.val) "insufficient_stablecoin_balance"
  let (accumulatorId, accumulator) ← validatedStabilityFeeAccumulator programId
    request.stabilityFeeAccumulator
  let now ← clockTimestamp request.clock
  let debtDelta ← (repaidDebt amount parameters accumulator now).mapError
    fun _ => "repayment_arithmetic_error"
  ensure (debtDelta.val ≤ position.normalizedDebtAmount.val) "repay_amount_exceeds_debt"
  pure ⟨programId, [owner, positionId, definitionId, holdingId,
    computeStablecoinMasterHoldingPda programId, accumulatorId, parametersId,
    clock01ProgramAccountId], [true, false, false, true, false, false, false, false],
    .repayDebt amount⟩

structure WithdrawCollateralPlanRequest where
  stablecoinProgramId : Option AccountId
  ownerId : Option AccountId
  positionNonce : String
  amount : Value
  userCollateralHoldingId : Option AccountId
  position : AccountRead
  vault : AccountRead
  userCollateralHolding : AccountRead
  stabilityFeeAccumulator : AccountRead
  redemptionPriceState : AccountRead
  protocolParameters : AccountRead
  clock : AccountRead

def ensureCollateralized (position : Position) (remaining : U128)
    (accumulator : StabilityFeeAccumulator) (redemption : RedemptionPriceState)
    (parameters : ProtocolParameters) (now : U64) (amount : U128) : Outcome Unit :=
  if amount.val ≠ 0 ∧ position.normalizedDebtAmount.val ≠ 0 then do
    let price := computeCurrentRedemptionPriceWide redemption.redemptionPriceAtLastUpdate
      redemption.redemptionRatePerMillisecond redemption.lastUpdatedAt now
    ensure (price.val ≠ 0) "redemption_price_zero"
    let accumulator := computeCurrentAccumulatedRateWide accumulator.accumulatedRateAtLastAccrual
      parameters.stabilityFeePerMillisecond accumulator.lastAccruedAt now
    ensure (collateralizationValues remaining position.normalizedDebtAmount accumulator price
      parameters.minimumCollateralizationRatio).isCollateralized "position_undercollateralized"
  else pure ()

def withdrawCollateralPlan (request : WithdrawCollateralPlanRequest) : Outcome Plan := do
  let programId ← parseStablecoinProgramId request.stablecoinProgramId
  let owner ← parseAccountId request.ownerId
  let nonce ← parseDecimalU64 request.positionNonce
  let amount ← parseU128 request.amount
  let destinationId ← parseAccountId request.userCollateralHoldingId
  let (parametersId, parameters) ← validatedProtocolParameters programId request.protocolParameters
  ensure (parameters.isFrozen = false) "protocol_frozen"
  let (accumulatorId, accumulator) ← validatedStabilityFeeAccumulator programId
    request.stabilityFeeAccumulator
  let (redemptionId, redemption) ← validatedRedemptionPriceState programId
    request.redemptionPriceState
  let now ← clockTimestamp request.clock
  let (positionId, position) ← validatedPosition programId owner nonce request.position
  let expectedVault := computePositionVaultPda programId positionId
  ensure (position.vaultAccountId = expectedVault) "position_vault_mismatch"
  let (vaultId, vaultAccount) ← requiredAccount request.vault
  ensure (vaultId = expectedVault) "vault_pda_mismatch"
  -- The two aliases that the type of the destination does not exclude.
  ensure (destinationId ≠ vaultId ∧ destinationId ≠ owner) "invalid_user_collateral_holding"
  let vaultBalance ← holdingBalance vaultAccount.data parameters.collateralDefinitionId
    "collateral_definition_mismatch" "invalid_position_vault"
  let (readDestinationId, destinationAccount) ← requiredAccount request.userCollateralHolding
  ensure (readDestinationId = destinationId) "invalid_user_collateral_holding"
  ensure (destinationAccount.programOwner = vaultAccount.programOwner) "token_program_mismatch"
  let destinationBalance ← holdingBalance destinationAccount.data parameters.collateralDefinitionId
    "collateral_definition_mismatch" "invalid_user_collateral_holding"
  let remaining ← expect (position.collateralAmount.checkedSub amount)
    "withdraw_amount_exceeds_collateral"
  ensure (amount.val ≤ vaultBalance.val) "insufficient_vault_balance"
  let _newBalance ← expect (destinationBalance.checkedAdd amount) "collateral_amount_overflow"
  ensureCollateralized position remaining accumulator redemption parameters now amount
  pure ⟨programId, [owner, positionId, vaultId, destinationId, accumulatorId, redemptionId,
    parametersId, clock01ProgramAccountId], [true, false, false, false, false, false, false, false],
    .withdrawCollateral amount⟩

/-- Rounding up after the division gives the least multiple that reaches the product. -/
theorem roundedUp_iff (p c r : ℕ) (hc : c ≠ 0) :
    r = (if p % c = 0 then p / c else p / c + 1) ↔ p ≤ r * c ∧ r * c < p + c := by
  have hdm := Nat.div_add_mod' p c
  have hm := Nat.mod_lt p (Nat.pos_of_ne_zero hc)
  constructor
  · rintro rfl
    split
    · omega
    · rw [Nat.succ_mul]
      omega
  · rintro ⟨hle, hlt⟩
    have hlow : p / c ≤ r := Nat.le_of_mul_le_mul_right (by omega) (Nat.pos_of_ne_zero hc)
    have hhigh : r < p / c + 2 := by
      apply Nat.lt_of_mul_lt_mul_right (a := c)
      rw [Nat.add_mul]
      omega
    obtain rfl | rfl : r = p / c ∨ r = p / c + 1 := by omega
    · rw [if_pos (by omega)]
    · rw [Nat.succ_mul] at hlt
      rw [if_neg (by omega)]

theorem checkedDebtDelta_eq (amount accumulator delta : U128) :
    checkedDebtDelta amount accumulator = some delta ↔
      mulDivCeil amount fixedPointOne accumulator = .ok delta := by
  have hproduct : (wrappingMul (widen amount (by decide) : U256)
      (widen fixedPointOne (by decide))).val = amount.val * fixedPointOne.val :=
    wrappingMul_val _ _ ((le_maxValue_iff 256 _).mpr (product_lt amount fixedPointOne))
  have hrounded : ∀ quotient : U256, accumulator.val ≠ 0 →
      quotient.val = amount.val * fixedPointOne.val / accumulator.val →
      (if amount.val * fixedPointOne.val % accumulator.val = 0 then quotient
        else wrappingAdd quotient 1).val =
      if amount.val * fixedPointOne.val % accumulator.val = 0
        then amount.val * fixedPointOne.val / accumulator.val
        else amount.val * fixedPointOne.val / accumulator.val + 1 := by
    intro quotient hc hq
    split
    · exact hq
    · rename_i hrem
      have hlt : amount.val * fixedPointOne.val / accumulator.val + 1 < 2 ^ 256 := by
        have hle := Nat.div_le_self (amount.val * fixedPointOne.val) accumulator.val
        have hone : (2 : ℕ) ^ 128 * fixedPointOne.val < 2 ^ 256 := by decide +kernel
        have hamount := Nat.mul_le_mul_right fixedPointOne.val amount.isLt.le
        omega
      rw [wrappingAdd_val _ _ ((le_maxValue_iff 256 _).mpr (by rw [hq]; exact hlt)), hq]
      rfl
  simp only [checkedDebtDelta, Option.bind_eq_bind, Option.bind_eq_some_iff, checkedDiv_eq_some,
    Unsigned.tryFrom_eq_some, widen_val, hproduct, mulDivCeil_eq_ok]
  constructor
  · rintro ⟨quotient, ⟨hc, hq⟩, hdelta⟩
    rw [hrounded quotient hc hq] at hdelta
    exact ⟨hc, (roundedUp_iff _ _ _ hc).mp hdelta⟩
  · rintro ⟨hc, hdelta⟩
    have hlt : amount.val * fixedPointOne.val / accumulator.val < 2 ^ 256 :=
      (Nat.div_le_self _ _).trans_lt (product_lt amount fixedPointOne)
    exact ⟨⟨_, hlt⟩, ⟨hc, rfl⟩, ((roundedUp_iff _ _ _ hc).mpr hdelta).trans
      (hrounded ⟨_, hlt⟩ hc rfl).symm⟩

theorem mintableSupply_eq_ok (data : Data) (definitionId : AccountId) (supply : U128) :
    mintableSupply data definitionId = .ok supply ↔ ∃ name metadata,
      data = .tokenDefinition (.fungible name supply metadata (some definitionId)) := by
  simp only [mintableSupply, bind_eq_ok, expect_eq_ok, tryFrom_definition]
  constructor
  · rintro ⟨definition, rfl, h⟩
    cases definition with
    | fungible name totalSupply metadata authority =>
      simp only [bind_eq_ok, ensure_eq_ok, exists_const, pure_eq_ok] at h
      exact ⟨name, metadata, by rw [h.1, h.2]⟩
    | nonFungible => cases h
  · rintro ⟨name, metadata, rfl⟩
    refine ⟨_, rfl, ?_⟩
    simp only [bind_eq_ok, ensure_eq_ok, exists_const, pure_eq_ok, and_self]

theorem ensureFungible_eq_ok (data : Data) (u : Unit) : ensureFungible data = .ok u ↔
    ∃ definition : Token.Definition, data = .tokenDefinition definition ∧ definition.isFungible := by
  simp only [ensureFungible, bind_eq_ok, expect_eq_ok, tryFrom_definition]
  refine exists_congr fun definition => and_congr_right fun _ => ?_
  cases definition with
  | fungible => exact ⟨fun _ => trivial, fun _ => rfl⟩
  | nonFungible => exact ⟨fun h => absurd h (error_ne_ok _ _), fun h => h.elim⟩

/-- The client checks the health after a withdrawal as the program does. -/
theorem ensureCollateralized_eq_ok (position : Position) (remaining : U128)
    (accumulator : StabilityFeeAccumulator) (redemption : RedemptionPriceState)
    (parameters : ProtocolParameters) (now : U64) (amount : U128) (u : Unit) :
    ensureCollateralized position remaining accumulator redemption parameters now amount = .ok u ↔
      assertWithdrawalIsCollateralized { position with collateralAmount := remaining } accumulator
        redemption parameters now amount = .ok () := by
  unfold ensureCollateralized assertWithdrawalIsCollateralized
  split
  · rename_i h
    simp only [bind_eq_ok, ensure_eq_ok, exists_const, assertPositionIsCollateralized, if_neg h.2]
  · exact ⟨fun _ => rfl, fun _ => rfl⟩

end LezPrograms.StablecoinClient
