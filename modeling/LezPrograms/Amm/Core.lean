import LezPrograms.Checked
import LezPrograms.Lee.Identifier

/-! # AMM accounts, instructions and pricing

Pricing works on plain amounts: reserves, the swap fee and the protocol's share
of it, in basis points. -/

set_option autoImplicit false

namespace LezPrograms.Amm
open LezPrograms.Checked LezPrograms.Checked.Unsigned LezPrograms.Lee

structure PoolDefinition where
  definitionTokenAId : AccountId
  definitionTokenBId : AccountId
  vaultAId : AccountId
  vaultBId : AccountId
  liquidityPoolId : AccountId
  liquidityPoolSupply : U128
  reserveA : U128
  reserveB : U128
deriving DecidableEq

structure AmmConfig where
  tokenProgramId : AccountId
  twapOracleProgramId : AccountId
  authority : AccountId
  swapFeeBps : U128
  protocolFeeBps : U128
deriving DecidableEq

inductive Instruction where
  | initializeConfig (nonce : U256) (tokenProgramId twapOracleProgramId authority : AccountId)
      (swapFeeBps protocolFeeBps : U128)
  | updateConfig (newAuthority : AccountId)
  | newDefinition (tokenAAmount tokenBAmount : U128) (deadline : U64)
  | addLiquidity (minAmountLiquidity maxAmountToAddTokenA maxAmountToAddTokenB : U128)
      (deadline : U64)
  | removeLiquidity (removeLiquidityAmount minAmountToRemoveTokenA minAmountToRemoveTokenB : U128)
      (deadline : U64)
  | swapExactInput (swapAmountIn minAmountOut : U128) (deadline : U64)
  | swapExactOutput (exactAmountOut maxAmountIn : U128) (deadline : U64)
  | syncReserves
  | withdrawProtocolFees (amount : U128)
deriving DecidableEq

def minimumLiquidity : U128 := ⟨1000, by norm_num⟩

def feeBpsDenominator : U128 := ⟨10000, by norm_num⟩

@[simp] theorem minimumLiquidity_val : minimumLiquidity.val = 1000 := rfl
@[simp] theorem feeBpsDenominator_val : feeBpsDenominator.val = 10000 := rfl

def assertValidSwapFeeBps (swapFeeBps : U128) : Outcome Unit :=
  ensure (swapFeeBps.val < feeBpsDenominator.val)
    "Swap fee must be below FEE_BPS_DENOMINATOR (100%) basis points"

def assertValidProtocolFeeBps (protocolFeeBps : U128) : Outcome Unit :=
  ensure (protocolFeeBps.val ≤ feeBpsDenominator.val)
    "Protocol fee must be at most FEE_BPS_DENOMINATOR (100% of the swap fee) basis points"

def mulDivFloor : U128 → U128 → U128 → Outcome U128 :=
  floorMulDiv ⟨"mul_div_floor: divisor must be non-zero", "u128 * u128 always fits in U256",
    "mul_div_floor: divisor is non-zero after the assertion above",
    "mul_div_floor result exceeds u128"⟩

def mulDivCeil (a b c : U128) : Outcome U128 := do
  ensure (c.val ≠ 0) "mul_div_ceil: divisor must be non-zero"
  let product ← expect (checkedMul (widen a u128_le_u256 : U256) (widen b u128_le_u256))
    "u128 * u128 always fits in U256"
  let result := (product.val + (c.val - 1)) / c.val
  expect (Unsigned.tryFrom 128 result) "mul_div_ceil result exceeds u128"

def protocolFeeAmount (swapFee protocolFeeBps : U128) : Outcome U128 :=
  mulDivFloor swapFee protocolFeeBps feeBpsDenominator

def spotPriceQ6464 (reserveBase reserveQuote : U128) : Outcome U128 := do
  ensure (reserveBase.val ≠ 0) "spot_price_q64_64: reserve_base must be non-zero"
  let numerator ← expect (Unsigned.tryFrom 256 (reserveQuote.val * 2 ^ 64))
    "reserve_quote < 2^128, so reserve_quote << 64 fits in U256"
  let price ← expect (checkedDiv numerator (widen reserveBase u128_le_u256))
    "reserve_base is non-zero after the assertion above"
  pure ((Unsigned.tryFrom 128 price.val).getD (maxValue 128))

def isqrtProduct (a b : U128) : Outcome U128 := do
  let product ← expect (checkedMul (widen a u128_le_u256 : U256) (widen b u128_le_u256))
    "u128 * u128 always fits in U256"
  expect (Unsigned.tryFrom 128 product.val.sqrt) "isqrt_product result exceeds u128"

def swapExactInAmounts (amountIn reserveIn reserveOut feeBps : U128) : Outcome (U128 × U128) := do
  let feeMultiplier := feeBpsDenominator.saturatingSub feeBps
  let effectiveAmountIn ← mulDivFloor amountIn feeMultiplier feeBpsDenominator
  match reserveIn.checkedAdd effectiveAmountIn with
  | none => pure (effectiveAmountIn, zero 128)
  | some reservePlusEffective =>
    if reservePlusEffective.val = 0 then pure (effectiveAmountIn, zero 128)
    else do
      let amountOut ← mulDivFloor reserveOut effectiveAmountIn reservePlusEffective
      pure (effectiveAmountIn, amountOut)

/-- `none` when the trade is unfulfillable. -/
def swapExactOutAmounts (amountOut reserveIn reserveOut feeBps : U128) :
    Outcome (Option (U128 × U128)) :=
  match reserveOut.checkedSub amountOut with
  | none => pure none
  | some denominator =>
    if denominator.val = 0 then pure none
    else if reserveIn.val = 0 then pure none
    else do
      let effectiveInMin ← mulDivCeil reserveIn amountOut denominator
      match feeBpsDenominator.checkedSub feeBps with
      | none => pure none
      | some feeMultiplier =>
        if feeMultiplier.val = 0 then pure none
        else do
          let requiredIn ← mulDivCeil effectiveInMin feeBpsDenominator feeMultiplier
          pure (some (effectiveInMin, requiredIn))

def computeConfigPda (ammProgramId owner : AccountId) (nonce : U256) : AccountId :=
  .forPublicPda ammProgramId (.account owner (.word nonce.val (.tag .config)))

/-- The seed lists the larger token first. -/
def computePoolPdaSeed (configId definitionTokenAId definitionTokenBId : AccountId) :
    Outcome PdaSeed :=
  if definitionTokenAId.code < definitionTokenBId.code then
    pure (.account configId (.account definitionTokenBId (.account definitionTokenAId .nil)))
  else if definitionTokenBId.code < definitionTokenAId.code then
    pure (.account configId (.account definitionTokenAId (.account definitionTokenBId .nil)))
  else .error "Definitions match"

def computePoolPda (ammProgramId configId definitionTokenAId definitionTokenBId : AccountId) :
    Outcome AccountId := do
  let seed ← computePoolPdaSeed configId definitionTokenAId definitionTokenBId
  pure (.forPublicPda ammProgramId seed)

def computeVaultPdaSeed (poolId definitionTokenId : AccountId) : PdaSeed :=
  .account poolId (.account definitionTokenId .nil)

def computeVaultPda (ammProgramId poolId definitionTokenId : AccountId) : AccountId :=
  .forPublicPda ammProgramId (computeVaultPdaSeed poolId definitionTokenId)

def computeProtocolFeePdaSeed (configId definitionTokenId : AccountId) : PdaSeed :=
  .account configId (.account definitionTokenId (.tag .protocolFeeHolding))

def computeProtocolFeePda (ammProgramId configId definitionTokenId : AccountId) : AccountId :=
  .forPublicPda ammProgramId (computeProtocolFeePdaSeed configId definitionTokenId)

def computeLiquidityTokenPdaSeed (poolId : AccountId) : PdaSeed :=
  .account poolId (.tag .liquidityToken)

def computeLiquidityTokenPda (ammProgramId poolId : AccountId) : AccountId :=
  .forPublicPda ammProgramId (computeLiquidityTokenPdaSeed poolId)

def computeLpLockHoldingPdaSeed (poolId : AccountId) : PdaSeed :=
  .account poolId (.tag .lpLockHolding)

def computeLpLockHoldingPda (ammProgramId poolId : AccountId) : AccountId :=
  .forPublicPda ammProgramId (computeLpLockHoldingPdaSeed poolId)

theorem mulDivFloor_eq_ok (a b c r : U128) :
    mulDivFloor a b c = .ok r ↔ c.val ≠ 0 ∧ r.val = a.val * b.val / c.val :=
  floorMulDiv_eq_ok _ a b c r

theorem mulDivCeil_eq_ok (a b c r : U128) :
    mulDivCeil a b c = .ok r ↔ c.val ≠ 0 ∧ r.val = (a.val * b.val + (c.val - 1)) / c.val := by
  simp only [mulDivCeil, bind_eq_ok, ensure_eq_ok, exists_const, expect_eq_ok,
    checkedMul_eq_some, Unsigned.tryFrom_eq_some, widen_val]
  constructor
  · rintro ⟨hc, product, hp, hr⟩
    exact ⟨hc, by rw [hr, hp]⟩
  · rintro ⟨hc, hr⟩
    exact ⟨hc, ⟨_, product_lt a b⟩, rfl, hr⟩

end LezPrograms.Amm
