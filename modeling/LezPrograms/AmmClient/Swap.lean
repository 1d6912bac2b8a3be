import LezPrograms.Amm.Moves
import LezPrograms.AmmClient.Requests

/-! # Quotes for swaps

A quote prices with the same functions as the program and adds what is displayed: the
bound for the price that may slip, and the impact on the price. -/

set_option autoImplicit false

namespace LezPrograms.AmmClient
open LezPrograms.Checked LezPrograms.Checked.Unsigned LezPrograms.Lee LezPrograms.Amm

/-- How far the output falls below the naive valuation of the input, in basis points. -/
def priceImpactBps (amountIn amountOut reserveIn reserveOut : U128) : Outcome U32 :=
  if reserveIn.val = 0 then pure (zero 32)
  else do
    let product ← expect (checkedMul (widen reserveOut u128_le_u256 : U256)
      (widen amountIn u128_le_u256)) "u128 * u128 always fits in U256"
    let spot ← expect (checkedDiv product (widen reserveIn u128_le_u256))
      "reserve_in is non-zero after the guard above"
    if spot.val = 0 then pure (zero 32)
    else do
      let scaled ← expect (checkedMul (widen feeBpsDenominator u128_le_u256 : U256)
        (widen amountOut u128_le_u256)) "FEE_BPS_DENOMINATOR * u128 always fits in U256"
      let kept ← expect (checkedDiv scaled spot) "spot is non-zero after the is_zero check above"
      let kept := ((Unsigned.tryFrom 128 kept.val).getD feeBpsDenominator).minimum feeBpsDenominator
      pure ((Unsigned.tryFrom 32 (feeBpsDenominator.saturatingSub kept).val).getD (maxValue 32))

structure SwapExactInQuoteRequest where
  tokenInId : AccountId
  tokenOutId : AccountId
  amountIn : String
  slippageBps : U32
  config : AccountRead
  poolData : Data

structure SwapExactInQuote where
  expectedOut : U128
  minReceived : U128
  priceImpactBps : U32
deriving DecidableEq

def swapExactInQuote (request : SwapExactInQuoteRequest) : Outcome SwapExactInQuote := do
  ensure (request.tokenInId ≠ request.tokenOutId) "same_token_pair"
  let amountIn ← parseU128 request.amountIn "amountIn"
  ensure (request.slippageBps.val < feeBpsDenominator.val) "invalid_slippage"
  let swapFeeBps ← swapFeeBpsFromConfig request.config
  let pool ← decodePool request.poolData
  let side ← sideOf pool request.tokenInId request.tokenOutId
  let reserveIn := pool.reserve side
  let reserveOut := pool.reserve side.other
  ensure (reserveIn.val ≠ 0 ∧ reserveOut.val ≠ 0) "no_pool"
  let (effectiveIn, expectedOut) ← swapExactInAmounts amountIn reserveIn reserveOut swapFeeBps
  ensure (effectiveIn.val ≠ 0 ∧ expectedOut.val ≠ 0) "amount_too_small"
  let slippageComplement := feeBpsDenominator.saturatingSub (widen request.slippageBps u32_le_u128)
  let minReceived ← mulDivFloor expectedOut slippageComplement feeBpsDenominator
  let impact ← priceImpactBps amountIn expectedOut reserveIn reserveOut
  pure ⟨expectedOut, minReceived, impact⟩

structure SwapExactOutQuoteRequest where
  tokenInId : AccountId
  tokenOutId : AccountId
  amountOut : String
  slippageBps : U32
  config : AccountRead
  poolData : Data

structure SwapExactOutQuote where
  requiredIn : U128
  maxIn : U128
  priceImpactBps : U32
deriving DecidableEq

/-- How far the required input rises above the naive cost of the output, in basis points. -/
def costImpactBps (requiredIn spotIn : U128) : Outcome U32 :=
  if spotIn.val = 0 then pure (zero 32)
  else do
    let impact ← mulDivFloor (requiredIn.saturatingSub spotIn) feeBpsDenominator spotIn
    pure ((Unsigned.tryFrom 32 impact.val).getD (maxValue 32))

def swapExactOutQuote (request : SwapExactOutQuoteRequest) : Outcome SwapExactOutQuote := do
  ensure (request.tokenInId ≠ request.tokenOutId) "same_token_pair"
  let amountOut ← parseU128 request.amountOut "amountOut"
  ensure (amountOut.val ≠ 0) "amount_too_small"
  ensure (request.slippageBps.val < feeBpsDenominator.val) "invalid_slippage"
  let swapFeeBps ← swapFeeBpsFromConfig request.config
  let pool ← decodePool request.poolData
  let side ← sideOf pool request.tokenInId request.tokenOutId
  let reserveIn := pool.reserve side
  let reserveOut := pool.reserve side.other
  ensure (reserveIn.val ≠ 0 ∧ reserveOut.val ≠ 0) "no_pool"
  let priced ← swapExactOutAmounts amountOut reserveIn reserveOut swapFeeBps
  let (_, requiredIn) ← expect priced "output_exceeds_liquidity"
  let slippageCeiling ← expect (feeBpsDenominator.checkedAdd (widen request.slippageBps u32_le_u128))
    "attempt to add with overflow"
  let maxIn ← mulDivCeil requiredIn slippageCeiling feeBpsDenominator
  let spotIn ← mulDivFloor reserveIn amountOut reserveOut
  let impact ← costImpactBps requiredIn spotIn
  pure ⟨requiredIn, maxIn, impact⟩

structure SwapPricing where
  amounts : SwapAmounts
  swapFee : U128
  protocolFee : U128
  netDeposit : U128
deriving DecidableEq

def swapPricing (price : U128 → U128 → U128 → Outcome SwapAmounts) (cfg : AmmConfig)
    (pool : PoolDefinition) (side : Side) : Outcome SwapPricing := do
  let amounts ← price (pool.reserve side) (pool.reserve side.other) cfg.swapFeeBps
  let swapFee ← expect (amounts.amountIn.checkedSub amounts.effectiveAmountIn)
    "effective_amount_in <= amount_in"
  let protocolFee ← protocolFeeAmount swapFee cfg.protocolFeeBps
  let netDeposit ← expect (amounts.amountIn.checkedSub protocolFee)
    "protocol_fee <= swap_fee <= amount_in"
  pure ⟨amounts, swapFee, protocolFee, netDeposit⟩

theorem swapPricing_eq_ok (price : U128 → U128 → U128 → Outcome SwapAmounts) (cfg : AmmConfig)
    (pool : PoolDefinition) (side : Side) (pricing : SwapPricing) :
    swapPricing price cfg pool side = .ok pricing ↔
      price (pool.reserve side) (pool.reserve side.other) cfg.swapFeeBps = .ok pricing.amounts ∧
      pricing.swapFee.val + pricing.amounts.effectiveAmountIn.val = pricing.amounts.amountIn.val ∧
      pricing.protocolFee.val = pricing.swapFee.val * cfg.protocolFeeBps.val / 10000 ∧
      pricing.netDeposit.val + pricing.protocolFee.val = pricing.amounts.amountIn.val := by
  simp only [swapPricing, bind_eq_ok, expect_eq_ok, checkedSub_eq_some, protocolFeeAmount,
    mulDivFloor_eq_ok, feeBpsDenominator_val, pure_eq_ok]
  constructor
  · rintro ⟨amounts, hprice, swapFee, hfee, protocolFee, ⟨-, hshare⟩, net, hnet, rfl⟩
    exact ⟨hprice, hfee, hshare, hnet⟩
  · rintro ⟨hprice, hfee, hshare, hnet⟩
    exact ⟨_, hprice, _, hfee, _, ⟨by decide, hshare⟩, _, hnet, rfl⟩

/-- Between the vaults of a pool, the program settles every swap as it is priced. -/
def SettledAsPriced (cfg : AmmConfig) (pool : PoolDefinition) (side : Side) : Prop :=
  ∀ (context amountName : String) (userIn vaultIn vaultOut userOut feeHolding : InputAccount)
    (amounts : SwapAmounts) (x c tokenIn tokenOut : AccountId) (balanceIn balanceOut : U128)
    (price : U128 → U128 → U128 → Outcome SwapAmounts),
    vaultIn.account.data = .tokenHolding (.fungible tokenIn balanceIn) →
    vaultOut.account.data = .tokenHolding (.fungible tokenOut balanceOut) →
    price (pool.reserve side) (pool.reserve side.other) cfg.swapFeeBps = .ok amounts →
    ∀ settled deposit withdraw,
      settleSwap context amountName userIn vaultIn vaultOut userOut amounts cfg.protocolFeeBps
          feeHolding x c = .ok (settled, deposit, withdraw) ↔
        ∃ pricing, swapPricing price cfg pool side = .ok pricing ∧ pricing.netDeposit = deposit ∧
          pricing.amounts.amountOut = withdraw ∧
          settled = swapCalls userIn.account.programOwner c x userIn.accountId userOut.accountId
            vaultIn.accountId vaultOut.accountId feeHolding.accountId tokenIn tokenOut
            pricing.amounts pricing.protocolFee

theorem settled_as_priced (cfg : AmmConfig) (pool : PoolDefinition) (side : Side) :
    SettledAsPriced cfg pool side := by
  intro context amountName userIn vaultIn vaultOut userOut feeHolding amounts x c tokenIn tokenOut
    balanceIn balanceOut price hin hout hprice settled deposit withdraw
  rw [settleSwap_eq_ok _ _ _ _ _ _ _ _ _ _ _ _ _ _ _ hin hout]
  simp only [swapPricing_eq_ok, hprice, Except.ok.injEq, protocolFeeAmount, mulDivFloor_eq_ok,
    feeBpsDenominator_val]
  constructor
  · rintro ⟨swapFee, protocolFee, hfee, ⟨-, hshare⟩, hnet, rfl, rfl⟩
    exact ⟨⟨amounts, swapFee, protocolFee, deposit⟩, ⟨rfl, hfee, hshare, hnet⟩, rfl, rfl, rfl⟩
  · rintro ⟨⟨_, swapFee, protocolFee, net⟩, ⟨rfl, hfee, hshare, hnet⟩, rfl, rfl, rfl⟩
    exact ⟨swapFee, protocolFee, hfee, ⟨by decide, hshare⟩, hnet, rfl, rfl⟩

end LezPrograms.AmmClient
