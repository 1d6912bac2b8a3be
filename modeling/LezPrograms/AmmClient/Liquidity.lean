import LezPrograms.AmmClient.Requests

/-! # Quotes and plans for liquidity

A quote shows what an addition or a removal moves, in the order in which the tokens are
displayed. A plan is the transaction that is submitted for it, in the order in which the
pool stores its tokens. -/

set_option autoImplicit false

namespace LezPrograms.AmmClient
open LezPrograms.Checked LezPrograms.Checked.Unsigned LezPrograms.Lee LezPrograms.Amm

def orient {α : Type} (side : Side) (pair : α × α) : α × α :=
  match side with
  | .a => pair
  | .b => pair.swap

structure AddLiquidityQuoteRequest where
  tokenAId : AccountId
  tokenBId : AccountId
  maxAmountA : String
  maxAmountB : String
  slippageBps : U32
  poolData : Data

structure AddLiquidityQuote where
  amountA : U128
  amountB : U128
  expectedLp : U128
  minimumLp : U128
  price : U128
  lpDefinitionId : AccountId
deriving DecidableEq

def addLiquidityQuote (request : AddLiquidityQuoteRequest) : Outcome AddLiquidityQuote := do
  ensure (request.tokenAId ≠ request.tokenBId) "same_token_pair"
  let maxA ← positiveAmount (some request.maxAmountA)
  let maxB ← positiveAmount (some request.maxAmountB)
  ensure (request.slippageBps.val < feeBpsDenominator.val) "invalid_slippage"
  let pool ← decodePool request.poolData
  let side ← sideOf pool request.tokenAId request.tokenBId
  ensure (pool.reserveA.val ≠ 0 ∧ pool.reserveB.val ≠ 0) "no_pool"
  let maxCanonical := orient side (maxA, maxB)
  let idealA ← mulDivFloor pool.reserveA maxCanonical.2 pool.reserveB
  let idealB ← mulDivFloor pool.reserveB maxCanonical.1 pool.reserveA
  let actualA := idealA.minimum maxCanonical.1
  let actualB := idealB.minimum maxCanonical.2
  let shareA ← mulDivFloor pool.liquidityPoolSupply actualA pool.reserveA
  let shareB ← mulDivFloor pool.liquidityPoolSupply actualB pool.reserveB
  let deltaLp := shareA.minimum shareB
  ensure (actualA.val ≠ 0 ∧ actualB.val ≠ 0 ∧ deltaLp.val ≠ 0) "amount_too_low"
  let slippageComplement := feeBpsDenominator.saturatingSub (widen request.slippageBps (by decide))
  let minimumLp ← mulDivFloor deltaLp slippageComplement feeBpsDenominator
  ensure (minimumLp.val ≠ 0) "minimum_lp_zero"
  let display := orient side (actualA, actualB)
  let price ← spotPriceQ6464 (pool.reserve side) (pool.reserve side.other)
  pure ⟨display.1, display.2, deltaLp, minimumLp, price, pool.liquidityPoolId⟩

structure RemoveLiquidityQuoteRequest where
  tokenAId : AccountId
  tokenBId : AccountId
  lpAmount : String
  slippageBps : U32
  poolData : Data

structure RemoveLiquidityQuote where
  amountA : U128
  amountB : U128
  minimumAmountA : U128
  minimumAmountB : U128
  price : U128
deriving DecidableEq

def removeLiquidityQuote (request : RemoveLiquidityQuoteRequest) :
    Outcome RemoveLiquidityQuote := do
  ensure (request.tokenAId ≠ request.tokenBId) "same_token_pair"
  let lpAmount ← positiveAmount (some request.lpAmount)
  ensure (request.slippageBps.val < feeBpsDenominator.val) "invalid_slippage"
  let pool ← decodePool request.poolData
  ensure (pool.reserveA.val ≠ 0 ∧ pool.reserveB.val ≠ 0) "no_pool"
  let unlocked ← expect ((pool.liquidityPoolSupply.checkedSub minimumLiquidity).filter
    fun unlocked => 0 < unlocked.val) "no_pool"
  ensure (lpAmount.val ≤ unlocked.val) "insufficient_pool_liquidity"
  let side ← sideOf pool request.tokenAId request.tokenBId
  let withdrawA ← mulDivFloor pool.reserveA lpAmount pool.liquidityPoolSupply
  let withdrawB ← mulDivFloor pool.reserveB lpAmount pool.liquidityPoolSupply
  ensure (withdrawA.val ≠ 0 ∧ withdrawB.val ≠ 0) "amount_too_low"
  let slippageComplement := feeBpsDenominator.saturatingSub (widen request.slippageBps (by decide))
  let minimumA ← mulDivFloor withdrawA slippageComplement feeBpsDenominator
  let minimumB ← mulDivFloor withdrawB slippageComplement feeBpsDenominator
  ensure (minimumA.val ≠ 0 ∧ minimumB.val ≠ 0) "minimum_amount_zero"
  let display := orient side (withdrawA, withdrawB)
  let minimumDisplay := orient side (minimumA, minimumB)
  let price ← spotPriceQ6464 (pool.reserve side) (pool.reserve side.other)
  pure ⟨display.1, display.2, minimumDisplay.1, minimumDisplay.2, price⟩

def loadConfig (ammProgram : AccountId) (read : AccountRead) : Outcome (AccountId × AmmConfig) := do
  let (id, account) ← decodeAccount read
  ensure (account.programOwner = ammProgram ∧ account ≠ default) "AMM config is unavailable"
  let config ← expect (tryFrom account.data) "AMM config is invalid"
  pure (id, config)

structure PairIds where
  tokenA : AccountId
  tokenB : AccountId
  config : AccountId
  pool : AccountId
  vaultA : AccountId
  vaultB : AccountId
  lpDefinition : AccountId
  lpLockHolding : AccountId
  currentTick : AccountId
  clock : AccountId
  twapOracleProgram : AccountId

def derivePair (ammProgram tokenA tokenB : AccountId) (configRead : AccountRead) :
    Outcome PairIds := do
  let (configId, config) ← loadConfig ammProgram configRead
  let pool ← computePoolPda ammProgram configId tokenA tokenB
  pure ⟨tokenA, tokenB, configId, pool, computeVaultPda ammProgram pool tokenA,
    computeVaultPda ammProgram pool tokenB, computeLiquidityTokenPda ammProgram pool,
    computeLpLockHoldingPda ammProgram pool,
    TwapOracle.computeCurrentTickAccountPda config.twapOracleProgramId pool,
    clock01ProgramAccountId, config.twapOracleProgramId⟩

structure Plan where
  programId : AccountId
  accountIds : List AccountId
  signingRequirements : List Bool
  instruction : Amm.Instruction
deriving DecidableEq

def Plan.signers (plan : Plan) : List AccountId :=
  (plan.accountIds.zip plan.signingRequirements).filterMap fun (id, signs) =>
    if signs then some id else none

def Plan.call (plan : Plan) : ChainedCall :=
  ChainedCall.new plan.programId plan.accountIds (.amm plan.instruction)

structure AddLiquidityPlanRequest where
  ammProgramId : AccountId
  config : AccountRead
  tokenAId : AccountId
  tokenBId : AccountId
  maxAmountA : String
  maxAmountB : String
  minLp : String
  deadlineMs : String
  userHoldingAId : AccountId
  userHoldingBId : AccountId
  userHoldingLpId : AccountId
  poolData : Data

def addLiquidityPlan (request : AddLiquidityPlanRequest) : Outcome Plan := do
  ensure (request.tokenAId ≠ request.tokenBId) "same_token_pair"
  let maxA ← positiveAmount (some request.maxAmountA)
  let maxB ← positiveAmount (some request.maxAmountB)
  let minLp ← positiveAmount (some request.minLp)
  let deadline ← parseU64 request.deadlineMs "deadlineMs"
  let pair ← (derivePair request.ammProgramId request.tokenAId request.tokenBId
    request.config).mapError fun _ => "config_unavailable"
  let pool : PoolDefinition ← expect (tryFrom request.poolData) "no_pool"
  let side ← sideOf pool request.tokenAId request.tokenBId
  let maxPool := orient side (maxA, maxB)
  let user := orient side (request.userHoldingAId, request.userHoldingBId)
  pure ⟨request.ammProgramId, [pair.config, pair.pool, pool.vaultAId, pool.vaultBId,
      pool.liquidityPoolId, user.1, user.2, request.userHoldingLpId, pair.currentTick, pair.clock],
    [false, false, false, false, false, true, true, true, false, false],
    .addLiquidity minLp maxPool.1 maxPool.2 deadline⟩

structure RemoveLiquidityPlanRequest where
  ammProgramId : AccountId
  config : AccountRead
  tokenAId : AccountId
  tokenBId : AccountId
  lpAmount : String
  minAmountA : String
  minAmountB : String
  deadlineMs : String
  userHoldingAId : AccountId
  userHoldingBId : AccountId
  userHoldingLpId : AccountId
  poolData : Data

def removeLiquidityPlan (request : RemoveLiquidityPlanRequest) : Outcome Plan := do
  ensure (request.tokenAId ≠ request.tokenBId) "same_token_pair"
  let lpAmount ← positiveAmount (some request.lpAmount)
  let minA ← positiveAmount (some request.minAmountA)
  let minB ← positiveAmount (some request.minAmountB)
  let deadline ← parseU64 request.deadlineMs "deadlineMs"
  let pair ← (derivePair request.ammProgramId request.tokenAId request.tokenBId
    request.config).mapError fun _ => "config_unavailable"
  let pool : PoolDefinition ← expect (tryFrom request.poolData) "no_pool"
  let side ← sideOf pool request.tokenAId request.tokenBId
  let minPool := orient side (minA, minB)
  let user := orient side (request.userHoldingAId, request.userHoldingBId)
  pure ⟨request.ammProgramId, [pair.config, pair.pool, pool.vaultAId, pool.vaultBId,
      pool.liquidityPoolId, user.1, user.2, request.userHoldingLpId, pair.currentTick, pair.clock],
    [false, false, false, false, false, false, false, true, false, false],
    .removeLiquidity lpAmount minPool.1 minPool.2 deadline⟩

end LezPrograms.AmmClient
