import LezPrograms.Amm.Pools

/-! # Adding and removing liquidity, synchronizing reserves -/

set_option autoImplicit false

namespace LezPrograms.Amm
open LezPrograms.Checked LezPrograms.Checked.Unsigned LezPrograms.Lee

def liquidityToAdd (poolDefData : PoolDefinition) (minAmountLiquidity maxAmountToAddTokenA
    maxAmountToAddTokenB : U128) : Outcome (U128 × U128 × U128) := do
  ensure (poolDefData.reserveA.val ≠ 0) "Reserves must be nonzero"
  ensure (poolDefData.reserveB.val ≠ 0) "Reserves must be nonzero"
  let idealA ← mulDivFloor poolDefData.reserveA maxAmountToAddTokenB poolDefData.reserveB
  let idealB ← mulDivFloor poolDefData.reserveB maxAmountToAddTokenA poolDefData.reserveA
  let actualAmountA := if maxAmountToAddTokenA.val < idealA.val then maxAmountToAddTokenA else idealA
  let actualAmountB := if maxAmountToAddTokenB.val < idealB.val then maxAmountToAddTokenB else idealB
  ensure (actualAmountA.val ≤ maxAmountToAddTokenA.val)
    "Actual trade amounts cannot exceed max_amounts"
  ensure (actualAmountB.val ≤ maxAmountToAddTokenB.val)
    "Actual trade amounts cannot exceed max_amounts"
  ensure (actualAmountA.val ≠ 0) "A trade amount is 0"
  ensure (actualAmountB.val ≠ 0) "A trade amount is 0"
  let shareA ← mulDivFloor poolDefData.liquidityPoolSupply actualAmountA poolDefData.reserveA
  let shareB ← mulDivFloor poolDefData.liquidityPoolSupply actualAmountB poolDefData.reserveB
  let deltaLp := shareA.minimum shareB
  ensure (deltaLp.val ≠ 0) "Payable LP must be nonzero"
  ensure (minAmountLiquidity.val ≤ deltaLp.val)
    "Payable LP is less than provided minimum LP amount"
  pure (actualAmountA, actualAmountB, deltaLp)

def addedPool (poolDefData : PoolDefinition) (amountA amountB deltaLp : U128) :
    Outcome PoolDefinition := do
  let liquidityPoolSupply ← expect (poolDefData.liquidityPoolSupply.checkedAdd deltaLp)
    "liquidity_pool_supply + delta_lp overflows u128"
  let reserveA ← expect (poolDefData.reserveA.checkedAdd amountA)
    "reserve_a + actual_amount_a overflows u128"
  let reserveB ← expect (poolDefData.reserveB.checkedAdd amountB)
    "reserve_b + actual_amount_b overflows u128"
  pure { poolDefData with
    liquidityPoolSupply := liquidityPoolSupply, reserveA := reserveA, reserveB := reserveB }

def addLiquidity (config pool vaultA vaultB poolDefinitionLp userHoldingA userHoldingB
    userHoldingLp currentTickAccount clock : InputAccount) (minAmountLiquidity
    maxAmountToAddTokenA maxAmountToAddTokenB : U128) (ammProgramId : AccountId) :
    HandlerResult := do
  let configData ← decodeConfig config ammProgramId "Add liquidity"
  let tokenProgramId := configData.tokenProgramId
  let twapOracleProgramId := configData.twapOracleProgramId
  let poolDefData : PoolDefinition ← expect (tryFrom pool.account.data)
    "Add liquidity: AMM Program expects valid Pool Definition Account"
  assertPoolInConfigNamespace pool config poolDefData ammProgramId "Add liquidity"
  ensure (vaultA.accountId = poolDefData.vaultAId) "Vault A was not provided"
  ensure (poolDefData.liquidityPoolId = poolDefinitionLp.accountId) "LP definition mismatch"
  ensure (vaultB.accountId = poolDefData.vaultBId) "Vault B was not provided"
  ensure (vaultA.account.programOwner = tokenProgramId)
    "Vault A must be owned by the configured Token Program"
  ensure (vaultB.account.programOwner = tokenProgramId)
    "Vault B must be owned by the configured Token Program"
  ensure (userHoldingA.account.programOwner = tokenProgramId)
    "User Token A holding must be owned by the configured Token Program"
  ensure (userHoldingB.account.programOwner = tokenProgramId)
    "User Token B holding must be owned by the configured Token Program"
  assertOracleAccounts currentTickAccount pool clock twapOracleProgramId "Add liquidity"
  ensure (maxAmountToAddTokenA.val ≠ 0 ∧ maxAmountToAddTokenB.val ≠ 0)
    "Both max-balances must be nonzero"
  let (vaultABalance, vaultBBalance) ← readVaultFungibleBalances "Add liquidity" vaultA vaultB
  ensure (poolDefData.reserveA.val ≤ vaultABalance.val)
    "Vaults' balances must be at least the reserve amounts"
  ensure (poolDefData.reserveB.val ≤ vaultBBalance.val)
    "Vaults' balances must be at least the reserve amounts"
  let (actualAmountA, actualAmountB, deltaLp) ← liquidityToAdd poolDefData minAmountLiquidity
    maxAmountToAddTokenA maxAmountToAddTokenB
  let poolPostDefinition ← addedPool poolDefData actualAmountA actualAmountB deltaLp
  let callTokenA := transferCall tokenProgramId userHoldingA.accountId vaultA.accountId
    actualAmountA []
  let callTokenB := transferCall tokenProgramId userHoldingB.accountId vaultB.accountId
    actualAmountB []
  let callTokenLp := (ChainedCall.new tokenProgramId
    [poolDefinitionLp.accountId, userHoldingLp.accountId]
    (.token (.mint deltaLp))).withPdaSeeds [computeLiquidityTokenPdaSeed pool.accountId]
  let callUpdateTick ← updateTickCall twapOracleProgramId currentTickAccount pool clock config
    poolDefData poolPostDefinition.reserveA poolPostDefinition.reserveB
  pure ([.unchanged config, .new pool (.poolDefinition poolPostDefinition), .unchanged vaultA,
    .unchanged vaultB, .unchanged poolDefinitionLp, .unchanged userHoldingA,
    .unchanged userHoldingB, .unchanged userHoldingLp, .unchanged currentTickAccount,
    .unchanged clock], [callTokenLp, callTokenB, callTokenA, callUpdateTick])

def liquidityToRemove (poolDefData : PoolDefinition) (userLpBalance removeLiquidityAmount
    minAmountToRemoveTokenA minAmountToRemoveTokenB : U128) : Outcome (U128 × U128) := do
  ensure (minimumLiquidity.val < poolDefData.liquidityPoolSupply.val)
    "Pool only contains locked liquidity"
  ensure (removeLiquidityAmount.val ≤ userLpBalance.val) "Remove amount exceeds user LP balance"
  let unlockedLiquidity ← expect (poolDefData.liquidityPoolSupply.checkedSub minimumLiquidity)
    "liquidity supply must be at least the locked minimum after validation"
  ensure (removeLiquidityAmount.val ≤ unlockedLiquidity.val)
    "Cannot remove locked minimum liquidity"
  let withdrawAmountA ← mulDivFloor poolDefData.reserveA removeLiquidityAmount
    poolDefData.liquidityPoolSupply
  let withdrawAmountB ← mulDivFloor poolDefData.reserveB removeLiquidityAmount
    poolDefData.liquidityPoolSupply
  ensure (minAmountToRemoveTokenA.val ≤ withdrawAmountA.val)
    "Insufficient minimal withdraw amount (Token A) provided for liquidity amount"
  ensure (minAmountToRemoveTokenB.val ≤ withdrawAmountB.val)
    "Insufficient minimal withdraw amount (Token B) provided for liquidity amount"
  pure (withdrawAmountA, withdrawAmountB)

def removedPool (poolDefData : PoolDefinition) (amountA amountB deltaLp : U128) :
    Outcome PoolDefinition := do
  let liquidityPoolSupply ← expect (poolDefData.liquidityPoolSupply.checkedSub deltaLp)
    "liquidity_pool_supply - delta_lp underflows"
  let reserveA ← expect (poolDefData.reserveA.checkedSub amountA)
    "reserve_a - withdraw_amount_a underflows"
  let reserveB ← expect (poolDefData.reserveB.checkedSub amountB)
    "reserve_b - withdraw_amount_b underflows"
  pure { poolDefData with
    liquidityPoolSupply := liquidityPoolSupply, reserveA := reserveA, reserveB := reserveB }

def removeLiquidity (config pool vaultA vaultB poolDefinitionLp userHoldingA userHoldingB
    userHoldingLp currentTickAccount clock : InputAccount) (removeLiquidityAmount
    minAmountToRemoveTokenA minAmountToRemoveTokenB : U128) (ammProgramId : AccountId) :
    HandlerResult := do
  let configData ← decodeConfig config ammProgramId "Remove liquidity"
  let tokenProgramId := configData.tokenProgramId
  let twapOracleProgramId := configData.twapOracleProgramId
  let poolDefData : PoolDefinition ← expect (tryFrom pool.account.data)
    "Remove liquidity: AMM Program expects a valid Pool Definition Account"
  assertPoolInConfigNamespace pool config poolDefData ammProgramId "Remove liquidity"
  ensure (minimumLiquidity.val ≤ poolDefData.liquidityPoolSupply.val)
    "Pool liquidity supply is below minimum liquidity"
  ensure (poolDefData.liquidityPoolId = poolDefinitionLp.accountId) "LP definition mismatch"
  ensure (vaultA.accountId = poolDefData.vaultAId) "Vault A was not provided"
  ensure (vaultB.accountId = poolDefData.vaultBId) "Vault B was not provided"
  ensure (vaultA.account.programOwner = tokenProgramId)
    "Vault A must be owned by the configured Token Program"
  ensure (vaultB.account.programOwner = tokenProgramId)
    "Vault B must be owned by the configured Token Program"
  ensure (userHoldingA.account.programOwner = tokenProgramId)
    "User Token A holding must be owned by the configured Token Program"
  ensure (userHoldingB.account.programOwner = tokenProgramId)
    "User Token B holding must be owned by the configured Token Program"
  assertOracleAccounts currentTickAccount pool clock twapOracleProgramId "Remove liquidity"
  ensure (minAmountToRemoveTokenA.val ≠ 0) "Minimum withdraw amount must be nonzero"
  ensure (minAmountToRemoveTokenB.val ≠ 0) "Minimum withdraw amount must be nonzero"
  let userHoldingLpData : Token.TokenHolding AccountId ← expect (tryFrom userHoldingLp.account.data)
    "Remove liquidity: AMM Program expects a valid Token Account for liquidity token"
  let userLpBalance ← (match userHoldingLpData with
    | .fungible _ balance => pure balance
    | _ => .error ("Remove liquidity: AMM Program expects a valid Fungible Token Holding "
      ++ "Account for liquidity token"))
  ensure (userLpBalance.val ≤ poolDefData.liquidityPoolSupply.val)
    "Invalid liquidity account provided"
  ensure (userHoldingLpData.definitionId = poolDefData.liquidityPoolId)
    "Invalid liquidity account provided"
  let (withdrawAmountA, withdrawAmountB) ← liquidityToRemove poolDefData userLpBalance
    removeLiquidityAmount minAmountToRemoveTokenA minAmountToRemoveTokenB
  let poolPostDefinition ← removedPool poolDefData withdrawAmountA withdrawAmountB
    removeLiquidityAmount
  let callTokenA := transferCall tokenProgramId vaultA.accountId userHoldingA.accountId
    withdrawAmountA [computeVaultPdaSeed pool.accountId poolDefData.definitionTokenAId]
  let callTokenB := transferCall tokenProgramId vaultB.accountId userHoldingB.accountId
    withdrawAmountB [computeVaultPdaSeed pool.accountId poolDefData.definitionTokenBId]
  let callTokenLp := (ChainedCall.new tokenProgramId
    [poolDefinitionLp.accountId, userHoldingLp.accountId]
    (.token (.burn removeLiquidityAmount))).withPdaSeeds
    [computeLiquidityTokenPdaSeed pool.accountId]
  let callUpdateTick ← updateTickCall twapOracleProgramId currentTickAccount pool clock config
    poolDefData poolPostDefinition.reserveA poolPostDefinition.reserveB
  pure ([.unchanged config, .new pool (.poolDefinition poolPostDefinition), .unchanged vaultA,
    .unchanged vaultB, .unchanged poolDefinitionLp, .unchanged userHoldingA,
    .unchanged userHoldingB, .unchanged userHoldingLp, .unchanged currentTickAccount,
    .unchanged clock], [callTokenLp, callTokenB, callTokenA, callUpdateTick])

def syncReserves (config pool vaultA vaultB currentTickAccount clock : InputAccount)
    (ammProgramId : AccountId) : HandlerResult := do
  ensure (pool.account.programOwner = ammProgramId)
    "Sync reserves: Pool account must be owned by the AMM Program"
  let poolDefData : PoolDefinition ← expect (tryFrom pool.account.data)
    "Sync reserves: AMM Program expects a valid Pool Definition Account"
  let configData ← decodeConfig config ammProgramId "Sync reserves"
  let twapOracleProgramId := configData.twapOracleProgramId
  assertPoolInConfigNamespace pool config poolDefData ammProgramId "Sync reserves"
  ensure (minimumLiquidity.val ≤ poolDefData.liquidityPoolSupply.val)
    "Pool liquidity supply is below minimum liquidity"
  ensure (vaultA.accountId = poolDefData.vaultAId) "Vault A was not provided"
  ensure (vaultB.accountId = poolDefData.vaultBId) "Vault B was not provided"
  assertOracleAccounts currentTickAccount pool clock twapOracleProgramId "Sync reserves"
  let (vaultABalance, vaultBBalance) ← readVaultFungibleBalances "Sync reserves" vaultA vaultB
  ensure (poolDefData.reserveA.val ≤ vaultABalance.val)
    "Sync reserves: vault A balance is less than its reserve"
  ensure (poolDefData.reserveB.val ≤ vaultBBalance.val)
    "Sync reserves: vault B balance is less than its reserve"
  let call ← updateTickCall twapOracleProgramId currentTickAccount pool clock config poolDefData
    vaultABalance vaultBBalance
  pure ([.unchanged config,
    .new pool (.poolDefinition
      { poolDefData with reserveA := vaultABalance, reserveB := vaultBBalance }),
    .unchanged vaultA, .unchanged vaultB, .unchanged currentTickAccount, .unchanged clock], [call])

end LezPrograms.Amm
