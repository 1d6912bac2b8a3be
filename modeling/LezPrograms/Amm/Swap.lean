import LezPrograms.Amm.Pools

/-! # Swaps

The two kinds of swap differ in how they price; validation, the settling
transfers and the reserve update are shared. The direction follows the token of
the input holding. -/

set_option autoImplicit false

namespace LezPrograms.Amm
open LezPrograms.Checked LezPrograms.Checked.Unsigned LezPrograms.Lee

def validateSwapSetup (pool vaultA vaultB : InputAccount) : Outcome PoolDefinition := do
  let poolDefData : PoolDefinition ← expect (tryFrom pool.account.data)
    "AMM Program expects a valid Pool Definition Account"
  ensure (minimumLiquidity.val ≤ poolDefData.liquidityPoolSupply.val)
    "Pool liquidity supply is below minimum liquidity"
  ensure (vaultA.accountId = poolDefData.vaultAId) "Vault A was not provided"
  ensure (vaultB.accountId = poolDefData.vaultBId) "Vault B was not provided"
  let (vaultABalance, vaultBBalance) ← readVaultFungibleBalances "Validate swap setup" vaultA vaultB
  ensure (poolDefData.reserveA.val ≤ vaultABalance.val) "Reserve for Token A exceeds vault balance"
  ensure (poolDefData.reserveB.val ≤ vaultBBalance.val) "Reserve for Token B exceeds vault balance"
  pure poolDefData

/-- What a swap moves: the input, the part of it that is priced, and the output. -/
structure SwapAmounts where
  amountIn : U128
  effectiveAmountIn : U128
  amountOut : U128
deriving DecidableEq

def exactInputAmounts (swapAmountIn minAmountOut reserveDeposit reserveWithdraw feeBps : U128) :
    Outcome SwapAmounts := do
  let (effectiveAmountIn, withdrawAmount) ← swapExactInAmounts swapAmountIn reserveDeposit
    reserveWithdraw feeBps
  ensure (effectiveAmountIn.val ≠ 0) "Effective swap amount should be nonzero"
  ensure (minAmountOut.val ≤ withdrawAmount.val) "Withdraw amount is less than minimal amount out"
  ensure (withdrawAmount.val ≠ 0) "Withdraw amount should be nonzero"
  pure ⟨swapAmountIn, effectiveAmountIn, withdrawAmount⟩

def exactOutputAmounts (exactAmountOut maxAmountIn reserveDeposit reserveWithdraw feeBps : U128) :
    Outcome SwapAmounts := do
  ensure (exactAmountOut.val ≠ 0) "Exact amount out must be nonzero"
  ensure (exactAmountOut.val < reserveWithdraw.val) "Exact amount out exceeds reserve"
  let priced ← swapExactOutAmounts exactAmountOut reserveDeposit reserveWithdraw feeBps
  let (effectiveAmountIn, depositAmount) ← expect priced
    "swap exact output: reserves and fee must yield a valid input"
  ensure (depositAmount.val ≤ maxAmountIn.val) "Required input exceeds maximum amount in"
  pure ⟨depositAmount, effectiveAmountIn, exactAmountOut⟩

/-- The chained transfers of a swap, the net deposit and the withdrawal. `context` and
`amountName` complete the texts that differ between the two kinds of swap. -/
def settleSwap (context amountName : String) (userDeposit vaultDeposit vaultWithdraw userWithdraw :
    InputAccount) (amounts : SwapAmounts) (protocolFeeBps : U128)
    (protocolFeeHolding : InputAccount) (poolId configId : AccountId) :
    Outcome (List ChainedCall × U128 × U128) := do
  let tokenProgramId := userDeposit.account.programOwner
  let depositHolding : Token.TokenHolding AccountId ← expect (tryFrom vaultDeposit.account.data)
    (context ++ ": AMM Program expects valid token data")
  let depositTokenId := depositHolding.definitionId
  let swapFee ← expect (amounts.amountIn.checkedSub amounts.effectiveAmountIn)
    ("effective_amount_in <= " ++ amountName)
  let protocolFee ← protocolFeeAmount swapFee protocolFeeBps
  let withdrawHolding : Token.TokenHolding AccountId ← expect (tryFrom vaultWithdraw.account.data)
    (context ++ ": AMM Program expects valid token data")
  let depositCall := transferCall tokenProgramId userDeposit.accountId vaultDeposit.accountId
    amounts.amountIn []
  let withdrawCall := transferCall tokenProgramId vaultWithdraw.accountId userWithdraw.accountId
    amounts.amountOut [computeVaultPdaSeed poolId withdrawHolding.definitionId]
  let feeCall := transferCall tokenProgramId vaultDeposit.accountId protocolFeeHolding.accountId
    protocolFee [computeVaultPdaSeed poolId depositTokenId,
      computeProtocolFeePdaSeed configId depositTokenId]
  let netDeposit ← expect (amounts.amountIn.checkedSub protocolFee)
    ("protocol_fee <= swap_fee <= " ++ amountName)
  pure ([depositCall, withdrawCall] ++ (if protocolFee.val ≠ 0 then [feeCall] else []),
    netDeposit, amounts.amountOut)

def swappedPool (poolDefData : PoolDefinition) (depositA withdrawA depositB withdrawB : U128) :
    Outcome PoolDefinition := do
  let grownA ← expect (poolDefData.reserveA.checkedAdd depositA)
    "reserve_a + deposit_a overflows u128"
  let reserveA ← expect (grownA.checkedSub withdrawA) "reserve_a + deposit_a - withdraw_a underflows"
  let grownB ← expect (poolDefData.reserveB.checkedAdd depositB)
    "reserve_b + deposit_b overflows u128"
  let reserveB ← expect (grownB.checkedSub withdrawB) "reserve_b + deposit_b - withdraw_b underflows"
  pure { poolDefData with reserveA := reserveA, reserveB := reserveB }

def swap (context logicContext amountName : String)
    (price : U128 → U128 → U128 → Outcome SwapAmounts)
    (config pool vaultA vaultB userInputHolding userOutputHolding currentTickAccount clock
      protocolFeeHolding : InputAccount) (ammProgramId : AccountId) : HandlerResult := do
  let poolDefData ← validateSwapSetup pool vaultA vaultB
  let configData ← decodeConfig config ammProgramId context
  let tokenProgramId := configData.tokenProgramId
  let twapOracleProgramId := configData.twapOracleProgramId
  assertPoolInConfigNamespace pool config poolDefData ammProgramId "Swap"
  ensure (vaultA.account.programOwner = tokenProgramId)
    "Vault A must be owned by the configured Token Program"
  ensure (vaultB.account.programOwner = tokenProgramId)
    "Vault B must be owned by the configured Token Program"
  let inputHolding : Token.TokenHolding AccountId ← expect (tryFrom userInputHolding.account.data)
    (context ++ ": input holding must be a valid token holding")
  let tokenInId := inputHolding.definitionId
  ensure (tokenInId = poolDefData.definitionTokenAId ∨ tokenInId = poolDefData.definitionTokenBId)
    (context ++ ": input holding token is not part of the pool")
  let inputIsA := decide (tokenInId = poolDefData.definitionTokenAId)
  let userHoldingA := if inputIsA then userInputHolding else userOutputHolding
  let userHoldingB := if inputIsA then userOutputHolding else userInputHolding
  ensure (userHoldingA.account.programOwner = tokenProgramId)
    "User Token A holding must be owned by the configured Token Program"
  ensure (userHoldingB.account.programOwner = tokenProgramId)
    "User Token B holding must be owned by the configured Token Program"
  ensure (protocolFeeHolding.accountId
      = computeProtocolFeePda ammProgramId config.accountId tokenInId)
    (context ++ ": protocol-fee holding does not match the input token's protocol PDA")
  assertOracleAccounts currentTickAccount pool clock twapOracleProgramId context
  let vaultDeposit := if inputIsA then vaultA else vaultB
  let vaultWithdraw := if inputIsA then vaultB else vaultA
  let reserveDeposit := if inputIsA then poolDefData.reserveA else poolDefData.reserveB
  let reserveWithdraw := if inputIsA then poolDefData.reserveB else poolDefData.reserveA
  let amounts ← price reserveDeposit reserveWithdraw configData.swapFeeBps
  let (chainedCalls, deposit, withdraw) ← settleSwap logicContext amountName userInputHolding
    vaultDeposit vaultWithdraw userOutputHolding amounts configData.protocolFeeBps
    protocolFeeHolding pool.accountId config.accountId
  let poolPostDefinition ← (if inputIsA then
      swappedPool poolDefData deposit (zero 128) (zero 128) withdraw
    else swappedPool poolDefData (zero 128) withdraw deposit (zero 128))
  let call ← updateTickCall twapOracleProgramId currentTickAccount pool clock config poolDefData
    poolPostDefinition.reserveA poolPostDefinition.reserveB
  pure ([.unchanged config, .new pool (.poolDefinition poolPostDefinition), .unchanged vaultA,
    .unchanged vaultB, .unchanged userInputHolding, .unchanged userOutputHolding,
    .unchanged currentTickAccount, .unchanged clock, .unchanged protocolFeeHolding],
    chainedCalls ++ [call])

def swapExactInput (config pool vaultA vaultB userInputHolding userOutputHolding
    currentTickAccount clock protocolFeeHolding : InputAccount) (swapAmountIn minAmountOut : U128)
    (ammProgramId : AccountId) : HandlerResult :=
  swap "Swap exact input" "Swap Logic" "swap_amount_in" (exactInputAmounts swapAmountIn minAmountOut)
    config pool vaultA vaultB userInputHolding userOutputHolding currentTickAccount clock
    protocolFeeHolding ammProgramId

def swapExactOutput (config pool vaultA vaultB userInputHolding userOutputHolding
    currentTickAccount clock protocolFeeHolding : InputAccount) (exactAmountOut maxAmountIn : U128)
    (ammProgramId : AccountId) : HandlerResult :=
  swap "Swap exact output" "Exact Output Swap Logic" "deposit_amount"
    (exactOutputAmounts exactAmountOut maxAmountIn) config pool vaultA vaultB userInputHolding
    userOutputHolding currentTickAccount clock protocolFeeHolding ammProgramId

end LezPrograms.Amm
