import LezPrograms.Lee.Platform

/-! # AMM configuration and pool creation -/

set_option autoImplicit false

namespace LezPrograms.Amm
open LezPrograms.Checked LezPrograms.Checked.Unsigned LezPrograms.Lee

def readFungibleHolding (account : InputAccount) (context : String) : Outcome U128 := do
  let tokenHolding : Token.TokenHolding AccountId ← expect (tryFrom account.account.data)
    (context ++ ": AMM Program expects a valid Token Holding Account")
  match tokenHolding with
  | .fungible _ balance => pure balance
  | _ => .error (context ++ ": AMM Program expects a valid Fungible Token Holding Account")

def readVaultFungibleBalances (context : String) (vaultA vaultB : InputAccount) :
    Outcome (U128 × U128) := do
  let balanceA ← readFungibleHolding vaultA (context ++ ": Vault A")
  let balanceB ← readFungibleHolding vaultB (context ++ ": Vault B")
  pure (balanceA, balanceB)

/-- A configuration counts when the AMM owns it and it decodes. -/
def decodeConfig (config : InputAccount) (ammProgramId : AccountId) (context : String) :
    Outcome AmmConfig := do
  ensure (config.account.programOwner = ammProgramId)
    (context ++ ": AMM config account must be owned by the AMM Program")
  expect (tryFrom config.account.data)
    (context ++ ": AMM Program must be initialized before use")

def assertPoolInConfigNamespace (pool config : InputAccount) (poolDefData : PoolDefinition)
    (ammProgramId : AccountId) (context : String) : Outcome Unit := do
  let expectedId ← computePoolPda ammProgramId config.accountId poolDefData.definitionTokenAId
    poolDefData.definitionTokenBId
  ensure (pool.accountId = expectedId)
    (context ++ ": pool account is not derived under this config's namespace")

def assertOracleAccounts (currentTickAccount pool clock : InputAccount)
    (twapOracleProgramId : AccountId) (context : String) : Outcome Unit := do
  ensure (clock.accountId = clock01ProgramAccountId)
    (context ++ ": clock account must be the canonical 1-block LEZ clock account")
  ensure (currentTickAccount.accountId
      = TwapOracle.computeCurrentTickAccountPda twapOracleProgramId pool.accountId)
    (context ++ ": current tick Account ID does not match PDA")

def updateTickCall (twapOracleProgramId : AccountId) (currentTickAccount pool clock config :
    InputAccount) (poolDefData : PoolDefinition) (reserveA reserveB : U128) :
    Outcome ChainedCall := do
  let newPrice ← spotPriceQ6464 reserveA reserveB
  let poolSeed ← computePoolPdaSeed config.accountId poolDefData.definitionTokenAId
    poolDefData.definitionTokenBId
  pure ((ChainedCall.new twapOracleProgramId
    [currentTickAccount.accountId, pool.accountId, clock.accountId]
    (.twapOracle (.updateCurrentTick newPrice))).withPdaSeeds [poolSeed])

def transferCall (tokenProgramId sender recipient : AccountId) (amount : U128)
    (seeds : List PdaSeed) : ChainedCall :=
  (ChainedCall.new tokenProgramId [sender, recipient] (.token (.transfer amount))).withPdaSeeds seeds

/-- The source names it `initialize`. -/
def initializeConfig (owner config : InputAccount) (nonce : U256)
    (tokenProgramId twapOracleProgramId authority : AccountId) (swapFeeBps protocolFeeBps : U128)
    (ammProgramId : AccountId) : HandlerResult := do
  ensure (owner.isAuthorized = true)
    "Initialize: owner account must sign to claim its namespace"
  ensure (config.accountId = computeConfigPda ammProgramId owner.accountId nonce)
    "Initialize: AMM config Account ID does not match namespaced PDA"
  ensure (config.account = default) "Initialize: AMM config account must be uninitialized"
  assertValidSwapFeeBps swapFeeBps
  assertValidProtocolFeeBps protocolFeeBps
  pure ([.unchanged owner, .new config (.ammConfig
    ⟨tokenProgramId, twapOracleProgramId, authority, swapFeeBps, protocolFeeBps⟩)], [])

def updateConfig (config authority : InputAccount) (newAuthority ammProgramId : AccountId) :
    HandlerResult := do
  let configData ← decodeConfig config ammProgramId "Update config"
  ensure (authority.accountId = configData.authority)
    "Update config: caller is not the configured admin authority"
  ensure (authority.isAuthorized = true)
    "Update config: admin authority must authorize the update"
  pure ([.new config (.ammConfig { configData with authority := newAuthority }),
    .unchanged authority], [])

def withdrawProtocolFees (config protocolFeeHolding destination authority : InputAccount)
    (amount : U128) (ammProgramId : AccountId) : HandlerResult := do
  let configData ← decodeConfig config ammProgramId "Withdraw protocol fees"
  ensure (authority.accountId = configData.authority)
    "Withdraw protocol fees: caller is not the configured admin authority"
  ensure (authority.isAuthorized = true)
    "Withdraw protocol fees: admin authority must authorize the withdrawal"
  let tokenProgramId := configData.tokenProgramId
  ensure (protocolFeeHolding.account.programOwner = tokenProgramId)
    "Withdraw protocol fees: protocol-fee holding must be owned by the configured Token Program"
  let holding : Token.TokenHolding AccountId ← expect (tryFrom protocolFeeHolding.account.data)
    "Withdraw protocol fees: protocol-fee holding must be a valid token holding"
  let tokenDef := holding.definitionId
  ensure (protocolFeeHolding.accountId = computeProtocolFeePda ammProgramId config.accountId tokenDef)
    "Withdraw protocol fees: holding does not match the protocol-fee PDA"
  ensure (destination.account.programOwner = tokenProgramId)
    "Withdraw protocol fees: destination must be owned by the configured Token Program"
  let destinationHolding : Token.TokenHolding AccountId ← expect (tryFrom destination.account.data)
    "Withdraw protocol fees: destination must be a valid token holding"
  ensure (destinationHolding.definitionId = tokenDef)
    "Withdraw protocol fees: destination token does not match the protocol-fee holding's token"
  pure ([.unchanged config, .unchanged protocolFeeHolding, .unchanged destination,
    .unchanged authority],
    [transferCall tokenProgramId protocolFeeHolding.accountId destination.accountId amount
      [computeProtocolFeePdaSeed config.accountId tokenDef]])

/-- The deposits are nonzero: the entry point rejects zero before it calls the handler. -/
def newDefinition (config pool vaultA vaultB poolDefinitionLp lpLockHolding userHoldingA
    userHoldingB userHoldingLp currentTickAccount clock : InputAccount)
    (tokenAAmount tokenBAmount : U128) (ammProgramId : AccountId) : HandlerResult := do
  let holdingA : Token.TokenHolding AccountId ← expect (tryFrom userHoldingA.account.data)
    "New definition: AMM Program expects valid Token Holding account for Token A"
  let holdingB : Token.TokenHolding AccountId ← expect (tryFrom userHoldingB.account.data)
    "New definition: AMM Program expects valid Token Holding account for Token B"
  let definitionTokenAId := holdingA.definitionId
  let definitionTokenBId := holdingB.definitionId
  let configData ← decodeConfig config ammProgramId "New definition"
  let tokenProgramId := configData.tokenProgramId
  let twapOracleProgramId := configData.twapOracleProgramId
  ensure (userHoldingA.account.programOwner = tokenProgramId)
    "User Token A holding must be owned by the configured Token Program"
  ensure (userHoldingB.account.programOwner = tokenProgramId)
    "User Token B holding must be owned by the configured Token Program"
  ensure (definitionTokenAId ≠ definitionTokenBId) "Cannot set up a swap for a token with itself"
  let poolId ← computePoolPda ammProgramId config.accountId definitionTokenAId definitionTokenBId
  ensure (pool.accountId = poolId) "Pool Definition Account ID does not match PDA"
  ensure (vaultA.accountId = computeVaultPda ammProgramId pool.accountId definitionTokenAId)
    "Vault ID does not match PDA"
  ensure (vaultB.accountId = computeVaultPda ammProgramId pool.accountId definitionTokenBId)
    "Vault ID does not match PDA"
  ensure (poolDefinitionLp.accountId = computeLiquidityTokenPda ammProgramId pool.accountId)
    "Liquidity pool Token Definition Account ID does not match PDA"
  ensure (lpLockHolding.accountId = computeLpLockHoldingPda ammProgramId pool.accountId)
    "LP lock holding Account ID does not match PDA"
  ensure (pool.account = default) "Pool account must be uninitialized"
  ensure (userHoldingLp.account ≠ default ∨ userHoldingLp.isAuthorized = true)
    "Fresh user LP holding requires user authorization"
  ensure (currentTickAccount.accountId
      = TwapOracle.computeCurrentTickAccountPda twapOracleProgramId pool.accountId)
    "New definition: current tick Account ID does not match PDA"
  ensure (clock.accountId = clock01ProgramAccountId)
    "New definition: clock account must be the canonical 1-block LEZ clock account"
  let initialLp ← isqrtProduct tokenAAmount tokenBAmount
  ensure (minimumLiquidity.val < initialLp.val)
    "Initial liquidity must exceed minimum liquidity lock"
  let userLp ← expect (initialLp.checkedSub minimumLiquidity)
    "initial liquidity must exceed minimum liquidity after validation"
  let initialPrice ← spotPriceQ6464 tokenAAmount tokenBAmount
  let poolSeed ← computePoolPdaSeed config.accountId definitionTokenAId definitionTokenBId
  let callTokenA := transferCall tokenProgramId userHoldingA.accountId vaultA.accountId tokenAAmount
    [computeVaultPdaSeed pool.accountId definitionTokenAId]
  let callTokenB := transferCall tokenProgramId userHoldingB.accountId vaultB.accountId tokenBAmount
    [computeVaultPdaSeed pool.accountId definitionTokenBId]
  let callTokenLpLock := (ChainedCall.new tokenProgramId
    [poolDefinitionLp.accountId, lpLockHolding.accountId]
    (.token (.newFungibleDefinition "LP Token" minimumLiquidity
      (some poolDefinitionLp.accountId)))).withPdaSeeds
    [computeLiquidityTokenPdaSeed pool.accountId, computeLpLockHoldingPdaSeed pool.accountId]
  let callTokenLpUser := (ChainedCall.new tokenProgramId
    [poolDefinitionLp.accountId, userHoldingLp.accountId]
    (.token (.mint userLp))).withPdaSeeds [computeLiquidityTokenPdaSeed pool.accountId]
  let callCreateCurrentTick := (ChainedCall.new twapOracleProgramId
    [currentTickAccount.accountId, pool.accountId, clock.accountId]
    (.twapOracle (.createCurrentTickAccount initialPrice))).withPdaSeeds [poolSeed]
  pure ([.unchanged config,
    .new pool (.poolDefinition ⟨definitionTokenAId, definitionTokenBId, vaultA.accountId,
      vaultB.accountId, poolDefinitionLp.accountId, initialLp, tokenAAmount, tokenBAmount⟩),
    .unchanged vaultA, .unchanged vaultB, .unchanged poolDefinitionLp, .unchanged lpLockHolding,
    .unchanged userHoldingA, .unchanged userHoldingB, .unchanged userHoldingLp,
    .unchanged currentTickAccount, .unchanged clock],
    [callTokenLpLock, callTokenLpUser, callTokenB, callTokenA, callCreateCurrentTick])

end LezPrograms.Amm
