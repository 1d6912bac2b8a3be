import LezPrograms.Amm.Liquidity
import LezPrograms.Amm.Swap

/-! # The AMM entry point

Amounts that must be nonzero are rejected before the handler runs; an
instruction with a deadline is valid only at earlier timestamps. -/

set_option autoImplicit false

namespace LezPrograms.Amm
open LezPrograms.Checked LezPrograms.Lee

/-- `with_timestamp_validity_window(..deadline)` -/
def withTimestampValidityWindow (now deadline : U64) (output : HandlerResult) : HandlerResult := do
  let result ← output
  ensure (now.val < deadline.val) "timestamp is outside the validity window"
  pure result

def main (self : AccountId) (now : U64) (accounts : List InputAccount) (instruction : Instruction) :
    HandlerResult :=
  match instruction, accounts with
  | .initializeConfig nonce tokenProgramId twapOracleProgramId authority swapFeeBps protocolFeeBps,
      [owner, config] =>
    initializeConfig owner config nonce tokenProgramId twapOracleProgramId authority swapFeeBps
      protocolFeeBps self
  | .updateConfig newAuthority, [config, authority] =>
    updateConfig config authority newAuthority self
  | .newDefinition tokenAAmount tokenBAmount deadline, [config, pool, vaultA, vaultB,
      poolDefinitionLp, lpLockHolding, userHoldingA, userHoldingB, userHoldingLp,
      currentTickAccount, clock] => do
    ensure (tokenAAmount.val ≠ 0) "token_a_amount must be nonzero"
    ensure (tokenBAmount.val ≠ 0) "token_b_amount must be nonzero"
    withTimestampValidityWindow now deadline (newDefinition config pool vaultA vaultB
      poolDefinitionLp lpLockHolding userHoldingA userHoldingB userHoldingLp currentTickAccount
      clock tokenAAmount tokenBAmount self)
  | .addLiquidity minAmountLiquidity maxAmountToAddTokenA maxAmountToAddTokenB deadline,
      [config, pool, vaultA, vaultB, poolDefinitionLp, userHoldingA, userHoldingB, userHoldingLp,
        currentTickAccount, clock] => do
    ensure (minAmountLiquidity.val ≠ 0) "min_amount_liquidity must be nonzero"
    withTimestampValidityWindow now deadline (addLiquidity config pool vaultA vaultB
      poolDefinitionLp userHoldingA userHoldingB userHoldingLp currentTickAccount clock
      minAmountLiquidity maxAmountToAddTokenA maxAmountToAddTokenB self)
  | .removeLiquidity removeLiquidityAmount minAmountToRemoveTokenA minAmountToRemoveTokenB
      deadline, [config, pool, vaultA, vaultB, poolDefinitionLp, userHoldingA, userHoldingB,
        userHoldingLp, currentTickAccount, clock] => do
    ensure (removeLiquidityAmount.val ≠ 0) "remove_liquidity_amount must be nonzero"
    withTimestampValidityWindow now deadline (removeLiquidity config pool vaultA vaultB
      poolDefinitionLp userHoldingA userHoldingB userHoldingLp currentTickAccount clock
      removeLiquidityAmount minAmountToRemoveTokenA minAmountToRemoveTokenB self)
  | .swapExactInput swapAmountIn minAmountOut deadline, [config, pool, vaultA, vaultB,
      userInputHolding, userOutputHolding, currentTickAccount, clock, protocolFeeHolding] =>
    withTimestampValidityWindow now deadline (swapExactInput config pool vaultA vaultB
      userInputHolding userOutputHolding currentTickAccount clock protocolFeeHolding swapAmountIn
      minAmountOut self)
  | .swapExactOutput exactAmountOut maxAmountIn deadline, [config, pool, vaultA, vaultB,
      userInputHolding, userOutputHolding, currentTickAccount, clock, protocolFeeHolding] =>
    withTimestampValidityWindow now deadline (swapExactOutput config pool vaultA vaultB
      userInputHolding userOutputHolding currentTickAccount clock protocolFeeHolding exactAmountOut
      maxAmountIn self)
  | .syncReserves, [config, pool, vaultA, vaultB, currentTickAccount, clock] =>
    syncReserves config pool vaultA vaultB currentTickAccount clock self
  | .withdrawProtocolFees amount, [config, protocolFeeHolding, destination, authority] =>
    withdrawProtocolFees config protocolFeeHolding destination authority amount self
  | _, _ => .error "wrong number of accounts"

end LezPrograms.Amm
