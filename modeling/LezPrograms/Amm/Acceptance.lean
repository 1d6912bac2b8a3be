import LezPrograms.Amm.Service

/-! # What the handlers accept

On a serviceable pool the handlers accept everything that can be priced, and they
store the priced pool and chain the calls of the step. -/

set_option autoImplicit false

namespace LezPrograms.Amm
open LezPrograms.Checked LezPrograms.Checked.Unsigned LezPrograms.Lee LezPrograms.Token

theorem ClockAt.blockTimestamp_eq (w : Accounts) (now : U64) (h : ClockAt w now) :
    blockTimestamp w = now := by rw [blockTimestamp, h]

section
variable (authority : List AccountId) (w : Accounts) (c x : AccountId) (cfg : AmmConfig)
  (q q' : PoolDefinition) (balance : Side → U128) (hs : Serviceable w c x cfg q balance)
  (now : U64) (hclock : ClockAt w now) (deadline : U64) (hdeadline : now.val < deadline.val)
  (price : U128) (seed : PdaSeed)
  (hspot : spotPriceQ6464 q'.reserveA q'.reserveB = .ok price)
  (hseed : computePoolPdaSeed c q.definitionTokenAId q.definitionTokenBId = .ok seed)
include hs hclock hdeadline hspot hseed

theorem accepts_addition (ua ub ul : AccountId) (a b l : U128) (hu : Holder w q ua ub ul a b l)
    (minLp maxA maxB amountA amountB deltaLp : U128) (hminLp : minLp.val ≠ 0)
    (hmaxA : maxA.val ≠ 0) (hmaxB : maxB.val ≠ 0)
    (hamounts : liquidityToAdd q minLp maxA maxB = .ok (amountA, amountB, deltaLp))
    (hupdated : addedPool q amountA amountB deltaLp = .ok q') :
    ∃ diffs, main ammProgramId (blockTimestamp w)
        ((liquidityAccounts c x q ua ub ul).map (view w authority))
        (.addLiquidity minLp maxA maxB deadline)
        = .ok (diffs, [lpMintCall tokenProgramId x q.liquidityPoolId ul deltaLp,
          transferCall tokenProgramId ub q.vaultBId amountB [],
          transferCall tokenProgramId ua q.vaultAId amountA [],
          tickCall twapOracleProgramId x price seed]) ∧
      applyDiffs ammProgramId w diffs = .ok (put ammProgramId w x (.poolDefinition q')) := by
  have hva := hs.vaults .a
  have hvb := hs.vaults .b
  refine ⟨[.unchanged (view w authority c), .new (view w authority x) (.poolDefinition q'),
    .unchanged (view w authority q.vaultAId), .unchanged (view w authority q.vaultBId),
    .unchanged (view w authority q.liquidityPoolId), .unchanged (view w authority ua),
    .unchanged (view w authority ub), .unchanged (view w authority ul),
    .unchanged (view w authority (TwapOracle.computeCurrentTickAccountPda twapOracleProgramId x)),
    .unchanged (view w authority clock01ProgramAccountId)], ?_, ?_⟩
  · simp only [liquidityAccounts, List.map_cons, List.map_nil, main, bind_eq_ok, ensure_eq_ok,
      exists_const, withTimestampValidityWindow_eq_ok, addLiquidity, decodeConfig_eq_ok,
      assertPoolInConfigNamespace_eq_ok, assertOracleAccounts_eq_ok, expect_eq_ok,
      tryFrom_poolDefinition, pure_eq_ok, Prod.exists, readVaultFungibleBalances_eq_ok]
    simp only [view_account, view_accountId]
    refine ⟨hminLp, ⟨cfg, (owned_eq_some _ _ _ _).mp hs.config, q, hs.stored.data, hs.poolOf, rfl,
      rfl, rfl, hva.owner.trans hs.tokenProgram.symm, hvb.owner.trans hs.tokenProgram.symm,
      hu.tokenA.owner.trans hs.tokenProgram.symm, hu.tokenB.owner.trans hs.tokenProgram.symm,
      ⟨trivial, by rw [hs.oracle]⟩, ⟨hmaxA, hmaxB⟩, balance .a, balance .b,
      ⟨⟨_, hva.data⟩, ⟨_, hvb.data⟩⟩, hs.covered .a, hs.covered .b, amountA, amountB, deltaLp,
      hamounts, q', hupdated, tickCall twapOracleProgramId x price seed, ?_, ?_⟩, ?_⟩
    · rw [updateTickCall_eq_ok _ _ _ _ _ _ _ _ _ rfl (by rw [hs.oracle]; rfl), hs.oracle]
      exact ⟨price, seed, hspot, hseed, rfl⟩
    · rw [hs.tokenProgram]
      rfl
    · rw [hclock.blockTimestamp_eq]
      exact hdeadline
  · simp only [applyDiffs_unchanged, applyDiffs_new, view_accountId, applyDiffs_nil, and_true]
    exact Or.inr (Or.inl ((owned_eq_some _ _ _ _).mp hs.stored).1)

theorem accepts_removal (ua ub ul : AccountId) (a b l : U128) (hu : Holder w q ua ub ul a b l)
    (hheld : HoldingAt w ul (.fungible q.liquidityPoolId l))
    (hl : l.val ≤ q.liquidityPoolSupply.val) (amount minA minB amountA amountB : U128)
    (hamount : amount.val ≠ 0) (hminA : minA.val ≠ 0) (hminB : minB.val ≠ 0)
    (hamounts : liquidityToRemove q l amount minA minB = .ok (amountA, amountB))
    (hupdated : removedPool q amountA amountB amount = .ok q') :
    ∃ diffs, main ammProgramId (blockTimestamp w)
        ((liquidityAccounts c x q ua ub ul).map (view w authority))
        (.removeLiquidity amount minA minB deadline)
        = .ok (diffs, [lpBurnCall tokenProgramId x q.liquidityPoolId ul amount,
          transferCall tokenProgramId q.vaultBId ub amountB
            [computeVaultPdaSeed x q.definitionTokenBId],
          transferCall tokenProgramId q.vaultAId ua amountA
            [computeVaultPdaSeed x q.definitionTokenAId],
          tickCall twapOracleProgramId x price seed]) ∧
      applyDiffs ammProgramId w diffs = .ok (put ammProgramId w x (.poolDefinition q')) := by
  have hva := hs.vaults .a
  have hvb := hs.vaults .b
  refine ⟨[.unchanged (view w authority c), .new (view w authority x) (.poolDefinition q'),
    .unchanged (view w authority q.vaultAId), .unchanged (view w authority q.vaultBId),
    .unchanged (view w authority q.liquidityPoolId), .unchanged (view w authority ua),
    .unchanged (view w authority ub), .unchanged (view w authority ul),
    .unchanged (view w authority (TwapOracle.computeCurrentTickAccountPda twapOracleProgramId x)),
    .unchanged (view w authority clock01ProgramAccountId)], ?_, ?_⟩
  · simp only [liquidityAccounts, List.map_cons, List.map_nil, main, bind_eq_ok, ensure_eq_ok,
      exists_const, withTimestampValidityWindow_eq_ok, removeLiquidity, decodeConfig_eq_ok,
      assertPoolInConfigNamespace_eq_ok, assertOracleAccounts_eq_ok, expect_eq_ok,
      tryFrom_poolDefinition, tryFrom_holding, pure_eq_ok, Prod.exists]
    simp only [view_account, view_accountId]
    refine ⟨hamount, ⟨cfg, (owned_eq_some _ _ _ _).mp hs.config, q, hs.stored.data, hs.poolOf,
      hs.sound.healthy.shares, rfl, rfl, rfl, hva.owner.trans hs.tokenProgram.symm,
      hvb.owner.trans hs.tokenProgram.symm, hu.tokenA.owner.trans hs.tokenProgram.symm,
      hu.tokenB.owner.trans hs.tokenProgram.symm, ⟨trivial, by rw [hs.oracle]⟩, hminA, hminB, _,
      hheld.data, l, rfl, hl, rfl, amountA, amountB, hamounts, q', hupdated,
      tickCall twapOracleProgramId x price seed, ?_, ?_⟩, ?_⟩
    · rw [updateTickCall_eq_ok _ _ _ _ _ _ _ _ _ rfl (by rw [hs.oracle]; rfl), hs.oracle]
      exact ⟨price, seed, hspot, hseed, rfl⟩
    · rw [hs.tokenProgram]
      rfl
    · rw [hclock.blockTimestamp_eq]
      exact hdeadline
  · simp only [applyDiffs_unchanged, applyDiffs_new, view_accountId, applyDiffs_nil, and_true]
    exact Or.inr (Or.inl ((owned_eq_some _ _ _ _).mp hs.stored).1)

omit hclock hdeadline in
theorem accepts_priced (side : Side) (i o : AccountId) (n m : U128)
    (hi : HoldingAt w i (.fungible (q.token side) n))
    (ho : HoldingAt w o (.fungible (q.token side.other) m))
    (context logicContext amountName : String) (pricing : U128 → U128 → U128 → Outcome SwapAmounts)
    (amounts : SwapAmounts) (swapFee protocolFee net : U128)
    (hamounts : pricing (q.reserve side) (q.reserve side.other) cfg.swapFeeBps = .ok amounts)
    (hfee : swapFee.val + amounts.effectiveAmountIn.val = amounts.amountIn.val)
    (hshare : protocolFeeAmount swapFee cfg.protocolFeeBps = .ok protocolFee)
    (hnet : net.val + protocolFee.val = amounts.amountIn.val)
    (hupdated : swappedSide q side net amounts.amountOut = .ok q') :
    swap context logicContext amountName pricing (view w authority c) (view w authority x)
        (view w authority q.vaultAId) (view w authority q.vaultBId) (view w authority i)
        (view w authority o)
        (view w authority (TwapOracle.computeCurrentTickAccountPda twapOracleProgramId x))
        (view w authority clock01ProgramAccountId)
        (view w authority (computeProtocolFeePda ammProgramId c (q.token side))) ammProgramId
      = .ok ([.unchanged (view w authority c), .new (view w authority x) (.poolDefinition q'),
          .unchanged (view w authority q.vaultAId), .unchanged (view w authority q.vaultBId),
          .unchanged (view w authority i), .unchanged (view w authority o),
          .unchanged (view w authority
            (TwapOracle.computeCurrentTickAccountPda twapOracleProgramId x)),
          .unchanged (view w authority clock01ProgramAccountId),
          .unchanged (view w authority (computeProtocolFeePda ammProgramId c (q.token side)))],
        swapCalls tokenProgramId c x i o (q.vault side) (q.vault side.other)
          (computeProtocolFeePda ammProgramId c (q.token side)) (q.token side)
          (q.token side.other) amounts protocolFee ++ [tickCall twapOracleProgramId x price seed]) := by
  have hva := hs.vaults .a
  have hvb := hs.vaults .b
  have hdistinct := hs.poolOf.distinct
  simp only [swap, validateSwapSetup_eq_ok, decodeConfig_eq_ok, assertPoolInConfigNamespace_eq_ok,
    assertOracleAccounts_eq_ok, bind_eq_ok, ensure_eq_ok, exists_const, expect_eq_ok,
    tryFrom_holding, pure_eq_ok, Prod.exists]
  simp only [view_account, view_accountId]
  have hside : q.token side = q.definitionTokenAId ∨ q.token side = q.definitionTokenBId := by
    cases side
    · exact Or.inl rfl
    · exact Or.inr rfl
  have htick : ∀ u, updateTickCall cfg.twapOracleProgramId
      (view w authority (TwapOracle.computeCurrentTickAccountPda twapOracleProgramId x))
      (view w authority x) (view w authority clock01ProgramAccountId) (view w authority c) q
      q'.reserveA q'.reserveB = .ok u ↔ u = tickCall twapOracleProgramId x price seed := by
    intro u
    rw [updateTickCall_eq_ok _ _ _ _ _ _ _ _ _ rfl (by rw [hs.oracle]; rfl), hs.oracle]
    constructor
    · rintro ⟨price', seed', hprice, hseed', rfl⟩
      rw [hspot, Except.ok.injEq] at hprice
      rw [view_accountId, hseed, Except.ok.injEq] at hseed'
      rw [hprice, hseed']
      rfl
    · rintro rfl
      exact ⟨price, seed, hspot, hseed, rfl⟩
  refine ⟨q, ⟨hs.stored.data, hs.sound.healthy.shares, rfl, rfl, balance .a, balance .b,
    ⟨⟨_, hva.data⟩, ⟨_, hvb.data⟩⟩, hs.covered .a, hs.covered .b⟩, cfg,
    (owned_eq_some _ _ _ _).mp hs.config, hs.poolOf, hva.owner.trans hs.tokenProgram.symm,
    hvb.owner.trans hs.tokenProgram.symm, _, hi.data, hside, ?_⟩
  cases side with
  | a =>
    have hA : (TokenHolding.fungible (q.token .a) n).definitionId = q.definitionTokenAId := rfl
    simp only [hA, decide_true, if_true]
    refine ⟨hi.owner.trans hs.tokenProgram.symm, ho.owner.trans hs.tokenProgram.symm, rfl,
      ⟨trivial, by rw [hs.oracle]⟩, amounts, hamounts, _, net, amounts.amountOut,
      (settleSwap_eq_ok _ _ _ _ _ _ _ _ _ _ _ _ _ _ _ hva.data hvb.data _ _ _).mpr
        ⟨swapFee, protocolFee, hfee, hshare, hnet, rfl, rfl⟩, q', hupdated, _, (htick _).mpr rfl, ?_⟩
    rw [view_account, hi.owner]
    rfl
  | b =>
    have hB : (TokenHolding.fungible (q.token .b) n).definitionId = q.definitionTokenBId := rfl
    simp only [hB, hdistinct.symm, decide_false, Bool.false_eq_true, if_false]
    refine ⟨ho.owner.trans hs.tokenProgram.symm, hi.owner.trans hs.tokenProgram.symm, rfl,
      ⟨trivial, by rw [hs.oracle]⟩, amounts, hamounts, _, net, amounts.amountOut,
      (settleSwap_eq_ok _ _ _ _ _ _ _ _ _ _ _ _ _ _ _ hvb.data hva.data _ _ _).mpr
        ⟨swapFee, protocolFee, hfee, hshare, hnet, rfl, rfl⟩, q', hupdated, _, (htick _).mpr rfl, ?_⟩
    rw [view_account, hi.owner]
    rfl

end

end LezPrograms.Amm
