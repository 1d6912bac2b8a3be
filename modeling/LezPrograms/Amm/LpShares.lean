import LezPrograms.Amm.Failures
import LezPrograms.Amm.Reachable

/-! # LP shares

The LP tokens in circulation are at most what the pool counts, and the lock keeps
its minimum of them. No holder can therefore ask for so much that the locked minimum
would be touched. -/

set_option autoImplicit false

namespace LezPrograms.Amm
open LezPrograms.Checked LezPrograms.Lee LezPrograms.Token

/-- What the LP tokens of a holder and the locked ones come to. -/
theorem PoolSound.unlocked (w : Accounts) (x : AccountId) (q : PoolDefinition)
    (h : PoolSound w x q) (hconserved : Conserved w) (u : AccountId)
    (hu : u ≠ computeLpLockHoldingPda ammProgramId x) (balance : U128)
    (hb : HoldingAt w u (.fungible q.liquidityPoolId balance)) :
    balance.val + minimumLiquidity.val ≤ q.liquidityPoolSupply.val := by
  obtain ⟨lock, hlock, htoken, hkind, hminimum⟩ := h.lock
  obtain ⟨locked, hlocked⟩ := lock.eq_fungible_of_kind hkind
  rw [hlocked, htoken] at hlock
  rw [hlocked] at hminimum
  obtain ⟨accounts, hcovers, htotal⟩ := hconserved
  have hsum := hcovers.unitsOf_add_le w accounts q.liquidityPoolId u _ (hcovers u _ hb) hu
  rw [htotal, hb.unitsOf_eq, hlock.unitsOf_eq] at hsum
  obtain ⟨d, hd, -, -, hsupply⟩ := h.liquidity
  have hrecorded : supplyOf w q.liquidityPoolId ≤ d.supply := by
    rw [supplyOf, hd, Option.elim_some]
    cases d with
    | fungible => exact le_rfl
    | nonFungible => exact Nat.zero_le _
  have hval : (1000 : ℕ) = minimumLiquidity.val := minimumLiquidity_val.symm
  change 1000 ≤ locked.val at hminimum
  omega

/-- The errors of a removal that would touch the locked minimum. -/
def lockedTexts : List String :=
  ["Pool liquidity supply is below minimum liquidity", "Pool only contains locked liquidity",
    "liquidity supply must be at least the locked minimum after validation",
    "Cannot remove locked minimum liquidity"]

theorem unlocked_liquidityToRemove (q : PoolDefinition) (balance amount minA minB : U128)
    (hamount : amount.val ≠ 0) (hle : amount.val ≤ balance.val)
    (hb : balance.val + minimumLiquidity.val ≤ q.liquidityPoolSupply.val) :
    Avoids lockedTexts (liquidityToRemove q balance amount minA minB) := by
  have habove : minimumLiquidity.val < q.liquidityPoolSupply.val := by omega
  have hsub := Unsigned.checkedSub_of_le q.liquidityPoolSupply minimumLiquidity (by omega)
  refine Avoids.bind _ _ _ (avoids_ensure _ _ _ (Or.inr habove)) fun _ _ => ?_
  refine Avoids.guard _ _ _ _ (by decide) fun _ => ?_
  refine Avoids.bind _ _ _ (avoids_expect _ _ _ (Or.inr (by rw [hsub]; exact Option.some_ne_none _)))
    fun rest hrest => ?_
  have hval := (Unsigned.checkedSub_eq_some _ _ _).mp ((expect_eq_ok _ _ _).mp hrest)
  refine Avoids.bind _ _ _ (avoids_ensure _ _ _ (Or.inr (by omega))) fun _ _ => ?_
  refine Avoids.bind _ _ _ (avoids_mulDivFloor _ _ _ _ (by decide) (Or.inr (by decide))) fun _ _ => ?_
  refine Avoids.bind _ _ _ (avoids_mulDivFloor _ _ _ _ (by decide) (Or.inr (by decide))) fun _ _ => ?_
  exact Avoids.guard _ _ _ _ (by decide) fun _ => Avoids.guard _ _ _ _ (by decide) fun _ =>
    avoids_pure _ _

theorem unlocked_removeLiquidity (config pool vaultA vaultB lp ua ub ul tick clock : InputAccount)
    (self : AccountId) (q : PoolDefinition) (hq : pool.account.data = .poolDefinition q)
    (held : Holding) (hheld : ul.account.data = .tokenHolding held) (amount minA minB : U128)
    (hsupply : minimumLiquidity.val ≤ q.liquidityPoolSupply.val) (hamount : amount.val ≠ 0)
    (hle : amount.val ≤ held.units)
    (hb : ∀ balance, held = .fungible q.liquidityPoolId balance →
      balance.val + minimumLiquidity.val ≤ q.liquidityPoolSupply.val) :
    Avoids lockedTexts (removeLiquidity config pool vaultA vaultB lp ua ub ul tick clock amount minA
      minB self) := by
  simp only [removeLiquidity]
  refine Avoids.bind _ _ _ (avoids_decodeConfig _ _ _ _ (by decide)) fun cfg _ => ?_
  refine Avoids.bind _ _ _ (avoids_expect _ _ _ (Or.inl (by decide))) fun stored hstored => ?_
  rw [expect_eq_ok, tryFrom_poolDefinition, hq, Data.poolDefinition.injEq] at hstored
  subst hstored
  refine Avoids.bind _ _ _ (avoids_assertPoolInConfigNamespace _ _ _ _ _ _ (by decide)) fun _ _ => ?_
  refine Avoids.bind _ _ _ (avoids_ensure _ _ _ (Or.inr hsupply)) fun _ _ => ?_
  iterate 7 refine Avoids.guard _ _ _ _ (by decide) fun _ => ?_
  refine Avoids.bind _ _ _ (avoids_assertOracleAccounts _ _ _ _ _ _ (by decide)) fun _ _ => ?_
  iterate 2 refine Avoids.guard _ _ _ _ (by decide) fun _ => ?_
  refine Avoids.bind _ _ _ (avoids_expect _ _ _ (Or.inl (by decide))) fun holding hholding => ?_
  rw [expect_eq_ok, tryFrom_holding, hheld, Data.tokenHolding.injEq] at hholding
  subst hholding
  refine Avoids.bind _ _ _ ?_ fun balance hbalance => ?_
  · cases held with
    | fungible d balance => exact avoids_pure _ _
    | _ => exact avoids_error _ _ (by decide)
  refine Avoids.guard _ _ _ _ (by decide) fun _ => ?_
  refine Avoids.guard _ _ _ _ (by decide) fun htoken => ?_
  have hfungible : held = .fungible q.liquidityPoolId balance := by
    cases held with
    | fungible d b =>
      change d = _ at htoken
      rw [htoken, (pure_eq_ok _ _).mp hbalance]
    | nftMaster => exact absurd hbalance (error_ne_ok _ _)
    | nftPrintedCopy => exact absurd hbalance (error_ne_ok _ _)
  subst hfungible
  refine Avoids.bind _ _ _ (unlocked_liquidityToRemove _ _ _ _ _ hamount hle (hb _ rfl))
    fun amounts _ => ?_
  refine Avoids.bind _ _ _ (avoids_removedPool _ _ _ _ _ (by decide)) fun q' _ => ?_
  exact Avoids.bind _ _ _ (avoids_updateTickCall _ _ _ _ _ _ _ _ _ (by decide)
    (avoids_spotPriceQ6464 _ _ _ (by decide) (Or.inr (by decide)))) fun _ _ => avoids_pure _ _

/-- From any reachable state of a pool: the LP tokens are at most what the pool counts, the lock
keeps its minimum over every later run, and no holder's removal is rejected on account of it. -/
theorem locked_minimum_never_rejects (platform : Platform) (genesis : Genesis) (events : List Event)
    (x : AccountId) (q : PoolDefinition)
    (hq : PoolAt (run platform genesis.world events) x q) :
    (∃ name supply metadataId mintAuthority,
      DefinitionAt (run platform genesis.world events) q.liquidityPoolId
        (.fungible name supply metadataId mintAuthority) ∧
      supply.val ≤ q.liquidityPoolSupply.val) ∧
    (∀ later, ∃ balance, HoldingAt (run platform genesis.world (events ++ later))
      (computeLpLockHoldingPda ammProgramId x) (.fungible q.liquidityPoolId balance) ∧
      minimumLiquidity.val ≤ balance.val) ∧
    ∀ u held amount, u ≠ computeLpLockHoldingPda ammProgramId x →
      HoldingAt (run platform genesis.world events) u held →
      held.definitionId = q.liquidityPoolId → amount.val ≤ held.units →
      ∀ now authority c vaultA vaultB lp ua ub tick clock minA minB deadline message,
        main ammProgramId now ([c, x, vaultA, vaultB, lp, ua, ub, u, tick, clock].map
          (view (run platform genesis.world events) authority))
          (.removeLiquidity amount minA minB deadline) = .error message →
        message ∉ lockedTexts := by
  obtain ⟨hbare, hsound⟩ := run_sound platform genesis events
  have hs := hsound.pools x q hq
  refine ⟨?_, fun later => ?_, ?_⟩
  · obtain ⟨d, hd, hfungible, -, hsupply⟩ := hs.liquidity
    cases d with
    | fungible name supply metadataId mintAuthority =>
      exact ⟨name, supply, metadataId, mintAuthority, hd, hsupply⟩
    | nonFungible => cases hfungible
  · rw [run_append]
    obtain ⟨q', hq', hsame, -⟩ := pool_run platform _ hbare hsound x q hq later
    rw [← run_append] at hq' ⊢
    obtain ⟨lock, hlock, htoken, hkind, hminimum⟩ :=
      ((run_sound platform genesis (events ++ later)).2.pools x q' hq').lock
    obtain ⟨balance, hbalance⟩ := lock.eq_fungible_of_kind hkind
    rw [hbalance, htoken, hsame.liquidity] at hlock
    rw [hbalance] at hminimum
    exact ⟨balance, hlock, hminimum⟩
  · intro u held amount hu hheld htoken hle now authority c vaultA vaultB lp ua ub tick clock minA
      minB deadline message herror hm
    have hconserved := (run_conserved platform genesis events).2
    refine Avoids.guard _ _ _ _ (by decide) (fun hamount => ?_) message hm herror
    refine avoids_window _ _ _ _ (by decide) ?_
    refine unlocked_removeLiquidity _ _ _ _ _ _ _ _ _ _ _ q hq.data held hheld.data _ _ _
      hs.healthy.shares hamount hle fun balance hb => ?_
    subst hb
    exact hs.unlocked _ x q hconserved u hu balance hheld

/-- The creator of the first pool may take out all of the LP tokens. -/
theorem first_holder_not_rejected :
    (∃ balance, HoldingAt (run tablePlatform (clockedGenesis 0).world (firstPoolEvents ++ []))
      (computeLpLockHoldingPda ammProgramId firstPoolId)
        (.fungible firstPool.liquidityPoolId balance) ∧ minimumLiquidity.val ≤ balance.val) ∧
    ∀ now authority deadline message, main ammProgramId now ([firstConfigId, firstPoolId,
      firstPool.vaultAId, firstPool.vaultBId, firstPool.liquidityPoolId, .key 21, .key 23, .key 24,
      firstTickId, clock01ProgramAccountId].map (view firstPoolWorld authority))
      (.removeLiquidity 19000 1 1 deadline) = .error message → message ∉ lockedTexts := by
  obtain ⟨-, hlock, hholder⟩ := locked_minimum_never_rejects tablePlatform (clockedGenesis 0)
    firstPoolEvents firstPoolId firstPool (by unfold PoolAt; decide +kernel)
  refine ⟨hlock [], fun now authority deadline message => ?_⟩
  exact hholder (.key 24) (.fungible firstPool.liquidityPoolId 19000) 19000 (by decide)
    (by unfold HoldingAt; decide +kernel) rfl le_rfl now authority _ _ _ _ _ _ _ _ _ _ deadline
    message

end LezPrograms.Amm
