import LezPrograms.Amm.Step
import LezPrograms.ConstantProduct

/-! # Instructions as moves of a constant-product pool

The stored reserves and the supply of LP tokens are a pool in the sense of the
constant-product library, and every priced instruction is one of its moves. -/

set_option autoImplicit false

namespace LezPrograms.Amm
open LezPrograms.Checked LezPrograms.Checked.Unsigned LezPrograms.Lee

def PoolDefinition.pool (q : PoolDefinition) : ConstantProduct.Pool :=
  ⟨q.reserveA.val, q.reserveB.val, q.liquidityPoolSupply.val⟩

structure SamePool (q q' : PoolDefinition) : Prop where
  tokenA : q'.definitionTokenAId = q.definitionTokenAId
  tokenB : q'.definitionTokenBId = q.definitionTokenBId
  vaultA : q'.vaultAId = q.vaultAId
  vaultB : q'.vaultBId = q.vaultBId
  liquidity : q'.liquidityPoolId = q.liquidityPoolId

theorem SamePool.token (q q' : PoolDefinition) (h : SamePool q q') (side : Side) :
    q'.token side = q.token side := by
  cases side
  · exact h.tokenA
  · exact h.tokenB

theorem SamePool.vault (q q' : PoolDefinition) (h : SamePool q q') (side : Side) :
    q'.vault side = q.vault side := by
  cases side
  · exact h.vaultA
  · exact h.vaultB

section
variable (q q' : PoolDefinition) (amountA amountB shares : U128)

def amountOn (amountA amountB : U128) : Side → U128
  | .a => amountA
  | .b => amountB

theorem addedPool_spec (h : addedPool q amountA amountB shares = .ok q') :
    SamePool q q' ∧ q'.liquidityPoolSupply.val = q.liquidityPoolSupply.val + shares.val ∧
      ∀ side, (q'.reserve side).val = (q.reserve side).val + (amountOn amountA amountB side).val := by
  simp only [addedPool, bind_eq_ok, expect_eq_ok, checkedAdd_eq_some, pure_eq_ok] at h
  obtain ⟨supply, hs, reserveA, ha, reserveB, hb, rfl⟩ := h
  refine ⟨⟨rfl, rfl, rfl, rfl, rfl⟩, hs, ?_⟩
  rintro (_ | _)
  · exact ha
  · exact hb

theorem removedPool_spec (h : removedPool q amountA amountB shares = .ok q') :
    SamePool q q' ∧ q'.liquidityPoolSupply.val + shares.val = q.liquidityPoolSupply.val ∧
      ∀ side, (q'.reserve side).val + (amountOn amountA amountB side).val = (q.reserve side).val := by
  simp only [removedPool, bind_eq_ok, expect_eq_ok, checkedSub_eq_some, pure_eq_ok] at h
  obtain ⟨supply, hs, reserveA, ha, reserveB, hb, rfl⟩ := h
  refine ⟨⟨rfl, rfl, rfl, rfl, rfl⟩, hs, ?_⟩
  rintro (_ | _)
  · exact ha
  · exact hb

theorem liquidityToAdd_spec (minLp maxA maxB : U128)
    (h : liquidityToAdd q minLp maxA maxB = .ok (amountA, amountB, shares)) :
    shares.val ≠ 0 ∧ shares.val * q.reserveA.val ≤ q.liquidityPoolSupply.val * amountA.val ∧
      shares.val * q.reserveB.val ≤ q.liquidityPoolSupply.val * amountB.val := by
  simp only [liquidityToAdd, bind_eq_ok, ensure_eq_ok, exists_const, mulDivFloor_eq_ok,
    pure_eq_ok, Prod.mk.injEq] at h
  obtain ⟨-, -, idealA, -, idealB, -, -, -, -, -, shareA, ⟨-, hA⟩, shareB, ⟨-, hB⟩, hne, -, rfl, rfl,
    rfl⟩ := h
  have hmin := minimum_val shareA shareB
  refine ⟨hne, ?_, ?_⟩
  · refine (Nat.mul_le_mul_right _ ?_).trans (Nat.div_mul_le_self _ q.reserveA.val)
    rw [hmin, ← hA]
    exact min_le_left _ _
  · refine (Nat.mul_le_mul_right _ ?_).trans (Nat.div_mul_le_self _ q.reserveB.val)
    rw [hmin, ← hB]
    exact min_le_right _ _

theorem liquidityToRemove_spec (balance minA minB : U128)
    (h : liquidityToRemove q balance shares minA minB = .ok (amountA, amountB)) :
    shares.val + 1000 ≤ q.liquidityPoolSupply.val ∧
      amountA.val * q.liquidityPoolSupply.val ≤ q.reserveA.val * shares.val ∧
      amountB.val * q.liquidityPoolSupply.val ≤ q.reserveB.val * shares.val := by
  simp only [liquidityToRemove, bind_eq_ok, ensure_eq_ok, exists_const, mulDivFloor_eq_ok,
    expect_eq_ok, checkedSub_eq_some, pure_eq_ok, Prod.mk.injEq] at h
  obtain ⟨-, -, unlocked, hunlocked, hle, a, ⟨-, hA⟩, b, ⟨-, hB⟩, -, -, rfl, rfl⟩ := h
  rw [minimumLiquidity_val] at hunlocked
  refine ⟨by omega, ?_, ?_⟩
  · rw [hA]
    exact Nat.div_mul_le_self _ _
  · rw [hB]
    exact Nat.div_mul_le_self _ _

theorem added_move (minLp maxA maxB : U128)
    (h : liquidityToAdd q minLp maxA maxB = .ok (amountA, amountB, shares))
    (hq : addedPool q amountA amountB shares = .ok q') :
    ConstantProduct.Move 1000 q.pool q'.pool := by
  obtain ⟨-, hA, hB⟩ := liquidityToAdd_spec q amountA amountB shares minLp maxA maxB h
  obtain ⟨-, hs, hr⟩ := addedPool_spec q q' amountA amountB shares hq
  have hpool : q'.pool = ⟨q.pool.first + amountA.val, q.pool.second + amountB.val,
      q.pool.shares + shares.val⟩ := by
    have hra := hr .a
    have hrb := hr .b
    simp only [PoolDefinition.reserve, amountOn] at hra hrb
    simp only [PoolDefinition.pool, hs, hra, hrb]
  rw [hpool]
  exact .deposit _ _ _ hA hB

theorem removed_move (balance minA minB : U128)
    (h : liquidityToRemove q balance shares minA minB = .ok (amountA, amountB))
    (hq : removedPool q amountA amountB shares = .ok q') :
    ConstantProduct.Move 1000 q.pool q'.pool := by
  obtain ⟨hlocked, hA, hB⟩ := liquidityToRemove_spec q amountA amountB shares balance minA minB h
  obtain ⟨-, hs, hr⟩ := removedPool_spec q q' amountA amountB shares hq
  refine .withdraw q'.pool amountA.val amountB.val shares.val hA hB ?_ (hr .a) (hr .b) hs
  change 1000 ≤ q'.liquidityPoolSupply.val
  omega

end

section
variable (reserveIn reserveOut feeBps effective : U128)

/-- The pricing of an exact input never fails; an input that does not fit pays nothing. -/
theorem swapExactInAmounts_eq_ok (amountIn out : U128) :
    swapExactInAmounts amountIn reserveIn reserveOut feeBps = .ok (effective, out) ↔
      effective.val = ConstantProduct.afterFee 10000 feeBps.val amountIn.val ∧
        out.val = if reserveIn.val + effective.val < 2 ^ 128
          then ConstantProduct.paid reserveIn.val reserveOut.val effective.val else 0 := by
  have hmultiplier : (feeBpsDenominator.saturatingSub feeBps).val = 10000 - feeBps.val := rfl
  simp only [swapExactInAmounts, bind_eq_ok, mulDivFloor_eq_ok, hmultiplier, feeBpsDenominator_val]
  constructor
  · rintro ⟨e, ⟨-, he⟩, h⟩
    split at h
    · rename_i hnone
      rw [pure_eq_ok, Prod.mk.injEq] at h
      obtain ⟨rfl, rfl⟩ := h
      rw [checkedAdd, tryFrom_eq_none] at hnone
      exact ⟨he, (if_neg (not_lt.mpr hnone)).symm⟩
    · rename_i total htotal
      rw [checkedAdd_eq_some] at htotal
      have hroom := htotal ▸ total.isLt
      split at h
      · rename_i hzero
        rw [pure_eq_ok, Prod.mk.injEq] at h
        obtain ⟨rfl, rfl⟩ := h
        refine ⟨he, ?_⟩
        rw [if_pos hroom, ConstantProduct.paid, ← htotal, hzero, Nat.div_zero, zero_val]
      · simp only [bind_eq_ok, mulDivFloor_eq_ok, pure_eq_ok, Prod.mk.injEq] at h
        obtain ⟨amount, ⟨-, hamount⟩, rfl, rfl⟩ := h
        refine ⟨he, ?_⟩
        rw [if_pos hroom, hamount, htotal, ConstantProduct.paid]
  · rintro ⟨he, hout⟩
    refine ⟨effective, ⟨by decide, he⟩, ?_⟩
    split
    · rename_i hnone
      rw [checkedAdd, tryFrom_eq_none] at hnone
      rw [if_neg (not_lt.mpr hnone)] at hout
      obtain rfl : out = zero 128 := Fin.ext hout
      rfl
    · rename_i total htotal
      rw [checkedAdd_eq_some] at htotal
      rw [if_pos (htotal ▸ total.isLt), ConstantProduct.paid, ← htotal] at hout
      split
      · rename_i hzero
        rw [hzero, Nat.div_zero] at hout
        obtain rfl : out = zero 128 := Fin.ext hout
        rfl
      · rename_i hne
        rw [bind_eq_ok]
        exact ⟨out, (mulDivFloor_eq_ok _ _ _ _).mpr ⟨hne, hout⟩, rfl⟩

theorem swapExactInAmounts_spec (amountIn out : U128)
    (h : swapExactInAmounts amountIn reserveIn reserveOut feeBps = .ok (effective, out))
    (hne : out.val ≠ 0) :
    out.val = ConstantProduct.paid reserveIn.val reserveOut.val effective.val := by
  obtain ⟨-, hout⟩ := (swapExactInAmounts_eq_ok _ _ _ _ _ _).mp h
  split at hout
  · exact hout
  · exact absurd hout hne

theorem swapExactOutAmounts_eq_ok (amountOut required : U128) :
    swapExactOutAmounts amountOut reserveIn reserveOut feeBps = .ok (some (effective, required)) ↔
      amountOut.val < reserveOut.val ∧ reserveIn.val ≠ 0 ∧ feeBps.val < 10000 ∧
        effective.val = ConstantProduct.needed reserveIn.val reserveOut.val amountOut.val ∧
        required.val = ConstantProduct.beforeFee 10000 feeBps.val effective.val := by
  unfold swapExactOutAmounts
  split
  · rename_i hnone
    rw [checkedSub_eq_none] at hnone
    simp [pure_eq_ok, not_lt.mpr hnone.le]
  · rename_i denominator hdenominator
    rw [checkedSub_eq_some] at hdenominator
    have hd : denominator.val = reserveOut.val - amountOut.val := by omega
    split
    · rename_i hzero
      simp only [pure_eq_ok, reduceCtorEq, false_iff]
      omega
    · rename_i hne
      split
      · rename_i hzero
        simp [pure_eq_ok, hzero]
      · rename_i hin
        simp only [bind_eq_ok, mulDivCeil_eq_ok, hd]
        constructor
        · rintro ⟨minimal, ⟨-, hminimal⟩, h⟩
          split at h
          · cases h
          · rename_i multiplier hmultiplier
            rw [checkedSub_eq_some, feeBpsDenominator_val] at hmultiplier
            split at h
            · cases h
            · simp only [bind_eq_ok, mulDivCeil_eq_ok, pure_eq_ok, Option.some.injEq,
                Prod.mk.injEq] at h
              obtain ⟨_, ⟨-, hrequired⟩, rfl, rfl⟩ := h
              have hkept : multiplier.val = 10000 - feeBps.val := by omega
              rw [feeBpsDenominator_val, hkept] at hrequired
              exact ⟨by omega, hin, by omega, hminimal, hrequired⟩
        · rintro ⟨-, -, hfee, hminimal, hrequired⟩
          refine ⟨effective, ⟨hd ▸ hne, hminimal⟩, ?_⟩
          rw [checkedSub_of_le _ _ (by rw [feeBpsDenominator_val]; exact hfee.le)]
          have hkept : feeBpsDenominator.val - feeBps.val ≠ 0 := Nat.sub_ne_zero_of_lt hfee
          refine (if_neg hkept).trans ?_
          rw [bind_eq_ok]
          exact ⟨required, (mulDivCeil_eq_ok _ _ _ _).mpr ⟨hkept, hrequired⟩, rfl⟩

theorem swapExactOutAmounts_spec (amountOut required : U128)
    (h : swapExactOutAmounts amountOut reserveIn reserveOut feeBps
      = .ok (some (effective, required))) :
    amountOut.val < reserveOut.val ∧
      effective.val = ConstantProduct.needed reserveIn.val reserveOut.val amountOut.val := by
  obtain ⟨hlt, -, -, heffective, -⟩ := (swapExactOutAmounts_eq_ok _ _ _ _ _ _).mp h
  exact ⟨hlt, heffective⟩

end

/-- What a swap pays keeps the product of the reserves, priced by the effective input. -/
theorem Priced.product (reserveIn reserveOut feeBps : U128) (instruction : Instruction)
    (amounts : SwapAmounts) (h : Priced reserveIn reserveOut feeBps instruction amounts) :
    amounts.amountOut.val ≠ 0 ∧
      reserveIn.val * reserveOut.val ≤ (reserveIn.val + amounts.effectiveAmountIn.val)
        * (reserveOut.val - amounts.amountOut.val) := by
  cases h with
  | exactInput swapAmountIn minAmountOut deadline amounts priced =>
    simp only [exactInputAmounts, bind_eq_ok, ensure_eq_ok, exists_const, Prod.exists,
      pure_eq_ok] at priced
    obtain ⟨effective, out, hamounts, -, -, hne, rfl⟩ := priced
    refine ⟨hne, ?_⟩
    rw [swapExactInAmounts_spec _ _ _ _ _ _ hamounts hne]
    exact ConstantProduct.product_le_paid _ _ _
  | exactOutput exactAmountOut maxAmountIn deadline amounts priced =>
    simp only [exactOutputAmounts, bind_eq_ok, ensure_eq_ok, exists_const, expect_eq_ok,
      Prod.exists, pure_eq_ok] at priced
    obtain ⟨hne, -, priced', hamounts, effective, required, rfl, -, rfl⟩ := priced
    obtain ⟨hlt, heffective⟩ := swapExactOutAmounts_spec _ _ _ _ _ _ hamounts
    refine ⟨hne, ?_⟩
    rw [heffective]
    exact ConstantProduct.product_le_needed _ _ _ hlt

/-- What comes in on `side` and what goes out on the other. -/
theorem swappedSide_spec (q q' : PoolDefinition) (side : Side) (deposit withdraw : U128)
    (h : swappedSide q side deposit withdraw = .ok q') :
    SamePool q q' ∧ q'.liquidityPoolSupply = q.liquidityPoolSupply ∧
      (q'.reserve side).val = (q.reserve side).val + deposit.val ∧
      (q'.reserve side.other).val + withdraw.val = (q.reserve side.other).val := by
  cases side with
  | a =>
    simp only [swappedSide, swappedPool, bind_eq_ok, expect_eq_ok, checkedAdd_eq_some,
      checkedSub_eq_some, zero_val, pure_eq_ok] at h
    obtain ⟨grownA, h1, reserveA, h2, grownB, h3, reserveB, h4, rfl⟩ := h
    refine ⟨⟨rfl, rfl, rfl, rfl, rfl⟩, rfl, ?_, ?_⟩
    · change reserveA.val = q.reserveA.val + deposit.val
      omega
    · change reserveB.val + withdraw.val = q.reserveB.val
      omega
  | b =>
    simp only [swappedSide, swappedPool, bind_eq_ok, expect_eq_ok, checkedAdd_eq_some,
      checkedSub_eq_some, zero_val, pure_eq_ok] at h
    obtain ⟨grownA, h1, reserveA, h2, grownB, h3, reserveB, h4, rfl⟩ := h
    refine ⟨⟨rfl, rfl, rfl, rfl, rfl⟩, rfl, ?_, ?_⟩
    · change reserveB.val = q.reserveB.val + deposit.val
      omega
    · change reserveA.val + withdraw.val = q.reserveA.val
      omega

/-- The protocol's share never exceeds the fee, so the reserve keeps the effective input. -/
theorem effective_le_net (protocolFeeBps : U128) (hcfg : protocolFeeBps.val ≤ 10000)
    (amounts : SwapAmounts) (swapFee protocolFee net : U128)
    (hfee : swapFee.val + amounts.effectiveAmountIn.val = amounts.amountIn.val)
    (hshare : protocolFeeAmount swapFee protocolFeeBps = .ok protocolFee)
    (hrest : net.val + protocolFee.val = amounts.amountIn.val) :
    amounts.effectiveAmountIn.val ≤ net.val := by
  rw [protocolFeeAmount, mulDivFloor_eq_ok, feeBpsDenominator_val] at hshare
  have hle : protocolFee.val ≤ swapFee.val := by
    rw [hshare.2]
    exact Nat.div_le_of_le_mul (by rw [Nat.mul_comm]; exact Nat.mul_le_mul_right _ hcfg)
  omega

theorem swapped_move (q q' : PoolDefinition) (side : Side) (cfg : AmmConfig)
    (hcfg : cfg.protocolFeeBps.val ≤ 10000) (instruction : Instruction) (amounts : SwapAmounts)
    (swapFee protocolFee net : U128)
    (priced : Priced (q.reserve side) (q.reserve side.other) cfg.swapFeeBps instruction amounts)
    (hfee : swapFee.val + amounts.effectiveAmountIn.val = amounts.amountIn.val)
    (hshare : protocolFeeAmount swapFee cfg.protocolFeeBps = .ok protocolFee)
    (hrest : net.val + protocolFee.val = amounts.amountIn.val)
    (updated : swappedSide q side net amounts.amountOut = .ok q') :
    ConstantProduct.Move 1000 q.pool q'.pool := by
  have hnet := effective_le_net _ hcfg amounts swapFee protocolFee net hfee hshare hrest
  obtain ⟨-, hproduct⟩ := priced.product
  obtain ⟨-, hs, hin, hout⟩ := swappedSide_spec q q' side net amounts.amountOut updated
  have hrest' : (q.reserve side.other).val - amounts.amountOut.val
      = (q'.reserve side.other).val := by omega
  rw [hrest'] at hproduct
  cases side with
  | a =>
    have hpool : q'.pool = ⟨q.pool.first + net.val, q'.reserveB.val, q.pool.shares⟩ := by
      simp only [PoolDefinition.reserve] at hin
      simp only [PoolDefinition.pool, hs, hin]
    rw [hpool]
    exact .trade net.val amounts.effectiveAmountIn.val amounts.amountOut.val _ hnet hproduct hout
  | b =>
    have hpool : q'.pool = ⟨q'.reserveA.val, q.pool.second + net.val, q.pool.shares⟩ := by
      simp only [PoolDefinition.reserve] at hin
      simp only [PoolDefinition.pool, hs, hin]
    rw [hpool]
    exact .tradeBack net.val amounts.effectiveAmountIn.val amounts.amountOut.val _ hnet hproduct hout

theorem synced_move (q : PoolDefinition) (balance : Side → U128)
    (covers : ∀ side, (q.reserve side).val ≤ (balance side).val) :
    ConstantProduct.Move 1000 q.pool
      { q with reserveA := balance .a, reserveB := balance .b : PoolDefinition }.pool := by
  have hA : (balance .a).val = q.reserveA.val + ((balance .a).val - q.reserveA.val) :=
    (Nat.add_sub_of_le (covers .a)).symm
  have hB : (balance .b).val = q.reserveB.val + ((balance .b).val - q.reserveB.val) :=
    (Nat.add_sub_of_le (covers .b)).symm
  have hmove : ConstantProduct.Move 1000 q.pool _ := .donate
    ((balance .a).val - q.reserveA.val) ((balance .b).val - q.reserveB.val)
  simp only [PoolDefinition.pool] at hmove ⊢
  rwa [← hA, ← hB] at hmove

end LezPrograms.Amm
