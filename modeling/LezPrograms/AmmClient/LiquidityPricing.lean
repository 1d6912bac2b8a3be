import LezPrograms.Amm.Completion
import LezPrograms.AmmClient.Liquidity

/-! # Quotes price like the program

A quote for an addition or a removal is shown exactly when the program prices the same
amounts, apart from the bound for slippage, which must not round to zero. -/

set_option autoImplicit false

namespace LezPrograms.AmmClient
open LezPrograms.Checked LezPrograms.Checked.Unsigned LezPrograms.Lee LezPrograms.Amm

@[simp] theorem orient_orient {α : Type} (side : Side) (pair : α × α) :
    orient side (orient side pair) = pair := by
  cases side <;> rfl

theorem orient_forall {α : Type} (side : Side) (P : α → Prop) (a b : α) (ha : P a) (hb : P b) :
    P (orient side (a, b)).1 ∧ P (orient side (a, b)).2 := by
  cases side with
  | a => exact ⟨ha, hb⟩
  | b => exact ⟨hb, ha⟩

theorem positiveAmount_ne_zero (raw : Option String) (n : U128) (h : positiveAmount raw = .ok n) :
    n.val ≠ 0 := by
  simp only [positiveAmount, bind_eq_ok, ensure_eq_ok, exists_const, pure_eq_ok] at h
  obtain ⟨_, -, -, m, -, hm, rfl⟩ := h
  exact hm

/-- A part of an amount below the whole. -/
theorem floor_le (n complement : ℕ) (h : complement ≤ 10000) : n * complement / 10000 ≤ n := by
  refine Nat.div_le_of_le_mul ?_
  rw [Nat.mul_comm 10000]
  exact Nat.mul_le_mul_left n h

theorem slippageComplement_val (slippageBps : U32) :
    (feeBpsDenominator.saturatingSub (widen slippageBps (by decide))).val
      = 10000 - slippageBps.val := by
  rw [saturatingSub_val, widen_val, feeBpsDenominator_val]

/-- The bound for slippage fits. -/
theorem mulDivFloor_slippage (n : U128) (slippageBps : U32) :
    ∃ bound, mulDivFloor n (feeBpsDenominator.saturatingSub (widen slippageBps (by decide)))
      feeBpsDenominator = .ok bound ∧ bound.val ≤ n.val := by
  have hle := floor_le n.val (10000 - slippageBps.val) (Nat.sub_le _ _)
  refine ⟨⟨_, lt_of_le_of_lt hle n.isLt⟩, (mulDivFloor_eq_ok _ _ _ _).mpr ⟨by decide, ?_⟩, hle⟩
  rw [slippageComplement_val, feeBpsDenominator_val]

theorem clamp_eq (limit ideal : U128) :
    (if limit.val < ideal.val then limit else ideal) = ideal.minimum limit := by
  refine Fin.ext ?_
  rw [minimum_val]
  split <;> omega

section
variable (request : AddLiquidityQuoteRequest) (q : PoolDefinition)
  (hpool : request.poolData = .poolDefinition q)
include hpool

/-- The program prices what a quote shows. -/
theorem addLiquidityQuote_priced (quote : AddLiquidityQuote)
    (h : addLiquidityQuote request = .ok quote) :
    ∃ side maxA maxB, request.tokenAId ≠ request.tokenBId ∧
      positiveAmount (some request.maxAmountA) = .ok maxA ∧
      positiveAmount (some request.maxAmountB) = .ok maxB ∧
      sideOf q request.tokenAId request.tokenBId = .ok side ∧
      quote.amountA.val ≠ 0 ∧ quote.amountB.val ≠ 0 ∧ quote.minimumLp.val ≠ 0 ∧
      quote.lpDefinitionId = q.liquidityPoolId ∧
      liquidityToAdd q quote.minimumLp (orient side (maxA, maxB)).1 (orient side (maxA, maxB)).2
        = .ok ((orient side (quote.amountA, quote.amountB)).1,
          (orient side (quote.amountA, quote.amountB)).2, quote.expectedLp) := by
  simp only [addLiquidityQuote, bind_eq_ok, ensure_eq_ok, exists_const, hpool, decodePool_eq_ok,
    Data.poolDefinition.injEq, pure_eq_ok] at h
  obtain ⟨hne, maxA, hmaxA, maxB, hmaxB, -, _, ⟨rfl, -⟩, side, hside, ⟨hA, hB⟩, idealA, hidealA,
    idealB, hidealB, shareA, hshareA, shareB, hshareB, ⟨hpositiveA, hpositiveB, hshares⟩, minimum,
    hminimum, hbound, price, -, rfl⟩ := h
  obtain ⟨bound, hfloor, hle⟩ := mulDivFloor_slippage (shareA.minimum shareB) request.slippageBps
  rw [hfloor, Except.ok.injEq] at hminimum
  subst hminimum
  obtain ⟨hfirst, hsecond⟩ := orient_forall side (fun n : U128 => n.val ≠ 0) _ _ hpositiveA hpositiveB
  refine ⟨side, maxA, maxB, hne, hmaxA, hmaxB, hside, hfirst, hsecond, hbound, rfl, ?_⟩
  simp only [liquidityToAdd, bind_eq_ok, ensure_eq_ok, exists_const, pure_eq_ok, clamp_eq,
    Prod.mk.injEq, Prod.mk.eta, orient_orient]
  exact ⟨hA, hB, idealA, hidealA, idealB, hidealB, (minimum_val _ _).trans_le (min_le_right _ _),
    (minimum_val _ _).trans_le (min_le_right _ _), hpositiveA, hpositiveB, shareA, hshareA, shareB,
    hshareB, hshares, hle, rfl, rfl, rfl⟩

/-- A quote is shown for whatever the program prices, or the bound rounds to zero. -/
theorem addLiquidityQuote_shown (maxA maxB : U128) (side : Side)
    (hne : request.tokenAId ≠ request.tokenBId)
    (hmaxA : positiveAmount (some request.maxAmountA) = .ok maxA)
    (hmaxB : positiveAmount (some request.maxAmountB) = .ok maxB)
    (hslippage : request.slippageBps.val < 10000)
    (hsupply : q.liquidityPoolSupply.val ≠ 0)
    (hside : sideOf q request.tokenAId request.tokenBId = .ok side) (minLp : U128)
    (amounts : U128 × U128 × U128)
    (h : liquidityToAdd q minLp (orient side (maxA, maxB)).1 (orient side (maxA, maxB)).2
      = .ok amounts) :
    (∃ quote, addLiquidityQuote request = .ok quote) ∨
      addLiquidityQuote request = .error "minimum_lp_zero" := by
  simp only [liquidityToAdd, bind_eq_ok, ensure_eq_ok, exists_const, pure_eq_ok, clamp_eq] at h
  obtain ⟨hA, hB, idealA, hidealA, idealB, hidealB, -, -, hpositiveA, hpositiveB, shareA, hshareA,
    shareB, hshareB, hshares, -⟩ := h
  obtain ⟨bound, hfloor, -⟩ := mulDivFloor_slippage (shareA.minimum shareB) request.slippageBps
  obtain ⟨price, hprice⟩ := spotPrice_succeeds (q.reserve side) (q.reserve side.other) (by
    cases side with
    | a => exact hA
    | b => exact hB)
  have hcap : request.slippageBps.val < feeBpsDenominator.val := hslippage
  have hdecode : decodePool request.poolData = .ok q := (decodePool_eq_ok _ _).mpr ⟨hpool, hsupply⟩
  simp only [addLiquidityQuote, ensure_pos _ _ hne, ensure_pos _ _ hcap, hmaxA, hmaxB, hdecode, hside,
    hidealA, hidealB, hshareA, hshareB, hfloor, hprice, ok_bind, ensure_pos _ _ (And.intro hA hB),
    ensure_pos _ _ (And.intro hpositiveA (And.intro hpositiveB hshares))]
  by_cases hbound : bound.val ≠ 0
  · rw [ensure_pos _ _ hbound]
    exact Or.inl ⟨_, rfl⟩
  · rw [ensure, if_neg hbound]
    exact Or.inr rfl

end

section
variable (request : RemoveLiquidityQuoteRequest) (q : PoolDefinition)
  (hpool : request.poolData = .poolDefinition q)
include hpool

theorem removeLiquidityQuote_priced (quote : RemoveLiquidityQuote)
    (h : removeLiquidityQuote request = .ok quote) :
    ∃ side amount, request.tokenAId ≠ request.tokenBId ∧
      positiveAmount (some request.lpAmount) = .ok amount ∧
      sideOf q request.tokenAId request.tokenBId = .ok side ∧
      quote.minimumAmountA.val ≠ 0 ∧ quote.minimumAmountB.val ≠ 0 ∧
      ∀ l : U128, amount.val ≤ l.val → liquidityToRemove q l amount
        (orient side (quote.minimumAmountA, quote.minimumAmountB)).1
        (orient side (quote.minimumAmountA, quote.minimumAmountB)).2
          = .ok ((orient side (quote.amountA, quote.amountB)).1,
            (orient side (quote.amountA, quote.amountB)).2) := by
  simp only [removeLiquidityQuote, bind_eq_ok, ensure_eq_ok, exists_const, hpool, decodePool_eq_ok,
    Data.poolDefinition.injEq, expect_eq_ok, Option.filter_eq_some_iff, checkedSub_eq_some,
    decide_eq_true_eq, pure_eq_ok] at h
  obtain ⟨hne, amount, hamount, -, _, ⟨rfl, -⟩, ⟨hA, hB⟩, unlocked, ⟨hunlocked, hpositive⟩, hle,
    side, hside, partA, hpartA, partB, hpartB, ⟨hpartsA, hpartsB⟩, floorA, hfloorA, floorB, hfloorB,
    ⟨hboundA, hboundB⟩, price, -, rfl⟩ := h
  obtain ⟨lowA, hslipA, hleA⟩ := mulDivFloor_slippage partA request.slippageBps
  obtain ⟨lowB, hslipB, hleB⟩ := mulDivFloor_slippage partB request.slippageBps
  rw [hslipA, Except.ok.injEq] at hfloorA
  rw [hslipB, Except.ok.injEq] at hfloorB
  subst hfloorA hfloorB
  obtain ⟨hfirst, hsecond⟩ := orient_forall side (fun n : U128 => n.val ≠ 0) _ _ hboundA hboundB
  refine ⟨side, amount, hne, hamount, hside, hfirst, hsecond, fun l hl => ?_⟩
  simp only [liquidityToRemove, bind_eq_ok, ensure_eq_ok, exists_const, expect_eq_ok,
    checkedSub_eq_some, pure_eq_ok, Prod.mk.injEq, Prod.mk.eta, orient_orient]
  exact ⟨by omega, hl, unlocked, hunlocked, hle, partA, hpartA, partB, hpartB, hleA, hleB, rfl, rfl⟩

theorem removeLiquidityQuote_shown (amount : U128) (side : Side)
    (hne : request.tokenAId ≠ request.tokenBId)
    (hamount : positiveAmount (some request.lpAmount) = .ok amount)
    (hslippage : request.slippageBps.val < 10000)
    (hA : q.reserveA.val ≠ 0) (hB : q.reserveB.val ≠ 0)
    (hside : sideOf q request.tokenAId request.tokenBId = .ok side) (l minA minB : U128)
    (hminA : minA.val ≠ 0) (hminB : minB.val ≠ 0) (amounts : U128 × U128)
    (h : liquidityToRemove q l amount minA minB = .ok amounts) :
    (∃ quote, removeLiquidityQuote request = .ok quote) ∨
      removeLiquidityQuote request = .error "minimum_amount_zero" := by
  simp only [liquidityToRemove, bind_eq_ok, ensure_eq_ok, exists_const, expect_eq_ok,
    checkedSub_eq_some, pure_eq_ok] at h
  obtain ⟨habove, -, unlocked, hunlocked, hle, partA, hpartA, partB, hpartB, hleA, hleB, -⟩ := h
  have hparts : partA.val ≠ 0 ∧ partB.val ≠ 0 := by omega
  obtain ⟨floorA, hfloorA, -⟩ := mulDivFloor_slippage partA request.slippageBps
  obtain ⟨floorB, hfloorB, -⟩ := mulDivFloor_slippage partB request.slippageBps
  obtain ⟨price, hprice⟩ := spotPrice_succeeds (q.reserve side) (q.reserve side.other) (by
    cases side with
    | a => exact hA
    | b => exact hB)
  have hcap : request.slippageBps.val < feeBpsDenominator.val := hslippage
  have hdecode : decodePool request.poolData = .ok q :=
    (decodePool_eq_ok _ _).mpr ⟨hpool, by omega⟩
  have hexpect : expect ((q.liquidityPoolSupply.checkedSub minimumLiquidity).filter
      fun unlocked => 0 < unlocked.val) "no_pool" = .ok unlocked := by
    rw [expect_eq_ok, Option.filter_eq_some_iff, checkedSub_eq_some, decide_eq_true_eq]
    exact ⟨hunlocked, by omega⟩
  simp only [removeLiquidityQuote, ensure_pos _ _ hne, ensure_pos _ _ hcap, hamount, hdecode, hside,
    hexpect, hpartA, hpartB, hfloorA, hfloorB, hprice, ok_bind, ensure_pos _ _ (And.intro hA hB), ensure_pos _ _ hle,
    ensure_pos _ _ hparts]
  by_cases hbound : floorA.val ≠ 0 ∧ floorB.val ≠ 0
  · rw [ensure_pos _ _ hbound]
    exact Or.inl ⟨_, rfl⟩
  · rw [ensure, if_neg hbound]
    exact Or.inr rfl

end

end LezPrograms.AmmClient
