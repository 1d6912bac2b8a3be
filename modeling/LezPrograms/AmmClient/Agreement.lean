import LezPrograms.AmmClient.Swap

/-! # Quotes and prices of swaps

Both quotes move the amounts that the program prices. They also refuse what the program
prices when a value for the display does not fit, which only the quote of an exact output
can run into on the pools that the program creates. -/

set_option autoImplicit false

namespace LezPrograms.AmmClient
open LezPrograms.Checked LezPrograms.Checked.Unsigned LezPrograms.Lee LezPrograms.Amm

/-- The impact of an exact input is always displayed. -/
theorem priceImpactBps_succeeds (amountIn amountOut reserveIn reserveOut : U128) :
    ∃ impact, priceImpactBps amountIn amountOut reserveIn reserveOut = .ok impact := by
  unfold priceImpactBps
  split
  · exact ⟨_, rfl⟩
  · rename_i hin
    have hproduct : checkedMul (widen reserveOut (by decide) : U256) (widen amountIn (by decide))
        = some ⟨_, product_lt reserveOut amountIn⟩ := (checkedMul_eq_some _ _ _).mpr rfl
    rw [hproduct, expect_some, ok_bind]
    have hspot := (checkedDiv_eq_some (⟨_, product_lt reserveOut amountIn⟩ : U256)
      (widen reserveIn (by decide)) ⟨_, lt_of_le_of_lt (Nat.div_le_self _ reserveIn.val)
        (product_lt reserveOut amountIn)⟩).mpr ⟨hin, rfl⟩
    rw [hspot, expect_some, ok_bind]
    split
    · exact ⟨_, rfl⟩
    · rename_i hne
      have hscaled : checkedMul (widen feeBpsDenominator (by decide) : U256)
          (widen amountOut (by decide)) = some ⟨_, product_lt feeBpsDenominator amountOut⟩ :=
        (checkedMul_eq_some _ _ _).mpr rfl
      rw [hscaled, expect_some, ok_bind]
      have hkept := (checkedDiv_eq_some (⟨_, product_lt feeBpsDenominator amountOut⟩ : U256) _
        ⟨_, lt_of_le_of_lt (Nat.div_le_self _ _) (product_lt feeBpsDenominator amountOut)⟩).mpr
          ⟨hne, rfl⟩
      rw [hkept]
      exact ⟨_, rfl⟩

theorem costImpactBps_succeeds_iff (requiredIn spotIn : U128) :
    (∃ impact, costImpactBps requiredIn spotIn = .ok impact) ↔
      (requiredIn.val - spotIn.val) * 10000 / spotIn.val < 2 ^ 128 := by
  have hdifference : (requiredIn.saturatingSub spotIn).val = requiredIn.val - spotIn.val := rfl
  unfold costImpactBps
  split
  · rename_i hzero
    rw [hzero, Nat.div_zero]
    exact iff_of_true ⟨_, rfl⟩ (Nat.two_pow_pos 128)
  · rename_i hne
    simp only [bind_eq_ok, mulDivFloor_eq_ok, hdifference, feeBpsDenominator_val, pure_eq_ok]
    constructor
    · rintro ⟨_, impact, ⟨-, himpact⟩, -⟩
      exact himpact ▸ impact.isLt
    · intro hlt
      exact ⟨_, ⟨_, hlt⟩, ⟨hne, rfl⟩, rfl⟩

section
variable (cfg : AmmConfig) (pool : PoolDefinition) (side : Side) (config : AccountRead)
  (slippageBps : U32) (raw : String)

def exactInRequest : SwapExactInQuoteRequest :=
  ⟨pool.token side, pool.token side.other, raw, slippageBps, config, .poolDefinition pool⟩

def exactOutRequest : SwapExactOutQuoteRequest :=
  ⟨pool.token side, pool.token side.other, raw, slippageBps, config, .poolDefinition pool⟩

/-- The quote succeeds when the program prices the input, and then it shows what the program moves
and a bound that the program accepts. -/
def ExactInAgrees (amountIn : U128) : Prop :=
  ((∃ quote, swapExactInQuote (exactInRequest pool side config slippageBps raw) = .ok quote) ↔
    ∃ pricing, swapPricing (exactInputAmounts amountIn (zero 128)) cfg pool side = .ok pricing) ∧
  ∀ quote, swapExactInQuote (exactInRequest pool side config slippageBps raw) = .ok quote →
    ∃ pricing, swapPricing (exactInputAmounts amountIn quote.minReceived) cfg pool side = .ok pricing ∧
      pricing.amounts.amountIn = amountIn ∧ pricing.amounts.amountOut = quote.expectedOut ∧
      pricing.swapFee.val
        = amountIn.val - ConstantProduct.afterFee 10000 cfg.swapFeeBps.val amountIn.val

def ExactOutAgrees (amountOut : U128) : Prop :=
  ((∃ quote, swapExactOutQuote (exactOutRequest pool side config slippageBps raw) = .ok quote) ↔
    ∃ pricing, swapPricing (exactOutputAmounts amountOut (maxValue 128)) cfg pool side
      = .ok pricing) ∧
  ∀ quote, swapExactOutQuote (exactOutRequest pool side config slippageBps raw) = .ok quote →
    ∃ pricing, swapPricing (exactOutputAmounts amountOut quote.maxIn) cfg pool side = .ok pricing ∧
      pricing.amounts.amountIn = quote.requiredIn ∧ pricing.amounts.amountOut = amountOut ∧
      pricing.swapFee.val = quote.requiredIn.val
        - ConstantProduct.needed (pool.reserve side).val (pool.reserve side.other).val amountOut.val

structure Sellable (amountIn : U128) : Prop where
  effective : ConstantProduct.afterFee 10000 cfg.swapFeeBps.val amountIn.val ≠ 0
  room : (pool.reserve side).val + ConstantProduct.afterFee 10000 cfg.swapFeeBps.val amountIn.val
    < 2 ^ 128
  paid : ConstantProduct.paid (pool.reserve side).val (pool.reserve side.other).val
    (ConstantProduct.afterFee 10000 cfg.swapFeeBps.val amountIn.val) ≠ 0

def requiredFor (amountOut : ℕ) : ℕ :=
  ConstantProduct.beforeFee 10000 cfg.swapFeeBps.val
    (ConstantProduct.needed (pool.reserve side).val (pool.reserve side.other).val amountOut)

structure Buyable (amountOut : U128) : Prop where
  positive : amountOut.val ≠ 0
  within : amountOut.val < (pool.reserve side.other).val
  reserve : (pool.reserve side).val ≠ 0
  fee : cfg.swapFeeBps.val < 10000
  effective : ConstantProduct.needed (pool.reserve side).val (pool.reserve side.other).val
    amountOut.val < 2 ^ 128
  required : requiredFor cfg pool side amountOut.val < 2 ^ 128

structure Displayable (amountOut : U128) : Prop where
  ceiling : (requiredFor cfg pool side amountOut.val * (10000 + slippageBps.val) + 9999) / 10000
    < 2 ^ 128
  impact : (requiredFor cfg pool side amountOut.val
      - (pool.reserve side).val * amountOut.val / (pool.reserve side.other).val) * 10000
    / ((pool.reserve side).val * amountOut.val / (pool.reserve side.other).val) < 2 ^ 128

variable (hconfig : Decodes config cfg) (hslippage : slippageBps.val < 10000)
  (hdistinct : pool.definitionTokenAId ≠ pool.definitionTokenBId) (amount : U128)
  (hparse : parse raw = .ok amount)

theorem exactInputAmounts_eq_ok (minOut : U128) (amounts : SwapAmounts) :
    exactInputAmounts amount minOut (pool.reserve side) (pool.reserve side.other) cfg.swapFeeBps
        = .ok amounts ↔
      Sellable cfg pool side amount ∧ amounts.amountIn = amount ∧
      amounts.effectiveAmountIn.val
        = ConstantProduct.afterFee 10000 cfg.swapFeeBps.val amount.val ∧
      amounts.amountOut.val = ConstantProduct.paid (pool.reserve side).val
        (pool.reserve side.other).val
        (ConstantProduct.afterFee 10000 cfg.swapFeeBps.val amount.val) ∧
      minOut.val ≤ amounts.amountOut.val := by
  simp only [exactInputAmounts, bind_eq_ok, ensure_eq_ok, exists_const, Prod.exists,
    swapExactInAmounts_eq_ok, pure_eq_ok]
  constructor
  · rintro ⟨effective, out, ⟨heffective, hout⟩, hne, hmin, hpositive, rfl⟩
    rw [heffective] at hout hne
    split at hout
    · rename_i hroom
      exact ⟨⟨hne, hroom, hout ▸ hpositive⟩, rfl, heffective, hout, hmin⟩
    · exact absurd hout hpositive
  · rintro ⟨hsell, hin, heffective, hout, hmin⟩
    refine ⟨amounts.effectiveAmountIn, amounts.amountOut, ⟨heffective, ?_⟩, ?_, hmin, ?_, ?_⟩
    · rw [heffective, if_pos hsell.room, hout]
    · rw [heffective]
      exact hsell.effective
    · rw [hout]
      exact hsell.paid
    · rw [← hin]

def FeeCovered (amountIn effectiveIn : ℕ) : Prop :=
  (amountIn - effectiveIn) * cfg.protocolFeeBps.val / 10000 ≤ amountIn

/-- What is priced is settled when the protocol does not take more than comes in. -/
theorem settles_iff (price : U128 → U128 → U128 → Outcome SwapAmounts) (amounts : SwapAmounts)
    (hprice : price (pool.reserve side) (pool.reserve side.other) cfg.swapFeeBps = .ok amounts)
    (hle : amounts.effectiveAmountIn.val ≤ amounts.amountIn.val) :
    (∃ pricing, swapPricing price cfg pool side = .ok pricing) ↔
      FeeCovered cfg amounts.amountIn.val amounts.effectiveAmountIn.val := by
  simp only [swapPricing_eq_ok]
  constructor
  · rintro ⟨⟨_, swapFee, protocolFee, net⟩, hpriced, hfee, hshare, hnet⟩
    rw [hprice, Except.ok.injEq] at hpriced
    dsimp only at hpriced hfee hshare hnet
    subst hpriced
    have hdifference : swapFee.val = amounts.amountIn.val - amounts.effectiveAmountIn.val := by omega
    rw [FeeCovered, ← hdifference, ← hshare]
    omega
  · intro hcovered
    have hlt := amounts.amountIn.isLt
    exact ⟨⟨amounts, ⟨amounts.amountIn.val - amounts.effectiveAmountIn.val, by omega⟩,
      ⟨_, lt_of_le_of_lt hcovered hlt⟩, ⟨_, lt_of_le_of_lt (Nat.sub_le _ _) hlt⟩⟩, hprice,
      Nat.sub_add_cancel hle, rfl, Nat.sub_add_cancel hcovered⟩

theorem swapPricing_amounts (price : U128 → U128 → U128 → Outcome SwapAmounts) (amounts : SwapAmounts)
    (hprice : price (pool.reserve side) (pool.reserve side.other) cfg.swapFeeBps = .ok amounts)
    (pricing : SwapPricing) (h : swapPricing price cfg pool side = .ok pricing) :
    pricing.amounts = amounts ∧
      pricing.swapFee.val = amounts.amountIn.val - amounts.effectiveAmountIn.val := by
  obtain ⟨hpriced, hfee, -⟩ := (swapPricing_eq_ok _ _ _ _ _).mp h
  rw [hprice, Except.ok.injEq] at hpriced
  rw [← hpriced] at hfee
  exact ⟨hpriced.symm, by omega⟩

theorem sellable_priced (minOut : U128) (hsell : Sellable cfg pool side amount) :
    ∃ amounts : SwapAmounts, amounts.amountIn = amount ∧
      amounts.effectiveAmountIn.val
        = ConstantProduct.afterFee 10000 cfg.swapFeeBps.val amount.val ∧
      amounts.amountOut.val = ConstantProduct.paid (pool.reserve side).val
        (pool.reserve side.other).val
        (ConstantProduct.afterFee 10000 cfg.swapFeeBps.val amount.val) ∧
      (minOut.val ≤ amounts.amountOut.val →
        exactInputAmounts amount minOut (pool.reserve side) (pool.reserve side.other) cfg.swapFeeBps
          = .ok amounts) := by
  have heffective : ConstantProduct.afterFee 10000 cfg.swapFeeBps.val amount.val < 2 ^ 128 :=
    lt_of_le_of_lt (ConstantProduct.afterFee_le _ _ _) amount.isLt
  have hout : ConstantProduct.paid (pool.reserve side).val (pool.reserve side.other).val
      (ConstantProduct.afterFee 10000 cfg.swapFeeBps.val amount.val) < 2 ^ 128 := by
    refine lt_of_le_of_lt (Nat.div_le_of_le_mul ?_) (pool.reserve side.other).isLt
    rw [Nat.mul_comm]
    exact Nat.mul_le_mul_right _ (Nat.le_add_left _ _)
  exact ⟨⟨amount, ⟨_, heffective⟩, ⟨_, hout⟩⟩, rfl, rfl, rfl, fun hmin =>
    (exactInputAmounts_eq_ok cfg pool side amount minOut _).mpr ⟨hsell, rfl, rfl, rfl, hmin⟩⟩

theorem exactOutputAmounts_eq_ok (maxIn : U128) (amounts : SwapAmounts) :
    exactOutputAmounts amount maxIn (pool.reserve side) (pool.reserve side.other) cfg.swapFeeBps
        = .ok amounts ↔
      Buyable cfg pool side amount ∧ amounts.amountOut = amount ∧
      amounts.effectiveAmountIn.val = ConstantProduct.needed (pool.reserve side).val
        (pool.reserve side.other).val amount.val ∧
      amounts.amountIn.val = requiredFor cfg pool side amount.val ∧
      amounts.amountIn.val ≤ maxIn.val := by
  simp only [exactOutputAmounts, bind_eq_ok, ensure_eq_ok, exists_const, expect_eq_ok, Prod.exists,
    pure_eq_ok]
  constructor
  · rintro ⟨hpositive, hwithin, priced, hpriced, effective, required, rfl, hmax, rfl⟩
    obtain ⟨-, hin, hfee, heffective, hrequired⟩ := (swapExactOutAmounts_eq_ok _ _ _ _ _ _).mp hpriced
    rw [heffective] at hrequired
    exact ⟨⟨hpositive, hwithin, hin, hfee, heffective ▸ effective.isLt,
      lt_of_eq_of_lt hrequired.symm required.isLt⟩,
      rfl, heffective, hrequired, hmax⟩
  · rintro ⟨hbuy, rfl, heffective, hrequired, hmax⟩
    refine ⟨hbuy.positive, hbuy.within, _, ?_, amounts.effectiveAmountIn, amounts.amountIn, rfl, hmax,
      rfl⟩
    refine (swapExactOutAmounts_eq_ok _ _ _ _ _ _).mpr
      ⟨hbuy.within, hbuy.reserve, hbuy.fee, heffective, ?_⟩
    rw [heffective]
    exact hrequired

theorem buyable_priced (maxIn : U128) (hbuy : Buyable cfg pool side amount) :
    ∃ amounts : SwapAmounts, amounts.amountOut = amount ∧
      amounts.effectiveAmountIn.val = ConstantProduct.needed (pool.reserve side).val
        (pool.reserve side.other).val amount.val ∧
      amounts.amountIn.val = requiredFor cfg pool side amount.val ∧
      (amounts.amountIn.val ≤ maxIn.val →
        exactOutputAmounts amount maxIn (pool.reserve side) (pool.reserve side.other) cfg.swapFeeBps
          = .ok amounts) :=
  ⟨⟨⟨_, hbuy.required⟩, ⟨_, hbuy.effective⟩, amount⟩, rfl, rfl, rfl, fun hmax =>
    (exactOutputAmounts_eq_ok cfg pool side amount maxIn _).mpr ⟨hbuy, rfl, rfl, rfl, hmax⟩⟩

theorem needed_le_requiredFor (hfee : cfg.swapFeeBps.val < 10000) (amountOut : ℕ) :
    ConstantProduct.needed (pool.reserve side).val (pool.reserve side.other).val amountOut
      ≤ requiredFor cfg pool side amountOut :=
  ((ConstantProduct.le_afterFee_iff _ _ _ _ hfee).mpr le_rfl).trans (ConstantProduct.afterFee_le _ _ _)

/-- What the program moves for an exact output stays below the ceiling of the quote. -/
theorem le_ceiling (required slippage : ℕ) :
    required ≤ (required * (10000 + slippage) + 9999) / 10000 := by
  rw [Nat.le_div_iff_mul_le (by omega), Nat.mul_add]
  omega

include hconfig hslippage hdistinct hparse

theorem swapExactInQuote_eq_ok (quote : SwapExactInQuote) :
    swapExactInQuote (exactInRequest pool side config slippageBps raw) = .ok quote ↔
      pool.liquidityPoolSupply.val ≠ 0 ∧ (pool.reserve side).val ≠ 0 ∧
      Sellable cfg pool side amount ∧
      quote.expectedOut.val = ConstantProduct.paid (pool.reserve side).val
        (pool.reserve side.other).val
        (ConstantProduct.afterFee 10000 cfg.swapFeeBps.val amount.val) ∧
      quote.minReceived.val = quote.expectedOut.val * (10000 - slippageBps.val) / 10000 ∧
      priceImpactBps amount quote.expectedOut (pool.reserve side) (pool.reserve side.other)
        = .ok quote.priceImpactBps := by
  have htokens : pool.token side ≠ pool.token side.other := by
    cases side with
    | a => exact hdistinct
    | b => exact hdistinct.symm
  have hside : ∀ on, sideOf pool (pool.token side) (pool.token side.other) = .ok on → side = on := by
    intro on hon
    rw [(sideOf_eq_ok pool _ _ htokens side).mpr ⟨rfl, rfl⟩, Except.ok.injEq] at hon
    exact hon
  have hcomplement : (feeBpsDenominator.saturatingSub (widen slippageBps (by decide))).val
      = 10000 - slippageBps.val := rfl
  simp only [swapExactInQuote, exactInRequest, bind_eq_ok, ensure_eq_ok, exists_const,
    parseU128, parseLabelled_eq_ok, hparse, Except.ok.injEq, hconfig.swapFeeBps, decodePool_eq_ok,
    Data.poolDefinition.injEq, swapExactInAmounts_eq_ok, Prod.exists,
    mulDivFloor_eq_ok, feeBpsDenominator_val, hcomplement, pure_eq_ok]
  constructor
  · rintro ⟨-, -, _, rfl, -, -, _, rfl, _, ⟨rfl, hsupply⟩, on, hon, ⟨hin, -⟩, effective, out,
      ⟨heffective, hout⟩, ⟨hne, hpositive⟩, minimal, ⟨-, hminimal⟩, impact, himpact, rfl⟩
    obtain rfl := hside on hon
    rw [heffective] at hout hne
    split at hout
    · rename_i hroom
      exact ⟨hsupply, hin, ⟨hne, hroom, hout ▸ hpositive⟩, hout, hminimal, himpact⟩
    · exact absurd hout hpositive
  · rintro ⟨hsupply, hin, hsell, hout, hminimal, himpact⟩
    have hother : (pool.reserve side.other).val ≠ 0 := by
      intro hzero
      refine hsell.paid ?_
      rw [ConstantProduct.paid, hzero, Nat.zero_mul, Nat.zero_div]
    refine ⟨(), ensure_pos _ _ htokens, _, rfl, (), ensure_pos _ _ hslippage, _, rfl, _,
      ⟨rfl, hsupply⟩, side, (sideOf_eq_ok pool _ _ htokens side).mpr ⟨rfl, rfl⟩, ⟨hin, hother⟩,
      ⟨_, lt_of_le_of_lt (ConstantProduct.afterFee_le _ _ _) amount.isLt⟩, quote.expectedOut,
      ⟨rfl, ?_⟩, ⟨hsell.effective, ?_⟩, _, ⟨by decide, hminimal⟩, _, himpact, rfl⟩
    · rw [if_pos hsell.room, hout]
    · rw [hout]
      exact hsell.paid

/-- The quote of an exact input agrees with the program on every pool with shares and reserves under
every configuration with a valid fee. -/
theorem exactInAgrees_iff :
    ExactInAgrees cfg pool side config slippageBps raw amount ↔
      (Sellable cfg pool side amount →
        (pool.liquidityPoolSupply.val ≠ 0 ∧ (pool.reserve side).val ≠ 0 ↔
          FeeCovered cfg amount.val
            (ConstantProduct.afterFee 10000 cfg.swapFeeBps.val amount.val))) := by
  have hquote := swapExactInQuote_eq_ok cfg pool side config slippageBps raw hconfig hslippage
    hdistinct amount hparse
  have hpriced : ∀ minOut pricing,
      swapPricing (exactInputAmounts amount minOut) cfg pool side = .ok pricing →
        Sellable cfg pool side amount := by
    intro minOut pricing h
    exact ((exactInputAmounts_eq_ok cfg pool side amount _ _).mp
      ((swapPricing_eq_ok _ _ _ _ _).mp h).1).1
  by_cases hsell : Sellable cfg pool side amount
  swap
  · refine iff_of_true ⟨⟨?_, ?_⟩, fun quote h => ?_⟩ fun h => absurd h hsell
    · rintro ⟨quote, h⟩
      exact absurd ((hquote quote).mp h).2.2.1 hsell
    · rintro ⟨pricing, h⟩
      exact absurd (hpriced _ _ h) hsell
    · exact absurd ((hquote quote).mp h).2.2.1 hsell
  have hsettles : ∀ minOut : U128, minOut.val ≤ ConstantProduct.paid (pool.reserve side).val
      (pool.reserve side.other).val
      (ConstantProduct.afterFee 10000 cfg.swapFeeBps.val amount.val) →
      ((∃ pricing, swapPricing (exactInputAmounts amount minOut) cfg pool side = .ok pricing) ↔
        FeeCovered cfg amount.val
          (ConstantProduct.afterFee 10000 cfg.swapFeeBps.val amount.val)) := by
    intro minOut hmin
    obtain ⟨amounts, hin, heffective, hout, hamounts⟩ :=
      sellable_priced cfg pool side amount minOut hsell
    rw [settles_iff cfg pool side _ amounts (hamounts (hout ▸ hmin)) ?_, hin, heffective]
    rw [hin, heffective]
    exact ConstantProduct.afterFee_le _ _ _
  have hshown : (∃ quote, swapExactInQuote (exactInRequest pool side config slippageBps raw)
      = .ok quote) ↔ pool.liquidityPoolSupply.val ≠ 0 ∧ (pool.reserve side).val ≠ 0 := by
    constructor
    · rintro ⟨quote, h⟩
      obtain ⟨hsupply, hin, -⟩ := (hquote quote).mp h
      exact ⟨hsupply, hin⟩
    · rintro ⟨hsupply, hin⟩
      obtain ⟨amounts, -, -, hout, -⟩ := sellable_priced cfg pool side amount (zero 128) hsell
      obtain ⟨impact, himpact⟩ := priceImpactBps_succeeds amount amounts.amountOut
        (pool.reserve side) (pool.reserve side.other)
      have hminimal : amounts.amountOut.val * (10000 - slippageBps.val) / 10000 < 2 ^ 128 := by
        have hle := ConstantProduct.afterFee_le 10000 slippageBps.val amounts.amountOut.val
        exact lt_of_le_of_lt hle amounts.amountOut.isLt
      exact ⟨⟨amounts.amountOut, ⟨_, hminimal⟩, impact⟩,
        (hquote _).mpr ⟨hsupply, hin, hsell, hout, rfl, himpact⟩⟩
  rw [ExactInAgrees, hshown, hsettles (zero 128) (Nat.zero_le _)]
  refine ⟨fun h _ => h.1, fun h => ⟨h hsell, fun quote hq => ?_⟩⟩
  have hcovered := (h hsell).mp (hshown.mp ⟨quote, hq⟩)
  obtain ⟨-, -, -, hout, hminimal, -⟩ := (hquote quote).mp hq
  have hmin : quote.minReceived.val ≤ quote.expectedOut.val := by
    rw [hminimal]
    exact ConstantProduct.afterFee_le 10000 slippageBps.val _
  obtain ⟨amounts, hin, heffective, hpaid, hamounts⟩ :=
    sellable_priced cfg pool side amount quote.minReceived hsell
  obtain ⟨pricing, hpricing⟩ := (hsettles quote.minReceived (hout ▸ hmin)).mpr hcovered
  obtain ⟨rfl, hfee⟩ := swapPricing_amounts cfg pool side _ amounts
    (hamounts (by rw [hpaid, ← hout]; exact hmin)) pricing hpricing
  rw [hin, heffective] at hfee
  exact ⟨pricing, hpricing, hin, Fin.ext (hpaid.trans hout.symm), hfee⟩

theorem swapExactOutQuote_eq_ok (quote : SwapExactOutQuote) :
    swapExactOutQuote (exactOutRequest pool side config slippageBps raw) = .ok quote ↔
      pool.liquidityPoolSupply.val ≠ 0 ∧ Buyable cfg pool side amount ∧
      quote.requiredIn.val = requiredFor cfg pool side amount.val ∧
      quote.maxIn.val
        = (requiredFor cfg pool side amount.val * (10000 + slippageBps.val) + 9999) / 10000 ∧
      ∃ spotIn : U128, spotIn.val
          = (pool.reserve side).val * amount.val / (pool.reserve side.other).val ∧
        costImpactBps quote.requiredIn spotIn = .ok quote.priceImpactBps := by
  have htokens : pool.token side ≠ pool.token side.other := by
    cases side with
    | a => exact hdistinct
    | b => exact hdistinct.symm
  have hside : ∀ on, sideOf pool (pool.token side) (pool.token side.other) = .ok on → side = on := by
    intro on hon
    rw [(sideOf_eq_ok pool _ _ htokens side).mpr ⟨rfl, rfl⟩, Except.ok.injEq] at hon
    exact hon
  simp only [swapExactOutQuote, exactOutRequest, bind_eq_ok, ensure_eq_ok, exists_const,
    parseU128, parseLabelled_eq_ok, hparse, Except.ok.injEq, hconfig.swapFeeBps, decodePool_eq_ok,
    Data.poolDefinition.injEq, expect_eq_ok, checkedAdd_eq_some, widen_val, Prod.exists,
    mulDivFloor_eq_ok, mulDivCeil_eq_ok, feeBpsDenominator_val, pure_eq_ok]
  constructor
  · rintro ⟨-, -, _, rfl, hpositive, -, -, _, rfl, _, ⟨rfl, hsupply⟩, on, hon, ⟨hin, hout⟩, priced,
      hpriced, effective, required, rfl, ceiling, hceiling, bound, ⟨-, hbound⟩, spot, ⟨-, hspot⟩,
      impact, himpact, rfl⟩
    obtain rfl := hside on hon
    obtain ⟨hwithin, -, hfee, heffective, hrequired⟩ :=
      (swapExactOutAmounts_eq_ok _ _ _ _ _ _).mp hpriced
    rw [heffective] at hrequired
    rw [hceiling, hrequired] at hbound
    exact ⟨hsupply, ⟨hpositive, hwithin, hin, hfee, heffective ▸ effective.isLt,
      lt_of_eq_of_lt hrequired.symm required.isLt⟩, hrequired, hbound, spot, hspot, himpact⟩
  · rintro ⟨hsupply, hbuy, hrequired, hbound, spot, hspot, himpact⟩
    have hout : (pool.reserve side.other).val ≠ 0 := Nat.ne_zero_of_lt hbuy.within
    have hceiling : 10000 + slippageBps.val < 2 ^ 128 := by omega
    refine ⟨(), ensure_pos _ _ htokens, _, rfl, hbuy.positive, (), ensure_pos _ _ hslippage, _, rfl, _,
      ⟨rfl, hsupply⟩, side, (sideOf_eq_ok pool _ _ htokens side).mpr ⟨rfl, rfl⟩,
      ⟨hbuy.reserve, hout⟩, _, (swapExactOutAmounts_eq_ok _ _ _ ⟨_, hbuy.effective⟩ _ _).mpr
        ⟨hbuy.within, hbuy.reserve, hbuy.fee, rfl, hrequired⟩, _, quote.requiredIn, rfl,
      ⟨_, hceiling⟩, rfl, quote.maxIn, ⟨by decide, ?_⟩, spot, ⟨hout, hspot⟩, _, himpact, rfl⟩
    rw [hbound, hrequired]

/-- The quote of an exact output agrees with the program where what it displays fits. -/
theorem exactOutAgrees_iff :
    ExactOutAgrees cfg pool side config slippageBps raw amount ↔
      (Buyable cfg pool side amount →
        (pool.liquidityPoolSupply.val ≠ 0 ∧ Displayable cfg pool side slippageBps amount ↔
          FeeCovered cfg (requiredFor cfg pool side amount.val)
            (ConstantProduct.needed (pool.reserve side).val (pool.reserve side.other).val
              amount.val))) := by
  have hquote := swapExactOutQuote_eq_ok cfg pool side config slippageBps raw hconfig hslippage
    hdistinct amount hparse
  have hpriced : ∀ maxIn pricing,
      swapPricing (exactOutputAmounts amount maxIn) cfg pool side = .ok pricing →
        Buyable cfg pool side amount := by
    intro maxIn pricing h
    exact ((exactOutputAmounts_eq_ok cfg pool side amount _ _).mp
      ((swapPricing_eq_ok _ _ _ _ _).mp h).1).1
  by_cases hbuy : Buyable cfg pool side amount
  swap
  · refine iff_of_true ⟨⟨?_, ?_⟩, fun quote h => ?_⟩ fun h => absurd h hbuy
    · rintro ⟨quote, h⟩
      exact absurd ((hquote quote).mp h).2.1 hbuy
    · rintro ⟨pricing, h⟩
      exact absurd (hpriced _ _ h) hbuy
    · exact absurd ((hquote quote).mp h).2.1 hbuy
  have hsettles : ∀ maxIn : U128, requiredFor cfg pool side amount.val ≤ maxIn.val →
      ((∃ pricing, swapPricing (exactOutputAmounts amount maxIn) cfg pool side = .ok pricing) ↔
        FeeCovered cfg (requiredFor cfg pool side amount.val)
          (ConstantProduct.needed (pool.reserve side).val (pool.reserve side.other).val
            amount.val)) := by
    intro maxIn hmax
    obtain ⟨amounts, -, heffective, hin, hamounts⟩ :=
      buyable_priced cfg pool side amount maxIn hbuy
    rw [settles_iff cfg pool side _ amounts (hamounts (hin ▸ hmax)) ?_, hin, heffective]
    rw [hin, heffective]
    exact needed_le_requiredFor cfg pool side hbuy.fee amount.val
  have hshown : (∃ quote, swapExactOutQuote (exactOutRequest pool side config slippageBps raw)
      = .ok quote) ↔
        pool.liquidityPoolSupply.val ≠ 0 ∧ Displayable cfg pool side slippageBps amount := by
    have hspot : (pool.reserve side).val * amount.val / (pool.reserve side.other).val < 2 ^ 128 := by
      refine lt_of_le_of_lt (Nat.div_le_of_le_mul ?_) (pool.reserve side).isLt
      rw [Nat.mul_comm]
      exact Nat.mul_le_mul_right _ hbuy.within.le
    constructor
    · rintro ⟨quote, h⟩
      obtain ⟨hsupply, -, hrequired, hbound, spot, hspot, himpact⟩ := (hquote quote).mp h
      have hfits := (costImpactBps_succeeds_iff _ _).mp ⟨_, himpact⟩
      rw [hrequired, hspot] at hfits
      exact ⟨hsupply, lt_of_eq_of_lt hbound.symm quote.maxIn.isLt, hfits⟩
    · rintro ⟨hsupply, hceiling, himpact⟩
      obtain ⟨impact, h⟩ :=
        (costImpactBps_succeeds_iff ⟨_, hbuy.required⟩ ⟨_, hspot⟩).mpr himpact
      exact ⟨⟨⟨_, hbuy.required⟩, ⟨_, hceiling⟩, impact⟩,
        (hquote _).mpr ⟨hsupply, hbuy, rfl, rfl, ⟨_, hspot⟩, rfl, h⟩⟩
  have hmaximum : requiredFor cfg pool side amount.val ≤ (maxValue 128).val :=
    (le_maxValue_iff _ _).mpr hbuy.required
  rw [ExactOutAgrees, hshown, hsettles (maxValue 128) hmaximum]
  refine ⟨fun h _ => h.1, fun h => ⟨h hbuy, fun quote hq => ?_⟩⟩
  have hcovered := (h hbuy).mp (hshown.mp ⟨quote, hq⟩)
  obtain ⟨-, -, hrequired, hbound, -⟩ := (hquote quote).mp hq
  have hmax : requiredFor cfg pool side amount.val ≤ quote.maxIn.val := by
    rw [hbound]
    exact le_ceiling _ _
  obtain ⟨amounts, hout, heffective, hin, hamounts⟩ :=
    buyable_priced cfg pool side amount quote.maxIn hbuy
  obtain ⟨pricing, hpricing⟩ := (hsettles quote.maxIn hmax).mpr hcovered
  obtain ⟨rfl, hfee⟩ := swapPricing_amounts cfg pool side _ amounts (hamounts (hin ▸ hmax)) pricing
    hpricing
  rw [hin, heffective, ← hrequired] at hfee
  exact ⟨pricing, hpricing, Fin.ext (hin.trans hrequired.symm), hout, hfee⟩

end

theorem feeCovered_of_valid (cfg : AmmConfig) (hvalid : cfg.protocolFeeBps.val ≤ 10000)
    (amountIn effectiveIn : ℕ) : FeeCovered cfg amountIn effectiveIn := by
  refine Nat.div_le_of_le_mul ?_
  rw [Nat.mul_comm 10000]
  exact Nat.mul_le_mul (Nat.sub_le _ _) hvalid

/-- For every pool, configuration and request, the quotes agree with the program exactly when
whatever can be priced is displayed and leaves the protocol no more than comes in. The program
settles what it prices. -/
theorem swap_quotes_agree_iff (cfg : AmmConfig) (pool : PoolDefinition) (side : Side)
    (config : AccountRead) (slippageBps : U32) (raw : String) (hconfig : Decodes config cfg)
    (hslippage : slippageBps.val < 10000)
    (hdistinct : pool.definitionTokenAId ≠ pool.definitionTokenBId) (amount : U128)
    (hparse : parse raw = .ok amount) :
    (ExactInAgrees cfg pool side config slippageBps raw amount ↔
      (Sellable cfg pool side amount →
        (pool.liquidityPoolSupply.val ≠ 0 ∧ (pool.reserve side).val ≠ 0 ↔
          FeeCovered cfg amount.val
            (ConstantProduct.afterFee 10000 cfg.swapFeeBps.val amount.val)))) ∧
    (ExactOutAgrees cfg pool side config slippageBps raw amount ↔
      (Buyable cfg pool side amount →
        (pool.liquidityPoolSupply.val ≠ 0 ∧ Displayable cfg pool side slippageBps amount ↔
          FeeCovered cfg (requiredFor cfg pool side amount.val)
            (ConstantProduct.needed (pool.reserve side).val (pool.reserve side.other).val
              amount.val)))) ∧
    SettledAsPriced cfg pool side :=
  ⟨exactInAgrees_iff cfg pool side config slippageBps raw hconfig hslippage hdistinct amount hparse,
    exactOutAgrees_iff cfg pool side config slippageBps raw hconfig hslippage hdistinct amount hparse,
    settled_as_priced cfg pool side⟩

/-- On the pools and configurations that the program keeps, an exact input is always quoted as it is
priced, and an exact output as far as it can be displayed. -/
theorem quotes_on_healthy_pools (cfg : AmmConfig) (pool : PoolDefinition) (side : Side)
    (config : AccountRead) (slippageBps : U32) (raw : String) (hconfig : Decodes config cfg)
    (hslippage : slippageBps.val < 10000)
    (hdistinct : pool.definitionTokenAId ≠ pool.definitionTokenBId) (amount : U128)
    (hparse : parse raw = .ok amount) (hvalid : cfg.protocolFeeBps.val ≤ 10000)
    (hhealthy : ConstantProduct.Healthy 1000 pool.pool) :
    ExactInAgrees cfg pool side config slippageBps raw amount ∧
      (ExactOutAgrees cfg pool side config slippageBps raw amount ↔
        (Buyable cfg pool side amount → Displayable cfg pool side slippageBps amount)) := by
  have hsupply : pool.liquidityPoolSupply.val ≠ 0 :=
    (lt_of_lt_of_le (by decide) hhealthy.shares : 0 < pool.liquidityPoolSupply.val).ne'
  have hin : (pool.reserve side).val ≠ 0 := by
    cases side with
    | a => exact hhealthy.first.ne'
    | b => exact hhealthy.second.ne'
  have hcovered := feeCovered_of_valid cfg hvalid
  refine ⟨(exactInAgrees_iff cfg pool side config slippageBps raw hconfig hslippage hdistinct amount
    hparse).mpr fun _ => iff_of_true ⟨hsupply, hin⟩ (hcovered _ _), ?_⟩
  rw [exactOutAgrees_iff cfg pool side config slippageBps raw hconfig hslippage hdistinct amount
    hparse]
  simp only [hsupply, hcovered, ne_eq, not_false_eq_true, true_and, iff_true]

def steepConfig : AmmConfig := ⟨.key 1, .key 2, .key 3, 0, 0⟩

def steepConfigRead : AccountRead :=
  ⟨.key 60, "ok", some ⟨ammProgramId, 0, .ammConfig steepConfig, 0⟩⟩

def steepPool : PoolDefinition :=
  createdPool ammProgramId (.key 70) (.key 20) (.key 22) 288230376151711744 2
    41538374868278621028243970633760768

/-- All but one of the second token cost less than `2 ^ 117`, but the quote does not fit. -/
theorem steep_output_unquoted :
    parse "41538374868278621028243970633760767"
        = .ok (41538374868278621028243970633760767 : U128) ∧
      Decodes steepConfigRead steepConfig ∧
      ¬ExactOutAgrees steepConfig steepPool .a steepConfigRead 50
        "41538374868278621028243970633760767" 41538374868278621028243970633760767 := by
  refine ⟨by decide +kernel, ⟨rfl, _, rfl, rfl⟩, fun h => ?_⟩
  have herror : swapExactOutQuote (exactOutRequest steepPool .a steepConfigRead 50
      "41538374868278621028243970633760767") = .error "mul_div_floor result exceeds u128" := by
    decide +kernel
  obtain ⟨quote, hquote⟩ := h.1.mpr ⟨⟨⟨83076749736557242056487941267521534,
    83076749736557242056487941267521534, 41538374868278621028243970633760767⟩, 0, 0,
    83076749736557242056487941267521534⟩, by decide +kernel⟩
  rw [herror] at hquote
  cases hquote

/-- Smaller amounts of the same pool are quoted as they are priced. -/
theorem steep_quotes_agree :
    ExactInAgrees steepConfig steepPool .a steepConfigRead 50 "1000" 1000 ∧
      ExactOutAgrees steepConfig steepPool .a steepConfigRead 50 "1000" 1000 := by
  obtain ⟨hin, hout, -⟩ := swap_quotes_agree_iff steepConfig steepPool .a steepConfigRead 50 "1000"
    ⟨rfl, _, rfl, rfl⟩ (by decide) (by decide) 1000 (by decide +kernel)
  refine ⟨hin.mpr fun _ => ?_, hout.mpr fun _ => ?_⟩
  · exact iff_of_true (by decide) (by unfold FeeCovered; decide)
  · exact iff_of_true ⟨by decide, by decide, by decide⟩ (by unfold FeeCovered; decide)

end LezPrograms.AmmClient
