import LezPrograms.Stablecoin.Exit
import LezPrograms.StablecoinClient.Plans
import LezPrograms.StablecoinClient.Execution

/-! # The health of positions

The client reports the two sides of the collateral comparison for a stored position.
The report is exact over the unbounded integers, and its surplus is what the program
lets the owner withdraw. -/

set_option autoImplicit false

namespace LezPrograms.StablecoinClient
open LezPrograms.Checked LezPrograms.Checked.Unsigned LezPrograms.Lee LezPrograms.Stablecoin
open LezPrograms.Stablecoin.Math LezPrograms.Stablecoin.Compounding LezPrograms.Stablecoin.Quotes
open LezPrograms.Token (HoldingAt)
open LezPrograms.AmmClient (AccountRead readOf)

structure PositionHealthRequest where
  stablecoinProgramId : Option AccountId
  ownerId : Option AccountId
  positionNonce : String
  position : AccountRead
  protocolParameters : AccountRead
  stabilityFeeAccumulator : AccountRead
  redemptionPriceState : AccountRead
  clock : AccountRead

structure PositionHealth where
  ownerId : AccountId
  positionNonce : U64
  positionId : AccountId
  vaultId : AccountId
  collateralAmount : U128
  normalizedDebtAmount : U128
  openedAt : U64
  currentAccumulatedRate : U512
  currentRedemptionPrice : U512
  minimumCollateralizationRatio : U128
  projectedAt : U64
  nominalDebt : U512
  collateralValue : U512
  requiredCollateralValue : U512
  requirementSaturated : Bool
  isCollateralized : Bool
deriving DecidableEq

theorem debt_width : 128 ≤ 512 := by decide

def positionHealth (request : PositionHealthRequest) : Outcome PositionHealth := do
  let programId ← parseStablecoinProgramId request.stablecoinProgramId
  let owner ← parseAccountId request.ownerId
  let nonce ← parseDecimalU64 request.positionNonce
  let (positionId, position) ← validatedPosition programId owner nonce request.position
  let vaultId := computePositionVaultPda programId positionId
  ensure (position.vaultAccountId = vaultId) "position_vault_mismatch"
  let (_, parameters) ← validatedProtocolParameters programId request.protocolParameters
  let (_, accumulator) ← validatedStabilityFeeAccumulator programId
    request.stabilityFeeAccumulator
  let (_, redemption) ← validatedRedemptionPriceState programId request.redemptionPriceState
  let now ← clockTimestamp request.clock
  let currentAccumulator ← expect (tryProjectRateWide accumulator.accumulatedRateAtLastAccrual
    parameters.stabilityFeePerMillisecond accumulator.lastAccruedAt now) "health_projection_overflow"
  let currentRedemptionPrice ← expect (tryProjectRateWide redemption.redemptionPriceAtLastUpdate
    redemption.redemptionRatePerMillisecond redemption.lastUpdatedAt now) "health_projection_overflow"
  let product ← expect (checkedMul (widen position.normalizedDebtAmount debt_width)
    currentAccumulator) "health_arithmetic_overflow"
  let values := collateralizationValues position.collateralAmount position.normalizedDebtAmount
    currentAccumulator currentRedemptionPrice parameters.minimumCollateralizationRatio
  pure
    { ownerId := owner
      positionNonce := nonce
      positionId := positionId
      vaultId := vaultId
      collateralAmount := position.collateralAmount
      normalizedDebtAmount := position.normalizedDebtAmount
      openedAt := position.openedAt
      currentAccumulatedRate := currentAccumulator
      currentRedemptionPrice := currentRedemptionPrice
      minimumCollateralizationRatio := parameters.minimumCollateralizationRatio
      projectedAt := now
      nominalDebt := divNat product fixedPointOne.val
      collateralValue := values.collateralValue
      requiredCollateralValue := values.requiredCollateralValue
      requirementSaturated := values.requirementSaturated
      isCollateralized := decide values.isCollateralized }

def PositionHealthRequest.reads (request : PositionHealthRequest) : List AccountRead :=
  [request.position, request.protocolParameters, request.stabilityFeeAccumulator,
    request.redemptionPriceState, request.clock]

theorem requiredProduct_cons {w : ℕ} (required operand : Unsigned w) (operands : List (Unsigned w))
    (h : required.val * operand.val < 2 ^ w) :
    requiredProduct required (operand :: operands)
      = requiredProduct ⟨required.val * operand.val, h⟩ operands := by
  have hproduct : checkedMul required operand = some ⟨required.val * operand.val, h⟩ :=
    (checkedMul_eq_some _ _ _).mpr rfl
  simp only [requiredProduct, hproduct]

/-- Unless the nominal debt overflows, the comparison is that of the unbounded integers. -/
theorem isCollateralized_iff (collateral debt ratio : U128) (accumulator price : U512)
    (hratio : 0 < ratio.val) (hfit : debt.val * accumulator.val < 2 ^ 512) :
    (collateralizationValues collateral debt accumulator price ratio).isCollateralized ↔
      debt.val * accumulator.val * price.val * ratio.val ≤ collateral.val * fixedPointOne.val ^ 3 := by
  refine ⟨approved_product collateral debt ratio accumulator price, fun h => ?_⟩
  have hroom : collateral.val * fixedPointOne.val ^ 3 < 2 ^ 512 :=
    (collateral_lt collateral).trans (ceiling_le_maxValue.trans_lt (maxValue 512).isLt)
  have hpriced : debt.val * accumulator.val * price.val < 2 ^ 512 :=
    (Nat.le_mul_of_pos_right _ hratio).trans_lt (h.trans_lt hroom)
  have hwide := widen_val debt u128_le_u512
  have hwide' := widen_val ratio u128_le_u512
  simp only [CollateralizationValues.isCollateralized, collateralizationValues,
    collateralValue_exact]
  rw [requiredProduct_cons _ _ _ (by rwa [hwide]), requiredProduct_cons _ _ _ (by simpa only [hwide]),
    requiredProduct_cons _ _ _ (by simpa only [hwide, hwide'] using h.trans_lt hroom)]
  simpa only [requiredProduct, hwide, hwide'] using h

theorem projectForwardWide_of_some (anchor rate : U128) (since now : U64) (projected : U512)
    (h : tryProjectRateWide anchor rate since now = some projected) :
    projectForwardWide anchor rate since now = projected := by
  unfold tryProjectRateWide at h
  split at h
  rename_i factor saturated hfactor
  split at h
  · cases h
  · obtain ⟨product, hproduct, rfl⟩ := Option.map_eq_some_iff.mp h
    rw [projectForwardWide, compoundRateWide, hfactor, saturatingMul, hproduct]
    rfl

theorem assertWithdrawal_iff (data : Position) (accumulator : StabilityFeeAccumulator)
    (redemption : RedemptionPriceState) (params : ProtocolParameters) (now : U64) (amount : U128)
    (rate price : U512) (hamount : amount.val ≠ 0)
    (hrate : tryProjectRateWide accumulator.accumulatedRateAtLastAccrual
      params.stabilityFeePerMillisecond accumulator.lastAccruedAt now = some rate)
    (hprice : tryProjectRateWide redemption.redemptionPriceAtLastUpdate
      redemption.redemptionRatePerMillisecond redemption.lastUpdatedAt now = some price) :
    assertWithdrawalIsCollateralized data accumulator redemption params now amount = .ok () ↔
      data.normalizedDebtAmount.val = 0 ∨ price.val ≠ 0 ∧
        (collateralizationValues data.collateralAmount data.normalizedDebtAmount rate price
          params.minimumCollateralizationRatio).isCollateralized := by
  rw [assertWithdrawalIsCollateralized, computeCurrentRedemptionPriceWide,
    projectForwardWide_of_some _ _ _ _ _ hprice, computeCurrentAccumulatedRateWide,
    projectForwardWide_of_some _ _ _ _ _ hrate]
  by_cases hdebt : data.normalizedDebtAmount.val = 0
  · rw [if_neg fun hand => hand.2 hdebt]
    exact iff_of_true rfl (Or.inl hdebt)
  · rw [if_pos ⟨hamount, hdebt⟩]
    simp only [assertPositionIsCollateralized, bind_eq_ok, ensure_eq_ok, exists_const, hdebt,
      false_or]
    rw [if_neg not_false, ensure_eq_ok]

/-- The side of the collateral after a withdrawal. -/
theorem surplus_iff (collateral remaining amount debt ratio : U128) (accumulator price : U512)
    (hrest : remaining.val + amount.val = collateral.val) :
    (collateralizationValues remaining debt accumulator price ratio).isCollateralized ↔
      amount.val * fixedPointOne.val ^ 3 +
          (collateralizationValues collateral debt accumulator price ratio).requiredCollateralValue.val
        ≤ (collateralizationValues collateral debt accumulator price ratio).collateralValue.val := by
  simp only [CollateralizationValues.isCollateralized, collateralizationValues,
    collateralValue_exact, ← hrest, Nat.add_mul]
  omega

structure Reported (w : Accounts) (quote : PositionHealth) (params : ProtocolParameters)
    (accumulator : StabilityFeeAccumulator) (redemption : RedemptionPriceState) (x : Position) :
    Prop where
  derived : quote.positionId = computePositionPda stablecoinProgramId quote.ownerId x.positionNonce
  owner : x.ownerAccountId = quote.ownerId
  position : Holds stablecoinProgramId (w quote.positionId) (.position x)
  vault : quote.vaultId = vaultId quote.positionId ∧ x.vaultAccountId = quote.vaultId
  parameters : Holds stablecoinProgramId (w parametersId) (.protocolParameters params)
  accumulates : Holds stablecoinProgramId (w accumulatorId) (.stabilityFeeAccumulator accumulator)
  redeems : Holds stablecoinProgramId (w redemptionId) (.redemptionPriceState redemption)
  clock : (w clock01ProgramAccountId).data = .clock quote.projectedAt
  rate : tryProjectRateWide accumulator.accumulatedRateAtLastAccrual
    params.stabilityFeePerMillisecond accumulator.lastAccruedAt quote.projectedAt
    = some quote.currentAccumulatedRate
  price : tryProjectRateWide redemption.redemptionPriceAtLastUpdate
    redemption.redemptionRatePerMillisecond redemption.lastUpdatedAt quote.projectedAt
    = some quote.currentRedemptionPrice
  fits : x.normalizedDebtAmount.val * quote.currentAccumulatedRate.val < 2 ^ 512
  debt : quote.normalizedDebtAmount = x.normalizedDebtAmount
  collateral : quote.collateralValue = (collateralizationValues x.collateralAmount
    x.normalizedDebtAmount quote.currentAccumulatedRate quote.currentRedemptionPrice
    params.minimumCollateralizationRatio).collateralValue
  required : quote.requiredCollateralValue = (collateralizationValues x.collateralAmount
    x.normalizedDebtAmount quote.currentAccumulatedRate quote.currentRedemptionPrice
    params.minimumCollateralizationRatio).requiredCollateralValue
  verdict : quote.isCollateralized = true ↔ (collateralizationValues x.collateralAmount
    x.normalizedDebtAmount quote.currentAccumulatedRate quote.currentRedemptionPrice
    params.minimumCollateralizationRatio).isCollateralized

theorem positionHealth_reported (w : Accounts) (request : PositionHealthRequest)
    (quote : PositionHealth) (hreads : ReadFrom w request.stablecoinProgramId request.reads)
    (h : positionHealth request = .ok quote) :
    ∃ params accumulator redemption x, Reported w quote params accumulator redemption x := by
  obtain ⟨hprogram, htruthful⟩ := hreads
  simp only [PositionHealthRequest.reads, List.forall_mem_cons] at htruthful
  obtain ⟨hposition, hparameters, haccumulator, hredemption, hclock, -⟩ := htruthful
  simp only [positionHealth, parseStablecoinProgramId, parseId_eq_ok, hprogram, bind_eq_ok,
    ensure_eq_ok, exists_const, expect_eq_ok, checkedMul_eq_some, pure_eq_ok, Prod.exists,
    Option.some.injEq] at h
  obtain ⟨_, ⟨rfl, -⟩, o, -, nonce, -, id, x, hx, hvault, p, params, hp, a, accumulator, ha, r,
    redemption, hr, now, hnow, rate, hrate, price, hprice, product, hproduct, rfl⟩ := h
  obtain ⟨rfl, hheld⟩ := hparameters.parameters w _ _ _ _ hp
  obtain ⟨rfl, hheld'⟩ := haccumulator.accumulator w _ _ _ _ ha
  obtain ⟨rfl, hheld''⟩ := hredemption.redemption w _ _ _ _ hr
  obtain ⟨hderived, howner, hposition⟩ := hposition.position w _ _ _ _ _ _ hx
  refine ⟨params, accumulator, redemption, x, hderived, howner, hposition, ⟨rfl, hvault⟩, hheld,
    hheld', hheld'', hclock.clock w _ _ hnow, hrate, hprice, ?_, rfl, rfl, ?_, ?_⟩
  · rw [widen_val] at hproduct
    exact hproduct ▸ product.isLt
  · dsimp only
  · rw [decide_eq_true_eq]

section
variable (w : Accounts) (quote : PositionHealth) (params : ProtocolParameters)
  (accumulator : StabilityFeeAccumulator) (redemption : RedemptionPriceState) (x : Position)
  (h : Reported w quote params accumulator redemption x)
include h

variable (he : Established w)
include he

theorem Reported.ratio_pos : 0 < params.minimumCollateralizationRatio.val := by
  obtain ⟨s, hr, rfl⟩ := he.represents w params (Holds.storedParameters w params h.parameters)
  exact (by decide : 0 < minCollateralizationRatio.val).trans_le hr.parameters.ratio.1

/-- The verdict is exact. -/
theorem Reported.exact : quote.isCollateralized = true ↔
    Collateralized params accumulator redemption quote.projectedAt x := by
  have hrate := ((tryProjectRateWide_eq_some _ _ _ _ _).mp h.rate).2.2
  have hprice := ((tryProjectRateWide_eq_some _ _ _ _ _).mp h.price).2.2
  have hvalues := isCollateralized_iff x.collateralAmount x.normalizedDebtAmount
    params.minimumCollateralizationRatio quote.currentAccumulatedRate quote.currentRedemptionPrice
    (h.ratio_pos w quote params accumulator redemption x he) h.fits
  rw [hrate, hprice] at hvalues
  exact h.verdict.trans hvalues

/-- Whoever borrows against a position finds it collateralized before. -/
theorem Reported.generates (platform : Platform) (authority : List AccountId) (u : AccountId)
    (amount : U128) (w' : Accounts)
    (ht : transact platform w authority (generateCall quote.ownerId quote.positionId u amount)
      = .ok w') : quote.isCollateralized = true := by
  obtain ⟨v, calls, hperf, -⟩ := transact_settled platform w w' authority _ ht _ rfl
  obtain ⟨-, -, x', params', accumulator', redemption', now, accrual, delta, newDebt, -, reads, -,
    hr, -, hdebt, -, -, hcol, -, -⟩ :=
    (performs_generate w v authority calls _ _ definitionId u _ _ _ _ _ amount).mp hperf
  obtain rfl := Data.position.inj (reads.position.stored.2.symm.trans h.position.2)
  obtain rfl := Data.protocolParameters.inj (reads.accrues.parameters.2.symm.trans h.parameters.2)
  obtain rfl :=
    Data.stabilityFeeAccumulator.inj (reads.accrues.accumulates.2.symm.trans h.accumulates.2)
  obtain rfl := Data.redemptionPriceState.inj (hr.2.symm.trans h.redeems.2)
  obtain rfl := Data.clock.inj (reads.accrues.clock.symm.trans h.clock)
  have hrate := ((tryProjectRateWide_eq_some _ _ _ _ _).mp h.rate).2.2
  have haccrued := accrued_exact _ _ _ _ reads.accrues.computed
  rw [h.verdict, isCollateralized_iff _ _ _ _ _
    (h.ratio_pos w quote params' accumulator' redemption' x' he) h.fits]
  by_cases h0 : x'.normalizedDebtAmount.val = 0
  · rw [h0, Nat.zero_mul, Nat.zero_mul, Nat.zero_mul]
    exact Nat.zero_le _
  · have happroved := approved_product _ _ _ _ _
      (assertPositionIsCollateralized_eq_ok _ _ _ _ (by rw [hdebt]; omega) hcol)
    rw [widen_val, haccrued, ← hrate, computeCurrentRedemptionPriceWide,
      projectForwardWide_of_some _ _ _ _ _ h.price] at happroved
    refine le_trans ?_ happroved
    gcongr
    rw [hdebt]
    exact Nat.le_add_right _ _

/-- The owner may withdraw as much as the surplus covers. -/
theorem Reported.withdraws (hc : Token.Conserved w) (hclk : ClockOwnsNothing w) (platform : Platform)
    (hcalls : 2 ≤ platform.callDepth) (authority : List AccountId) (hgranted : Granted authority)
    (u : AccountId) (balance amount : U128) (hamount : amount.val ≠ 0)
    (hu : HoldingAt w u (.fungible params.collateralDefinitionId balance)) :
    (∃ w', transact platform w authority
      (withdrawCollateralCall quote.ownerId quote.positionId u amount) = .ok w') ↔
      quote.ownerId ∈ authority ∧ u ≠ quote.ownerId ∧ u ≠ quote.vaultId ∧
        params.isFrozen = false ∧
        (quote.normalizedDebtAmount.val = 0 ∨ quote.currentRedemptionPrice.val ≠ 0) ∧
        amount.val * fixedPointOne.val ^ 3 + quote.requiredCollateralValue.val
          ≤ quote.collateralValue.val := by
  have hcheck := fun data => assertWithdrawal_iff data accumulator redemption params
    quote.projectedAt amount _ _ hamount h.rate h.price
  have hmargin : ∀ remaining : U128, remaining.val + amount.val = x.collateralAmount.val →
      (assertWithdrawalIsCollateralized { x with collateralAmount := remaining } accumulator
        redemption params quote.projectedAt amount = .ok () ↔
        (quote.normalizedDebtAmount.val = 0 ∨ quote.currentRedemptionPrice.val ≠ 0) ∧
          amount.val * fixedPointOne.val ^ 3 + quote.requiredCollateralValue.val
            ≤ quote.collateralValue.val) := by
    intro remaining hrest
    rw [hcheck, h.debt, h.required, h.collateral, ← surplus_iff _ remaining _ _ _ _ _ hrest]
    by_cases h0 : x.normalizedDebtAmount.val = 0
    · refine iff_of_true (Or.inl h0) ⟨Or.inl h0, ?_⟩
      rw [isCollateralized_iff _ _ _ _ _
        (h.ratio_pos w quote params accumulator redemption x he) h.fits, h0, Nat.zero_mul,
        Nat.zero_mul, Nat.zero_mul]
      exact Nat.zero_le _
    · simp only [h0, false_or]
  obtain ⟨s, hr, rfl⟩ := he.represents w params (Holds.storedParameters w params h.parameters)
  have hx := (positionAt_eq_some w _ x).mpr (Holds.owned_eq _ _ _ _ h.position)
  obtain ⟨hlive, -⟩ := hr.position w s _ x hx
  obtain ⟨held, hheld, hkind, htoken, -⟩ := hr.tokens.vaults _ hlive
  obtain ⟨vaultBalance, hvaulted⟩ := Token.TokenHolding.eq_fungible_of_kind held hkind
  rw [htoken] at hvaulted
  subst hvaulted
  have hcovered := sound_covers w he.1 _ x hx
  rw [h.vault.2, h.vault.1, hheld.unitsAt_eq] at hcovered
  change x.collateralAmount.val ≤ vaultBalance.val at hcovered
  have hinputs : WithdrawalInputs w quote.ownerId quote.positionId u x s.parameters accumulator
      redemption quote.projectedAt vaultBalance balance :=
    ⟨h.derived, h.owner, h.vault.2.trans h.vault.1, h.position, h.parameters, h.accumulates,
      h.redeems, h.clock, hheld.data, hu.owner.trans hheld.owner.symm, hu.data⟩
  constructor
  · rintro ⟨w', ht⟩
    obtain ⟨v, calls, hperf, -⟩ := transact_settled platform w w' authority _ ht _ rfl
    obtain ⟨hn, -, x', params', accumulator', redemption', now, -, -, remaining, reads, -, hp,
      hfrozen, ha, hr', hnow, -, -, -, -, -, hrest, hcol, -, -⟩ :=
      (performs_withdraw w v authority calls _ _ _ u _ _ _ _ amount).mp hperf
    obtain rfl := Data.position.inj (reads.stored.2.symm.trans h.position.2)
    obtain rfl := Data.protocolParameters.inj (hp.2.symm.trans h.parameters.2)
    obtain rfl := Data.stabilityFeeAccumulator.inj (ha.2.symm.trans h.accumulates.2)
    obtain rfl := Data.redemptionPriceState.inj (hr'.2.symm.trans h.redeems.2)
    obtain rfl := Data.clock.inj (hnow.symm.trans h.clock)
    refine ⟨reads.authorized, ?_, ?_, hfrozen, (hmargin remaining hrest).mp hcol⟩
    · rintro rfl
      simp at hn
    · rw [h.vault.1]
      rintro rfl
      simp at hn
  · rintro ⟨ho, hne, huk, hfrozen, hrest⟩
    have hle : amount.val ≤ x.collateralAmount.val := by
      have hsides := (Nat.le_add_right _ _).trans hrest.2
      rw [h.collateral] at hsides
      exact Nat.le_of_mul_le_mul_right (hsides.trans_eq (collateralValue_exact _))
        (Nat.pow_pos fixedPointOne_pos)
    rw [h.vault.1] at huk
    have hsum : x.collateralAmount.val - amount.val + amount.val = x.collateralAmount.val :=
      Nat.sub_add_cancel hle
    have hroom := hc.room w _ _ u vaultBalance balance hheld (Or.inr hu) huk.symm
    exact withdraw_succeeds platform hcalls w he hclk authority hgranted _ _ u x s.parameters
      accumulator redemption quote.projectedAt vaultBalance balance amount
      ⟨x.collateralAmount.val - amount.val, (Nat.sub_le _ _).trans_lt x.collateralAmount.isLt⟩ hinputs
      ho hfrozen hsum ((hmargin _ hsum).mpr hrest) (hle.trans hcovered) (by omega) hne huk

end

/-- In every reachable world the reported health of a position is that of the unbounded integers. The
owner may withdraw exactly what the surplus of its sides covers, while the protocol is not frozen and
the price of a debt does not vanish; and nobody borrows against a position reported unhealthy. -/
theorem health_bounds_withdrawals (platform : Platform) (hcalls : 2 ≤ platform.callDepth)
    (genesis : Genesis) (events : List Event) (request : PositionHealthRequest)
    (quote : PositionHealth)
    (hreads : ReadFrom (run platform genesis.world events) request.stablecoinProgramId request.reads)
    (h : positionHealth request = .ok quote) :
    ∃ params accumulator redemption x,
      Reported (run platform genesis.world events) quote params accumulator redemption x ∧
      (quote.isCollateralized = true ↔
        Collateralized params accumulator redemption quote.projectedAt x) ∧
      ∀ authority, Granted authority → ∀ u,
        (∀ amount : U128, quote.isCollateralized = false → ¬∃ w',
          transact platform (run platform genesis.world events) authority
            (generateCall quote.ownerId quote.positionId u amount) = .ok w') ∧
        ∀ balance, HoldingAt (run platform genesis.world events) u
            (.fungible params.collateralDefinitionId balance) → ∀ amount : U128, amount.val ≠ 0 →
          ((∃ w', transact platform (run platform genesis.world events) authority
              (withdrawCollateralCall quote.ownerId quote.positionId u amount) = .ok w') ↔
            quote.ownerId ∈ authority ∧ u ≠ quote.ownerId ∧ u ≠ quote.vaultId ∧
              params.isFrozen = false ∧
              (quote.normalizedDebtAmount.val = 0 ∨ quote.currentRedemptionPrice.val ≠ 0) ∧
              amount.val * fixedPointOne.val ^ 3 + quote.requiredCollateralValue.val
                ≤ quote.collateralValue.val) := by
  have he := run_established platform genesis events
  have hc := (Token.run_conserved platform genesis events).2
  have hclk := run_clock_owns_nothing platform genesis events
  obtain ⟨params, accumulator, redemption, x, hreported⟩ :=
    positionHealth_reported _ request quote hreads h
  refine ⟨params, accumulator, redemption, x, hreported, hreported.exact _ _ _ _ _ _ he,
    fun authority hgranted u => ⟨fun amount hunhealthy => ?_, fun balance hu amount hamount => ?_⟩⟩
  · rintro ⟨w', ht⟩
    rw [hreported.generates _ _ _ _ _ _ he platform authority u amount w' ht] at hunhealthy
    cases hunhealthy
  · exact hreported.withdraws _ _ _ _ _ _ he hc hclk platform hcalls authority hgranted u balance
      amount hamount hu

def firstHealthRequest : PositionHealthRequest :=
  ⟨some stablecoinProgramId, some (.key 30), "0", readOf firstDebtWorld firstPositionId,
    readOf firstDebtWorld parametersId, readOf firstDebtWorld accumulatorId,
    readOf firstDebtWorld redemptionId, readOf firstDebtWorld clock01ProgramAccountId⟩

def firstHealth : PositionHealth :=
  ⟨.key 30, 0, firstPositionId, vaultId firstPositionId, 2000, 1000, 0, oneWide, oneWide,
    minCollateralizationRatio, 0, 1000, 2000 * oneWide * oneWide * oneWide,
    1100 * oneWide * oneWide * oneWide, false, true⟩

theorem first_surplus_is_withdrawn : firstHealth.isCollateralized = true ∧
    (∃ w', transact tablePlatform firstDebtWorld [.key 30]
      (withdrawCollateralCall (.key 30) firstPositionId (.key 21) 900) = .ok w') ∧
    ¬∃ w', transact tablePlatform firstDebtWorld [.key 30]
      (withdrawCollateralCall (.key 30) firstPositionId (.key 21) 901) = .ok w' := by
  have hreads : ReadFrom firstDebtWorld firstHealthRequest.stablecoinProgramId
      firstHealthRequest.reads := by
    refine ⟨rfl, ?_⟩
    simp only [PositionHealthRequest.reads, firstHealthRequest, List.forall_mem_cons]
    exact ⟨readOf_truthful _ _, readOf_truthful _ _, readOf_truthful _ _, readOf_truthful _ _,
      readOf_truthful _ _, fun _ h => by cases h⟩
  obtain ⟨params, accumulator, redemption, x, hreported, -, hwithdraws⟩ :=
    health_bounds_withdrawals tablePlatform le_rfl (clockedGenesis 0) firstDebtEvents
      firstHealthRequest firstHealth hreads (by decide +kernel)
  have hp : owned stablecoinProgramId firstDebtWorld parametersId
      = some (.protocolParameters firstParameters) := by decide +kernel
  obtain rfl := Data.protocolParameters.inj
    (hreported.parameters.2.symm.trans ((owned_eq_some _ _ _ _).mp hp).2)
  have hiff := (hwithdraws [.key 30] (by unfold Granted; decide) (.key 21)).2
    999999999999999999999998000 (by decide +kernel : owned _ _ _ = _)
  have hcovered : ∀ amount : U128, amount.val * fixedPointOne.val ^ 3
      + firstHealth.requiredCollateralValue.val ≤ firstHealth.collateralValue.val ↔
      amount.val ≤ 900 := by
    have hrequired : firstHealth.requiredCollateralValue.val = 1100 * fixedPointOne.val ^ 3 := by
      decide +kernel
    have hcollateral : firstHealth.collateralValue.val = 2000 * fixedPointOne.val ^ 3 := by
      decide +kernel
    intro amount
    rw [hrequired, hcollateral, ← Nat.add_mul,
      Nat.mul_le_mul_right_iff (Nat.pow_pos fixedPointOne_pos)]
    omega
  have hprice : firstHealth.currentRedemptionPrice.val ≠ 0 := by decide +kernel
  simp only [hcovered] at hiff
  exact ⟨rfl, (hiff 900 (by decide)).mpr ⟨by decide, by decide, by decide, rfl, Or.inr hprice, le_rfl⟩,
    fun h => absurd ((hiff 901 (by decide)).mp h).2.2.2.2.2 (by decide)⟩

end LezPrograms.StablecoinClient
