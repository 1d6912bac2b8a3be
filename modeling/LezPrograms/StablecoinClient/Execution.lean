import LezPrograms.Stablecoin.Completion
import LezPrograms.StablecoinClient.Plans

/-! # Accepted plans and their execution

A plan is accepted on the accounts of a reachable world and its instruction is
submitted in that world. Withdrawals always succeed. The plans for debt leave out
an alias of the caller's holding, the fees that are minted into the same supply and
the total of all debts. -/

set_option autoImplicit false

namespace LezPrograms.StablecoinClient
open LezPrograms.Checked LezPrograms.Checked.Unsigned LezPrograms.Lee LezPrograms.Stablecoin
open LezPrograms.Stablecoin.Math LezPrograms.Stablecoin.Quotes
open LezPrograms.AmmClient (AccountRead readOf)

def ReadFrom (w : Accounts) (programId : Option AccountId) (reads : List AccountRead) : Prop :=
  programId = some stablecoinProgramId ∧ ∀ read ∈ reads, Truthful w read

def GenerateDebtPlanRequest.reads (request : GenerateDebtPlanRequest) : List AccountRead :=
  [request.position, request.stablecoinDefinition, request.userStablecoinHolding,
    request.stabilityFeeAccumulator, request.redemptionPriceState, request.protocolParameters,
    request.clock]

def RepayDebtPlanRequest.reads (request : RepayDebtPlanRequest) : List AccountRead :=
  [request.position, request.stablecoinDefinition, request.userStablecoinHolding,
    request.stabilityFeeAccumulator, request.protocolParameters, request.clock]

def WithdrawCollateralPlanRequest.reads (request : WithdrawCollateralPlanRequest) :
    List AccountRead :=
  [request.position, request.vault, request.userCollateralHolding,
    request.stabilityFeeAccumulator, request.redemptionPriceState, request.protocolParameters,
    request.clock]

def Executes (platform : Platform) (w : Accounts) (authority : List AccountId) (plan : Plan) : Prop :=
  plan.accountIds.Nodup ∧ ∃ w', transact platform w authority plan.call = .ok w'

theorem executes_iff (platform : Platform) (w : Accounts) (authority : List AccountId) (plan : Plan) :
    Executes platform w authority plan ↔ ∃ w', transact platform w authority plan.call = .ok w' := by
  refine ⟨fun h => h.2, fun ⟨w', h⟩ => ⟨?_, w', h⟩⟩
  obtain ⟨v, calls, hperf, -⟩ := transact_settled platform w w' authority _ h _ rfl
  exact hperf.1

section
variable (w : Accounts) (amount : U128) (plan : Plan)

theorem generateDebtPlan_found (request : GenerateDebtPlanRequest)
    (hreads : ReadFrom w request.stablecoinProgramId request.reads)
    (hamount : parseU128 request.amount = .ok amount) (h : generateDebtPlan request = .ok plan) :
    ∃ o x u data params accumulator redemption now, ∃ rate balance delta newDebt : U128,
      request.ownerId = some o ∧ request.userStablecoinHoldingId = some u ∧
      plan.call = generateCall o x u amount ∧ plan.signers = [o] ∧ u ≠ o ∧
      DebtInputs w o x u data params accumulator now rate balance ∧ params.isFrozen = false ∧
      Holds stablecoinProgramId (w redemptionId) (.redemptionPriceState redemption) ∧
      mulDivCeil amount fixedPointOne rate = .ok delta ∧
      newDebt.val = data.normalizedDebtAmount.val + delta.val ∧
      (computeCurrentRedemptionPriceWide redemption.redemptionPriceAtLastUpdate
        redemption.redemptionRatePerMillisecond redemption.lastUpdatedAt now).val ≠ 0 ∧
      assertPositionIsCollateralized { data with normalizedDebtAmount := newDebt }
        (widen rate (by decide)) (computeCurrentRedemptionPriceWide
          redemption.redemptionPriceAtLastUpdate redemption.redemptionRatePerMillisecond
          redemption.lastUpdatedAt now) params.minimumCollateralizationRatio = .ok () ∧
      balance.val + amount.val < 2 ^ 128 := by
  obtain ⟨hprogram, htruthful⟩ := hreads
  simp only [GenerateDebtPlanRequest.reads, List.forall_mem_cons] at htruthful
  obtain ⟨hposition, hdefinition, hholding, haccumulator, hredemption, hparameters, hclock, -⟩ :=
    htruthful
  simp only [generateDebtPlan, parseStablecoinProgramId, parseAccountId, parseId_eq_ok, hprogram,
    bind_eq_ok, ensure_eq_ok, exists_const, expect_eq_ok, pure_eq_ok, Prod.exists, hamount,
    mintableSupply_eq_ok, holdingBalance_eq_ok, checkedAdd_eq_some, checkedAccumulator_eq,
    checkedDebtDelta_eq, Option.some.injEq, Except.ok.injEq] at h
  obtain ⟨programId, ⟨rfl, -⟩, o, ⟨ho, -⟩, nonce, -, amount', rfl, u, ⟨hu, -⟩, x, data, hx, p, params,
    hp, hfrozen, a, accumulator, ha, r, redemption, hr, now, hnow, d, definition, hd, ⟨-, rfl⟩,
    supply, -, ⟨hne, -⟩, u', destination, hdest, rfl, hsame, balance, hbalance, _, -, newBalance,
    hnewBalance, rate, hrate, delta, hdelta, newDebt, hdebt, hprice, hcol, rfl⟩ := h
  obtain ⟨hx1, hx2, hx3⟩ := hposition.position w _ _ _ _ _ _ hx
  obtain ⟨rfl, hp⟩ := hparameters.parameters w _ _ _ _ hp
  obtain ⟨rfl, ha⟩ := haccumulator.accumulator w _ _ _ _ ha
  obtain ⟨rfl, hr⟩ := hredemption.redemption w _ _ _ _ hr
  obtain rfl := hdefinition.required w _ _ _ hd
  obtain rfl := hholding.required w _ _ _ hdest
  refine ⟨o, x, u', data, params, accumulator, redemption, now, rate, balance, delta, newDebt, ho, hu,
    rfl, rfl, hne, ⟨hx1, hx2, hx3, hp, ha, hclock.clock w _ _ hnow, hrate, hsame, hbalance⟩, hfrozen,
    hr, hdelta, hdebt, hprice, ?_, hnewBalance ▸ newBalance.isLt⟩
  rw [assertPositionIsCollateralized]
  split
  · rfl
  · exact ensure_pos _ _ hcol

theorem repayDebtPlan_found (he : Established w) (request : RepayDebtPlanRequest)
    (hreads : ReadFrom w request.stablecoinProgramId request.reads)
    (hamount : parseU128 request.amount = .ok amount) (h : repayDebtPlan request = .ok plan) :
    ∃ o x u data params accumulator now, ∃ rate balance delta : U128,
      request.ownerId = some o ∧ request.userStablecoinHoldingId = some u ∧
      plan.call = repayCall o x u amount ∧ plan.signers = [o, u] ∧
      DebtInputs w o x u data params accumulator now rate balance ∧
      mulDiv amount fixedPointOne rate = .ok delta ∧
      delta.val ≤ data.normalizedDebtAmount.val ∧ amount.val ≤ balance.val := by
  obtain ⟨hprogram, htruthful⟩ := hreads
  simp only [RepayDebtPlanRequest.reads, List.forall_mem_cons] at htruthful
  obtain ⟨hposition, hdefinition, hholding, haccumulator, hparameters, hclock, -⟩ := htruthful
  simp only [repayDebtPlan, parseStablecoinProgramId, parseAccountId, parseId_eq_ok, hprogram,
    bind_eq_ok, ensure_eq_ok, exists_const, pure_eq_ok, Prod.exists, hamount, ensureFungible_eq_ok,
    holdingBalance_eq_ok, mapError_eq_ok, repaidDebt, Option.some.injEq, Except.ok.injEq] at h
  obtain ⟨programId, ⟨rfl, -⟩, o, ⟨ho, -⟩, nonce, -, amount', rfl, u, ⟨hu, -⟩, p, params, hp, x, data,
    hx, d, definition, hd, hnamed, -, u', holding, hheld, rfl, hsame, balance, hbalance, hpays, a,
    accumulator, ha, now, hnow, delta, ⟨rate, hrate, hdelta⟩, hdebt, rfl⟩ := h
  obtain ⟨hx1, hx2, hx3⟩ := hposition.position w _ _ _ _ _ _ hx
  obtain ⟨rfl, hp⟩ := hparameters.parameters w _ _ _ _ hp
  obtain ⟨rfl, ha⟩ := haccumulator.accumulator w _ _ _ _ ha
  obtain rfl := hdefinition.required w _ _ _ hd
  obtain rfl := hholding.required w _ _ _ hheld
  obtain ⟨s, hr, rfl⟩ := he.represents w params (Holds.storedParameters w params hp)
  obtain rfl : d = definitionId := hnamed.trans hr.named
  exact ⟨o, x, u', data, _, accumulator, now, rate, balance, delta, ho, hu, rfl, rfl,
    ⟨hx1, hx2, hx3, hp, ha, hclock.clock w _ _ hnow, hrate, hsame, hbalance⟩, hdelta, hdebt, hpays⟩

theorem withdrawCollateralPlan_found (request : WithdrawCollateralPlanRequest)
    (hreads : ReadFrom w request.stablecoinProgramId request.reads)
    (hamount : parseU128 request.amount = .ok amount)
    (h : withdrawCollateralPlan request = .ok plan) :
    ∃ o x u data params accumulator redemption now, ∃ vaultBalance balance remaining : U128,
      plan.call = withdrawCollateralCall o x u amount ∧ plan.signers = [o] ∧
      WithdrawalInputs w o x u data params accumulator redemption now vaultBalance balance ∧
      params.isFrozen = false ∧ remaining.val + amount.val = data.collateralAmount.val ∧
      assertWithdrawalIsCollateralized { data with collateralAmount := remaining } accumulator
        redemption params now amount = .ok () ∧
      amount.val ≤ vaultBalance.val ∧ balance.val + amount.val < 2 ^ 128 ∧ u ≠ o ∧
      u ≠ vaultId x := by
  obtain ⟨hprogram, htruthful⟩ := hreads
  simp only [WithdrawCollateralPlanRequest.reads, List.forall_mem_cons] at htruthful
  obtain ⟨hposition, hvault, hholding, haccumulator, hredemption, hparameters, hclock, -⟩ := htruthful
  simp only [withdrawCollateralPlan, parseStablecoinProgramId, parseAccountId, parseId_eq_ok,
    hprogram, bind_eq_ok, ensure_eq_ok, exists_const, expect_eq_ok, pure_eq_ok, Prod.exists, hamount,
    holdingBalance_eq_ok, checkedAdd_eq_some, checkedSub_eq_some, ensureCollateralized_eq_ok,
    Option.some.injEq, Except.ok.injEq] at h
  obtain ⟨programId, ⟨rfl, -⟩, o, -, nonce, -, amount', rfl, u, -, p, params, hp, hfrozen, a,
    accumulator, ha, r, redemption, hr, now, hnow, x, data, hx, hnamed, k, vault, hk, rfl,
    ⟨huk, hne⟩, vaultBalance, hvaultBalance, u', destination, hdest, rfl, hsame, balance, hbalance,
    remaining, hrest, hcovers, newBalance, hnewBalance, hcol, rfl⟩ := h
  obtain ⟨hx1, hx2, hx3⟩ := hposition.position w _ _ _ _ _ _ hx
  obtain ⟨rfl, hp⟩ := hparameters.parameters w _ _ _ _ hp
  obtain ⟨rfl, ha⟩ := haccumulator.accumulator w _ _ _ _ ha
  obtain ⟨rfl, hr⟩ := hredemption.redemption w _ _ _ _ hr
  obtain rfl := hvault.required w _ _ _ hk
  obtain rfl := hholding.required w _ _ _ hdest
  exact ⟨o, x, u', data, params, accumulator, redemption, now, vaultBalance, balance, remaining, rfl,
    rfl, ⟨hx1, hx2, hnamed, hx3, hp, ha, hr, hclock.clock w _ _ hnow, hvaultBalance, hsame, hbalance⟩,
    hfrozen, hrest, hcol, hcovers, hnewBalance ▸ newBalance.isLt, hne, huk⟩

end

/-- In every reachable world an accepted withdrawal executes, an accepted repayment exactly if the
holding is not the owner's own account and the supply has room for the fees that are due, and an
accepted generation of debt exactly if the holding is not the master holding, the supply has room
for the fees and the amount, and the total of all debts for the new one. -/
theorem accepted_plans_execute_iff (platform : Platform) (hcalls : 2 ≤ platform.callDepth)
    (genesis : Genesis) (events : List Event) (authority : List AccountId)
    (hgranted : Granted authority) (amount : U128) (plan : Plan)
    (hsigned : ∀ id ∈ plan.signers, id ∈ authority) :
    (∀ request : WithdrawCollateralPlanRequest,
      ReadFrom (run platform genesis.world events) request.stablecoinProgramId request.reads →
      parseU128 request.amount = .ok amount → withdrawCollateralPlan request = .ok plan →
      Executes platform (run platform genesis.world events) authority plan) ∧
    (∀ request : RepayDebtPlanRequest,
      ReadFrom (run platform genesis.world events) request.stablecoinProgramId request.reads →
      parseU128 request.amount = .ok amount → repayDebtPlan request = .ok plan →
      (Executes platform (run platform genesis.world events) authority plan ↔
        request.userStablecoinHoldingId ≠ request.ownerId ∧
          SupplyFits (run platform genesis.world events) 0)) ∧
    ∀ request : GenerateDebtPlanRequest,
      ReadFrom (run platform genesis.world events) request.stablecoinProgramId request.reads →
      parseU128 request.amount = .ok amount → generateDebtPlan request = .ok plan →
      (Executes platform (run platform genesis.world events) authority plan ↔
        request.userStablecoinHoldingId ≠ some masterId ∧
          SupplyFits (run platform genesis.world events) amount.val ∧
          DebtFits (run platform genesis.world events) amount) := by
  have he := run_established platform genesis events
  have hc := (Token.run_conserved platform genesis events).2
  have hclock := run_clock_owns_nothing platform genesis events
  generalize run platform genesis.world events = w at he hc hclock
  simp only [executes_iff]
  refine ⟨fun request hreads hamount h => ?_, fun request hreads hamount h => ?_,
    fun request hreads hamount h => ?_⟩
  · obtain ⟨o, x, u, data, params, accumulator, redemption, now, vaultBalance, balance, remaining,
      hcall, hsigners, hinputs, hfrozen, hrest, hcol, hvault, hbalance, hne, huk⟩ :=
      withdrawCollateralPlan_found w amount plan request hreads hamount h
    have ho : o ∈ authority := hsigned o (by rw [hsigners]; exact List.mem_singleton_self o)
    rw [hcall]
    exact withdraw_succeeds platform hcalls w he hclock authority hgranted o x u data params
      accumulator redemption now vaultBalance balance amount remaining hinputs ho hfrozen hrest hcol
      hvault hbalance hne huk
  · obtain ⟨o, x, u, data, params, accumulator, now, rate, balance, delta, howner, hholding, hcall,
      hsigners, hinputs, hdelta, hdebt, hpays⟩ :=
      repayDebtPlan_found w amount plan he request hreads hamount h
    have hsigns : o ∈ authority ∧ u ∈ authority := by
      simp only [hsigners, List.forall_mem_cons] at hsigned
      exact ⟨hsigned.1, hsigned.2.1⟩
    rw [hcall, howner, hholding, ne_eq, Option.some.injEq]
    constructor
    · rintro ⟨w', h⟩
      exact repay_fits platform w he w' authority o x u amount h
    · rintro ⟨hne, hsupply⟩
      exact repay_succeeds platform w he hcalls hc hclock authority hgranted o x u data params
        accumulator now rate balance amount delta hinputs hsigns.1 hdelta hdebt hpays hsigns.2 hne
        hsupply
  · obtain ⟨o, x, u, data, params, accumulator, redemption, now, rate, balance, delta, newDebt, howner,
      hholding, hcall, hsigners, hne, hinputs, hfrozen, hredemption, hdelta, hdebt, hprice, hcol,
      hbalance⟩ := generateDebtPlan_found w amount plan request hreads hamount h
    have ho : o ∈ authority := hsigned o (by rw [hsigners]; exact List.mem_singleton_self o)
    rw [hcall, hholding, ne_eq, Option.some.injEq]
    constructor
    · rintro ⟨w', h⟩
      exact (generate_fits platform w he w' authority o x u amount h).2
    · rintro ⟨hum, hsupply, htotal⟩
      exact generate_succeeds platform w he hcalls hc hclock authority hgranted o x u data params
        accumulator now rate balance amount delta hinputs ho redemption newDebt hfrozen hredemption
        hdelta hdebt hprice hcol hbalance hne hum hsupply htotal

def firstBorrowing (holding : AccountId) : GenerateDebtPlanRequest :=
  ⟨some stablecoinProgramId, some (.key 30), "0", .string "1000", some holding,
    readOf firstWorld firstPositionId, readOf firstWorld definitionId, readOf firstWorld holding,
    readOf firstWorld accumulatorId, readOf firstWorld redemptionId, readOf firstWorld parametersId,
    readOf firstWorld clock01ProgramAccountId⟩

def firstBorrowingPlan (holding : AccountId) : Plan :=
  ⟨stablecoinProgramId, [.key 30, firstPositionId, definitionId, holding, masterId, accumulatorId,
    redemptionId, parametersId, clock01ProgramAccountId],
    [true, false, false, false, false, false, false, false, false], .generateDebt 1000⟩

theorem firstBorrowing_reads (holding : AccountId) :
    ReadFrom firstWorld (firstBorrowing holding).stablecoinProgramId (firstBorrowing holding).reads := by
  refine ⟨rfl, ?_⟩
  simp only [GenerateDebtPlanRequest.reads, firstBorrowing, List.forall_mem_cons]
  exact ⟨readOf_truthful _ _, readOf_truthful _ _, readOf_truthful _ _, readOf_truthful _ _,
    readOf_truthful _ _, readOf_truthful _ _, readOf_truthful _ _, fun _ h => by cases h⟩

/-- Nothing is owed yet, so no fees are due. -/
theorem firstWorld_fits : SupplyFits firstWorld 1000 ∧ DebtFits firstWorld 1000 := by
  have haccumulator : ∀ accumulator, storedAccumulator firstWorld = some accumulator →
      accumulator.totalNormalizedDebt.val = 0 := by
    have htotal : totalNormalizedDebt firstWorld = 0 := by decide +kernel
    intro accumulator h
    rw [totalNormalizedDebt, h] at htotal
    exact htotal
  refine ⟨fun accumulator rate hstored _ => ?_, fun accumulator rate delta hstored _ _ => ?_⟩
  · have hsupply : Token.supplyOf firstWorld definitionId = 0 := by decide +kernel
    rw [hsupply, dueFees, haccumulator _ hstored, Nat.zero_mul, Nat.zero_div]
    decide
  · rw [haccumulator _ hstored, Nat.zero_add]
    exact delta.isLt

theorem first_borrowing_executes :
    Executes tablePlatform firstWorld [.key 30] (firstBorrowingPlan (.key 31)) :=
  ((accepted_plans_execute_iff tablePlatform le_rfl (clockedGenesis 0)
    (firstInitialization ++ firstOpening) [.key 30] (by unfold Granted; decide) 1000
    (firstBorrowingPlan (.key 31)) (by decide)).2.2 (firstBorrowing (.key 31))
    (firstBorrowing_reads _) (by decide) (by decide +kernel)).mpr ⟨by decide, firstWorld_fits⟩

/-- The plan accepts the master holding, which the instruction names already. -/
theorem borrowing_into_master_fails :
    ReadFrom firstWorld (firstBorrowing masterId).stablecoinProgramId (firstBorrowing masterId).reads ∧
      generateDebtPlan (firstBorrowing masterId) = .ok (firstBorrowingPlan masterId) ∧
      (firstBorrowingPlan masterId).signers = [.key 30] ∧
      ¬(firstBorrowingPlan masterId).accountIds.Nodup ∧
      ¬Executes tablePlatform firstWorld [.key 30] (firstBorrowingPlan masterId) := by
  have hdup : ¬(firstBorrowingPlan masterId).accountIds.Nodup := by decide
  exact ⟨firstBorrowing_reads _, by decide +kernel, rfl, hdup, fun h => hdup h.1⟩

end LezPrograms.StablecoinClient
