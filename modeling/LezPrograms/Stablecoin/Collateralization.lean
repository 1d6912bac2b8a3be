import LezPrograms.Stablecoin.Reachable

/-! # Soundness of the collateralization check

The check compares products of saturating projections. A saturated projection
makes the required product larger than any collateral, so what the check
approves is collateralized over the unbounded integers. -/

set_option autoImplicit false

namespace LezPrograms.Stablecoin
open LezPrograms.Checked LezPrograms.Checked.Unsigned LezPrograms.Lee LezPrograms.Token
open LezPrograms.Stablecoin.Math LezPrograms.Stablecoin.Compounding
open LezPrograms.Stablecoin.Saturation

/-- No collateral, scaled three times, reaches it. -/
def collateralCeiling : ℕ := 2 ^ 128 * fixedPointOne.val ^ 3

theorem collateral_lt (collateral : U128) :
    collateral.val * fixedPointOne.val ^ 3 < collateralCeiling :=
  Nat.mul_lt_mul_of_pos_right collateral.isLt (Nat.pow_pos fixedPointOne_pos)

theorem ceiling_le_maxValue : collateralCeiling ≤ (maxValue 512).val :=
  le_maxValue_512 _ (by norm_num [collateralCeiling])

theorem ceiling_le_floor : collateralCeiling + fixedPointOne.val ≤ saturationFloor := by
  have hfit := le_maxValue_512 ((collateralCeiling + fixedPointOne.val) * fixedPointOne.val)
    (by norm_num [collateralCeiling])
  exact (Nat.le_div_iff_mul_le fixedPointOne_pos).mpr hfit

theorem wrappingMul_one (a : U512) (n : ℕ) (ha : a.val = n)
    (h : n * fixedPointOne.val < collateralCeiling) :
    (wrappingMul a oneWide).val = n * fixedPointOne.val := by
  rw [wrappingMul_val, ha, oneWide_val]
  rw [ha, oneWide_val]
  exact h.le.trans ceiling_le_maxValue

/-- The collateral side never wraps. -/
theorem collateralValue_exact (collateral : U128) :
    (wrappingMul (wrappingMul (wrappingMul (widen collateral (by decide)) oneWide) oneWide)
      oneWide).val = collateral.val * fixedPointOne.val ^ 3 := by
  have h3 := collateral_lt collateral
  have e3 : collateral.val * fixedPointOne.val * fixedPointOne.val * fixedPointOne.val =
      collateral.val * fixedPointOne.val ^ 3 := by ring
  have e2 : collateral.val * fixedPointOne.val * fixedPointOne.val ≤
      collateral.val * fixedPointOne.val ^ 3 :=
    (Nat.le_mul_of_pos_right _ fixedPointOne_pos).trans_eq e3
  have e1 : collateral.val * fixedPointOne.val ≤ collateral.val * fixedPointOne.val ^ 3 :=
    (Nat.le_mul_of_pos_right _ fixedPointOne_pos).trans e2
  have s1 := wrappingMul_one (widen collateral (by decide)) _ (widen_val _ _)
    (lt_of_le_of_lt e1 h3)
  have s2 := wrappingMul_one _ _ s1 (lt_of_le_of_lt e2 h3)
  have s3 := wrappingMul_one _ _ s2 (lt_of_eq_of_lt e3 h3)
  exact s3.trans e3

/-- The required product is exact or capped. -/
theorem le_requiredProduct {w : ℕ} (n : ℕ) (hn : n ≤ (maxValue w).val)
    (operands : List (Unsigned w)) :
    ∀ required : Unsigned w, n ≤ required.val * (operands.map Fin.val).prod →
      n ≤ (requiredProduct required operands).1.val := by
  induction operands with
  | nil =>
    intro required h
    rwa [List.map_nil, List.prod_nil, Nat.mul_one] at h
  | cons operand operands ih =>
    intro required h
    rw [List.map_cons, List.prod_cons, ← Nat.mul_assoc] at h
    rw [requiredProduct]
    split
    · rename_i product hp
      rw [← (checkedMul_eq_some _ _ _).mp hp] at h
      exact ih product h
    · exact hn

theorem approved_product (collateral debt ratio : U128) (accumulator price : U512)
    (h : (collateralizationValues collateral debt accumulator price ratio).isCollateralized) :
    debt.val * accumulator.val * price.val * ratio.val ≤
      collateral.val * fixedPointOne.val ^ 3 := by
  by_contra hlt
  rw [Nat.not_le] at hlt
  have hroom := (Nat.succ_le_of_lt (collateral_lt collateral)).trans ceiling_le_maxValue
  simp only [CollateralizationValues.isCollateralized, collateralizationValues,
    collateralValue_exact] at h
  refine Nat.not_succ_le_self _ (le_trans (le_requiredProduct _ hroom _ _ ?_) h)
  simp only [List.map_cons, List.map_nil, List.prod_cons, List.prod_nil, widen_val, Nat.mul_one,
    ← Nat.mul_assoc]
  exact hlt

/-- The scaled floor still exceeds every collateral. -/
theorem ceiling_le_scaled (ratio : ℕ) (h : fixedPointOne.val ≤ ratio) :
    collateralCeiling ≤ saturationFloor / fixedPointOne.val * ratio := by
  have hfloor := ceiling_le_floor
  have hdm := Nat.div_add_mod saturationFloor fixedPointOne.val
  have hlt := Nat.mod_lt saturationFloor fixedPointOne_pos
  have hmul := Nat.mul_le_mul_left (saturationFloor / fixedPointOne.val) h
  rw [Nat.mul_comm] at hdm
  omega

/-- An approved position is collateralized over the unbounded integers. -/
theorem approved_exact (collateral debt ratio accumulatorAnchor fee priceAnchor rate : U128)
    (accruedAt updatedAt now : U64) (accumulator : U512) (hdebt : debt.val ≠ 0)
    (hratio : minCollateralizationRatio.val ≤ ratio.val)
    (hanchor : fixedPointOne.val ≤ accumulatorAnchor.val) (hpositive : 1 ≤ priceAnchor.val)
    (haccumulator : accumulator.val = exactProjection accumulatorAnchor fee accruedAt now ∨
      min (accumulatorAnchor.val * saturationFloor / fixedPointOne.val) saturationFloor ≤
        accumulator.val)
    (hprice : (computeCurrentRedemptionPriceWide priceAnchor rate updatedAt now).val ≠ 0)
    (h : (collateralizationValues collateral debt accumulator
      (computeCurrentRedemptionPriceWide priceAnchor rate updatedAt now) ratio).isCollateralized) :
    debt.val * exactProjection accumulatorAnchor fee accruedAt now *
        exactProjection priceAnchor rate updatedAt now * ratio.val ≤
      collateral.val * fixedPointOne.val ^ 3 := by
  have hproduct := approved_product _ _ _ _ _ h
  have hlt := collateral_lt collateral
  have hone : fixedPointOne.val ≤ ratio.val := le_trans (by decide) hratio
  have hratio' := fixedPointOne_pos.trans_le hone
  rcases haccumulator with ha | ha
  · rcases Nat.eq_zero_or_pos (exactProjection accumulatorAnchor fee accruedAt now) with h0 | h0
    · rw [h0, Nat.mul_zero, Nat.zero_mul, Nat.zero_mul]
      exact Nat.zero_le _
    · rcases projectForwardWide_exact_or_saturated priceAnchor rate updatedAt now with hp | hp
      · rwa [ha, computeCurrentRedemptionPriceWide, hp] at hproduct
      · -- The saturated price alone exceeds the collateral.
        exfalso
        have hfloor : saturationFloor / fixedPointOne.val ≤
            (computeCurrentRedemptionPriceWide priceAnchor rate updatedAt now).val :=
          (le_min (Nat.div_le_div_right (Nat.le_mul_of_pos_left _ hpositive))
            (Nat.div_le_self _ _)).trans hp
        have hscaled := (ceiling_le_scaled ratio.val hone).trans
          (Nat.mul_le_mul_right ratio.val hfloor)
        rw [ha] at hproduct
        have hge := Nat.le_mul_of_pos_left
          ((computeCurrentRedemptionPriceWide priceAnchor rate updatedAt now).val * ratio.val)
          (Nat.mul_pos (Nat.pos_of_ne_zero hdebt) h0)
        rw [← Nat.mul_assoc] at hge
        omega
  · -- The saturated accumulator alone exceeds the collateral.
    exfalso
    have hfloor : saturationFloor ≤ accumulator.val := by
      refine (le_min ?_ le_rfl).trans ha
      rw [Nat.le_div_iff_mul_le fixedPointOne_pos, Nat.mul_comm]
      exact Nat.mul_le_mul_right _ hanchor
    have hceiling := ceiling_le_floor
    have hge : accumulator.val ≤ debt.val * accumulator.val *
        (computeCurrentRedemptionPriceWide priceAnchor rate updatedAt now).val * ratio.val := by
      refine (Nat.le_mul_of_pos_left _ (Nat.pos_of_ne_zero hdebt)).trans ?_
      exact (Nat.le_mul_of_pos_right _ (Nat.pos_of_ne_zero hprice)).trans
        (Nat.le_mul_of_pos_right _ hratio')
    omega

def Instruction.checksCollateral : Instruction → Bool
  | .generateDebt _ => true
  | .withdrawCollateral amount => decide (amount.val ≠ 0)
  | _ => false

theorem Instruction.setsParameters_unchecked (instruction : Instruction)
    (h : instruction.setsParameters = true) : instruction.checksCollateral = false := by
  cases instruction <;> first | rfl | cases h

def Collateralized (p : ProtocolParameters) (a : StabilityFeeAccumulator) (r : RedemptionPriceState)
    (now : U64) (x : Position) : Prop :=
  x.normalizedDebtAmount.val *
      exactProjection a.accumulatedRateAtLastAccrual p.stabilityFeePerMillisecond a.lastAccruedAt
        now *
      exactProjection r.redemptionPriceAtLastUpdate r.redemptionRatePerMillisecond
        r.lastUpdatedAt now *
      p.minimumCollateralizationRatio.val ≤
    x.collateralAmount.val * fixedPointOne.val ^ 3

section
variable (w : Accounts)

theorem Holds.storedParameters (p : ProtocolParameters)
    (h : Holds stablecoinProgramId (w parametersId) (.protocolParameters p)) :
    storedParameters w = some p := by
  rw [LezPrograms.Stablecoin.storedParameters, Holds.owned_eq _ _ _ _ h]

theorem Holds.storedAccumulator (a : StabilityFeeAccumulator)
    (h : Holds stablecoinProgramId (w accumulatorId) (.stabilityFeeAccumulator a)) :
    storedAccumulator w = some a := by
  rw [LezPrograms.Stablecoin.storedAccumulator, Holds.owned_eq _ _ _ _ h]

theorem Holds.storedRedemption (r : RedemptionPriceState)
    (h : Holds stablecoinProgramId (w redemptionId) (.redemptionPriceState r)) :
    storedRedemption w = some r := by
  rw [LezPrograms.Stablecoin.storedRedemption, Holds.owned_eq _ _ _ _ h]

/-- The projection that an accrual stores is exact. -/
theorem accrued_exact (p : ProtocolParameters) (a : StabilityFeeAccumulator) (now : U64)
    (accrual : FeeAccrual) (h : accrueFees p a now = .ok accrual) :
    accrual.accumulator.accumulatedRateAtLastAccrual.val =
      exactProjection a.accumulatedRateAtLastAccrual p.stabilityFeePerMillisecond a.lastAccruedAt
        now := by
  simp only [accrueFees, computeCurrentAccumulatedRate, bind_eq_ok, expect_eq_ok, mulDiv_eq_ok,
    pure_eq_ok] at h
  obtain ⟨current, ⟨factor, hfactor, -, hcurrent⟩, -, -, -, -, rfl⟩ := h
  rw [hcurrent, compoundRate_eq _ _ _ hfactor, exactProjection]

theorem assertPositionIsCollateralized_eq_ok (x : Position) (accumulator price : U512)
    (ratio : U128) (hdebt : x.normalizedDebtAmount.val ≠ 0)
    (h : assertPositionIsCollateralized x accumulator price ratio = .ok ()) :
    (collateralizationValues x.collateralAmount x.normalizedDebtAmount accumulator price
      ratio).isCollateralized := by
  rw [assertPositionIsCollateralized, if_neg hdebt, ensure_eq_ok] at h
  exact h

/-- What the step of a checking instruction leaves is collateralized. -/
theorem checked_step (authority ids : List AccountId) (instruction : Instruction) (v : Accounts)
    (calls : List ChainedCall)
    (step : Step stablecoinProgramId w authority ids instruction v calls)
    (hchecks : instruction.checksCollateral = true) (p : ProtocolParameters)
    (a : StabilityFeeAccumulator) (r : RedemptionPriceState) (now : U64) (id : AccountId)
    (x : Position) (hp : storedParameters w = some p) (ha : storedAccumulator w = some a)
    (hr : storedRedemption w = some r) (hnow : (w clock01ProgramAccountId).data = .clock now)
    (hid : ids[1]? = some id) (hx : owned stablecoinProgramId v id = some (.position x))
    (hdebt : x.normalizedDebtAmount.val ≠ 0)
    (hprice : 1 ≤ r.redemptionPriceAtLastUpdate.val)
    (hrate : fixedPointOne.val ≤ a.accumulatedRateAtLastAccrual.val)
    (hratio : minCollateralizationRatio.val ≤ p.minimumCollateralizationRatio.val) :
    Collateralized p a r now x := by
  cases step with
  | setParameters _ _ _ _ _ hsetter =>
    rw [instruction.setsParameters_unchecked hsetter] at hchecks
    cases hchecks
  | generateDebt owner position d user amount data params accumulator redemption now' accrual
      debtDelta newDebt newTotal reads accrues _ stored _ _ _ hpriced hcollateralized =>
    rw [accrues.clock, Data.clock.injEq] at hnow
    rw [Holds.storedParameters w _ accrues.parameters, Option.some.injEq] at hp
    rw [Holds.storedAccumulator w _ accrues.accumulates, Option.some.injEq] at ha
    rw [Holds.storedRedemption w _ stored, Option.some.injEq] at hr
    subst hnow hp ha hr
    rw [List.getElem?_cons_succ, List.getElem?_cons_zero, Option.some.injEq] at hid
    subst hid
    have hne : position ≠ accumulatorId := by
      rw [reads.derived]
      exact fun he => by cases AccountId.pda.inj he |>.2
    rw [owned_put _ _ _ _ (Or.inl (by rw [put_other _ _ _ _ _ hne.symm]; exact
      accrues.accumulates.1)), Function.update_of_ne hne, owned_put _ _ _ _
      (Or.inl reads.stored.1), Function.update_self, Option.some.injEq, Data.position.injEq] at hx
    subst hx
    exact approved_exact _ _ _ _ _ _ _ _ _ _ _ hdebt hratio hrate hprice
      (Or.inl ((widen_val _ _).trans (accrued_exact _ _ _ _ accrues.computed))) hpriced
      (assertPositionIsCollateralized_eq_ok _ _ _ _ hdebt hcollateralized)
  | withdrawCollateral owner position user amount data params accumulator redemption now'
      newCollateral vaultHolding userHolding reads parameters _ accumulates stored clock _ _ _ _ _ _
      hcollateralized =>
    rw [clock, Data.clock.injEq] at hnow
    rw [Holds.storedParameters w _ parameters, Option.some.injEq] at hp
    rw [Holds.storedAccumulator w _ accumulates, Option.some.injEq] at ha
    rw [Holds.storedRedemption w _ stored, Option.some.injEq] at hr
    subst hnow hp ha hr
    rw [List.getElem?_cons_succ, List.getElem?_cons_zero, Option.some.injEq] at hid
    subst hid
    rw [owned_put _ _ _ _ (Or.inl reads.stored.1), Function.update_self, Option.some.injEq,
      Data.position.injEq] at hx
    subst hx
    have hamount := of_decide_eq_true hchecks
    rw [assertWithdrawalIsCollateralized, if_pos ⟨hamount, hdebt⟩] at hcollateralized
    simp only [bind_eq_ok, ensure_eq_ok, exists_const] at hcollateralized
    obtain ⟨hpriced, hcheck⟩ := hcollateralized
    exact approved_exact _ _ _ _ _ _ _ _ _ _ _ hdebt hratio hrate hprice
      (projectForwardWide_exact_or_saturated _ _ _ _) hpriced
      (assertPositionIsCollateralized_eq_ok _ _ _ _ hdebt hcheck)
  | _ => cases hchecks

/-- A successful generation of debt or withdrawal of collateral leaves a position that is
collateralized over the unbounded integers. -/
theorem accepted_position_is_collateralized (platform : Platform) (w' : Accounts)
    (authority : List AccountId) (call : ChainedCall) (instruction : Instruction)
    (hi : call.instruction = .stablecoin instruction)
    (hchecks : instruction.checksCollateral = true)
    (h : transact platform w authority call = .ok w') (p : ProtocolParameters)
    (a : StabilityFeeAccumulator) (r : RedemptionPriceState) (now : U64) (id : AccountId)
    (x : Position) (hp : storedParameters w = some p) (ha : storedAccumulator w = some a)
    (hr : storedRedemption w = some r) (hnow : (w clock01ProgramAccountId).data = .clock now)
    (hid : call.accountIds[1]? = some id) (hx : positionAt w' id = some x)
    (hdebt : x.normalizedDebtAmount.val ≠ 0)
    (hprice : 1 ≤ r.redemptionPriceAtLastUpdate.val)
    (hrate : fixedPointOne.val ≤ a.accumulatedRateAtLastAccrual.val)
    (hratio : minCollateralizationRatio.val ≤ p.minimumCollateralizationRatio.val) :
    Collateralized p a r now x := by
  obtain ⟨v, calls, ht⟩ := transacted_of_ok platform w w' authority call instruction hi h
  rw [positionAt_eq_some, ht.invoked.stored_eq] at hx
  exact checked_step w authority _ instruction v calls ht.step hchecks p a r now id x hp ha hr hnow
    hid hx hdebt hprice hrate hratio

end

/-- The first generation of debt, checked. -/
theorem first_generation_collateralized :
    ∃ w' p a r x, transact tablePlatform firstWorld [.key 30] firstGeneration = .ok w' ∧
      storedParameters firstWorld = some p ∧ storedAccumulator firstWorld = some a ∧
      storedRedemption firstWorld = some r ∧ positionAt w' firstPositionId = some x ∧
      Collateralized p a r 0 x := by
  have h := transact_apply tablePlatform firstWorld [.key 30] firstGeneration (by decide +kernel)
  have hp := @Option.some_get _ (storedParameters firstWorld) (by decide +kernel)
  have ha := @Option.some_get _ (storedAccumulator firstWorld) (by decide +kernel)
  have hr := @Option.some_get _ (storedRedemption firstWorld) (by decide +kernel)
  have hx := @Option.some_get _ (positionAt (Event.apply tablePlatform firstWorld
    (.transaction [.key 30] firstGeneration)) firstPositionId) (by decide +kernel)
  refine ⟨_, _, _, _, _, h, hp.symm, ha.symm, hr.symm, hx.symm, ?_⟩
  exact accepted_position_is_collateralized firstWorld tablePlatform _ [.key 30] firstGeneration
    (.generateDebt 1000) rfl rfl h _ _ _ 0 firstPositionId _ hp.symm ha.symm hr.symm
    (by decide +kernel) rfl hx.symm (by decide +kernel) (by decide +kernel) (by decide +kernel)
    (by decide +kernel)

end LezPrograms.Stablecoin
