import LezPrograms.Stablecoin.Frozen
import LezPrograms.Stablecoin.Refresh
import LezPrograms.Stablecoin.Saturation

/-! # Fee accruals change nothing for what follows at the same time

A second accrual at the same time finds nothing to accrue. A debt operation
accrues on its own, and a withdrawal projects the rate that an accrual would
store. -/

set_option autoImplicit false

namespace LezPrograms.Stablecoin
open LezPrograms.Checked LezPrograms.Checked.Unsigned LezPrograms.Lee LezPrograms.Token
open LezPrograms.Stablecoin.Math LezPrograms.Stablecoin.Compounding
open LezPrograms.Stablecoin.Saturation

section
variable (tickMath : TwapOracle.TickMath)

theorem execute_mint_authority (now : U64) (w : Accounts) (authority authority' : List AccountId)
    (d h program : AccountId) (amount : U128) (hd : d ∈ authority) (hd' : d ∈ authority') :
    execute program w authority [d, h] (dispatch tickMath now program (.token (.mint amount)))
      = execute program w authority' [d, h]
        (dispatch tickMath now program (.token (.mint amount))) := by
  have hv : view w authority d = view w authority' d := by
    rw [view, view, decide_eq_true hd, decide_eq_true hd']
  simp only [execute, dispatch, Token.main, Token.mint, mintInner, List.map_cons, List.map_nil, hv,
    view_account, bind_assoc, pure_bind]
  rfl

theorem settle_surplus_authority (depth : ℕ) (w : Accounts) (authority authority' : List AccountId)
    (tokenProgram : AccountId) (fees : U128) :
    settle tickMath depth stablecoinProgramId authority w
        (surplusCalls tokenProgram definitionId stablecoinProgramId fees)
      = settle tickMath depth stablecoinProgramId authority' w
        (surplusCalls tokenProgram definitionId stablecoinProgramId fees) := by
  have hmem : ∀ l : List AccountId, definitionId ∈ callAuthority l stablecoinProgramId
      ((ChainedCall.new tokenProgram [definitionId, masterId] (.token (.mint fees))).withPdaSeeds
        [computeStablecoinDefinitionPdaSeed]) := fun l =>
    List.mem_append_right _ (List.mem_map.mpr ⟨_, List.mem_singleton_self _, rfl⟩)
  unfold surplusCalls
  split
  · simp only [settle, List.foldlM_cons, List.foldlM_nil]
    cases depth with
    | zero => rfl
    | succ depth =>
      rw [invoke_token tickMath depth w _ _ _ rfl, invoke_token tickMath depth w _ _ _ rfl]
      exact congrArg (fun r => Except.map Prod.fst r >>= pure)
        (execute_mint_authority tickMath (blockTimestamp w) w _ _ definitionId masterId tokenProgram
          fees (hmem authority) (hmem authority'))
  · rfl

end

theorem compoundRate_now (rate : U128) (now : U64) :
    compoundRate rate (clampedElapsed now now) = .ok fixedPointOne := by
  have hzero : (clampedElapsed now now).val = 0 := by
    rw [clampedElapsed, minimum_val]
    have hsub : (saturatingSub now now).val = 0 := by
      simp [saturatingSub]
    rw [hsub, Nat.zero_min]
  rw [compoundRate, if_pos hzero]

theorem computeCurrentAccumulatedRate_now (rate fee : U128) (now : U64) :
    computeCurrentAccumulatedRate rate fee now now = .ok rate := by
  rw [computeCurrentAccumulatedRate, bind_eq_ok]
  exact ⟨fixedPointOne, compoundRate_now fee now, (mulDiv_eq_ok _ _ _ _).mpr
    ⟨by decide, (Nat.mul_div_cancel _ (by decide)).symm⟩⟩

/-- What has been accrued up to now accrues nothing more. -/
theorem accrueFees_again (params : ProtocolParameters) (accumulator : StabilityFeeAccumulator)
    (now : U64) (accrual : FeeAccrual) (h : accrueFees params accumulator now = .ok accrual) :
    accrueFees params accrual.accumulator now = .ok ⟨accrual.accumulator, Unsigned.zero 128⟩ := by
  simp only [accrueFees, bind_eq_ok, pure_eq_ok] at h
  obtain ⟨current, -, delta, -, fees, -, rfl⟩ := h
  simp only [accrueFees, bind_eq_ok, pure_eq_ok, expect_eq_ok, checkedSub_eq_some, mulDiv_eq_ok]
  exact ⟨current, computeCurrentAccumulatedRate_now _ _ _, Unsigned.zero 128, Nat.zero_add _,
    Unsigned.zero 128, ⟨by decide, by simp [Unsigned.zero]⟩, rfl⟩

/-- The wide projection of the rate before an accrual is the rate after it. -/
theorem accrued_projection (params : ProtocolParameters) (accumulator : StabilityFeeAccumulator)
    (now : U64) (accrual : FeeAccrual) (h : accrueFees params accumulator now = .ok accrual) :
    computeCurrentAccumulatedRateWide accrual.accumulator.accumulatedRateAtLastAccrual
        params.stabilityFeePerMillisecond accrual.accumulator.lastAccruedAt now
      = computeCurrentAccumulatedRateWide accumulator.accumulatedRateAtLastAccrual
        params.stabilityFeePerMillisecond accumulator.lastAccruedAt now := by
  simp only [accrueFees, bind_eq_ok, pure_eq_ok] at h
  obtain ⟨current, hcurrent, -, -, -, -, rfl⟩ := h
  rw [computeCurrentAccumulatedRate, bind_eq_ok] at hcurrent
  obtain ⟨factor, hfactor, hrate⟩ := hcurrent
  refine Fin.ext ?_
  rw [computeCurrentAccumulatedRateWide, computeCurrentAccumulatedRateWide,
    projectForwardWide_of_ok _ _ _ _ _ hfactor,
    projectForwardWide_of_ok _ _ _ _ _ (compoundRate_now _ now)]
  rw [exactProjection, exactProjection, ← compoundRate_eq _ _ _ hfactor,
    ← compoundRate_eq _ _ _ (compoundRate_now _ now), ← ((mulDiv_eq_ok _ _ _ _).mp hrate).2]
  exact Nat.mul_div_cancel _ (by decide)

structure Poked (platform : Platform) (w w' : Accounts) (depth : ℕ) (params : ProtocolParameters)
    (accumulator : StabilityFeeAccumulator) (now : U64) (accrual : FeeAccrual) : Prop where
  deep : platform.callDepth = depth + 1
  parameters : Holds stablecoinProgramId (w parametersId) (.protocolParameters params)
  accumulates : Holds stablecoinProgramId (w accumulatorId) (.stabilityFeeAccumulator accumulator)
  clock : (w clock01ProgramAccountId).data = .clock now
  computed : accrueFees params accumulator now = .ok accrual
  settled : ∀ authority, settle platform.tickMath depth stablecoinProgramId authority
    (put stablecoinProgramId w accumulatorId (.stabilityFeeAccumulator accrual.accumulator))
    (surplusCalls tokenProgramId definitionId stablecoinProgramId accrual.accruedFees) = .ok w'

/-- A fee accrual, or a combined poke that leaves the redemption state as it is. -/
def FeePoke (platform : Platform) (w w' : Accounts) : Prop :=
  ∃ authority i p d call, transact platform w authority call = .ok w' ∧
    (call = accrueCall i p d ∨ ∃ o, call = refreshCall i p d o ∧ w' redemptionId = w redemptionId)

section
variable (platform : Platform) (w w' : Accounts) (params : ProtocolParameters)
  (h : Established w) (hp : storedParameters w = some params)
include h hp

theorem accrue_poked (authority : List AccountId) (i p d : AccountId)
    (ht : transact platform w authority (accrueCall i p d) = .ok w') :
    p = parametersId ∧ d = definitionId ∧ ∃ depth accumulator now accrual,
      Poked platform w w' depth params accumulator now accrual := by
  obtain ⟨-, depth, params', accumulator, now, accrual, hd, ha, hs⟩ :=
    (accrue_eq_ok platform w w' authority i p d).mp ht
  obtain ⟨s, hr, rfl⟩ := h.represents w params hp
  obtain ⟨rfl, rfl⟩ := hr.reads_parameters w s p params' ha.reads.parameters
  obtain rfl : d = definitionId := ha.reads.definition.trans hr.named
  rw [(h.tokens w _ hp).1] at hs
  exact ⟨rfl, rfl, depth, accumulator, now, accrual, hd, ha.reads.parameters, ha.reads.accumulates,
    ha.reads.clock, ha.reads.computed, fun authority' => by
      rw [settle_surplus_authority platform.tickMath depth _ authority' authority]
      exact hs⟩

theorem FeePoke.poked (hpoke : FeePoke platform w w') : ∃ depth accumulator now accrual,
    Poked platform w w' depth params accumulator now accrual := by
  obtain ⟨authority, i, p, d, call, ht, rfl | ⟨o, rfl, hsame⟩⟩ := hpoke
  · exact (accrue_poked platform w w' params h hp authority i p d ht).2.2
  · obtain ⟨-, _, params', _, _, _, _, _, _, -, -, ha, -, hreading, -⟩ :=
      (refresh_eq_ok platform w w' authority i p d o).mp ht
    obtain ⟨rfl, -⟩ := ha.apart w authority i p d params h hp _ _ _ _
    obtain rfl : o = params'.marketPriceOracleId := by
      simp only [readOracle, bind_eq_ok, ensure_eq_ok, exists_const] at hreading
      exact hreading.1
    obtain ⟨u, hu, hrest⟩ := (refresh_parts platform w w' authority i p d params' h hp).mp ht
    suffices hw : w' = u by
      rw [hw]
      exact (accrue_poked platform w u params' h hp authority i p d hu).2.2
    rcases hrest with hupdate | ⟨-, hw⟩
    · obtain ⟨-, -, -, -, -, -, R, -, -, rfl⟩ := (update_eq_ok platform u w' authority i p _).mp hupdate
      rw [put_same] at hsame
      have hkept := accrue_keeps_redemption platform w authority i p d params' h hp u hu
      rw [put, hsame, ← hkept, Function.update_eq_self]
    · exact hw

end

section
variable (platform : Platform) (w w' : Accounts) (depth : ℕ) (params : ProtocolParameters)
  (accumulator : StabilityFeeAccumulator) (now : U64) (accrual : FeeAccrual)
  (h : Poked platform w w' depth params accumulator now accrual)
include h

theorem Poked.elsewhere (id : AccountId) (hid : id ∉ [accumulatorId, definitionId, masterId]) :
    w' id = w id :=
  accrued_elsewhere w w' [] definitionId platform.tickMath depth tokenProgramId _ _ (h.settled [])
    id hid

theorem Poked.accumulated : Holds stablecoinProgramId (w' accumulatorId)
    (.stabilityFeeAccumulator accrual.accumulator) := by
  have hsame : w' accumulatorId = put stablecoinProgramId w accumulatorId
      (.stabilityFeeAccumulator accrual.accumulator) accumulatorId :=
    (settle_local platform.tickMath depth stablecoinProgramId [] [definitionId, masterId] _
      (surplus_local _ _ _) _ _ w' (fun _ _ => rfl) (h.settled [])).2 accumulatorId (by decide)
  rw [hsame, put_same]
  exact ⟨writeData_owner _ _ _ h.accumulates.1, writeData_data _ _ _⟩

/-- After an accrual up to now there is nothing to accrue. -/
theorem Poked.again (w'' : Accounts) (depth' : ℕ) (params' : ProtocolParameters)
    (accumulator' : StabilityFeeAccumulator) (now' : U64) (accrual' : FeeAccrual)
    (h' : Poked platform w' w'' depth' params' accumulator' now' accrual') : w'' = w' := by
  have hp := h'.parameters
  rw [h.elsewhere platform w w' depth params accumulator now accrual parametersId (by decide)] at hp
  obtain rfl : params' = params :=
    Data.protocolParameters.inj (hp.2.symm.trans h.parameters.2)
  have hc := h'.clock
  rw [h.elsewhere platform w w' depth params' accumulator now accrual clock01ProgramAccountId
    (by decide)] at hc
  obtain rfl : now' = now := Data.clock.inj (hc.symm.trans h.clock)
  have hacc := h.accumulated
  obtain rfl : accumulator' = accrual.accumulator :=
    Data.stabilityFeeAccumulator.inj (h'.accumulates.2.symm.trans hacc.2)
  obtain rfl : accrual' = ⟨accrual.accumulator, Unsigned.zero 128⟩ :=
    Except.ok.inj (h'.computed.symm.trans (accrueFees_again _ _ _ _ h.computed))
  have hs := h'.settled []
  rw [put_idle _ _ _ _ hacc.2] at hs
  exact (Except.ok.inj hs).symm

end

abbrev FeePokes (platform : Platform) : Accounts → Accounts → Prop :=
  Relation.ReflTransGen (FeePoke platform)

/-- The first of several pokes at the same time does all. -/
theorem FeePokes.poked (platform : Platform) (w w' : Accounts) (params : ProtocolParameters)
    (h : Established w) (hp : storedParameters w = some params) (hpokes : FeePokes platform w w') :
    (Established w' ∧ storedParameters w' = some params) ∧
      (w' = w ∨ ∃ depth accumulator now accrual,
        Poked platform w w' depth params accumulator now accrual) := by
  induction hpokes with
  | refl => exact ⟨⟨h, hp⟩, Or.inl rfl⟩
  | @tail u v _ hpoke ih =>
    obtain ⟨⟨hu, hpu⟩, hdone⟩ := ih
    obtain ⟨depth', accumulator', now', accrual', hv⟩ := hpoke.poked platform u v params hu hpu
    have hkept : storedParameters v = some params := by
      rw [storedParameters_eq_some, hv.elsewhere _ _ _ _ _ _ _ _ parametersId (by decide)]
      exact (storedParameters_eq_some u params).mp hpu
    obtain ⟨authority, i, p, d, call, ht, -⟩ := hpoke
    refine ⟨⟨hu.transacted platform u v authority call ht, hkept⟩, Or.inr ?_⟩
    rcases hdone with rfl | ⟨depth, accumulator, now, accrual, hdone⟩
    · exact ⟨depth', accumulator', now', accrual', hv⟩
    · obtain rfl := hdone.again platform w u depth params accumulator now accrual v depth' params
        accumulator' now' accrual' hv
      exact ⟨depth, accumulator, now, accrual, hdone⟩

section
variable (w v : Accounts) (authority : List AccountId) (calls : List ChainedCall)
  (ids : List AccountId) (amount : U128)

theorem generate_shape (h : Performs w authority ids (.generateDebt amount) v calls) :
    ∃ o x d u m a r p c, ids = [o, x, d, u, m, a, r, p, c] := by
  have hs := h.step
  cases hs with
  | setParameters _ _ _ _ _ hsetter => cases hsetter
  | generateDebt => exact ⟨_, _, _, _, _, _, _, _, _, rfl⟩

theorem repay_shape (h : Performs w authority ids (.repayDebt amount) v calls) :
    ∃ o x d u m a p c, ids = [o, x, d, u, m, a, p, c] := by
  have hs := h.step
  cases hs with
  | setParameters _ _ _ _ _ hsetter => cases hsetter
  | repayDebt => exact ⟨_, _, _, _, _, _, _, _, rfl⟩

theorem withdraw_shape (h : Performs w authority ids (.withdrawCollateral amount) v calls) :
    ∃ o x k u a r p c, ids = [o, x, k, u, a, r, p, c] := by
  have hs := h.step
  cases hs with
  | setParameters _ _ _ _ _ hsetter => cases hsetter
  | withdrawCollateral => exact ⟨_, _, _, _, _, _, _, _, rfl⟩

end

section
variable (platform : Platform) (w w' : Accounts) (depth : ℕ) (params : ProtocolParameters)
  (accumulator : StabilityFeeAccumulator) (now : U64) (accrual : FeeAccrual)
  (h : Established w) (hp : storedParameters w = some params)
  (h' : Established w') (hp' : storedParameters w' = some params)
  (poked : Poked platform w w' depth params accumulator now accrual)
include h hp h' hp' poked

/-- A debt operation finds the same before and after the poke, but for what it has to accrue. -/
theorem DebtReads.before (authority : List AccountId) (o x d u : AccountId) (data : Position)
    (params' : ProtocolParameters) (accumulator' : StabilityFeeAccumulator) (now' : U64)
    (accrual' : FeeAccrual)
    (hx : x ∉ [accumulatorId, d, masterId]) (hu : u ∉ [accumulatorId, d, masterId])
    (reads : DebtReads w' authority o x d u data params' accumulator' now' accrual') :
    d = definitionId ∧ accrual' = ⟨accrual.accumulator, Unsigned.zero 128⟩ ∧ params' = params ∧
      now' = now ∧ DebtReads w authority o x d u data params accumulator now accrual := by
  obtain ⟨s, hr, hs⟩ := h.represents w params hp
  have hnamed : params.stablecoinDefinitionId = definitionId := by
    rw [← hs]
    exact hr.named
  have hkept := poked.elsewhere platform w w' depth params accumulator now accrual
  obtain ⟨hdo, hmo, hdd, hmd⟩ := h.tokens w params hp
  have hpar := reads.accrues.parameters
  rw [hkept parametersId (by decide)] at hpar
  obtain rfl : params' = params :=
    Data.protocolParameters.inj (hpar.2.symm.trans poked.parameters.2)
  obtain rfl : d = definitionId := reads.accrues.definition.trans hnamed
  have hclock := reads.accrues.clock
  rw [hkept clock01ProgramAccountId (by decide)] at hclock
  obtain rfl : now' = now := Data.clock.inj (hclock.symm.trans poked.clock)
  have hacc := poked.accumulated platform w w' depth params' accumulator now' accrual
  obtain rfl : accumulator' = accrual.accumulator :=
    Data.stabilityFeeAccumulator.inj (reads.accrues.accumulates.2.symm.trans hacc.2)
  have haccrual : accrual' = ⟨accrual.accumulator, Unsigned.zero 128⟩ :=
    Except.ok.inj (reads.accrues.computed.symm.trans (accrueFees_again _ _ _ _ poked.computed))
  refine ⟨rfl, haccrual, rfl, rfl, ⟨reads.position.authorized, ?_, reads.position.derived,
    reads.position.owner⟩, ⟨poked.parameters, poked.accumulates, poked.clock, poked.computed,
    hnamed.symm, hmo.trans hdo.symm⟩, hdd, hmd, ?_, ?_⟩
  · rw [← hkept x hx]
    exact reads.position.stored
  · rw [hdo, ← (h'.tokens w' params' hp').1, ← reads.sameProgram, hkept u hu]
  · rw [← hkept u hu]
    exact reads.holding

theorem DebtReads.after (authority : List AccountId) (o x d u : AccountId) (data : Position)
    (params' : ProtocolParameters) (accumulator' : StabilityFeeAccumulator) (now' : U64)
    (accrual' : FeeAccrual)
    (hx : x ∉ [accumulatorId, d, masterId]) (hu : u ∉ [accumulatorId, d, masterId])
    (reads : DebtReads w authority o x d u data params' accumulator' now' accrual') :
    d = definitionId ∧ accrual' = accrual ∧ params' = params ∧ now' = now ∧
      DebtReads w' authority o x d u data params accrual.accumulator now
        ⟨accrual.accumulator, Unsigned.zero 128⟩ := by
  obtain ⟨s, hr, hs⟩ := h.represents w params hp
  have hnamed : params.stablecoinDefinitionId = definitionId := by
    rw [← hs]
    exact hr.named
  have hkept := poked.elsewhere platform w w' depth params accumulator now accrual
  obtain ⟨hdo, hmo, hdd, hmd⟩ := h'.tokens w' params hp'
  obtain rfl : params' = params :=
    Data.protocolParameters.inj (reads.accrues.parameters.2.symm.trans poked.parameters.2)
  obtain rfl : d = definitionId := reads.accrues.definition.trans hnamed
  obtain rfl : now' = now := Data.clock.inj (reads.accrues.clock.symm.trans poked.clock)
  have hacc := poked.accumulated platform w w' depth params' accumulator now' accrual
  obtain rfl : accumulator' = accumulator :=
    Data.stabilityFeeAccumulator.inj (reads.accrues.accumulates.2.symm.trans poked.accumulates.2)
  have haccrual : accrual' = accrual :=
    Except.ok.inj (reads.accrues.computed.symm.trans poked.computed)
  refine ⟨rfl, haccrual, rfl, rfl, ⟨reads.position.authorized, ?_, reads.position.derived,
    reads.position.owner⟩, ⟨?_, hacc, ?_, accrueFees_again _ _ _ _ poked.computed, hnamed.symm,
    hmo.trans hdo.symm⟩, hdd, hmd, ?_, ?_⟩
  · rw [hkept x hx]
    exact reads.position.stored
  · rw [hkept parametersId (by decide)]
    exact poked.parameters
  · rw [hkept clock01ProgramAccountId (by decide)]
    exact poked.clock
  · rw [hdo, ← (h.tokens w params' hp).1, ← reads.sameProgram, hkept u hu]
  · rw [hkept u hu]
    exact reads.holding

omit h hp h' hp' in
/-- The surplus that a debt operation mints first is the one that the poke has minted. -/
theorem Poked.settles (authority : List AccountId) (x : AccountId) (data data' : Data)
    (hx : x ∉ [accumulatorId, definitionId, masterId]) (tail : List ChainedCall) :
    settle platform.tickMath depth stablecoinProgramId authority
        (put stablecoinProgramId (put stablecoinProgramId w x data) accumulatorId data')
        (surplusCalls tokenProgramId definitionId stablecoinProgramId accrual.accruedFees ++ tail)
      = settle platform.tickMath depth stablecoinProgramId authority
        (put stablecoinProgramId (put stablecoinProgramId w' x data) accumulatorId data') tail := by
  simp only [List.mem_cons, List.not_mem_nil, or_false, not_or] at hx
  have hnot : ∀ id, id ≠ definitionId → id ≠ masterId → id ∉ [definitionId, masterId] :=
    fun id h1 h2 => by simp [h1, h2]
  have hbase := poked.settled authority
  have hx' := (settle_put platform.tickMath depth stablecoinProgramId authority
    [definitionId, masterId] _ (surplus_local _ _ _) stablecoinProgramId _ _ x data
    (hnot x hx.2.1 hx.2.2)).mpr ⟨w', hbase, rfl⟩
  have hacc := (settle_put platform.tickMath depth stablecoinProgramId authority
    [definitionId, masterId] _ (surplus_local _ _ _) stablecoinProgramId _ _ accumulatorId data'
    (hnot _ (by decide) (by decide))).mpr ⟨_, hx', rfl⟩
  have hstart : put stablecoinProgramId (put stablecoinProgramId (put stablecoinProgramId w
      accumulatorId (.stabilityFeeAccumulator accrual.accumulator)) x data) accumulatorId data'
      = put stablecoinProgramId (put stablecoinProgramId w x data) accumulatorId data' := by
    rw [put_comm stablecoinProgramId stablecoinProgramId w x accumulatorId _ _ hx.1]
    refine put_again _ _ _ _ _ ?_
    rw [put_other _ _ _ _ _ (Ne.symm hx.1)]
    exact poked.accumulates.1
  rw [hstart] at hacc
  rw [settle, List.foldlM_append, ← settle, hacc]
  rfl

omit poked h hp h' hp' in
theorem not_mem_kept (x d : AccountId) (h1 : x ≠ accumulatorId) (h2 : x ≠ d) (h3 : x ≠ masterId) :
    x ∉ [accumulatorId, d, masterId] := by
  simp [h1, h2, h3]

theorem generate_after_poke (authority : List AccountId) (ids : List AccountId) (amount : U128)
    (r : Accounts) :
    (∃ v calls, Performs w authority ids (.generateDebt amount) v calls ∧
      settle platform.tickMath depth stablecoinProgramId authority v calls = .ok r) ↔
    ∃ v calls, Performs w' authority ids (.generateDebt amount) v calls ∧
      settle platform.tickMath depth stablecoinProgramId authority v calls = .ok r := by
  have hkept := poked.elsewhere platform w w' depth params accumulator now accrual
  have howner := (h.tokens w params hp).1
  have howner' := (h'.tokens w' params hp').1
  have hsettles := poked.settles platform w w' depth params accumulator now accrual authority
  constructor
  · rintro ⟨v, calls, hperf, hs⟩
    obtain ⟨o, x, d, u, m, a, r', p, c, rfl⟩ := generate_shape w v authority calls ids amount hperf
    obtain ⟨hn, ⟨rfl, rfl, rfl, rfl, rfl⟩, data, params', accumulator', redemption, now', accrual',
      delta, debt, total, reads, hfrozen, hred, hdelta, hdebt, htotal, hprice, hcol, rfl, rfl⟩ :=
      (performs_generate w v authority calls o x d u m a r' p c amount).mp hperf
    have hx : x ∉ [accumulatorId, d, masterId] := not_mem_kept x d (by rintro rfl; simp at hn)
      (by rintro rfl; simp at hn) (by rintro rfl; simp at hn)
    have hu : u ∉ [accumulatorId, d, masterId] := not_mem_kept u d (by rintro rfl; simp at hn)
      (by rintro rfl; simp at hn) (by rintro rfl; simp at hn)
    obtain ⟨rfl, rfl, rfl, rfl, reads'⟩ := reads.after platform w w' depth params accumulator now
      accrual h hp h' hp' poked authority o x d u data _ _ _ _ hx hu
    rw [howner, hsettles x _ _ hx] at hs
    refine ⟨_, _, (performs_generate w' _ authority _ o x _ u _ _ _ _ _ amount).mpr ⟨hn,
      ⟨rfl, rfl, rfl, rfl, rfl⟩, data, params', _, redemption, now', _, delta, debt, total, reads',
      hfrozen, ?_, hdelta, hdebt, htotal, hprice, hcol, rfl, rfl⟩, ?_⟩
    · rw [hkept redemptionId (by decide)]
      exact hred
    · rw [howner']
      exact hs
  · rintro ⟨v, calls, hperf, hs⟩
    obtain ⟨o, x, d, u, m, a, r', p, c, rfl⟩ := generate_shape w' v authority calls ids amount hperf
    obtain ⟨hn, ⟨rfl, rfl, rfl, rfl, rfl⟩, data, params', accumulator', redemption, now', accrual',
      delta, debt, total, reads, hfrozen, hred, hdelta, hdebt, htotal, hprice, hcol, rfl, rfl⟩ :=
      (performs_generate w' v authority calls o x d u m a r' p c amount).mp hperf
    have hx : x ∉ [accumulatorId, d, masterId] := not_mem_kept x d (by rintro rfl; simp at hn)
      (by rintro rfl; simp at hn) (by rintro rfl; simp at hn)
    have hu : u ∉ [accumulatorId, d, masterId] := not_mem_kept u d (by rintro rfl; simp at hn)
      (by rintro rfl; simp at hn) (by rintro rfl; simp at hn)
    obtain ⟨rfl, rfl, rfl, rfl, reads'⟩ := reads.before platform w w' depth params accumulator now
      accrual h hp h' hp' poked authority o x d u data _ _ _ _ hx hu
    rw [hkept redemptionId (by decide)] at hred
    refine ⟨_, _, (performs_generate w _ authority _ o x _ u _ _ _ _ _ amount).mpr ⟨hn,
      ⟨rfl, rfl, rfl, rfl, rfl⟩, data, params', _, redemption, now', _, delta, debt, total, reads',
      hfrozen, hred, hdelta, hdebt, htotal, hprice, hcol, rfl, rfl⟩, ?_⟩
    rw [howner, hsettles x _ _ hx]
    rw [howner'] at hs
    exact hs

theorem repay_after_poke (authority : List AccountId) (ids : List AccountId) (amount : U128)
    (r : Accounts) :
    (∃ v calls, Performs w authority ids (.repayDebt amount) v calls ∧
      settle platform.tickMath depth stablecoinProgramId authority v calls = .ok r) ↔
    ∃ v calls, Performs w' authority ids (.repayDebt amount) v calls ∧
      settle platform.tickMath depth stablecoinProgramId authority v calls = .ok r := by
  have howner := (h.tokens w params hp).1
  have howner' := (h'.tokens w' params hp').1
  have hsettles := poked.settles platform w w' depth params accumulator now accrual authority
  constructor
  · rintro ⟨v, calls, hperf, hs⟩
    obtain ⟨o, x, d, u, m, a, p, c, rfl⟩ := repay_shape w v authority calls ids amount hperf
    obtain ⟨hn, ⟨rfl, rfl, rfl, rfl⟩, huser, data, params', accumulator', now', accrual', delta, debt,
      total, reads, hdelta, hdebt, htotal, rfl, rfl⟩ :=
      (performs_repay w v authority calls o x d u m a p c amount).mp hperf
    have hx : x ∉ [accumulatorId, d, masterId] := not_mem_kept x d (by rintro rfl; simp at hn)
      (by rintro rfl; simp at hn) (by rintro rfl; simp at hn)
    have hu : u ∉ [accumulatorId, d, masterId] := not_mem_kept u d (by rintro rfl; simp at hn)
      (by rintro rfl; simp at hn) (by rintro rfl; simp at hn)
    obtain ⟨rfl, rfl, rfl, rfl, reads'⟩ := reads.after platform w w' depth params accumulator now
      accrual h hp h' hp' poked authority o x d u data _ _ _ _ hx hu
    rw [howner, hsettles x _ _ hx] at hs
    refine ⟨_, _, (performs_repay w' _ authority _ o x _ u _ _ _ _ amount).mpr ⟨hn,
      ⟨rfl, rfl, rfl, rfl⟩, huser, data, params', _, now', _, delta, debt, total, reads', hdelta,
      hdebt, htotal, rfl, rfl⟩, ?_⟩
    rw [howner']
    exact hs
  · rintro ⟨v, calls, hperf, hs⟩
    obtain ⟨o, x, d, u, m, a, p, c, rfl⟩ := repay_shape w' v authority calls ids amount hperf
    obtain ⟨hn, ⟨rfl, rfl, rfl, rfl⟩, huser, data, params', accumulator', now', accrual', delta, debt,
      total, reads, hdelta, hdebt, htotal, rfl, rfl⟩ :=
      (performs_repay w' v authority calls o x d u m a p c amount).mp hperf
    have hx : x ∉ [accumulatorId, d, masterId] := not_mem_kept x d (by rintro rfl; simp at hn)
      (by rintro rfl; simp at hn) (by rintro rfl; simp at hn)
    have hu : u ∉ [accumulatorId, d, masterId] := not_mem_kept u d (by rintro rfl; simp at hn)
      (by rintro rfl; simp at hn) (by rintro rfl; simp at hn)
    obtain ⟨rfl, rfl, rfl, rfl, reads'⟩ := reads.before platform w w' depth params accumulator now
      accrual h hp h' hp' poked authority o x d u data _ _ _ _ hx hu
    refine ⟨_, _, (performs_repay w _ authority _ o x _ u _ _ _ _ amount).mpr ⟨hn,
      ⟨rfl, rfl, rfl, rfl⟩, huser, data, params', _, now', _, delta, debt, total, reads', hdelta,
      hdebt, htotal, rfl, rfl⟩, ?_⟩
    rw [howner, hsettles x _ _ hx]
    rw [howner'] at hs
    exact hs

/-- An accrual after the poke and one that comes in its stead lead to the same world. -/
theorem accrue_after_poke (authority : List AccountId) (i p d : AccountId) (y : Accounts) :
    transact platform w authority (accrueCall i p d) = .ok y ↔
      transact platform w' authority (accrueCall i p d) = .ok y := by
  have hkept := poked.elsewhere platform w w' depth params accumulator now accrual
  have hacc := poked.accumulated platform w w' depth params accumulator now accrual
  have hagain := accrueFees_again _ _ _ _ poked.computed
  have hidle : settle platform.tickMath depth stablecoinProgramId authority
      (put stablecoinProgramId w' accumulatorId (.stabilityFeeAccumulator accrual.accumulator)) []
      = .ok w' := by
    rw [put_idle _ _ _ _ hacc.2]
    rfl
  obtain ⟨s, hr, hs⟩ := h.represents w params hp
  have hnamed : params.stablecoinDefinitionId = definitionId := by
    rw [← hs]
    exact hr.named
  have hstored : Holds stablecoinProgramId (w' parametersId) (.protocolParameters params) := by
    rw [hkept parametersId (by decide)]
    exact poked.parameters
  have hclock : (w' clock01ProgramAccountId).data = .clock now := by
    rw [hkept clock01ProgramAccountId (by decide)]
    exact poked.clock
  constructor
  · intro ht
    obtain ⟨rfl, rfl, depth', accumulator', now', accrual', hpoked⟩ :=
      accrue_poked platform w y params h hp authority i p d ht
    obtain ⟨hg, _, _, _, _, _, -, ha, -⟩ := (accrue_eq_ok platform w y authority i _ _).mp ht
    obtain rfl : depth' = depth := by
      have := hpoked.deep.symm.trans poked.deep
      omega
    obtain rfl : accumulator' = accumulator :=
      Data.stabilityFeeAccumulator.inj (hpoked.accumulates.2.symm.trans poked.accumulates.2)
    obtain rfl : now' = now := Data.clock.inj (hpoked.clock.symm.trans poked.clock)
    obtain rfl : accrual' = accrual := Except.ok.inj (hpoked.computed.symm.trans poked.computed)
    obtain rfl : y = w' := Except.ok.inj ((hpoked.settled []).symm.trans (poked.settled []))
    obtain ⟨hdo, hmo, hdd, hmd⟩ := h'.tokens y params hp'
    exact (accrue_eq_ok platform y y authority i _ _).mpr ⟨hg, depth', params, _, now', _, poked.deep,
      ⟨ha.distinct, ha.authorized, hdd, hmd, hstored, hacc, hclock, hagain, hnamed.symm,
        hmo.trans hdo.symm⟩, hidle⟩
  · intro ht
    obtain ⟨rfl, rfl, depth', accumulator', now', accrual', hpoked⟩ :=
      accrue_poked platform w' y params h' hp' authority i p d ht
    obtain rfl := poked.again platform w w' depth params accumulator now accrual y depth' params
      accumulator' now' accrual' hpoked
    obtain ⟨hg, _, _, _, _, _, -, ha, -⟩ := (accrue_eq_ok platform y y authority i _ _).mp ht
    obtain ⟨hdo, hmo, hdd, hmd⟩ := h.tokens w params hp
    refine (accrue_eq_ok platform w y authority i _ _).mpr ⟨hg, depth, params, accumulator, now,
      accrual, poked.deep, ⟨ha.distinct, ha.authorized, hdd, hmd, poked.parameters,
        poked.accumulates, poked.clock, poked.computed, hnamed.symm, hmo.trans hdo.symm⟩, ?_⟩
    rw [hdo]
    exact poked.settled authority

end

theorem assertWithdrawal_after_poke (data : Position) (accumulator : StabilityFeeAccumulator)
    (redemption : RedemptionPriceState) (params : ProtocolParameters) (now : U64)
    (accrual : FeeAccrual) (amount : U128) (h : accrueFees params accumulator now = .ok accrual) :
    assertWithdrawalIsCollateralized data accrual.accumulator redemption params now amount
      = assertWithdrawalIsCollateralized data accumulator redemption params now amount := by
  rw [assertWithdrawalIsCollateralized, assertWithdrawalIsCollateralized,
    accrued_projection params accumulator now accrual h]

/-- The accounts that a withdrawal changes are none of those that an accrual changes. -/
theorem withdraw_apart (w : Accounts) (params : ProtocolParameters) (h : Established w)
    (hp : storedParameters w = some params) (x u : AccountId) (data : Position)
    (hx : Holds stablecoinProgramId (w x) (.position data)) (held : Token.Holding)
    (hu : (w u).data = .tokenHolding held)
    (htoken : held.definitionId = params.collateralDefinitionId) :
    ∀ id ∈ [x, vaultId x, u], id ∉ [accumulatorId, definitionId, masterId] := by
  obtain ⟨s, hr, -⟩ := h.represents w params hp
  obtain ⟨hdo, hmo, -, -⟩ := h.tokens w params hp
  have hf := h.2 params hp
  obtain ⟨master, hmaster, -, hmt⟩ := hf.master
  obtain ⟨d, hd, -⟩ := hr.tokens.definition
  have hacc := (owned_eq_some _ _ _ _).mp hr.records.accumulator
  have hmd := ((owned_eq_some _ _ _ _).mp hmaster).2
  have hdd := ((owned_eq_some _ _ _ _).mp hd).2
  intro id hid
  simp only [List.mem_cons, List.not_mem_nil, or_false] at hid
  rcases hid with rfl | rfl | rfl
  · refine not_mem_kept id definitionId ?_ ?_ ?_
    · rintro rfl
      cases hx.2.symm.trans hacc.2
    · rintro rfl
      cases hx.2.symm.trans hdd
    · rintro rfl
      cases hx.2.symm.trans hmd
  · exact not_mem_kept _ _ (fun he => by cases (AccountId.pda.inj he).2)
      (fun he => by cases (AccountId.pda.inj he).2) (fun he => by cases (AccountId.pda.inj he).2)
  · refine not_mem_kept id definitionId ?_ ?_ ?_
    · rintro rfl
      cases hu.symm.trans hacc.2
    · rintro rfl
      cases hu.symm.trans hdd
    · rintro rfl
      obtain rfl : held = master := Data.tokenHolding.inj (hu.symm.trans hmd)
      exact hf.collateral (htoken.symm.trans hmt)

/-- A withdrawal moved by `r` what its position and its transfer touch. -/
theorem Poked.after_withdraw (platform : Platform) (w w' r : Accounts) (depth : ℕ)
    (params : ProtocolParameters) (accumulator : StabilityFeeAccumulator) (now : U64)
    (accrual : FeeAccrual) (poked : Poked platform w w' depth params accumulator now accrual)
    (x k u : AccountId) (data : Data)
    (hapart : ∀ id ∈ [x, k, u], id ∉ [accumulatorId, definitionId, masterId])
    (hparameters : parametersId ∉ [x, k, u]) (hclock : clock01ProgramAccountId ∉ [x, k, u])
    (hkept : ∀ id ∉ [k, u], r id = put stablecoinProgramId w x data id) :
    Poked platform r (splice [k, u] r (put stablecoinProgramId w' x data)) depth params accumulator
      now accrual := by
  have hsame : ∀ id ∉ [x, k, u], r id = w id := by
    intro id hid
    simp only [List.mem_cons, List.not_mem_nil, or_false, not_or] at hid
    rw [hkept id (by simp [hid]), put_other _ _ _ _ _ hid.1]
  have hfar : ∀ id ∈ [accumulatorId, definitionId, masterId], id ∉ [x, k, u] :=
    fun id hid hmem => hapart id hmem hid
  have hw' := poked.elsewhere platform w w' depth params accumulator now accrual
  refine ⟨poked.deep, ?_, ?_, ?_, poked.computed, fun authority => ?_⟩
  · rw [hsame _ hparameters]
    exact poked.parameters
  · rw [hsame _ (hfar _ (by simp))]
    exact poked.accumulates
  · rw [hsame _ hclock]
    exact poked.clock
  have hagree : AgreeOn [definitionId, masterId]
      (put stablecoinProgramId w accumulatorId (.stabilityFeeAccumulator accrual.accumulator))
      (put stablecoinProgramId r accumulatorId (.stabilityFeeAccumulator accrual.accumulator)) := by
    intro id hid
    have hne : id ≠ accumulatorId := by
      rintro rfl
      exact absurd hid (by decide)
    rw [put_other _ _ _ _ _ hne, put_other _ _ _ _ _ hne,
      hsame id (hfar id (List.mem_cons_of_mem _ hid))]
  obtain ⟨hs, -⟩ := settle_local platform.tickMath depth stablecoinProgramId authority
    [definitionId, masterId] _ (surplus_local _ _ _) _ _ w' hagree (poked.settled authority)
  rw [hs, Except.ok.injEq]
  funext id
  have hsettled := (settle_local platform.tickMath depth stablecoinProgramId authority
    [definitionId, masterId] _ (surplus_local _ _ _) _ _ w' (fun _ _ => rfl)
    (poked.settled authority)).2
  by_cases hdm : id ∈ [definitionId, masterId]
  · have hx := hfar id (List.mem_cons_of_mem _ hdm)
    simp only [List.mem_cons, List.not_mem_nil, or_false, not_or] at hx
    rw [splice_of_mem _ _ _ _ hdm, splice_of_not_mem _ _ _ _ (by simp [hx]),
      put_other _ _ _ _ _ hx.1]
  rw [splice_of_not_mem _ _ _ _ hdm]
  by_cases hacc : id = accumulatorId
  · subst hacc
    have hx := hfar accumulatorId (by simp)
    rw [put_same, hsame _ hx]
    simp only [List.mem_cons, List.not_mem_nil, or_false, not_or] at hx
    rw [splice_of_not_mem _ _ _ _ (by simp [hx]), put_other _ _ _ _ _ hx.1, hsettled _ hdm,
      put_same]
  · rw [put_other _ _ _ _ _ hacc]
    have hfree : id ∉ [accumulatorId, definitionId, masterId] := by
      rw [List.mem_cons, not_or]
      exact ⟨hacc, hdm⟩
    by_cases hku : id ∈ [k, u]
    · rw [splice_of_mem _ _ _ _ hku]
    · rw [splice_of_not_mem _ _ _ _ hku, hkept id hku]
      by_cases hx : id = x
      · rw [hx, put_same, put_same, hw' x (hx ▸ hfree)]
      · rw [put_other _ _ _ _ _ hx, put_other _ _ _ _ _ hx, hw' id hfree]

theorem withdraw_local (platform : Platform) (depth : ℕ) (authority : List AccountId)
    (x k u : AccountId) (data : Data) (tokenProgram : AccountId) (amount : U128)
    (r : Accounts) (v v' : Accounts) (hx : x ∉ [k, u]) (hv : ∀ id ∈ [k, u], v' id = v id)
    (hs : settle platform.tickMath depth stablecoinProgramId authority
      (put stablecoinProgramId v x data) [withdrawCall tokenProgram x k u amount] = .ok r) :
    settle platform.tickMath depth stablecoinProgramId authority
        (put stablecoinProgramId v' x data) [withdrawCall tokenProgram x k u amount]
      = .ok (splice [k, u] r (put stablecoinProgramId v' x data)) ∧
      ∀ id ∉ [k, u], r id = put stablecoinProgramId v x data id := by
  refine settle_local platform.tickMath depth stablecoinProgramId authority [k, u] _ ?_ _ _ r ?_ hs
  · intro call hc
    rw [List.mem_singleton.mp hc]
    exact ⟨⟨_, rfl⟩, fun id hid => hid⟩
  · intro id hid
    have hne : id ≠ x := fun he => hx (he ▸ hid)
    rw [put_other _ _ _ _ _ hne, put_other _ _ _ _ _ hne, hv id hid]

section
variable (platform : Platform) (w w' : Accounts) (depth : ℕ) (params : ProtocolParameters)
  (accumulator : StabilityFeeAccumulator) (now : U64) (accrual : FeeAccrual)
  (h : Established w) (hp : storedParameters w = some params)
  (h' : Established w') (hp' : storedParameters w' = some params)
  (poked : Poked platform w w' depth params accumulator now accrual)
include h hp h' hp' poked

/-- A withdrawal goes through before the poke if it does after it, and then the poke can follow. -/
theorem withdraw_after_poke (authority : List AccountId) (ids : List AccountId) (amount : U128) :
    (∀ v calls r, Performs w authority ids (.withdrawCollateral amount) v calls →
      settle platform.tickMath depth stablecoinProgramId authority v calls = .ok r →
      ∃ v' calls' r', Performs w' authority ids (.withdrawCollateral amount) v' calls' ∧
        settle platform.tickMath depth stablecoinProgramId authority v' calls' = .ok r' ∧
        Poked platform r r' depth params accumulator now accrual) ∧
    ∀ v' calls' r', Performs w' authority ids (.withdrawCollateral amount) v' calls' →
      settle platform.tickMath depth stablecoinProgramId authority v' calls' = .ok r' →
      ∃ v calls r, Performs w authority ids (.withdrawCollateral amount) v calls ∧
        settle platform.tickMath depth stablecoinProgramId authority v calls = .ok r := by
  have hkept := poked.elsewhere platform w w' depth params accumulator now accrual
  have hacc := poked.accumulated platform w w' depth params accumulator now accrual
  constructor
  · intro v calls r hperf hs
    obtain ⟨o, x, k, u, a, r', p, c, rfl⟩ := withdraw_shape w v authority calls ids amount hperf
    obtain ⟨hn, ⟨rfl, rfl, rfl, rfl, rfl⟩, data, params', accumulator', redemption, now', held, user,
      newCollateral, reads, hk, hpar, hfrozen, hacc', hred, hclock, hheld, htoken, hprogram, huser,
      hut, hrest, hcol, rfl, rfl⟩ :=
      (performs_withdraw w v authority calls o x k u a r' p c amount).mp hperf
    obtain rfl : params' = params :=
      Data.protocolParameters.inj (hpar.2.symm.trans poked.parameters.2)
    obtain rfl : accumulator' = accumulator :=
      Data.stabilityFeeAccumulator.inj (hacc'.2.symm.trans poked.accumulates.2)
    obtain rfl : now' = now := Data.clock.inj (hclock.symm.trans poked.clock)
    have hapart := withdraw_apart w params' h hp x u data reads.stored user huser hut
    have hw : ∀ id ∈ [x, vaultId x, u], w' id = w id := fun id hid => hkept id (hapart id hid)
    have hwx := hw x (by simp)
    have hwk := hw (vaultId x) (by simp)
    have hwu := hw u (by simp)
    obtain ⟨hs', hr⟩ := withdraw_local platform depth authority x (vaultId x) u _ _ amount r w w'
      (fun hm => by simp at hn hm; tauto) (fun id hid => hw id (List.mem_cons_of_mem _ hid)) hs
    refine ⟨_, _, splice [vaultId x, u] r (put stablecoinProgramId w' x
        (.position { data with collateralAmount := newCollateral })),
      (performs_withdraw w' _ authority _ o x _ u _ _ _ _ amount).mpr ⟨hn,
      ⟨rfl, rfl, rfl, rfl, rfl⟩, data, params', accrual.accumulator, redemption, now', held, user,
      newCollateral, ⟨reads.authorized, hwx ▸ reads.stored, reads.derived, reads.owner⟩, hk, ?_,
      hfrozen, hacc, ?_, ?_, by rw [hwk]; exact hheld, htoken, by rw [hwk, hwu]; exact hprogram,
      by rw [hwu]; exact huser, hut, hrest, ?_, rfl, rfl⟩, ?_, ?_⟩
    · rw [hkept parametersId (by decide)]
      exact hpar
    · rw [hkept redemptionId (by decide)]
      exact hred
    · rw [hkept clock01ProgramAccountId (by decide)]
      exact hclock
    · rw [assertWithdrawal_after_poke _ _ _ _ _ _ _ poked.computed]
      exact hcol
    · rw [hwk]
      exact hs'
    · exact poked.after_withdraw platform w w' r depth params' accumulator' now' accrual x (vaultId x)
        u _ hapart (by simp at hn ⊢; tauto) (by simp at hn ⊢; tauto) hr
  · intro v calls r hperf hs
    obtain ⟨o, x, k, u, a, r', p, c, rfl⟩ := withdraw_shape w' v authority calls ids amount hperf
    obtain ⟨hn, ⟨rfl, rfl, rfl, rfl, rfl⟩, data, params', accumulator', redemption, now', held, user,
      newCollateral, reads, hk, hpar, hfrozen, hacc', hred, hclock, hheld, htoken, hprogram, huser,
      hut, hrest, hcol, rfl, rfl⟩ :=
      (performs_withdraw w' v authority calls o x k u a r' p c amount).mp hperf
    have hp'' := (storedParameters_eq_some w' params).mp hp'
    obtain rfl : params' = params := Data.protocolParameters.inj (hpar.2.symm.trans hp''.2)
    obtain rfl : accumulator' = accrual.accumulator :=
      Data.stabilityFeeAccumulator.inj (hacc'.2.symm.trans hacc.2)
    rw [hkept clock01ProgramAccountId (by decide)] at hclock
    obtain rfl : now' = now := Data.clock.inj (hclock.symm.trans poked.clock)
    have hapart := withdraw_apart w' params' h' hp' x u data reads.stored user huser hut
    have hw : ∀ id ∈ [x, vaultId x, u], w id = w' id := fun id hid => (hkept id (hapart id hid)).symm
    have hwx := hw x (by simp)
    have hwk := hw (vaultId x) (by simp)
    have hwu := hw u (by simp)
    obtain ⟨hs', -⟩ := withdraw_local platform depth authority x (vaultId x) u _ _ amount r w' w
      (fun hm => by simp at hn hm; tauto) (fun id hid => hw id (List.mem_cons_of_mem _ hid)) hs
    rw [hkept redemptionId (by decide)] at hred
    rw [assertWithdrawal_after_poke _ _ _ _ _ _ _ poked.computed] at hcol
    refine ⟨_, _, _, (performs_withdraw w _ authority _ o x _ u _ _ _ _ amount).mpr ⟨hn,
      ⟨rfl, rfl, rfl, rfl, rfl⟩, data, params', accumulator, redemption, now', held, user,
      newCollateral, ⟨reads.authorized, hwx ▸ reads.stored, reads.derived, reads.owner⟩, hk,
      poked.parameters, hfrozen, poked.accumulates, hred, poked.clock, by rw [hwk]; exact hheld,
      htoken, by rw [hwk, hwu]; exact hprogram, by rw [hwu]; exact huser, hut, hrest, hcol, rfl,
      rfl⟩, by rw [hwk]; exact hs'⟩

end

section
variable (platform : Platform) (w w' : Accounts) (depth : ℕ) (params : ProtocolParameters)
  (accumulator : StabilityFeeAccumulator) (now : U64) (accrual : FeeAccrual)
  (h : Established w) (hp : storedParameters w = some params)
  (h' : Established w') (hp' : storedParameters w' = some params)
  (poked : Poked platform w w' depth params accumulator now accrual)
include h hp h' hp' poked

theorem Poked.positions (id : AccountId) : positionAt w' id = positionAt w id := by
  have hnone : ∀ v : Accounts, (v id).programOwner = tokenProgramId → positionAt v id = none := by
    intro v hv
    have hnot : owned stablecoinProgramId v id = none := by
      rw [owned, if_neg]
      rw [hv]
      decide
    rw [positionAt, hnot]
  obtain ⟨hdo, hmo, -, -⟩ := h.tokens w params hp
  obtain ⟨hdo', hmo', -, -⟩ := h'.tokens w' params hp'
  by_cases hid : id ∈ [accumulatorId, definitionId, masterId]
  · simp only [List.mem_cons, List.not_mem_nil, or_false] at hid
    rcases hid with rfl | rfl | rfl
    · rw [positionAt, positionAt, Holds.owned_eq _ _ _ _ poked.accumulates, Holds.owned_eq _ _ _ _
        (poked.accumulated platform w w' depth params accumulator now accrual)]
    · rw [hnone w hdo, hnone w' hdo']
    · rw [hnone w hmo, hnone w' hmo']
  · exact positionAt_congr _ _ id (owned_congr _ _ _ _
      (poked.elsewhere platform w w' depth params accumulator now accrual id hid))

omit h hp h' hp' in
/-- A call of the program that performs alike before and after the poke. -/
theorem transact_after_poke (authority : List AccountId) (call : ChainedCall)
    (instruction : Instruction) (hc : call.instruction = .stablecoin instruction)
    (hsame : ∀ r, (∃ v calls, Performs w authority call.accountIds instruction v calls ∧
        settle platform.tickMath depth stablecoinProgramId authority v calls = .ok r) ↔
      ∃ v calls, Performs w' authority call.accountIds instruction v calls ∧
        settle platform.tickMath depth stablecoinProgramId authority v calls = .ok r)
    (r : Accounts) : transact platform w authority call = .ok r ↔
      transact platform w' authority call = .ok r := by
  rw [transact_eq_ok platform w r authority call _ hc,
    transact_eq_ok platform w' r authority call _ hc]
  have hdeep : ∀ depth', platform.callDepth = depth' + 1 → depth' = depth := by
    intro depth' hd
    have := hd.symm.trans poked.deep
    omega
  constructor
  · rintro ⟨hg, hprogram, depth', v, calls, hd, hperf, hs⟩
    obtain rfl := hdeep depth' hd
    obtain ⟨v', calls', hperf', hs'⟩ := (hsame r).mp ⟨v, calls, hperf, hs⟩
    exact ⟨hg, hprogram, depth', v', calls', hd, hperf', hs'⟩
  · rintro ⟨hg, hprogram, depth', v, calls, hd, hperf, hs⟩
    obtain rfl := hdeep depth' hd
    obtain ⟨v', calls', hperf', hs'⟩ := (hsame r).mpr ⟨v, calls, hperf, hs⟩
    exact ⟨hg, hprogram, depth', v', calls', hd, hperf', hs'⟩

theorem withdraw_transact_after_poke (authority : List AccountId) (call : ChainedCall)
    (amount : U128) (hc : call.instruction = .stablecoin (.withdrawCollateral amount)) :
    ((∃ r, transact platform w authority call = .ok r) ↔
      ∃ r', transact platform w' authority call = .ok r') ∧
    ∀ r r', transact platform w authority call = .ok r →
      transact platform w' authority call = .ok r' →
      Poked platform r r' depth params accumulator now accrual := by
  obtain ⟨hforward, hback⟩ := withdraw_after_poke platform w w' depth params accumulator now accrual
    h hp h' hp' poked authority call.accountIds amount
  have hstep : ∀ r, transact platform w authority call = .ok r →
      ∃ r', transact platform w' authority call = .ok r' ∧
        Poked platform r r' depth params accumulator now accrual := by
    intro r ht
    obtain ⟨hg, hprogram, depth', v, calls, hd, hperf, hs⟩ :=
      (transact_eq_ok platform w r authority call _ hc).mp ht
    obtain rfl : depth' = depth := by
      have := hd.symm.trans poked.deep
      omega
    obtain ⟨v', calls', r', hperf', hs', hpoked⟩ := hforward v calls r hperf hs
    exact ⟨r', (transact_eq_ok platform w' r' authority call _ hc).mpr
      ⟨hg, hprogram, depth', v', calls', hd, hperf', hs'⟩, hpoked⟩
  refine ⟨⟨fun ⟨r, ht⟩ => ?_, ?_⟩, fun r r' ht ht' => ?_⟩
  · obtain ⟨r', ht', -⟩ := hstep r ht
    exact ⟨r', ht'⟩
  · rintro ⟨r', ht'⟩
    obtain ⟨hg, hprogram, depth', v', calls', hd, hperf', hs'⟩ :=
      (transact_eq_ok platform w' r' authority call _ hc).mp ht'
    obtain rfl : depth' = depth := by
      have := hd.symm.trans poked.deep
      omega
    obtain ⟨v, calls, r, hperf, hs⟩ := hback v' calls' r' hperf' hs'
    exact ⟨r, (transact_eq_ok platform w r authority call _ hc).mpr
      ⟨hg, hprogram, depth', v, calls, hd, hperf, hs⟩⟩
  · obtain ⟨r'', ht'', hpoked⟩ := hstep r ht
    rw [ht'] at ht''
    obtain rfl := Except.ok.inj ht''
    exact hpoked

end

theorem FeePoke.initialized (platform : Platform) (w w' : Accounts) (h : Established w)
    (hpoke : FeePoke platform w w') : ∃ params, storedParameters w = some params := by
  have hreads : ∀ p params, Holds stablecoinProgramId (w p) (.protocolParameters params) →
      ∃ params, storedParameters w = some params := by
    intro p params hparams
    rcases h.1 with hu | ⟨s, hr, -⟩
    · exact (hu.not_holds w _ _ hparams).elim
    · exact ⟨_, hr.storedParameters⟩
  obtain ⟨authority, i, p, d, call, ht, rfl | ⟨o, rfl, -⟩⟩ := hpoke
  · obtain ⟨-, _, params, _, _, _, -, ha, -⟩ := (accrue_eq_ok platform w w' authority i p d).mp ht
    exact hreads p params ha.reads.parameters
  · obtain ⟨-, _, params, _, _, _, _, _, _, -, -, ha, -⟩ :=
      (refresh_eq_ok platform w w' authority i p d o).mp ht
    exact hreads p params ha.reads.parameters

/-- Fee pokes before an operation on a position at the same time decide nothing: neither whether
it goes through nor what becomes of the positions. After a last accrual the two worlds are the
same, in particular the accumulator and the supply of the stablecoin. -/
theorem fee_pokes_are_neutral (platform : Platform) (genesis : Genesis) (events : List Event)
    (w' : Accounts) (pokes : FeePokes platform (run platform genesis.world events) w')
    (authority : List AccountId) (call : ChainedCall) (amount : U128)
    (operation : call.instruction = .stablecoin (.generateDebt amount) ∨
      call.instruction = .stablecoin (.repayDebt amount) ∨
      call.instruction = .stablecoin (.withdrawCollateral amount)) :
    let w := run platform genesis.world events
    ((∃ r, transact platform w authority call = .ok r) ↔
      ∃ r', transact platform w' authority call = .ok r') ∧
    ∀ r r', transact platform w authority call = .ok r →
      transact platform w' authority call = .ok r' →
      (∀ id, positionAt r' id = positionAt r id) ∧
      ∀ signers caller p d y, transact platform r signers (accrueCall caller p d) = .ok y ↔
        transact platform r' signers (accrueCall caller p d) = .ok y := by
  intro w
  have h : Established w := run_established platform genesis events
  have hsame : (∀ r, transact platform w authority call = .ok r ↔
      transact platform w' authority call = .ok r) →
      ((∃ r, transact platform w authority call = .ok r) ↔
        ∃ r', transact platform w' authority call = .ok r') ∧
      ∀ r r', transact platform w authority call = .ok r →
        transact platform w' authority call = .ok r' →
        (∀ id, positionAt r' id = positionAt r id) ∧
        ∀ signers caller p d y, transact platform r signers (accrueCall caller p d) = .ok y ↔
          transact platform r' signers (accrueCall caller p d) = .ok y := by
    intro heq
    refine ⟨exists_congr heq, fun r r' ht ht' => ?_⟩
    have ht'' := (heq r).mp ht
    rw [ht'] at ht''
    obtain rfl := Except.ok.inj ht''
    exact ⟨fun _ => rfl, fun _ _ _ _ _ => Iff.rfl⟩
  rcases pokes.cases_head with rfl | ⟨first, hfirst, -⟩
  · exact hsame fun _ => Iff.rfl
  obtain ⟨params, hp⟩ := hfirst.initialized platform w first h
  obtain ⟨⟨h', hp'⟩, rfl | ⟨depth, accumulator, now, accrual, poked⟩⟩ :=
    FeePokes.poked platform w w' params h hp pokes
  · exact hsame fun _ => Iff.rfl
  rcases operation with hc | hc | hc
  · exact hsame (transact_after_poke platform w w' depth params accumulator now accrual poked
      authority call _ hc (generate_after_poke platform w w' depth params accumulator now accrual h hp
        h' hp' poked authority call.accountIds amount))
  · exact hsame (transact_after_poke platform w w' depth params accumulator now accrual poked
      authority call _ hc (repay_after_poke platform w w' depth params accumulator now accrual h hp
        h' hp' poked authority call.accountIds amount))
  · obtain ⟨hiff, hpoked⟩ := withdraw_transact_after_poke platform w w' depth params accumulator now
      accrual h hp h' hp' poked authority call amount hc
    refine ⟨hiff, fun r r' ht ht' => ?_⟩
    have hr := hpoked r r' ht ht'
    have her := h.transacted platform w r authority call ht
    have her' := h'.transacted platform w' r' authority call ht'
    have hpr := (storedParameters_eq_some r params).mpr hr.parameters
    have hpr' : storedParameters r' = some params := by
      rw [storedParameters_eq_some, hr.elsewhere platform r r' depth params accumulator now accrual
        parametersId (by decide)]
      exact hr.parameters
    exact ⟨hr.positions platform r r' depth params accumulator now accrual her hpr her' hpr',
      fun signers caller p d y => accrue_after_poke platform r r' depth params accumulator now accrual
        her hpr her' hpr' hr signers caller p d y⟩

/-- A debt is generated, the admin raises the fee, and a week passes. -/
def chargedEvents : List Event :=
  firstInitialization ++ firstOpening ++
    [.transaction [.key 30] firstGeneration,
      .transaction [.key 60] ⟨stablecoinProgramId, [.key 60, parametersId, accumulatorId,
        definitionId, computeStablecoinMasterHoldingPda stablecoinProgramId,
        clock01ProgramAccountId],
        .stablecoin (.setStabilityFeePerMillisecond maxStabilityFeePerMillisecond), []⟩,
      .environment fun id => if id = clock01ProgramAccountId then
        ⟨.key 6, 0, .clock maximumCompoundingWindowMilliseconds, 0⟩ else default]

def chargedWorld : Accounts := run tablePlatform (clockedGenesis 0).world chargedEvents

def pokedWorld : Accounts := Event.apply tablePlatform chargedWorld
  (.transaction [.key 60] (accrueCall (.key 60) parametersId definitionId))

def secondGeneration : ChainedCall :=
  { firstGeneration with instruction := .stablecoin (.generateDebt 100) }

/-- The poke raises the rate and the supply, and the second debt is the same with it as without. -/
theorem generation_after_poke : ∃ r r',
    transact tablePlatform chargedWorld [.key 30] secondGeneration = .ok r ∧
      transact tablePlatform pokedWorld [.key 30] secondGeneration = .ok r' ∧
      positionAt r' firstPositionId = positionAt r firstPositionId ∧
      accumulatedRate chargedWorld < accumulatedRate pokedWorld ∧
      stablecoinSupply chargedWorld < stablecoinSupply pokedWorld := by
  have hgenerates := transact_apply tablePlatform chargedWorld [.key 30] secondGeneration
    (by decide +kernel)
  obtain ⟨hiff, hpositions⟩ := fee_pokes_are_neutral tablePlatform (clockedGenesis 0) chargedEvents
    pokedWorld (.single ⟨[.key 60], .key 60, parametersId, definitionId, _,
      transact_apply _ _ _ _ (by decide +kernel), Or.inl rfl⟩)
    [.key 30] secondGeneration 100 (Or.inl rfl)
  obtain ⟨r', hr'⟩ := hiff.mp ⟨_, hgenerates⟩
  exact ⟨_, r', hgenerates, hr', (hpositions _ r' hgenerates hr').1 firstPositionId,
    by decide +kernel, by decide +kernel⟩

end LezPrograms.Stablecoin
