import LezPrograms.Stablecoin.Completion

/-! # When the setters succeed

A setter of the parameters succeeds exactly if the account that the parameters name
signs and the values pass their checks. It replaces the parameters and chains no
call; the setter of the fee also accrues at the old fee. -/

set_option autoImplicit false

namespace LezPrograms.Stablecoin
open LezPrograms.Checked LezPrograms.Checked.Unsigned LezPrograms.Lee
open LezPrograms.Stablecoin.Math LezPrograms.Stablecoin.Controller

section
variable (w v : Accounts) (authority : List AccountId) (calls : List ChainedCall)

def Rewriting (R : ProtocolParameters → ProtocolParameters → Prop) (tail : List StateDiff)
    (a x : AccountId) (diffs : List StateDiff) : Prop :=
  x = parametersId ∧ ∃ q q', Holds stablecoinProgramId (w parametersId) (.protocolParameters q) ∧
    a ∈ authority ∧ R q q' ∧
    diffs = [.unchanged (view w authority a), .new (view w authority x) (.protocolParameters q')]
      ++ tail ∧ calls = []

theorem updateParameters_eq_ok (a x : AccountId)
    (mutate : ProtocolParameters → Outcome ProtocolParameters) (diffs : List StateDiff) :
    updateParameters (view w authority a) (view w authority x) stablecoinProgramId mutate
        = .ok (diffs, calls) ↔
      Rewriting w authority calls (fun q q' => a = q.adminAccountId ∧ mutate q = .ok q') [] a x
        diffs := by
  simp only [updateParameters, assertAdminAuthorized, Rewriting, bind_eq_ok, ensure_eq_ok,
    exists_const, pure_eq_ok, decodeProtocolParameters_eq_ok, Prod.mk.injEq, List.append_nil]
  simp only [view_account, view_isAuthorized, view_accountId]
  constructor
  · rintro ⟨q, ⟨-, rfl, hq⟩, ⟨hauth, hadmin⟩, q', hnew, rfl, rfl⟩
    exact ⟨rfl, q, q', hq, hauth, ⟨hadmin, hnew⟩, rfl, rfl⟩
  · rintro ⟨rfl, q, q', hq, hauth, ⟨hadmin, hnew⟩, rfl, rfl⟩
    exact ⟨q, ⟨Holds.ne_default _ _ _ hq Data.noConfusion, rfl, hq⟩, ⟨hauth, hadmin⟩, q', hnew, rfl,
      rfl⟩

theorem setFrozen_eq_ok (a x : AccountId) (isFrozen : Bool) (diffs : List StateDiff) :
    setFrozen (view w authority a) (view w authority x) stablecoinProgramId isFrozen
        = .ok (diffs, calls) ↔
      Rewriting w authority calls (fun q q' => a = q.freezeAuthorityAccountId ∧
        q' = { q with isFrozen := isFrozen }) [] a x diffs := by
  simp only [setFrozen, Rewriting, bind_eq_ok, ensure_eq_ok, exists_const, pure_eq_ok,
    decodeProtocolParameters_eq_ok, Prod.mk.injEq, List.append_nil]
  simp only [view_account, view_isAuthorized, view_accountId]
  constructor
  · rintro ⟨hauth, q, ⟨-, rfl, hq⟩, hfreezer, rfl, rfl⟩
    exact ⟨rfl, q, _, hq, hauth, ⟨hfreezer, rfl⟩, rfl, rfl⟩
  · rintro ⟨rfl, q, _, hq, hauth, ⟨hfreezer, rfl⟩, rfl, rfl⟩
    exact ⟨hauth, q, ⟨Holds.ne_default _ _ _ hq Data.noConfusion, rfl, hq⟩, hfreezer, rfl, rfl⟩

theorem setMarketPriceOracle_eq_ok (a x o : AccountId) (diffs : List StateDiff) :
    setMarketPriceOracle (view w authority a) (view w authority x) (view w authority o)
        stablecoinProgramId = .ok (diffs, calls) ↔
      Rewriting w authority calls (fun q q' => a = q.adminAccountId ∧
        assertOracleQuotes (view w authority o) q.stablecoinDefinitionId q.collateralDefinitionId
          "New market price oracle must decode as OraclePriceAccount"
          "New oracle base_asset must equal the stablecoin definition's account_id"
          "New oracle quote_asset must equal the collateral definition's account_id" = .ok () ∧
        q' = { q with marketPriceOracleId := o }) [.unchanged (view w authority o)] a x diffs := by
  simp only [setMarketPriceOracle, bind_eq_ok, Prod.exists, updateParameters_eq_ok, pure_eq_ok,
    Rewriting, List.append_nil, Prod.mk.injEq]
  simp only [view_accountId]
  constructor
  · rintro ⟨_, _, ⟨rfl, q, q', hq, hauth, ⟨hadmin, _, hquotes, rfl⟩, rfl, rfl⟩, rfl, rfl⟩
    exact ⟨rfl, q, _, hq, hauth, ⟨hadmin, hquotes, rfl⟩, rfl, rfl⟩
  · rintro ⟨rfl, q, _, hq, hauth, ⟨hadmin, hquotes, rfl⟩, rfl, rfl⟩
    exact ⟨_, _, ⟨rfl, q, _, hq, hauth, ⟨hadmin, _, hquotes, rfl⟩, rfl, rfl⟩, rfl, rfl⟩

/-- The execution of a setter. -/
theorem performs_setter (ids : List AccountId) (a x : AccountId) (instruction : Instruction)
    (R : ProtocolParameters → ProtocolParameters → Prop) (tail : List StateDiff)
    (hmain : ∀ diffs, main stablecoinProgramId (ids.map (view w authority)) instruction
      = .ok (diffs, calls) ↔ Rewriting w authority calls R tail a x diffs)
    (htail : ∀ u, applyDiffs stablecoinProgramId u tail = .ok u) :
    Performs w authority ids instruction v calls ↔
      ids.Nodup ∧ x = parametersId ∧ ∃ q q',
        Holds stablecoinProgramId (w parametersId) (.protocolParameters q) ∧ a ∈ authority ∧
        R q q' ∧ v = put stablecoinProgramId w parametersId (.protocolParameters q') ∧ calls = [] := by
  simp only [Performs, hmain, Rewriting]
  refine and_congr_right fun _ => ⟨?_, ?_⟩
  · rintro ⟨_, ⟨rfl, q, q', hq, hauth, hnew, rfl, rfl⟩, ha⟩
    simp only [List.cons_append, List.nil_append, applyDiffs_unchanged, applyDiffs_new,
      view_accountId, htail, Except.ok.injEq] at ha
    exact ⟨rfl, q, q', hq, hauth, hnew, ha.2.symm, rfl⟩
  · rintro ⟨rfl, q, q', hq, hauth, hnew, rfl, rfl⟩
    refine ⟨_, ⟨rfl, q, q', hq, hauth, hnew, rfl, rfl⟩, ?_⟩
    simp only [List.cons_append, List.nil_append, applyDiffs_unchanged, applyDiffs_new,
      view_accountId, htail, and_true]
    exact Holds.mayWrite _ _ _ _ hq

theorem performs_setStabilityFee (i p a d m c : AccountId) (newRate : U128) :
    Performs w authority [i, p, a, d, m, c] (.setStabilityFeePerMillisecond newRate) v calls ↔
      [i, p, a, d, m, c].Nodup ∧
        (p = parametersId ∧ a = accumulatorId ∧ m = masterId ∧ c = clock01ProgramAccountId) ∧
        i ∈ authority ∧ w d ≠ default ∧ w masterId ≠ default ∧
        assertStabilityFeeInBand newRate "new_stability_fee_per_millisecond" = .ok () ∧
        ∃ params accumulator now accrual, i = params.adminAccountId ∧
          AccrualReads stablecoinProgramId w parametersId d params accumulator now accrual ∧
          v = put stablecoinProgramId (put stablecoinProgramId w parametersId
            (.protocolParameters { params with stabilityFeePerMillisecond := newRate })) accumulatorId
            (.stabilityFeeAccumulator accrual.accumulator) ∧
          calls = surplusCalls (w d).programOwner d stablecoinProgramId accrual.accruedFees := by
  refine and_congr_right fun hn => ?_
  simp only [List.map_cons, List.map_nil, main, setStabilityFeePerMillisecond, assertAdminAuthorized,
    bind_eq_ok, ensure_eq_ok, exists_const, pure_eq_ok, decodeProtocolParameters_eq_ok,
    decodeStabilityFeeAccumulator_eq_ok, readClock_eq_ok, surplusMintCall_eq_ok, Prod.mk.injEq]
  simp only [view_account, view_isAuthorized, view_accountId]
  constructor
  · rintro ⟨diffs, ⟨params, ⟨-, rfl, hp⟩, ⟨hauth, hadmin⟩, _, hband, accumulator, ⟨-, rfl, hacc⟩, now,
      ⟨rfl, hclock⟩, accrual, haccrue, call, ⟨hd, hdd, rfl, hmd, hm, hcalls⟩, rfl, rfl⟩, ha⟩
    simp only [applyDiffs_unchanged, applyDiffs_new, view_accountId, applyDiffs_nil,
      Except.ok.injEq] at ha
    obtain ⟨-, -, rfl⟩ := ha
    exact ⟨⟨rfl, rfl, rfl, rfl⟩, hauth, hdd, hmd, hband, params, accumulator, now, accrual, hadmin,
      ⟨hp, hacc, hclock, haccrue, hd, hm⟩, rfl, hcalls⟩
  · rintro ⟨⟨rfl, rfl, rfl, rfl⟩, hauth, hdd, hmd, hband, params, accumulator, now, accrual, hadmin,
      reads, rfl, rfl⟩
    obtain ⟨call, hcall⟩ := surplusCalls_option (w d).programOwner d stablecoinProgramId
      accrual.accruedFees
    refine ⟨_, ⟨params, ⟨Holds.ne_default _ _ _ reads.parameters Data.noConfusion, rfl,
      reads.parameters⟩, ⟨hauth, hadmin⟩, (), hband, accumulator,
      ⟨Holds.ne_default _ _ _ reads.accumulates Data.noConfusion, rfl, reads.accumulates⟩, now,
      ⟨rfl, reads.clock⟩, accrual, reads.computed, call,
      ⟨reads.definition, hdd, rfl, hmd, reads.master, hcall⟩, rfl, hcall⟩, ?_⟩
    simp only [applyDiffs_unchanged, applyDiffs_new, view_accountId, applyDiffs_nil, and_true]
    refine ⟨Holds.mayWrite _ _ _ _ reads.parameters, ?_⟩
    rw [put_other _ _ _ _ _ (by decide)]
    exact Holds.mayWrite _ _ _ _ reads.accumulates

end

section
variable (platform : Platform) (w w' : Accounts) (authority : List AccountId)
  (hgranted : Granted authority) (params : ProtocolParameters)
  (hparams : Holds stablecoinProgramId (w parametersId) (.protocolParameters params))
include hgranted hparams

/-- A setter succeeds on what its handler accepts, and rewrites nothing but the parameters. -/
theorem setter_transacts (hcalls : platform.callDepth ≠ 0) (ids : List AccountId) (a : AccountId)
    (instruction : Instruction) (R : ProtocolParameters → ProtocolParameters → Prop)
    (tail : List StateDiff)
    (hmain : ∀ calls diffs, main stablecoinProgramId (ids.map (view w authority)) instruction
      = .ok (diffs, calls) ↔ Rewriting w authority calls R tail a parametersId diffs)
    (htail : ∀ u, applyDiffs stablecoinProgramId u tail = .ok u) :
    transact platform w authority (.new stablecoinProgramId ids (.stablecoin instruction)) = .ok w' ↔
      ids.Nodup ∧ a ∈ authority ∧ ∃ q', R params q' ∧
        w' = put stablecoinProgramId w parametersId (.protocolParameters q') := by
  have hperforms := fun v calls => performs_setter w v authority calls ids a parametersId instruction R
    tail (hmain calls) htail
  rw [transact_eq_ok platform w w' authority _ _ rfl]
  constructor
  · rintro ⟨-, -, depth, v, calls, -, hperf, hs⟩
    obtain ⟨hn, -, q, q', hq, hauth, hnew, rfl, rfl⟩ := (hperforms v calls).mp hperf
    obtain rfl := Data.protocolParameters.inj (hq.2.symm.trans hparams.2)
    exact ⟨hn, hauth, q', hnew, (Except.ok.inj hs).symm⟩
  · rintro ⟨hn, hauth, q', hnew, rfl⟩
    obtain ⟨depth, hdepth⟩ := Nat.exists_eq_succ_of_ne_zero hcalls
    exact ⟨hgranted, rfl, depth, _, [], hdepth,
      (hperforms _ []).mpr ⟨hn, rfl, params, q', hparams, hauth, hnew, rfl, rfl⟩, rfl⟩

end

end LezPrograms.Stablecoin
