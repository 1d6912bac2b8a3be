import LezPrograms.Lee.Footprint
import LezPrograms.Stablecoin.Reachable

/-! # Transactions of the stablecoin program, in both directions

`Step` says what a successful execution found and did. The lemmas here add the
converse: what an instruction has to find in order to succeed. They carry a
transaction from one world over to another. -/

set_option autoImplicit false

namespace LezPrograms.Stablecoin
open LezPrograms.Checked LezPrograms.Checked.Unsigned LezPrograms.Lee
open LezPrograms.Stablecoin.Math LezPrograms.Stablecoin.Controller

abbrev masterId : AccountId := computeStablecoinMasterHoldingPda stablecoinProgramId

def Performs (w : Accounts) (authority ids : List AccountId) (instruction : Instruction)
    (v : Accounts) (calls : List ChainedCall) : Prop :=
  ids.Nodup ∧ ∃ diffs, main stablecoinProgramId (ids.map (view w authority)) instruction
    = .ok (diffs, calls) ∧ applyDiffs stablecoinProgramId w diffs = .ok v

def Granted (authority : List AccountId) : Prop :=
  ∀ id ∈ authority, ∀ program ∈ deployedPrograms, ¬id.DerivedBy program

theorem Performs.step (w v : Accounts) (authority ids : List AccountId) (instruction : Instruction)
    (calls : List ChainedCall) (h : Performs w authority ids instruction v calls) :
    Step stablecoinProgramId w authority ids instruction v calls := by
  obtain ⟨-, diffs, hm, ha⟩ := h
  exact step_of_main _ _ _ _ _ _ _ _ hm ha

theorem Performs.frame (w v : Accounts) (authority ids : List AccountId)
    (instruction : Instruction) (calls : List ChainedCall)
    (h : Performs w authority ids instruction v calls) : Frame stablecoinProgramId w v := by
  obtain ⟨-, diffs, -, ha⟩ := h
  exact applyDiffs_frame _ diffs w v ha

theorem transact_eq_ok (platform : Platform) (w w' : Accounts) (authority : List AccountId)
    (call : ChainedCall) (instruction : Instruction)
    (hi : call.instruction = .stablecoin instruction) :
    transact platform w authority call = .ok w' ↔
      Granted authority ∧ call.programId = stablecoinProgramId ∧
        ∃ depth v calls, platform.callDepth = depth + 1 ∧
          Performs w authority call.accountIds instruction v calls ∧
          settle platform.tickMath depth stablecoinProgramId authority v calls = .ok w' := by
  simp only [transact, bind_eq_ok, ensure_eq_ok, exists_const, Granted]
  refine and_congr_right fun _ => ?_
  cases platform.callDepth with
  | zero => simp [invoke]
  | succ depth =>
    simp only [invoke, bind_eq_ok, Prod.exists, execute_eq_ok, hi, dispatch, ensure_eq_ok,
      exists_const, Performs, settle]
    constructor
    · rintro ⟨v, calls, ⟨hn, diffs, ⟨hp, hm⟩, ha⟩, hs⟩
      rw [hp] at hm ha hs
      exact ⟨hp, depth, v, calls, rfl, ⟨hn, diffs, hm, ha⟩, hs⟩
    · rintro ⟨hp, depth', v, calls, hd, ⟨hn, diffs, hm, ha⟩, hs⟩
      obtain rfl : depth = depth' := by omega
      rw [hp]
      exact ⟨v, calls, ⟨hn, diffs, ⟨rfl, hm⟩, ha⟩, hs⟩

/-- Where a failed invocation failed. -/
theorem invoke_eq_error (tickMath : TwapOracle.TickMath) (depth : ℕ) (w : Accounts)
    (authority : List AccountId) (call : ChainedCall) (instruction : Instruction)
    (hi : call.instruction = .stablecoin instruction) (hp : call.programId = stablecoinProgramId)
    (m : String) :
    invoke tickMath (depth + 1) w authority call = .error m ↔
      ensure call.accountIds.Nodup "accounts of an instruction must be distinct" = .error m ∨
        call.accountIds.Nodup ∧
          (main stablecoinProgramId (call.accountIds.map (view w authority)) instruction
              = .error m ∨
            ∃ diffs calls, main stablecoinProgramId (call.accountIds.map (view w authority))
                instruction = .ok (diffs, calls) ∧
              (applyDiffs stablecoinProgramId w diffs = .error m ∨
                ∃ v, applyDiffs stablecoinProgramId w diffs = .ok v ∧
                  settle tickMath depth stablecoinProgramId authority v calls = .error m)) := by
  simp only [invoke, execute, hi, hp, dispatch, settle, bind_eq_error, bind_eq_ok, Prod.exists,
    ensure_eq_ok, exists_const, pure_eq_error, and_false, or_false, pure_eq_ok,
    ensure_pos _ _ trivial, reduceCtorEq, false_or, true_and, Prod.mk.injEq]
  constructor
  · rintro ((h | ⟨hn, h | ⟨diffs, calls, hh, h⟩⟩) |
      ⟨v, calls, ⟨hn, diffs, calls', hh, u, hu, rfl, rfl⟩, h⟩)
    · exact Or.inl h
    · exact Or.inr ⟨hn, Or.inl h⟩
    · exact Or.inr ⟨hn, Or.inr ⟨diffs, calls, hh, Or.inl h⟩⟩
    · exact Or.inr ⟨hn, Or.inr ⟨diffs, _, hh, Or.inr ⟨_, hu, h⟩⟩⟩
  · rintro (h | ⟨hn, h | ⟨diffs, calls, hh, h | ⟨v, hv, h⟩⟩⟩)
    · exact Or.inl (Or.inl h)
    · exact Or.inl (Or.inr ⟨hn, Or.inl h⟩)
    · exact Or.inl (Or.inr ⟨hn, Or.inr ⟨diffs, calls, hh, h⟩⟩)
    · exact Or.inr ⟨v, calls, ⟨hn, diffs, calls, hh, v, hv, rfl, rfl⟩, h⟩

/-- The execution in a successful transaction; the calls it chains leave the program's own
accounts as it left them. -/
theorem Transacted.performs (platform : Platform) (w w' : Accounts) (authority : List AccountId)
    (call : ChainedCall) (instruction : Instruction) (v : Accounts) (calls : List ChainedCall)
    (h : Transacted platform w authority call instruction v calls w') :
    ∃ u calls, Performs w authority call.accountIds instruction u calls ∧
      owned stablecoinProgramId w' = owned stablecoinProgramId u := by
  obtain ⟨-, -, depth, u, calls', -, hperf, hs⟩ :=
    (transact_eq_ok platform w w' authority call instruction h.called).mp h.succeeds
  exact ⟨u, calls', hperf, (settled_of_foldlM platform.tickMath depth stablecoinProgramId authority
    calls' (stablecoin_leaf _ _ _ _ _ _ _ hperf.step) u w' hs).owned_eq _ _ stablecoinProgramId
    (by decide) (by decide)⟩

theorem elsewhere_stored (w w' : Accounts) (h : Elsewhere stablecoinProgramId w w') :
    owned stablecoinProgramId w' = owned stablecoinProgramId w := by
  refine elsewhere_preserves stablecoinProgramId
    (fun u => owned stablecoinProgramId u = owned stablecoinProgramId w) ?_ w w' h rfl
  intro u u' hu hf
  rw [hf.owned_eq stablecoinProgramId u u' (by decide) (by decide), hu]

theorem Holds.ne_default (program : AccountId) (a : Account AccountId Data) (data : Data)
    (h : Holds program a data) (hd : data ≠ .empty) : a ≠ default := by
  rintro rfl
  exact hd h.2.symm

theorem Holds.mayWrite (program : AccountId) (a : Account AccountId Data) (data data' : Data)
    (h : Holds program a data) : MayWrite program a data' := Or.inr (Or.inl h.1)

theorem surplusCalls_option (tokenProgram definition self : AccountId) (fees : U128) :
    ∃ call : Option ChainedCall, call.toList = surplusCalls tokenProgram definition self fees := by
  unfold surplusCalls
  split
  · exact ⟨some _, rfl⟩
  · exact ⟨none, rfl⟩

theorem surplusCalls_token (tokenProgram d : AccountId) (fees : U128) (call : ChainedCall)
    (h : call ∈ surplusCalls tokenProgram d stablecoinProgramId fees) :
    (∃ i, call.instruction = .token i) ∧ call.accountIds = [d, masterId] := by
  unfold surplusCalls at h
  split at h
  · rw [List.mem_singleton.mp h]
    exact ⟨⟨_, rfl⟩, rfl⟩
  · cases h

theorem surplus_local (tokenProgram d : AccountId) (fees : U128) :
    ∀ call ∈ surplusCalls tokenProgram d stablecoinProgramId fees,
      (∃ i, call.instruction = .token i) ∧ ∀ id ∈ call.accountIds, id ∈ [d, masterId] := by
  intro call hc
  obtain ⟨ht, hids⟩ := surplusCalls_token tokenProgram d fees call hc
  exact ⟨ht, fun id hid => hids ▸ hid⟩

section
variable (w v : Accounts) (authority : List AccountId) (calls : List ChainedCall)

theorem performs_accrue (i p a d m c : AccountId) :
    Performs w authority [i, p, a, d, m, c] .accrueStabilityFee v calls ↔
      [i, p, a, d, m, c].Nodup ∧ (a = accumulatorId ∧ m = masterId ∧ c = clock01ProgramAccountId) ∧
        i ∈ authority ∧ w d ≠ default ∧ w masterId ≠ default ∧
        ∃ params accumulator now accrual,
          AccrualReads stablecoinProgramId w p d params accumulator now accrual ∧
          v = put stablecoinProgramId w accumulatorId
            (.stabilityFeeAccumulator accrual.accumulator) ∧
          calls = surplusCalls (w d).programOwner d stablecoinProgramId accrual.accruedFees := by
  refine and_congr_right fun _ => ?_
  simp only [List.map_cons, List.map_nil, main, accrueStabilityFee, bind_eq_ok, ensure_eq_ok,
    exists_const, pure_eq_ok, Prod.exists, decodeFeeAccrualInputs_eq_ok, readClock_eq_ok,
    surplusMintCall_eq_ok, Prod.mk.injEq]
  simp only [view_account, view_isAuthorized, view_accountId]
  constructor
  · rintro ⟨diffs, ⟨hauth, params, accumulator, ⟨⟨-, hp⟩, -, rfl, hacc⟩, now, ⟨rfl, hclock⟩,
      accrual, haccrue, call, ⟨hd, hdd, rfl, hmd, hm, hcalls⟩, rfl, rfl⟩, ha⟩
    simp only [applyDiffs_unchanged, applyDiffs_new, view_accountId, applyDiffs_nil,
      Except.ok.injEq] at ha
    obtain ⟨-, rfl⟩ := ha
    exact ⟨⟨rfl, rfl, rfl⟩, hauth, hdd, hmd, params, accumulator, now, accrual,
      ⟨hp, hacc, hclock, haccrue, hd, hm⟩, rfl, hcalls⟩
  · rintro ⟨⟨rfl, rfl, rfl⟩, hauth, hdd, hmd, params, accumulator, now, accrual, reads, rfl, rfl⟩
    obtain ⟨call, hcall⟩ := surplusCalls_option (w d).programOwner d stablecoinProgramId
      accrual.accruedFees
    refine ⟨_, ⟨hauth, params, accumulator, ⟨⟨Holds.ne_default _ _ _ reads.parameters Data.noConfusion,
      reads.parameters⟩, Holds.ne_default _ _ _ reads.accumulates Data.noConfusion, rfl,
      reads.accumulates⟩, now, ⟨rfl, reads.clock⟩, accrual, reads.computed, call,
      ⟨reads.definition, hdd, rfl, hmd, reads.master, hcall⟩, rfl, hcall⟩, ?_⟩
    simp only [applyDiffs_unchanged, applyDiffs_new, view_accountId, applyDiffs_nil, and_true]
    exact Holds.mayWrite _ _ _ _ reads.accumulates

structure Quoted (w : Accounts) (o : AccountId) (params : ProtocolParameters)
    (redemption : RedemptionPriceState) (now : U64) (oracle : TwapOracle.OraclePriceAccount) :
    Prop where
  reading : readOracle (view w [] o) params = .ok (some oracle)
  fresh : (now.saturatingSub oracle.timestamp).val ≤ params.maximumOraclePriceAgeMilliseconds.val
  positive : 0 < oracle.price.val
  due : params.minimumMillisecondsBetweenRateUpdates.val
    ≤ (now.saturatingSub redemption.lastUpdatedAt).val

theorem readOracle_view (o : AccountId) (params : ProtocolParameters) :
    readOracle (view w authority o) params = readOracle (view w [] o) params := rfl

theorem readOracle_some_ne_default (account : InputAccount) (params : ProtocolParameters)
    (oracle : TwapOracle.OraclePriceAccount) (h : readOracle account params = .ok (some oracle)) :
    account.account ≠ default := by
  intro he
  have hd := readOracle_eq_ok account params oracle h
  rw [he] at hd
  cases hd

theorem performs_update (i p r o c : AccountId) :
    Performs w authority [i, p, r, o, c] .updateRedemptionRate v calls ↔
      [i, p, r, o, c].Nodup ∧ (r = redemptionId ∧ c = clock01ProgramAccountId) ∧ i ∈ authority ∧
        ∃ params redemption now oracle redemption',
          Holds stablecoinProgramId (w p) (.protocolParameters params) ∧
          Holds stablecoinProgramId (w redemptionId) (.redemptionPriceState redemption) ∧
          (w clock01ProgramAccountId).data = .clock now ∧
          Quoted w o params redemption now oracle ∧
          advanceRedemptionPrice params redemption oracle.price now = .ok redemption' ∧
          v = put stablecoinProgramId w redemptionId (.redemptionPriceState redemption') ∧
          calls = [] := by
  refine and_congr_right fun _ => ?_
  simp only [List.map_cons, List.map_nil, main, updateRedemptionRate, bind_eq_ok, ensure_eq_ok,
    exists_const, pure_eq_ok, Prod.exists, decodeRedemptionInputs_eq_ok, readClock_eq_ok,
    expect_eq_ok, Prod.mk.injEq]
  simp only [view_account, view_isAuthorized, view_accountId, readOracle_view]
  constructor
  · rintro ⟨diffs, ⟨hauth, params, redemption, ⟨⟨-, hp⟩, -, rfl, hr⟩, -, reading, horacle, oracle,
      rfl, now, ⟨rfl, hclock⟩, hfresh, hpos, hdue, redemption', hadv, rfl, rfl⟩, ha⟩
    simp only [applyDiffs_unchanged, applyDiffs_new, view_accountId, applyDiffs_nil,
      Except.ok.injEq] at ha
    obtain ⟨-, rfl⟩ := ha
    exact ⟨⟨rfl, rfl⟩, hauth, params, redemption, now, oracle, redemption', hp, hr, hclock,
      ⟨horacle, hfresh, hpos, hdue⟩, hadv, rfl, rfl⟩
  · rintro ⟨⟨rfl, rfl⟩, hauth, params, redemption, now, oracle, redemption', hp, hr, hclock,
      ⟨horacle, hfresh, hpos, hdue⟩, hadv, rfl, rfl⟩
    refine ⟨_, ⟨hauth, params, redemption, ⟨⟨Holds.ne_default _ _ _ hp Data.noConfusion, hp⟩,
      Holds.ne_default _ _ _ hr Data.noConfusion, rfl, hr⟩,
      readOracle_some_ne_default _ _ _ horacle, _, horacle, oracle, rfl, now, ⟨rfl, hclock⟩,
      hfresh, hpos, hdue, redemption', hadv, rfl, rfl⟩, ?_⟩
    simp only [applyDiffs_unchanged, applyDiffs_new, view_accountId, applyDiffs_nil, and_true]
    exact Holds.mayWrite _ _ _ _ hr

def Refreshed (params : ProtocolParameters) (redemption : RedemptionPriceState)
    (reading : Option TwapOracle.OraclePriceAccount) (now : U64) (v v' : Accounts) : Prop :=
  match usablePrice params redemption reading now with
  | some price => ∃ redemption', advanceRedemptionPrice params redemption price now
      = .ok redemption' ∧
      v' = put stablecoinProgramId v redemptionId (.redemptionPriceState redemption')
  | none => v' = v

theorem performs_refresh (i p a d m r o c : AccountId) :
    Performs w authority [i, p, a, d, m, r, o, c] .refreshGlobals v calls ↔
      [i, p, a, d, m, r, o, c].Nodup ∧
        (a = accumulatorId ∧ m = masterId ∧ r = redemptionId ∧ c = clock01ProgramAccountId) ∧
        i ∈ authority ∧ w d ≠ default ∧ w masterId ≠ default ∧
        ∃ params accumulator now accrual redemption reading,
          AccrualReads stablecoinProgramId w p d params accumulator now accrual ∧
          Holds stablecoinProgramId (w redemptionId) (.redemptionPriceState redemption) ∧
          readOracle (view w [] o) params = .ok reading ∧
          Refreshed params redemption reading now (put stablecoinProgramId w accumulatorId
            (.stabilityFeeAccumulator accrual.accumulator)) v ∧
          calls = surplusCalls (w d).programOwner d stablecoinProgramId accrual.accruedFees := by
  refine and_congr_right fun hn => ?_
  simp only [List.map_cons, List.map_nil, main, refreshGlobals, bind_eq_ok, ensure_eq_ok,
    exists_const, pure_eq_ok, Prod.exists, decodeFeeAccrualInputs_eq_ok,
    decodeRedemptionInputs_eq_ok, readClock_eq_ok, surplusMintCall_eq_ok, Prod.mk.injEq]
  simp only [view_account, view_isAuthorized, view_accountId, readOracle_view]
  have hne : redemptionId ≠ accumulatorId := by decide
  constructor
  · rintro ⟨diffs, ⟨hauth, params, accumulator, ⟨⟨-, hp⟩, -, rfl, hacc⟩, _, redemption,
      ⟨⟨-, hp'⟩, -, rfl, hr⟩, reading, hreading, now, ⟨rfl, hclock⟩, accrual, haccrue, call,
      ⟨hd, hdd, rfl, hmd, hm, hcalls⟩, diff, hdiff, rfl, rfl⟩, ha⟩
    refine ⟨⟨rfl, rfl, rfl, rfl⟩, hauth, hdd, hmd, params, accumulator, now, accrual, redemption,
      reading, ⟨hp, hacc, hclock, haccrue, hd, hm⟩, hr, hreading, ?_, hcalls⟩
    unfold Refreshed
    cases hu : usablePrice params redemption reading now with
    | none =>
      rw [hu, pure_eq_ok] at hdiff
      subst hdiff
      simp only [applyDiffs_unchanged, applyDiffs_new, view_accountId, applyDiffs_nil,
        Except.ok.injEq] at ha
      exact ha.2.symm
    | some price =>
      simp only [hu, bind_eq_ok, pure_eq_ok] at hdiff
      obtain ⟨redemption', hadv, rfl⟩ := hdiff
      simp only [applyDiffs_unchanged, applyDiffs_new, view_accountId, applyDiffs_nil,
        Except.ok.injEq] at ha
      exact ⟨redemption', hadv, ha.2.2.symm⟩
  · rintro ⟨⟨rfl, rfl, rfl, rfl⟩, hauth, hdd, hmd, params, accumulator, now, accrual, redemption,
      reading, reads, hr, hreading, href, rfl⟩
    obtain ⟨call, hcall⟩ := surplusCalls_option (w d).programOwner d stablecoinProgramId
      accrual.accruedFees
    have hp := Holds.ne_default _ _ _ reads.parameters Data.noConfusion
    have ha := Holds.mayWrite _ _ _ (.stabilityFeeAccumulator accrual.accumulator)
      reads.accumulates
    have hdiff : ∃ diff, (match usablePrice params redemption reading now with
        | some oraclePrice => do
          let redemptionData ← advanceRedemptionPrice params redemption oraclePrice now
          pure (AccountStateDiff.new (view w authority redemptionId)
            (.redemptionPriceState redemptionData))
        | none => pure (AccountStateDiff.unchanged (view w authority redemptionId))) = .ok diff ∧
        applyDiffs stablecoinProgramId w [.unchanged (view w authority i),
          .unchanged (view w authority p), .new (view w authority accumulatorId)
            (.stabilityFeeAccumulator accrual.accumulator), .unchanged (view w authority d),
          .unchanged (view w authority masterId), diff, .unchanged (view w authority o),
          .unchanged (view w authority clock01ProgramAccountId)] = .ok v := by
      unfold Refreshed at href
      cases hu : usablePrice params redemption reading now with
      | none =>
        simp only [hu] at href
        refine ⟨_, rfl, ?_⟩
        simp only [applyDiffs_unchanged, applyDiffs_new, view_accountId, applyDiffs_nil]
        exact ⟨ha, by rw [href]⟩
      | some price =>
        simp only [hu] at href
        obtain ⟨redemption', hadv, rfl⟩ := href
        refine ⟨.new (view w authority redemptionId) (.redemptionPriceState redemption'),
          by simp only [hadv]; rfl, ?_⟩
        simp only [applyDiffs_unchanged, applyDiffs_new, view_accountId, applyDiffs_nil, and_true,
          put_other _ _ _ _ _ hne]
        exact ⟨ha, Holds.mayWrite _ _ _ _ hr⟩
    obtain ⟨diff, hdiff, happly⟩ := hdiff
    exact ⟨_, ⟨hauth, params, accumulator, ⟨⟨hp, reads.parameters⟩,
      Holds.ne_default _ _ _ reads.accumulates Data.noConfusion, rfl, reads.accumulates⟩, params,
      redemption, ⟨⟨hp, reads.parameters⟩, Holds.ne_default _ _ _ hr Data.noConfusion, rfl, hr⟩,
      reading, hreading, now, ⟨rfl, reads.clock⟩, accrual, reads.computed, call,
      ⟨reads.definition, hdd, rfl, hmd, reads.master, hcall⟩, diff, hdiff, rfl, hcall⟩, happly⟩

theorem performs_reset (i p r c : AccountId) :
    Performs w authority [i, p, r, c] .resetRedemptionRateController v calls ↔
      [i, p, r, c].Nodup ∧
        (p = parametersId ∧ r = redemptionId ∧ c = clock01ProgramAccountId) ∧ i ∈ authority ∧
        ∃ params redemption now,
          Holds stablecoinProgramId (w parametersId) (.protocolParameters params) ∧
          Holds stablecoinProgramId (w redemptionId) (.redemptionPriceState redemption) ∧
          (w clock01ProgramAccountId).data = .clock now ∧
          (i = params.adminAccountId ∨ i = params.freezeAuthorityAccountId) ∧
          v = put stablecoinProgramId w redemptionId
            (.redemptionPriceState (resetState redemption now)) ∧ calls = [] := by
  refine and_congr_right fun _ => ?_
  simp only [List.map_cons, List.map_nil, main, resetRedemptionRateController, bind_eq_ok,
    ensure_eq_ok, exists_const, pure_eq_ok, decodeProtocolParameters_eq_ok,
    decodeRedemptionPriceState_eq_ok, readClock_eq_ok, Prod.mk.injEq]
  simp only [view_account, view_isAuthorized, view_accountId]
  constructor
  · rintro ⟨diffs, ⟨hauth, params, ⟨-, rfl, hp⟩, hent, redemption, ⟨-, rfl, hr⟩, now, ⟨rfl, hclock⟩,
      rfl, rfl⟩, ha⟩
    simp only [applyDiffs_unchanged, applyDiffs_new, view_accountId, applyDiffs_nil,
      Except.ok.injEq] at ha
    obtain ⟨-, rfl⟩ := ha
    exact ⟨⟨rfl, rfl, rfl⟩, hauth, params, redemption, now, hp, hr, hclock, hent, rfl, rfl⟩
  · rintro ⟨⟨rfl, rfl, rfl⟩, hauth, params, redemption, now, hp, hr, hclock, hent, rfl, rfl⟩
    refine ⟨_, ⟨hauth, params, ⟨Holds.ne_default _ _ _ hp Data.noConfusion, rfl, hp⟩, hent,
      redemption, ⟨Holds.ne_default _ _ _ hr Data.noConfusion, rfl, hr⟩, now, ⟨rfl, hclock⟩, rfl,
      rfl⟩, ?_⟩
    simp only [applyDiffs_unchanged, applyDiffs_new, view_accountId, applyDiffs_nil]
    exact ⟨Holds.mayWrite _ _ _ _ hr, rfl⟩

theorem performs_deposit (o x k u p : AccountId) (amount : U128) :
    Performs w authority [o, x, k, u, p] (.depositCollateral amount) v calls ↔
      [o, x, k, u, p].Nodup ∧ p = parametersId ∧ u ∈ authority ∧
        ∃ data params balance userHolding, ∃ newCollateral : U128,
          PositionReads stablecoinProgramId w authority o x data ∧ data.vaultAccountId = k ∧
          Holds stablecoinProgramId (w parametersId) (.protocolParameters params) ∧
          (w k).data = .tokenHolding (.fungible params.collateralDefinitionId balance) ∧
          (w u).programOwner = (w k).programOwner ∧ (w u).data = .tokenHolding userHolding ∧
          userHolding.definitionId = params.collateralDefinitionId ∧
          newCollateral.val = balance.val + amount.val ∧
          v = put stablecoinProgramId w x
            (.position { data with collateralAmount := newCollateral }) ∧
          calls = [depositCall (w k).programOwner u k amount] := by
  refine and_congr_right fun _ => ?_
  simp only [List.map_cons, List.map_nil, main, depositCollateral, bind_eq_ok, ensure_eq_ok,
    exists_const, expect_eq_ok, pure_eq_ok, tryFrom_holding, decodePosition_eq_ok,
    decodeProtocolParameters_eq_ok, fungibleBalance_eq_ok, checkedAdd_eq_some, Prod.mk.injEq]
  simp only [view_account, view_isAuthorized, view_accountId]
  constructor
  · rintro ⟨diffs, ⟨hauth, hu, data, ⟨-, hx, hid, howner⟩, hk, params, ⟨-, rfl, hp⟩, -, held, hheld,
      htoken, balance, hb, hprog, userHolding, huser, hut, newCollateral, hsum, rfl, rfl⟩, ha⟩
    simp only [applyDiffs_unchanged, applyDiffs_new, view_accountId, applyDiffs_nil,
      Except.ok.injEq] at ha
    obtain ⟨-, rfl⟩ := ha
    rw [hb, htoken] at hheld
    exact ⟨rfl, hu, data, params, balance, userHolding, newCollateral, ⟨hauth, hx, hid, howner⟩, hk,
      hp, hheld, hprog, huser, hut, hsum, rfl, rfl⟩
  · rintro ⟨rfl, hu, data, params, balance, userHolding, newCollateral, ⟨hauth, hx, hid, howner⟩, hk,
      hp, hheld, hprog, huser, hut, hsum, rfl, rfl⟩
    refine ⟨_, ⟨hauth, hu, data, ⟨Holds.ne_default _ _ _ hx Data.noConfusion, hx, hid, howner⟩, hk,
      params, ⟨Holds.ne_default _ _ _ hp Data.noConfusion, rfl, hp⟩,
      Token.data_ne_default _ (by rw [hheld]; exact Data.noConfusion), _, hheld, rfl, balance,
      rfl, hprog, userHolding, huser, hut, newCollateral, hsum, rfl, rfl⟩, ?_⟩
    simp only [applyDiffs_unchanged, applyDiffs_new, view_accountId, applyDiffs_nil, and_true]
    exact Holds.mayWrite _ _ _ _ hx

theorem performs_close (o x k p : AccountId) :
    Performs w authority [o, x, k, p] .closePosition v calls ↔
      [o, x, k, p].Nodup ∧ p = parametersId ∧
        ∃ data params token, ∃ balance : U128,
          PositionReads stablecoinProgramId w authority o x data ∧ data.vaultAccountId = k ∧
          Holds stablecoinProgramId (w parametersId) (.protocolParameters params) ∧
          data.normalizedDebtAmount.val = 0 ∧ data.collateralAmount.val = 0 ∧
          (w k).data = .tokenHolding (.fungible token balance) ∧ balance.val = 0 ∧
          v = put stablecoinProgramId w x .empty ∧ calls = [] := by
  refine and_congr_right fun _ => ?_
  simp only [List.map_cons, List.map_nil, main, closePosition, bind_eq_ok, ensure_eq_ok,
    exists_const, expect_eq_ok, pure_eq_ok, tryFrom_holding, decodePosition_eq_ok,
    decodeProtocolParameters_eq_ok, fungibleBalance_eq_ok, Prod.mk.injEq]
  simp only [view_account, view_isAuthorized, view_accountId]
  constructor
  · rintro ⟨diffs, ⟨hauth, data, ⟨-, hx, hid, howner⟩, params, ⟨-, rfl, hp⟩, hdebt, hcollateral, hk,
      held, hheld, balance, hb, hzero, rfl, rfl⟩, ha⟩
    simp only [applyDiffs_unchanged, applyDiffs_new, view_accountId, applyDiffs_nil,
      Except.ok.injEq] at ha
    obtain ⟨-, rfl⟩ := ha
    rw [hb] at hheld
    exact ⟨rfl, data, params, held.definitionId, balance, ⟨hauth, hx, hid, howner⟩, hk, hp, hdebt,
      hcollateral, hheld, hzero, rfl, rfl⟩
  · rintro ⟨rfl, data, params, token, balance, ⟨hauth, hx, hid, howner⟩, hk, hp, hdebt, hcollateral,
      hheld, hzero, rfl, rfl⟩
    refine ⟨_, ⟨hauth, data, ⟨Holds.ne_default _ _ _ hx Data.noConfusion, hx, hid, howner⟩, params,
      ⟨Holds.ne_default _ _ _ hp Data.noConfusion, rfl, hp⟩, hdebt, hcollateral, hk, _, hheld,
      balance, rfl, hzero, rfl, rfl⟩, ?_⟩
    simp only [applyDiffs_unchanged, applyDiffs_new, view_accountId, applyDiffs_nil, and_true]
    exact Holds.mayWrite _ _ _ _ hx

structure DebtReads (w : Accounts) (authority : List AccountId) (o x d u : AccountId)
    (data : Position) (params : ProtocolParameters) (accumulator : StabilityFeeAccumulator)
    (now : U64) (accrual : FeeAccrual) : Prop where
  position : PositionReads stablecoinProgramId w authority o x data
  accrues : AccrualReads stablecoinProgramId w parametersId d params accumulator now accrual
  definition : w d ≠ default
  master : w masterId ≠ default
  sameProgram : (w u).programOwner = (w d).programOwner
  holding : ∃ held : Token.Holding, (w u).data = .tokenHolding held ∧ held.definitionId = d

theorem performs_repay (o x d u m a p c : AccountId) (amount : U128) :
    Performs w authority [o, x, d, u, m, a, p, c] (.repayDebt amount) v calls ↔
      [o, x, d, u, m, a, p, c].Nodup ∧
        (m = masterId ∧ a = accumulatorId ∧ p = parametersId ∧ c = clock01ProgramAccountId) ∧
        u ∈ authority ∧ ∃ data params accumulator now accrual, ∃ delta newDebt newTotal : U128,
          DebtReads w authority o x d u data params accumulator now accrual ∧
          mulDiv amount fixedPointOne accrual.accumulator.accumulatedRateAtLastAccrual
            = .ok delta ∧
          newDebt.val + delta.val = data.normalizedDebtAmount.val ∧
          newTotal.val + delta.val = accrual.accumulator.totalNormalizedDebt.val ∧
          v = put stablecoinProgramId (put stablecoinProgramId w x
            (.position { data with normalizedDebtAmount := newDebt })) accumulatorId
            (.stabilityFeeAccumulator
              { accrual.accumulator with totalNormalizedDebt := newTotal }) ∧
          calls = surplusCalls (w d).programOwner d stablecoinProgramId accrual.accruedFees ++
            [burnCall (w d).programOwner d u amount] := by
  refine and_congr_right fun hn => ?_
  simp only [List.map_cons, List.map_nil, main, repayDebt, bind_eq_ok, ensure_eq_ok, exists_const,
    pure_eq_ok, expect_eq_ok, tryFrom_holding, decodePosition_eq_ok, decodeProtocolParameters_eq_ok,
    decodeStabilityFeeAccumulator_eq_ok, readClock_eq_ok, surplusMintCall_eq_ok,
    checkedSub_eq_some, Prod.mk.injEq]
  simp only [view_account, view_isAuthorized, view_accountId]
  constructor
  · rintro ⟨diffs, ⟨hauth, data, ⟨-, hx, hder, hown⟩, huser, params, ⟨-, rfl, hp⟩, hd, -, hdd,
      hprogram, held, hheld, htoken, accumulator, ⟨-, rfl, hacc⟩, now, ⟨rfl, hclock⟩, accrual,
      haccrue, call, ⟨-, -, rfl, hmd, hm, hcalls⟩, delta, hdelta, debt, hdebt, total, htotal, rfl,
      rfl⟩, ha⟩
    simp only [applyDiffs_unchanged, applyDiffs_new, view_accountId, applyDiffs_nil,
      Except.ok.injEq] at ha
    obtain ⟨-, -, rfl⟩ := ha
    exact ⟨⟨rfl, rfl, rfl, rfl⟩, huser, data, params, accumulator, now, accrual, delta, debt, total,
      ⟨⟨hauth, hx, hder, hown⟩, ⟨hp, hacc, hclock, haccrue, hd, hm⟩, hdd, hmd, hprogram, held, hheld,
        htoken⟩, hdelta, hdebt, htotal, rfl, by rw [hcalls, hprogram]; rfl⟩
  · rintro ⟨⟨rfl, rfl, rfl, rfl⟩, huser, data, params, accumulator, now, accrual, delta, debt, total,
      ⟨⟨hauth, hx, hder, hown⟩, ⟨hp, hacc, hclock, haccrue, hd, hm⟩, hdd, hmd, hprogram, held, hheld,
        htoken⟩, hdelta, hdebt, htotal, rfl, rfl⟩
    obtain ⟨call, hcall⟩ := surplusCalls_option (w d).programOwner d stablecoinProgramId
      accrual.accruedFees
    have hne : accumulatorId ≠ x := by
      rintro rfl
      cases hx.2.symm.trans hacc.2
    refine ⟨_, ⟨hauth, data, ⟨Holds.ne_default _ _ _ hx Data.noConfusion, hx, hder, hown⟩, huser,
      params, ⟨Holds.ne_default _ _ _ hp Data.noConfusion, rfl, hp⟩, hd,
      Token.data_ne_default _ (by rw [hheld]; exact Data.noConfusion), hdd, hprogram, held, hheld,
      htoken, accumulator, ⟨Holds.ne_default _ _ _ hacc Data.noConfusion, rfl, hacc⟩, now,
      ⟨rfl, hclock⟩, accrual, haccrue, call, ⟨hd, hdd, rfl, hmd, hm, hcall⟩, delta, hdelta, debt,
      hdebt, total, htotal, rfl, by rw [hcall, hprogram]; rfl⟩, ?_⟩
    simp only [applyDiffs_unchanged, applyDiffs_new, view_accountId, applyDiffs_nil, and_true,
      put_other _ _ _ _ _ hne]
    exact ⟨Holds.mayWrite _ _ _ _ hx, Holds.mayWrite _ _ _ _ hacc⟩

theorem performs_generate (o x d u m a r p c : AccountId) (amount : U128) :
    Performs w authority [o, x, d, u, m, a, r, p, c] (.generateDebt amount) v calls ↔
      [o, x, d, u, m, a, r, p, c].Nodup ∧
        (m = masterId ∧ a = accumulatorId ∧ r = redemptionId ∧ p = parametersId ∧
          c = clock01ProgramAccountId) ∧
        ∃ data params accumulator redemption now accrual, ∃ delta newDebt newTotal : U128,
          DebtReads w authority o x d u data params accumulator now accrual ∧
          params.isFrozen = false ∧
          Holds stablecoinProgramId (w redemptionId) (.redemptionPriceState redemption) ∧
          mulDivCeil amount fixedPointOne accrual.accumulator.accumulatedRateAtLastAccrual
            = .ok delta ∧
          newDebt.val = data.normalizedDebtAmount.val + delta.val ∧
          newTotal.val = accrual.accumulator.totalNormalizedDebt.val + delta.val ∧
          (computeCurrentRedemptionPriceWide redemption.redemptionPriceAtLastUpdate
            redemption.redemptionRatePerMillisecond redemption.lastUpdatedAt now).val ≠ 0 ∧
          assertPositionIsCollateralized { data with normalizedDebtAmount := newDebt }
            (widen accrual.accumulator.accumulatedRateAtLastAccrual (by decide))
            (computeCurrentRedemptionPriceWide redemption.redemptionPriceAtLastUpdate
              redemption.redemptionRatePerMillisecond redemption.lastUpdatedAt now)
            params.minimumCollateralizationRatio = .ok () ∧
          v = put stablecoinProgramId (put stablecoinProgramId w x
            (.position { data with normalizedDebtAmount := newDebt })) accumulatorId
            (.stabilityFeeAccumulator
              { accrual.accumulator with totalNormalizedDebt := newTotal }) ∧
          calls = surplusCalls (w d).programOwner d stablecoinProgramId accrual.accruedFees ++
            [mintCall (w d).programOwner d u amount] := by
  refine and_congr_right fun hn => ?_
  simp only [List.map_cons, List.map_nil, main, generateDebt, bind_eq_ok, ensure_eq_ok,
    exists_const, pure_eq_ok, expect_eq_ok, tryFrom_holding, decodePosition_eq_ok,
    decodeProtocolParameters_eq_ok, decodeStabilityFeeAccumulator_eq_ok,
    decodeRedemptionPriceState_eq_ok, readClock_eq_ok, surplusMintCall_eq_ok, checkedAdd_eq_some,
    Prod.mk.injEq]
  simp only [view_account, view_isAuthorized, view_accountId]
  constructor
  · rintro ⟨diffs, ⟨hauth, data, ⟨-, hx, hder, hown⟩, params, ⟨-, rfl, hp⟩, hfrozen, accumulator,
      ⟨-, rfl, hacc⟩, redemption, ⟨-, rfl, hr⟩, now, ⟨rfl, hclock⟩, hd, hdd, -, hprogram, held, hheld,
      htoken, accrual, haccrue, call, ⟨-, -, rfl, hmd, hm, hcalls⟩, delta, hdelta, debt, hdebt,
      total, htotal, hprice, _, hcol, rfl, rfl⟩, ha⟩
    simp only [applyDiffs_unchanged, applyDiffs_new, view_accountId, applyDiffs_nil,
      Except.ok.injEq] at ha
    obtain ⟨-, -, rfl⟩ := ha
    exact ⟨⟨rfl, rfl, rfl, rfl, rfl⟩, data, params, accumulator, redemption, now, accrual, delta,
      debt, total, ⟨⟨hauth, hx, hder, hown⟩, ⟨hp, hacc, hclock, haccrue, hd, hm⟩, hdd, hmd, hprogram,
        held, hheld, htoken⟩, hfrozen, hr, hdelta, hdebt, htotal, hprice, hcol, rfl,
      by rw [hcalls]; rfl⟩
  · rintro ⟨⟨rfl, rfl, rfl, rfl, rfl⟩, data, params, accumulator, redemption, now, accrual, delta,
      debt, total, ⟨⟨hauth, hx, hder, hown⟩, ⟨hp, hacc, hclock, haccrue, hd, hm⟩, hdd, hmd, hprogram,
        held, hheld, htoken⟩, hfrozen, hr, hdelta, hdebt, htotal, hprice, hcol, rfl, rfl⟩
    obtain ⟨call, hcall⟩ := surplusCalls_option (w d).programOwner d stablecoinProgramId
      accrual.accruedFees
    have hne : accumulatorId ≠ x := by
      rintro rfl
      cases hx.2.symm.trans hacc.2
    refine ⟨_, ⟨hauth, data, ⟨Holds.ne_default _ _ _ hx Data.noConfusion, hx, hder, hown⟩, params,
      ⟨Holds.ne_default _ _ _ hp Data.noConfusion, rfl, hp⟩, hfrozen, accumulator,
      ⟨Holds.ne_default _ _ _ hacc Data.noConfusion, rfl, hacc⟩, redemption,
      ⟨Holds.ne_default _ _ _ hr Data.noConfusion, rfl, hr⟩, now, ⟨rfl, hclock⟩, hd, hdd,
      Token.data_ne_default _ (by rw [hheld]; exact Data.noConfusion), hprogram, held, hheld,
      htoken, accrual, haccrue, call, ⟨hd, hdd, rfl, hmd, hm, hcall⟩, delta, hdelta, debt, hdebt,
      total, htotal, hprice, (), hcol, rfl, by rw [hcall]; rfl⟩, ?_⟩
    simp only [applyDiffs_unchanged, applyDiffs_new, view_accountId, applyDiffs_nil, and_true,
      put_other _ _ _ _ _ hne]
    exact ⟨Holds.mayWrite _ _ _ _ hx, Holds.mayWrite _ _ _ _ hacc⟩

theorem performs_withdraw (o x k u a r p c : AccountId) (amount : U128) :
    Performs w authority [o, x, k, u, a, r, p, c] (.withdrawCollateral amount) v calls ↔
      [o, x, k, u, a, r, p, c].Nodup ∧
        (k = vaultId x ∧ a = accumulatorId ∧ r = redemptionId ∧ p = parametersId ∧
          c = clock01ProgramAccountId) ∧
        ∃ data params accumulator redemption now, ∃ vaultHolding userHolding : Token.Holding,
          ∃ newCollateral : U128,
          PositionReads stablecoinProgramId w authority o x data ∧ data.vaultAccountId = k ∧
          Holds stablecoinProgramId (w parametersId) (.protocolParameters params) ∧
          params.isFrozen = false ∧
          Holds stablecoinProgramId (w accumulatorId) (.stabilityFeeAccumulator accumulator) ∧
          Holds stablecoinProgramId (w redemptionId) (.redemptionPriceState redemption) ∧
          (w clock01ProgramAccountId).data = .clock now ∧
          (w k).data = .tokenHolding vaultHolding ∧
          vaultHolding.definitionId = params.collateralDefinitionId ∧
          (w u).programOwner = (w k).programOwner ∧ (w u).data = .tokenHolding userHolding ∧
          userHolding.definitionId = params.collateralDefinitionId ∧
          newCollateral.val + amount.val = data.collateralAmount.val ∧
          assertWithdrawalIsCollateralized { data with collateralAmount := newCollateral }
            accumulator redemption params now amount = .ok () ∧
          v = put stablecoinProgramId w x
            (.position { data with collateralAmount := newCollateral }) ∧
          calls = [withdrawCall (w k).programOwner x k u amount] := by
  refine and_congr_right fun _ => ?_
  simp only [List.map_cons, List.map_nil, main, withdrawCollateral, bind_eq_ok, ensure_eq_ok,
    exists_const, pure_eq_ok, expect_eq_ok, tryFrom_holding, decodePosition_eq_ok,
    decodeProtocolParameters_eq_ok, decodeStabilityFeeAccumulator_eq_ok,
    decodeRedemptionPriceState_eq_ok, readClock_eq_ok, verifyPositionVaultAndGetSeed_eq_ok,
    checkedSub_eq_some, Prod.mk.injEq]
  simp only [view_account, view_isAuthorized, view_accountId]
  constructor
  · rintro ⟨diffs, ⟨params, ⟨-, rfl, hp⟩, hfrozen, accumulator, ⟨-, rfl, hacc⟩, redemption,
      ⟨-, rfl, hr⟩, now, ⟨rfl, hclock⟩, hauth, data, ⟨-, hx, hder, hown⟩, _, ⟨hk, rfl⟩, hdata, held,
      hheld, htoken, -, hprogram, user, huser, hut, newCollateral, hrest, _, hcol, rfl, rfl⟩, ha⟩
    simp only [applyDiffs_unchanged, applyDiffs_new, view_accountId, applyDiffs_nil,
      Except.ok.injEq] at ha
    obtain ⟨-, rfl⟩ := ha
    exact ⟨⟨hk, rfl, rfl, rfl, rfl⟩, data, params, accumulator, redemption, now, held, user,
      newCollateral, ⟨hauth, hx, hder, hown⟩, hdata, hp, hfrozen, hacc, hr, hclock, hheld, htoken,
      hprogram, huser, hut, hrest, hcol, rfl, rfl⟩
  · rintro ⟨⟨hk, rfl, rfl, rfl, rfl⟩, data, params, accumulator, redemption, now, held, user,
      newCollateral, ⟨hauth, hx, hder, hown⟩, hdata, hp, hfrozen, hacc, hr, hclock, hheld, htoken,
      hprogram, huser, hut, hrest, hcol, rfl, rfl⟩
    refine ⟨_, ⟨params, ⟨Holds.ne_default _ _ _ hp Data.noConfusion, rfl, hp⟩, hfrozen, accumulator,
      ⟨Holds.ne_default _ _ _ hacc Data.noConfusion, rfl, hacc⟩, redemption,
      ⟨Holds.ne_default _ _ _ hr Data.noConfusion, rfl, hr⟩, now, ⟨rfl, hclock⟩, hauth, data,
      ⟨Holds.ne_default _ _ _ hx Data.noConfusion, hx, hder, hown⟩, _, ⟨hk, rfl⟩, hdata, held, hheld,
      htoken, Token.data_ne_default _ (by rw [huser]; exact Data.noConfusion), hprogram, user,
      huser, hut, newCollateral, hrest, (), hcol, rfl, rfl⟩, ?_⟩
    simp only [applyDiffs_unchanged, applyDiffs_new, view_accountId, applyDiffs_nil, and_true]
    exact Holds.mayWrite _ _ _ _ hx

theorem performs_open (o x k u c p t : AccountId) (nonce : U64) (amount : U128) :
    Performs w authority [o, x, k, u, c, p, t] (.openPosition nonce amount) v calls ↔
      [o, x, k, u, c, p, t].Nodup ∧
        (x = computePositionPda stablecoinProgramId o nonce ∧ k = vaultId x ∧ p = parametersId ∧
          t = clock01ProgramAccountId) ∧
        o ∈ authority ∧ u ∈ authority ∧ w x = default ∧ w k = default ∧
        ∃ params now, ∃ holding : Token.Holding,
          Holds stablecoinProgramId (w parametersId) (.protocolParameters params) ∧
          params.isFrozen = false ∧ c = params.collateralDefinitionId ∧
          (w clock01ProgramAccountId).data = .clock now ∧ (w u).data = .tokenHolding holding ∧
          holding.definitionId = c ∧ (w c).programOwner = (w u).programOwner ∧
          v = put stablecoinProgramId w x (.position ⟨o, nonce, k, amount, zero 128, now⟩) ∧
          calls = [initializeVaultCall (w u).programOwner c x k,
            depositCall (w u).programOwner u k amount] := by
  refine and_congr_right fun _ => ?_
  simp only [List.map_cons, List.map_nil, main, openPosition, bind_eq_ok, ensure_eq_ok,
    exists_const, pure_eq_ok, expect_eq_ok, tryFrom_holding, decodeProtocolParameters_eq_ok,
    verifyPositionAndGetSeed_eq_ok, verifyPositionVaultAndGetSeed_eq_ok, readClock_eq_ok,
    Prod.mk.injEq]
  simp only [view_account, view_isAuthorized, view_accountId]
  constructor
  · rintro ⟨diffs, ⟨hauth, huser, hx, hk, params, ⟨-, rfl, hp⟩, hfrozen, hc, now, ⟨rfl, hclock⟩,
      holding, hholding, hsame, hprogram, _, ⟨hxo, -⟩, _, ⟨hkx, rfl⟩, rfl, rfl⟩, ha⟩
    simp only [applyDiffs_unchanged, applyDiffs_new, view_accountId, applyDiffs_nil,
      Except.ok.injEq] at ha
    obtain ⟨-, rfl⟩ := ha
    exact ⟨⟨hxo, hkx, rfl, rfl⟩, hauth, huser, hx, hk, params, now, holding, hp, hfrozen, hc, hclock,
      hholding, hsame, hprogram, rfl, rfl⟩
  · rintro ⟨⟨hxo, hkx, rfl, rfl⟩, hauth, huser, hx, hk, params, now, holding, hp, hfrozen, hc, hclock,
      hholding, hsame, hprogram, rfl, rfl⟩
    refine ⟨_, ⟨hauth, huser, hx, hk, params, ⟨Holds.ne_default _ _ _ hp Data.noConfusion, rfl, hp⟩,
      hfrozen, hc, now, ⟨rfl, hclock⟩, holding, hholding, hsame, hprogram, _, ⟨hxo, rfl⟩, _,
      ⟨hkx, rfl⟩, rfl, rfl⟩, ?_⟩
    simp only [applyDiffs_unchanged, applyDiffs_new, view_accountId, applyDiffs_nil, and_true]
    exact Or.inr (Or.inr (by rw [hx]; rfl))

theorem assertOracleQuotes_eq_ok (o baseAsset quoteAsset : AccountId)
    (decodeText baseText quoteText : String) (u : Unit) :
    assertOracleQuotes (view w authority o) baseAsset quoteAsset decodeText baseText quoteText
        = .ok u ↔
      w o = default ∨ ∃ value, (w o).data = .oraclePrice value ∧ value.baseAsset = baseAsset ∧
        value.quoteAsset = quoteAsset := by
  simp only [assertOracleQuotes, ite_eq_ok, bind_eq_ok, expect_eq_ok, tryFrom_oraclePrice,
    ensure_eq_ok, exists_const, pure_eq_ok]
  simp only [view_account, and_true]
  constructor
  · rintro (h | ⟨-, value, h⟩)
    · exact Or.inl h
    · exact Or.inr ⟨value, h⟩
  · rintro (h | ⟨value, h1, h2⟩)
    · exact Or.inl h
    · refine Or.inr ⟨?_, value, h1, h2⟩
      intro hd
      rw [hd] at h1
      cases h1

theorem performs_initializeProgram (i p a r d m c o t : AccountId)
    (params : InitializeProgramParams) :
    Performs w authority [i, p, a, r, d, m, c, o, t] (.initializeProgram params) v calls ↔
      [i, p, a, r, d, m, c, o, t].Nodup ∧
        (p = parametersId ∧ a = accumulatorId ∧ r = redemptionId ∧ d = definitionId ∧
          m = masterId ∧ t = clock01ProgramAccountId) ∧
        i ∈ authority ∧ (w p = default ∧ w a = default ∧ w r = default ∧ w d = default ∧
          w m = default) ∧
        ∃ now, ∃ collateral : Token.Definition,
          (w clock01ProgramAccountId).data = .clock now ∧
          (w c).data = .tokenDefinition collateral ∧ collateral.isFungible ∧
          (w o = default ∨ ∃ value, (w o).data = .oraclePrice value ∧
            value.baseAsset = d ∧ value.quoteAsset = c) ∧
          assertParametersInBand params = .ok () ∧
          v = put stablecoinProgramId (put stablecoinProgramId (put stablecoinProgramId w p
            (.protocolParameters (initialParameters params i d c o))) a
            (.stabilityFeeAccumulator ⟨fixedPointOne, now, zero 128⟩)) r
            (.redemptionPriceState
              ⟨params.initialRedemptionPrice, fixedPointOne, ⟨0, zero_mem_i128⟩, now⟩) ∧
          calls = [newStablecoinCall (w c).programOwner d m params.stablecoinName] := by
  refine and_congr_right fun hn => ?_
  simp only [List.map_cons, List.map_nil, main, initializeProgram, bind_eq_ok, ensure_eq_ok,
    exists_const, pure_eq_ok, expect_eq_ok, tryFrom_definition, readClock_eq_ok,
    assertOracleQuotes_eq_ok, Prod.mk.injEq]
  simp only [view_account, view_isAuthorized, view_accountId]
  constructor
  · rintro ⟨diffs, ⟨hauth, hp, hacc, hr, hd, hm, rfl, rfl, rfl, rfl, rfl, now, ⟨rfl, hclock⟩, -,
      collateral, hcollateral, hfungible, horacle, _, hbands, rfl, rfl⟩, ha⟩
    simp only [applyDiffs_unchanged, applyDiffs_new, view_accountId, applyDiffs_nil,
      Except.ok.injEq] at ha
    obtain ⟨-, -, -, rfl⟩ := ha
    exact ⟨⟨rfl, rfl, rfl, rfl, rfl, rfl⟩, hauth, ⟨hp, hacc, hr, hd, hm⟩, now, collateral, hclock,
      hcollateral, hfungible, horacle, hbands, rfl, rfl⟩
  · rintro ⟨⟨rfl, rfl, rfl, rfl, rfl, rfl⟩, hauth, ⟨hp, hacc, hr, hd, hm⟩, now, collateral, hclock,
      hcollateral, hfungible, horacle, hbands, rfl, rfl⟩
    refine ⟨_, ⟨hauth, hp, hacc, hr, hd, hm, rfl, rfl, rfl, rfl, rfl, now, ⟨rfl, hclock⟩,
      Token.data_ne_default _ (by rw [hcollateral]; exact Data.noConfusion), collateral, hcollateral,
      hfungible, horacle, (), hbands, rfl, rfl⟩, ?_⟩
    have hap : accumulatorId ≠ parametersId := by decide
    have hrp : redemptionId ≠ parametersId := by decide
    have hra : redemptionId ≠ accumulatorId := by decide
    simp only [applyDiffs_unchanged, applyDiffs_new, view_accountId, applyDiffs_nil,
      put_other _ _ _ _ _ hap, put_other _ _ _ _ _ hrp, put_other _ _ _ _ _ hra]
    exact ⟨Or.inr (Or.inr (by rw [hp]; rfl)), Or.inr (Or.inr (by rw [hacc]; rfl)),
      Or.inr (Or.inr (by rw [hr]; rfl)), rfl⟩

end

end LezPrograms.Stablecoin
