import LezPrograms.Stablecoin.Founding

/-! # The combined poke and its two halves

`refreshGlobals` accrues the fee and updates the redemption rate in one call.
Where the strict rate update would reject the oracle or the call, the combined
poke skips that half and does the rest. -/

set_option autoImplicit false

namespace LezPrograms.Stablecoin
open LezPrograms.Checked LezPrograms.Lee LezPrograms.Token
open LezPrograms.Stablecoin.Math LezPrograms.Stablecoin.Controller

def rejections : List String :=
  ["Market price oracle account must be initialized",
    "Market price oracle must be an OraclePriceAccount quoting the stablecoin in collateral",
    "Market price oracle observation is stale",
    "Market price oracle reports zero price",
    "update_redemption_rate called too soon since last update"]

section
variable (m : String) (hm : m ∈ rejections)
include hm

theorem not_rejection (text : String) (ht : text ∉ rejections) : text ≠ m := by
  rintro rfl
  exact ht hm

theorem expect_blames {α : Type} (value : Option α) (text : String) (ht : text ∉ rejections) :
    expect value text ≠ .error m := by
  rw [ne_eq, expect_eq_error]
  exact fun h => not_rejection m hm text ht h.2

theorem ensure_blames (p : Prop) [Decidable p] (text : String) (ht : text ∉ rejections) :
    ensure p text ≠ .error m := by
  rw [ne_eq, ensure_eq_error]
  exact fun h => not_rejection m hm text ht h.2

/-- The controller blames its own arithmetic only. -/
theorem advanceRedemptionPrice_blames (params : ProtocolParameters)
    (redemption : RedemptionPriceState) (price : U128) (now : U64) :
    advanceRedemptionPrice params redemption price now ≠ .error m := by
  intro h
  simp only [advanceRedemptionPrice, runControllerTick, bind_eq_error, pure_eq_error] at h
  rcases h with (h | ⟨_, -, h | ⟨_, -, h | ⟨_, -, h | ⟨_, -, h | ⟨_, -, h | ⟨_, -, h⟩⟩⟩⟩⟩⟩) |
    ⟨_, -, h⟩
  all_goals first
    | exact h
    | exact expect_blames m hm _ _ (by decide) h

end

section
variable (w : Accounts) (authority : List AccountId)

theorem readOracle_bound (o : AccountId) (params : ProtocolParameters)
    (ho : o = params.marketPriceOracleId) :
    ∃ reading, readOracle (view w [] o) params = .ok reading := by
  simp only [readOracle, bind_eq_ok, ensure_eq_ok, exists_const, ite_eq_ok, pure_eq_ok]
  simp only [view_account, view_accountId]
  by_cases hd : w o = default
  · exact ⟨none, ho, Or.inl ⟨hd, rfl⟩⟩
  · exact ⟨_, ho, Or.inr ⟨hd, rfl⟩⟩

theorem usablePrice_eq_some (params : ProtocolParameters) (redemption : RedemptionPriceState)
    (reading : Option TwapOracle.OraclePriceAccount) (now : U64) (price : U128) :
    usablePrice params redemption reading now = some price ↔
      ∃ oracle, reading = some oracle ∧ oracle.price = price ∧
        (now.saturatingSub oracle.timestamp).val ≤ params.maximumOraclePriceAgeMilliseconds.val ∧
        0 < oracle.price.val ∧ params.minimumMillisecondsBetweenRateUpdates.val
          ≤ (now.saturatingSub redemption.lastUpdatedAt).val := by
  by_cases hdue : params.minimumMillisecondsBetweenRateUpdates.val
      ≤ (now.saturatingSub redemption.lastUpdatedAt).val
  · simp only [usablePrice, hdue, if_true, Option.map_eq_some_iff, Option.filter_eq_some_iff,
      decide_eq_true_eq, and_true]
    constructor
    · rintro ⟨oracle, ⟨h1, h2, h3⟩, h4⟩
      exact ⟨oracle, h1, h4, h2, h3⟩
    · rintro ⟨oracle, h1, h4, h2, h3⟩
      exact ⟨oracle, ⟨h1, h2, h3⟩, h4⟩
  · simp only [usablePrice, hdue, if_false, reduceCtorEq, and_false, exists_false]

structure RateReads (p : AccountId) (params : ProtocolParameters)
    (redemption : RedemptionPriceState) (now : U64) : Prop where
  parameters : Holds stablecoinProgramId (w p) (.protocolParameters params)
  redemption : Holds stablecoinProgramId (w redemptionId) (.redemptionPriceState redemption)
  clock : (w clock01ProgramAccountId).data = .clock now

theorem updateRedemptionRate_rejects (i p o : AccountId) (params : ProtocolParameters)
    (redemption : RedemptionPriceState) (now : U64) (reads : RateReads w p params redemption now)
    (reading : Option TwapOracle.OraclePriceAccount)
    (hreading : readOracle (view w [] o) params = .ok reading) (hi : i ∈ authority) :
    (∃ m ∈ rejections, updateRedemptionRate (view w authority i) (view w authority p)
      (view w authority redemptionId) (view w authority o)
      (view w authority clock01ProgramAccountId) stablecoinProgramId = .error m) ↔
      usablePrice params redemption reading now = none := by
  have hdecode : decodeRedemptionInputs (view w authority p) (view w authority redemptionId)
      stablecoinProgramId = .ok (params, redemption) :=
    (decodeRedemptionInputs_eq_ok _ _ _ _ _).mpr
      ⟨⟨Holds.ne_default _ _ _ reads.parameters Data.noConfusion, reads.parameters⟩,
        Holds.ne_default _ _ _ reads.redemption Data.noConfusion, rfl, reads.redemption⟩
  have hclock : readClock (view w authority clock01ProgramAccountId) = .ok now :=
    (readClock_eq_ok _ _).mpr ⟨rfl, reads.clock⟩
  have hread : readOracle (view w authority o) params = .ok reading := hreading
  simp only [updateRedemptionRate, bind_eq_error, hdecode, hclock, hread, Except.ok.injEq,
    exists_eq_left', reduceCtorEq, false_or, ensure_eq_error, ensure_eq_ok, exists_const,
    expect_eq_error, expect_eq_ok, pure_eq_error, and_false, exists_false, or_false,
    view_isAuthorized, view_account, hi, not_true_eq_false, false_and, true_and]
  constructor
  · rintro ⟨m, hm, h⟩
    rw [Option.eq_none_iff_forall_ne_some]
    intro price hprice
    obtain ⟨oracle, rfl, -, hfresh, hpos, hdue⟩ := (usablePrice_eq_some _ _ _ _ _).mp hprice
    have hdefault := readOracle_some_ne_default _ _ _ hreading
    rcases h with h | ⟨_, -, ⟨h, -⟩ | ⟨oracle', he, h⟩⟩
    · exact ((ensure_eq_error _ _ _).mp h).1 hdefault
    · cases h
    · obtain rfl := Option.some.inj he
      rcases h with ⟨h, -⟩ | ⟨-, ⟨h, -⟩ | ⟨-, ⟨h, -⟩ | ⟨-, h⟩⟩⟩
      · exact h hfresh
      · exact h hpos
      · exact h hdue
      · exact advanceRedemptionPrice_blames m hm _ _ _ _ h
  · intro hnone
    by_cases hdefault : w o = default
    · exact ⟨_, by decide, Or.inl ((ensure_eq_error _ _ _).mpr ⟨not_not_intro hdefault, rfl⟩)⟩
    have hpresent := ensure_pos (w o ≠ default) "Market price oracle account must be initialized"
      hdefault
    cases reading with
    | none => exact ⟨_, by decide, Or.inr ⟨_, hpresent, Or.inl ⟨rfl, rfl⟩⟩⟩
    | some oracle =>
      by_cases hfresh : (now.saturatingSub oracle.timestamp).val
          ≤ params.maximumOraclePriceAgeMilliseconds.val
      · by_cases hpos : 0 < oracle.price.val
        · have hdue : ¬params.minimumMillisecondsBetweenRateUpdates.val
              ≤ (now.saturatingSub redemption.lastUpdatedAt).val := fun hdue => by
            have hsome := (usablePrice_eq_some params redemption (some oracle) now _).mpr
              ⟨oracle, rfl, rfl, hfresh, hpos, hdue⟩
            rw [hnone] at hsome
            cases hsome
          exact ⟨_, by decide, Or.inr ⟨_, hpresent, Or.inr ⟨_, rfl, Or.inr ⟨hfresh,
            Or.inr ⟨hpos, Or.inl ⟨hdue, rfl⟩⟩⟩⟩⟩⟩
        · exact ⟨_, by decide, Or.inr ⟨_, hpresent, Or.inr ⟨_, rfl, Or.inr ⟨hfresh,
            Or.inl ⟨hpos, rfl⟩⟩⟩⟩⟩
      · exact ⟨_, by decide, Or.inr ⟨_, hpresent, Or.inr ⟨_, rfl, Or.inl ⟨hfresh, rfl⟩⟩⟩⟩

end

def accrueCall (caller parameters definition : AccountId) : ChainedCall :=
  .new stablecoinProgramId [caller, parameters, accumulatorId, definition, masterId,
    clock01ProgramAccountId] (.stablecoin .accrueStabilityFee)

def updateCall (caller parameters oracle : AccountId) : ChainedCall :=
  .new stablecoinProgramId [caller, parameters, redemptionId, oracle, clock01ProgramAccountId]
    (.stablecoin .updateRedemptionRate)

def refreshCall (caller parameters definition oracle : AccountId) : ChainedCall :=
  .new stablecoinProgramId [caller, parameters, accumulatorId, definition, masterId, redemptionId,
    oracle, clock01ProgramAccountId] (.stablecoin .refreshGlobals)

structure Accruing (w : Accounts) (authority : List AccountId) (i p d : AccountId)
    (params : ProtocolParameters) (accumulator : StabilityFeeAccumulator) (now : U64)
    (accrual : FeeAccrual) : Prop where
  distinct : [i, p, accumulatorId, d, masterId, clock01ProgramAccountId].Nodup
  authorized : i ∈ authority
  definition : w d ≠ default
  master : w masterId ≠ default
  reads : AccrualReads stablecoinProgramId w p d params accumulator now accrual

structure Updating (w : Accounts) (authority : List AccountId) (i p o : AccountId)
    (params : ProtocolParameters) (redemption : RedemptionPriceState) (now : U64)
    (oracle : TwapOracle.OraclePriceAccount) (redemption' : RedemptionPriceState) : Prop where
  distinct : [i, p, redemptionId, o, clock01ProgramAccountId].Nodup
  authorized : i ∈ authority
  reads : RateReads w p params redemption now
  quoted : Quoted w o params redemption now oracle
  computed : advanceRedemptionPrice params redemption oracle.price now = .ok redemption'

section
variable (platform : Platform) (w w' : Accounts) (authority : List AccountId) (i p d o : AccountId)

/-- A fee accrual writes the accumulator and then mints the surplus. -/
theorem accrue_eq_ok : transact platform w authority (accrueCall i p d) = .ok w' ↔
    Granted authority ∧ ∃ depth params accumulator now accrual, platform.callDepth = depth + 1 ∧
      Accruing w authority i p d params accumulator now accrual ∧
      settle platform.tickMath depth stablecoinProgramId authority
        (put stablecoinProgramId w accumulatorId (.stabilityFeeAccumulator accrual.accumulator))
        (surplusCalls (w d).programOwner d stablecoinProgramId accrual.accruedFees) = .ok w' := by
  rw [transact_eq_ok platform w w' authority _ _ rfl]
  refine and_congr_right fun _ => ?_
  constructor
  · rintro ⟨-, depth, v, calls, hd, hperf, hs⟩
    obtain ⟨hn, -, hi, hdd, hmd, params, accumulator, now, accrual, reads, rfl, rfl⟩ :=
      (performs_accrue w v authority calls i p _ d _ _).mp hperf
    exact ⟨depth, params, accumulator, now, accrual, hd, ⟨hn, hi, hdd, hmd, reads⟩, hs⟩
  · rintro ⟨depth, params, accumulator, now, accrual, hd, ⟨hn, hi, hdd, hmd, reads⟩, hs⟩
    exact ⟨rfl, depth, _, _, hd, (performs_accrue w _ authority _ i p _ d _ _).mpr
      ⟨hn, ⟨rfl, rfl, rfl⟩, hi, hdd, hmd, params, accumulator, now, accrual, reads, rfl, rfl⟩, hs⟩

/-- A rate update writes the redemption state and nothing else. -/
theorem update_eq_ok : transact platform w authority (updateCall i p o) = .ok w' ↔
    Granted authority ∧ ∃ depth params redemption now oracle redemption',
      platform.callDepth = depth + 1 ∧
      Updating w authority i p o params redemption now oracle redemption' ∧
      w' = put stablecoinProgramId w redemptionId (.redemptionPriceState redemption') := by
  rw [transact_eq_ok platform w w' authority _ _ rfl]
  refine and_congr_right fun _ => ?_
  constructor
  · rintro ⟨-, depth, v, calls, hd, hperf, hs⟩
    obtain ⟨hn, -, hi, params, redemption, now, oracle, redemption', hp, hr, hc, hq, hadv, rfl,
      rfl⟩ := (performs_update w v authority calls i p _ o _).mp hperf
    rw [settle, List.foldlM_nil, pure_eq_ok] at hs
    exact ⟨depth, params, redemption, now, oracle, redemption', hd, ⟨hn, hi, ⟨hp, hr, hc⟩, hq, hadv⟩,
      hs.symm⟩
  · rintro ⟨depth, params, redemption, now, oracle, redemption', hd, ⟨hn, hi, ⟨hp, hr, hc⟩, hq,
      hadv⟩, rfl⟩
    exact ⟨rfl, depth, _, [], hd, (performs_update w _ authority _ i p _ o _).mpr
      ⟨hn, ⟨rfl, rfl⟩, hi, params, redemption, now, oracle, redemption', hp, hr, hc, hq, hadv, rfl,
        rfl⟩, rfl⟩

/-- A combined poke does what an accrual does, and the rate update where there is a usable price. -/
theorem refresh_eq_ok : transact platform w authority (refreshCall i p d o) = .ok w' ↔
    Granted authority ∧ ∃ depth params accumulator now accrual redemption reading v,
      platform.callDepth = depth + 1 ∧
      [i, p, accumulatorId, d, masterId, redemptionId, o, clock01ProgramAccountId].Nodup ∧
      Accruing w authority i p d params accumulator now accrual ∧
      RateReads w p params redemption now ∧
      readOracle (view w [] o) params = .ok reading ∧
      Refreshed params redemption reading now (put stablecoinProgramId w accumulatorId
        (.stabilityFeeAccumulator accrual.accumulator)) v ∧
      settle platform.tickMath depth stablecoinProgramId authority v
        (surplusCalls (w d).programOwner d stablecoinProgramId accrual.accruedFees) = .ok w' := by
  rw [transact_eq_ok platform w w' authority _ _ rfl]
  refine and_congr_right fun _ => ?_
  constructor
  · rintro ⟨-, depth, v, calls, hd, hperf, hs⟩
    obtain ⟨hn, -, hi, hdd, hmd, params, accumulator, now, accrual, redemption, reading, reads, hr,
      hreading, href, rfl⟩ := (performs_refresh w v authority calls i p _ d _ _ o _).mp hperf
    refine ⟨depth, params, accumulator, now, accrual, redemption, reading, v, hd, hn,
      ⟨hn.sublist ?_, hi, hdd, hmd, reads⟩, ⟨reads.parameters, hr, reads.clock⟩, hreading, href, hs⟩
    exact .cons_cons _ (.cons_cons _ (.cons_cons _ (.cons_cons _ (.cons_cons _
      (.cons _ (.cons _ (.refl _)))))))
  · rintro ⟨depth, params, accumulator, now, accrual, redemption, reading, v, hd, hn,
      ⟨-, hi, hdd, hmd, reads⟩, hr, hreading, href, hs⟩
    exact ⟨rfl, depth, v, _, hd, (performs_refresh w v authority _ i p _ d _ _ o _).mpr
      ⟨hn, ⟨rfl, rfl, rfl, rfl⟩, hi, hdd, hmd, params, accumulator, now, accrual, redemption, reading,
        reads, hr.redemption, hreading, href, rfl⟩, hs⟩

theorem updateRedemptionRate_calls (caller parameters redemption oracle clock : InputAccount)
    (diffs : List StateDiff) (calls : List ChainedCall)
    (h : updateRedemptionRate caller parameters redemption oracle clock stablecoinProgramId
      = .ok (diffs, calls)) : calls = [] := by
  simp only [updateRedemptionRate, bind_eq_ok, pure_eq_ok, Prod.exists, Prod.mk.injEq] at h
  obtain ⟨_, -, _, _, -, _, -, _, -, _, -, _, -, _, -, _, -, _, -, _, -, -, rfl⟩ := h
  rfl

/-- The runtime does not blame the oracle. -/
theorem update_rejects (hg : Granted authority) (depth : ℕ) (hd : platform.callDepth = depth + 1) :
    (∃ m ∈ rejections, transact platform w authority (updateCall i p o) = .error m) ↔
      [i, p, redemptionId, o, clock01ProgramAccountId].Nodup ∧
        ∃ m ∈ rejections, updateRedemptionRate (view w authority i) (view w authority p)
          (view w authority redemptionId) (view w authority o)
          (view w authority clock01ProgramAccountId) stablecoinProgramId = .error m := by
  constructor
  · rintro ⟨m, hm, h⟩
    rw [transact, bind_eq_error] at h
    rcases h with h | ⟨_, -, h⟩
    · exact absurd hg ((ensure_eq_error _ _ _).mp h).1
    rw [hd] at h
    rcases (invoke_eq_error _ _ _ _ _ _ rfl rfl _).mp h with h | ⟨hn, h | ⟨diffs, calls, hh, h⟩⟩
    · exact absurd h (ensure_blames m hm _ _ (by decide))
    · exact ⟨hn, m, hm, h⟩
    · rcases h with h | ⟨v, -, h⟩
      · exact absurd (applyDiffs_eq_error _ _ _ _ h).symm (not_rejection m hm _ (by decide))
      · rw [updateRedemptionRate_calls _ _ _ _ _ _ _ hh, settle, List.foldlM_nil,
          pure_eq_error] at h
        exact h.elim
  · rintro ⟨hn, m, hm, h⟩
    refine ⟨m, hm, ?_⟩
    rw [transact, bind_eq_error, hd]
    exact Or.inr ⟨(), ensure_pos _ _ hg,
      (invoke_eq_error _ _ _ _ (updateCall i p o) .updateRedemptionRate rfl rfl _).mpr
        (Or.inr ⟨hn, Or.inl h⟩)⟩

end

section
variable (w u : Accounts) (authority : List AccountId) (i p d o : AccountId)
  (params : ProtocolParameters) (now : U64)

theorem RateReads.agree (redemption : RedemptionPriceState)
    (h : RateReads w p params redemption now)
    (hu : AgreeOn [p, redemptionId, o, clock01ProgramAccountId] w u) :
    RateReads u p params redemption now :=
  ⟨by rw [hu p (by simp)]; exact h.parameters, by rw [hu redemptionId (by simp)]; exact h.redemption,
    by rw [hu clock01ProgramAccountId (by simp)]; exact h.clock⟩

theorem view_agree (hu : AgreeOn [p, redemptionId, o, clock01ProgramAccountId] w u) :
    view u [] o = view w [] o := by
  rw [view, view, hu o (by simp)]

theorem Updating.agree (redemption redemption' : RedemptionPriceState)
    (oracle : TwapOracle.OraclePriceAccount)
    (h : Updating w authority i p o params redemption now oracle redemption')
    (hu : AgreeOn [p, redemptionId, o, clock01ProgramAccountId] w u) :
    Updating u authority i p o params redemption now oracle redemption' :=
  ⟨h.distinct, h.authorized, h.reads.agree w u p o params now redemption hu,
    ⟨by rw [view_agree w u p o hu]; exact h.quoted.reading, h.quoted.fresh, h.quoted.positive,
      h.quoted.due⟩, h.computed⟩

theorem Accruing.agree (accumulator : StabilityFeeAccumulator) (accrual : FeeAccrual)
    (h : Accruing w authority i p d params accumulator now accrual)
    (hu : AgreeOn [p, accumulatorId, d, masterId, clock01ProgramAccountId] w u) :
    Accruing u authority i p d params accumulator now accrual := by
  have hd : u d = w d := hu d (by simp)
  have hm : u masterId = w masterId := hu masterId (by simp)
  refine ⟨h.distinct, h.authorized, hd ▸ h.definition, hm ▸ h.master, ?_, ?_, ?_, h.reads.computed,
    h.reads.definition, ?_⟩
  · rw [hu p (by simp)]
    exact h.reads.parameters
  · rw [hu accumulatorId (by simp)]
    exact h.reads.accumulates
  · rw [hu clock01ProgramAccountId (by simp)]
    exact h.reads.clock
  · rw [hm, hd]
    exact h.reads.master

/-- An accrual changes the accumulator, the definition and the master holding only. -/
theorem accrued_elsewhere (tickMath : TwapOracle.TickMath) (depth : ℕ) (tokenProgram : AccountId)
    (accumulator : StabilityFeeAccumulator) (fees : U128)
    (h : settle tickMath depth stablecoinProgramId authority
      (put stablecoinProgramId w accumulatorId (.stabilityFeeAccumulator accumulator))
      (surplusCalls tokenProgram d stablecoinProgramId fees) = .ok u)
    (id : AccountId) (hid : id ∉ [accumulatorId, d, masterId]) : u id = w id := by
  simp only [List.mem_cons, List.not_mem_nil, or_false, not_or] at hid
  rw [(settle_local tickMath depth stablecoinProgramId authority [d, masterId] _ (surplus_local _ _ _)
    _ _ u (fun _ _ => rfl) h).2 id (by simp [hid]), put_other _ _ _ _ _ hid.1]

end

theorem refresh_distinct (i p d o : AccountId)
    (haccrue : [i, p, accumulatorId, d, masterId, clock01ProgramAccountId].Nodup)
    (hupdate : [i, p, redemptionId, o, clock01ProgramAccountId].Nodup)
    (hapart : ∀ id ∈ [p, redemptionId, o, clock01ProgramAccountId],
      id ∉ [accumulatorId, d, masterId]) :
    [i, p, accumulatorId, d, masterId, redemptionId, o, clock01ProgramAccountId].Nodup := by
  have hr := hapart redemptionId (by simp)
  have ho := hapart o (by simp)
  simp only [List.nodup_cons, List.mem_cons, List.not_mem_nil, or_false, not_or, not_false_eq_true,
    List.nodup_nil, and_true] at haccrue hupdate hr ho ⊢
  grind

theorem RateReads.unique (w : Accounts) (authority : List AccountId) (i p d : AccountId)
    (params params' : ProtocolParameters) (redemption : RedemptionPriceState) (now now' : U64)
    (accumulator : StabilityFeeAccumulator) (accrual : FeeAccrual)
    (h : RateReads w p params' redemption now')
    (ha : Accruing w authority i p d params accumulator now accrual) :
    params' = params ∧ now' = now :=
  ⟨Data.protocolParameters.inj (h.parameters.2.symm.trans ha.reads.parameters.2),
    Data.clock.inj (h.clock.symm.trans ha.reads.clock)⟩

section
variable (platform : Platform) (w w' : Accounts) (authority : List AccountId) (i p d : AccountId)
  (params : ProtocolParameters) (h : Established w) (hp : storedParameters w = some params)
include h hp

/-- The accounts of a rate update are none of those that an accrual changes. -/
theorem Accruing.apart (params' : ProtocolParameters) (accumulator : StabilityFeeAccumulator)
    (now : U64) (accrual : FeeAccrual)
    (ha : Accruing w authority i p d params' accumulator now accrual) :
    params' = params ∧ ∀ id ∈ [p, redemptionId, params.marketPriceOracleId,
      clock01ProgramAccountId], id ∉ [accumulatorId, d, masterId] := by
  have hf := (h.2 params hp).oracle
  rcases h.1 with hu | ⟨s, hr, -⟩
  · exact (hu.not_holds w _ _ ha.reads.parameters).elim
  obtain ⟨rfl, rfl⟩ := hr.reads_parameters w s p params' ha.reads.parameters
  obtain rfl : s.parameters = params := by
    rw [hr.storedParameters] at hp
    exact Option.some.inj hp
  obtain rfl : d = definitionId := ha.reads.definition.trans hr.named
  refine ⟨rfl, ?_⟩
  intro id hid
  simp only [List.mem_cons, List.not_mem_nil, or_false] at hid
  rcases hid with rfl | rfl | rfl | rfl
  · decide
  · decide
  · simpa using hf
  · decide

theorem accrue_agrees (params' : ProtocolParameters) (accumulator : StabilityFeeAccumulator)
    (now : U64) (accrual : FeeAccrual)
    (ha : Accruing w authority i p d params' accumulator now accrual) (u : Accounts) (depth : ℕ)
    (hs : settle platform.tickMath depth stablecoinProgramId authority
      (put stablecoinProgramId w accumulatorId (.stabilityFeeAccumulator accrual.accumulator))
      (surplusCalls (w d).programOwner d stablecoinProgramId accrual.accruedFees) = .ok u) :
    AgreeOn [p, redemptionId, params.marketPriceOracleId, clock01ProgramAccountId] w u :=
  fun id hid => accrued_elsewhere w u authority d platform.tickMath depth _ _ _ hs id
    ((ha.apart w authority i p d params h hp _ _ _ _).2 id hid)

omit hp in
theorem storedRedemption_holds (hp : storedParameters w = some params) :
    ∃ redemption, Holds stablecoinProgramId (w redemptionId)
      (.redemptionPriceState redemption) := by
  rcases h.1 with hu | ⟨s, hr, -⟩
  · exact (hu.not_holds w _ _ ((storedParameters_eq_some w params).mp hp)).elim
  · exact ⟨s.redemption, (owned_eq_some _ _ _ _).mp hr.records.redemption⟩

/-- The combined poke is the accrual and then the rate update, or the accrual alone where the
rate update rejects. -/
theorem refresh_parts :
    transact platform w authority (refreshCall i p d params.marketPriceOracleId) = .ok w' ↔
      ∃ u, transact platform w authority (accrueCall i p d) = .ok u ∧
        (transact platform u authority (updateCall i p params.marketPriceOracleId) = .ok w' ∨
          (∃ m ∈ rejections, transact platform u authority
            (updateCall i p params.marketPriceOracleId) = .error m) ∧ w' = u) := by
  constructor
  · intro hrefresh
    obtain ⟨hg, depth, params', accumulator, now, accrual, redemption, reading, v, hd, hn, ha, hr,
      hreading, href, hs⟩ := (refresh_eq_ok platform w w' authority i p d _).mp hrefresh
    obtain ⟨rfl, hapart⟩ := ha.apart w authority i p d params h hp _ _ _ _
    have hn' : [i, p, redemptionId, params'.marketPriceOracleId, clock01ProgramAccountId].Nodup :=
      hn.sublist (.cons_cons _ (.cons_cons _ (.cons _ (.cons _ (.cons _ (.refl _))))))
    unfold Refreshed at href
    cases hu : usablePrice params' redemption reading now with
    | none =>
      simp only [hu] at href
      subst href
      have hagree := accrue_agrees platform w authority i p d params' h hp _ _ _ _ ha w' depth hs
      refine ⟨w', (accrue_eq_ok platform w w' authority i p d).mpr ⟨hg, depth, params', accumulator,
        now, accrual, hd, ha, hs⟩, Or.inr ⟨?_, rfl⟩⟩
      refine (update_rejects platform w' authority i p _ hg depth hd).mpr ⟨hn', ?_⟩
      refine (updateRedemptionRate_rejects w' authority i p _ params' redemption now
        (hr.agree w w' p _ params' now redemption hagree) reading ?_ ha.authorized).mpr hu
      rw [view_agree w w' p _ hagree, hreading]
    | some price =>
      simp only [hu] at href
      obtain ⟨redemption', hadv, rfl⟩ := href
      obtain ⟨u, hu', rfl⟩ := (settle_put platform.tickMath depth stablecoinProgramId authority
        [d, masterId] _ (surplus_local _ _ _) stablecoinProgramId _ w' redemptionId _
        (fun hm => hapart redemptionId (by simp) (List.mem_cons_of_mem _ hm))).mp hs
      have hagree := accrue_agrees platform w authority i p d params' h hp _ _ _ _ ha u depth hu'
      obtain ⟨oracle, rfl, rfl, hfresh, hpos, hdue⟩ := (usablePrice_eq_some _ _ _ _ _).mp hu
      refine ⟨u, (accrue_eq_ok platform w u authority i p d).mpr ⟨hg, depth, params', accumulator,
        now, accrual, hd, ha, hu'⟩, Or.inl ?_⟩
      exact (update_eq_ok platform u _ authority i p _).mpr ⟨hg, depth, params', redemption, now,
        oracle, redemption', hd, Updating.agree w u authority i p _ params' now redemption redemption'
          oracle ⟨hn', ha.authorized, hr, ⟨hreading, hfresh, hpos, hdue⟩, hadv⟩ hagree, rfl⟩
  · rintro ⟨u, haccrue, hrest⟩
    obtain ⟨hg, depth, params', accumulator, now, accrual, hd, ha, hs⟩ :=
      (accrue_eq_ok platform w u authority i p d).mp haccrue
    have hagree := accrue_agrees platform w authority i p d params h hp _ _ _ _ ha u depth hs
    obtain ⟨rfl, hapart⟩ := ha.apart w authority i p d params h hp _ _ _ _
    refine (refresh_eq_ok platform w w' authority i p d _).mpr ⟨hg, depth, params', accumulator, now,
      accrual, ?_⟩
    rcases hrest with hupdate | ⟨hreject, rfl⟩
    · obtain ⟨-, -, params, redemption, now', oracle, redemption', -, hup, rfl⟩ :=
        (update_eq_ok platform u w' authority i p _).mp hupdate
      have hup := hup.agree u w authority i p _ params now' redemption redemption' oracle
        fun id hid => (hagree id hid).symm
      obtain ⟨rfl, rfl⟩ := hup.reads.unique w authority i p d params' params redemption now now'
        accumulator accrual ha
      refine ⟨redemption, some oracle, put stablecoinProgramId (put stablecoinProgramId w
        accumulatorId (.stabilityFeeAccumulator accrual.accumulator)) redemptionId
        (.redemptionPriceState redemption'), hd, refresh_distinct i p d _ ha.distinct hup.distinct
          hapart, ha, hup.reads, hup.quoted.reading, ?_, ?_⟩
      · rw [Refreshed, (usablePrice_eq_some params redemption (some oracle) now' _).mpr
          ⟨oracle, rfl, rfl, hup.quoted.fresh, hup.quoted.positive, hup.quoted.due⟩]
        exact ⟨redemption', hup.computed, rfl⟩
      · exact (settle_put platform.tickMath depth stablecoinProgramId authority [d, masterId] _
          (surplus_local _ _ _) stablecoinProgramId _ _ redemptionId _
          (fun hm => hapart redemptionId (by simp) (List.mem_cons_of_mem _ hm))).mpr ⟨u, hs, rfl⟩
    · obtain ⟨hn, hreject⟩ := (update_rejects platform w' authority i p _ hg depth hd).mp hreject
      obtain ⟨redemption, hr⟩ := storedRedemption_holds w params' h hp
      have hreads : RateReads w p params' redemption now :=
        ⟨ha.reads.parameters, hr, ha.reads.clock⟩
      obtain ⟨reading, hreading⟩ := readOracle_bound w params'.marketPriceOracleId params' rfl
      have hnone := (updateRedemptionRate_rejects w' authority i p _ params' redemption now
        (hreads.agree w w' p _ params' now redemption hagree) reading
        (by rw [view_agree w w' p _ hagree, hreading]) ha.authorized).mp hreject
      refine ⟨redemption, reading, _, hd, refresh_distinct i p d _ ha.distinct hn hapart, ha, hreads,
        hreading, ?_, hs⟩
      rw [Refreshed, hnone]

/-- An accrual does the same whatever the redemption state says. -/
theorem accrue_after_put (R : RedemptionPriceState) :
    transact platform (put stablecoinProgramId w redemptionId (.redemptionPriceState R)) authority
        (accrueCall i p d) = .ok w' ↔
      ∃ u, transact platform w authority (accrueCall i p d) = .ok u ∧
        w' = put stablecoinProgramId u redemptionId (.redemptionPriceState R) := by
  obtain ⟨s, hr⟩ : ∃ s, Represents w s := by
    rcases h.1 with hu | ⟨s, hr, -⟩
    · exact (hu.not_holds w _ _ ((storedParameters_eq_some w params).mp hp)).elim
    · exact ⟨s, hr⟩
  have hother : ∀ id, id ≠ redemptionId →
      put stablecoinProgramId w redemptionId (.redemptionPriceState R) id = w id :=
    fun id hid => put_other _ _ _ _ _ hid
  have hsettle : ∀ (depth : ℕ) (X : Data) (tokenProgram : AccountId) (fees : U128),
      d ≠ redemptionId → (settle platform.tickMath depth stablecoinProgramId authority
        (put stablecoinProgramId (put stablecoinProgramId w redemptionId (.redemptionPriceState R))
          accumulatorId X) (surplusCalls tokenProgram d stablecoinProgramId fees) = .ok w' ↔
      ∃ u, settle platform.tickMath depth stablecoinProgramId authority
        (put stablecoinProgramId w accumulatorId X)
        (surplusCalls tokenProgram d stablecoinProgramId fees) = .ok u ∧
        w' = put stablecoinProgramId u redemptionId (.redemptionPriceState R)) := by
    intro depth X tokenProgram fees hd
    rw [put_comm stablecoinProgramId stablecoinProgramId w accumulatorId redemptionId _ _ (by decide)]
    refine settle_put platform.tickMath depth stablecoinProgramId authority [d, masterId] _
      (surplus_local _ _ _) stablecoinProgramId _ w' redemptionId _ ?_
    simp only [List.mem_cons, List.not_mem_nil, or_false, not_or]
    exact ⟨hd.symm, by decide⟩
  have hfar : ∀ params' q, Holds stablecoinProgramId (w q) (.protocolParameters params') →
      q ≠ redemptionId ∧ params'.stablecoinDefinitionId ≠ redemptionId := by
    intro params' q hq
    obtain ⟨rfl, rfl⟩ := hr.reads_parameters w s q params' hq
    exact ⟨by decide, by rw [hr.named]; decide⟩
  have hagree : p ≠ redemptionId → d ≠ redemptionId →
      AgreeOn [p, accumulatorId, d, masterId, clock01ProgramAccountId] w
        (put stablecoinProgramId w redemptionId (.redemptionPriceState R)) := by
    intro hpr hdr id hid
    simp only [List.mem_cons, List.not_mem_nil, or_false] at hid
    refine hother id ?_
    rcases hid with rfl | rfl | rfl | rfl | rfl
    · exact hpr
    · decide
    · exact hdr
    · decide
    · decide
  rw [accrue_eq_ok]
  constructor
  · rintro ⟨hg, depth, params', accumulator, now, accrual, hd, ha, hs⟩
    have hpr : p ≠ redemptionId := by
      rintro rfl
      have hdata := ha.reads.parameters.2
      rw [put_same, writeData_data] at hdata
      cases hdata
    have hheld := ha.reads.parameters
    rw [hother p hpr] at hheld
    have hdr : d ≠ redemptionId := by
      rw [ha.reads.definition]
      exact (hfar params' p hheld).2
    have ha := ha.agree _ w authority i p d params' now accumulator accrual
      fun id hid => (hagree hpr hdr id hid).symm
    rw [hother d hdr] at hs
    obtain ⟨u, hu, rfl⟩ := (hsettle depth _ _ _ hdr).mp hs
    exact ⟨u, (accrue_eq_ok platform w u authority i p d).mpr
      ⟨hg, depth, params', accumulator, now, accrual, hd, ha, hu⟩, rfl⟩
  · rintro ⟨u, hu, rfl⟩
    obtain ⟨hg, depth, params', accumulator, now, accrual, hd, ha, hs⟩ :=
      (accrue_eq_ok platform w u authority i p d).mp hu
    have hpr := (hfar params' p ha.reads.parameters).1
    have hdr : d ≠ redemptionId := by
      rw [ha.reads.definition]
      exact (hfar params' p ha.reads.parameters).2
    refine ⟨hg, depth, params', accumulator, now, accrual, hd,
      ha.agree w _ authority i p d params' now accumulator accrual (hagree hpr hdr), ?_⟩
    rw [hother d hdr]
    exact (hsettle depth _ _ _ hdr).mpr ⟨u, hs, rfl⟩

/-- A rate update does the same before and after an accrual. -/
theorem update_after_accrue (u : Accounts)
    (hu : transact platform w authority (accrueCall i p d) = .ok u) :
    transact platform u authority (updateCall i p params.marketPriceOracleId) = .ok w' ↔
      ∃ R, transact platform w authority (updateCall i p params.marketPriceOracleId)
          = .ok (put stablecoinProgramId w redemptionId (.redemptionPriceState R)) ∧
        w' = put stablecoinProgramId u redemptionId (.redemptionPriceState R) := by
  obtain ⟨hg, depth, params', accumulator, now, accrual, hd, ha, hs⟩ :=
    (accrue_eq_ok platform w u authority i p d).mp hu
  have hagree := accrue_agrees platform w authority i p d params h hp _ _ _ _ ha u depth hs
  constructor
  · intro hupdate
    obtain ⟨-, -, q, redemption, now', oracle, R, -, hup, rfl⟩ :=
      (update_eq_ok platform u w' authority i p _).mp hupdate
    exact ⟨R, (update_eq_ok platform w _ authority i p _).mpr ⟨hg, depth, q, redemption, now', oracle,
      R, hd, hup.agree u w authority i p _ q now' redemption R oracle
        fun id hid => (hagree id hid).symm, rfl⟩, rfl⟩
  · rintro ⟨R, hupdate, rfl⟩
    obtain ⟨-, -, q, redemption, now', oracle, R', -, hup, he⟩ :=
      (update_eq_ok platform w _ authority i p _).mp hupdate
    obtain rfl : R = R' := by
      have hdata := congrArg Account.data (congrFun he redemptionId)
      rw [put_same, put_same, writeData_data, writeData_data] at hdata
      exact Data.redemptionPriceState.inj hdata
    exact (update_eq_ok platform u _ authority i p _).mpr ⟨hg, depth, q, redemption, now', oracle,
      R, hd, hup.agree w u authority i p _ q now' redemption R oracle hagree, rfl⟩

/-- The two parts leave the same world in either order, also where one of them fails. -/
theorem pokes_commute :
    run platform w [.transaction authority (accrueCall i p d),
        .transaction authority (updateCall i p params.marketPriceOracleId)]
      = run platform w [.transaction authority (updateCall i p params.marketPriceOracleId),
        .transaction authority (accrueCall i p d)] := by
  simp only [run, List.foldl_cons, List.foldl_nil, Event.apply]
  have hwrites : ∀ v, transact platform w authority (updateCall i p params.marketPriceOracleId)
      = .ok v → ∃ R, v = put stablecoinProgramId w redemptionId (.redemptionPriceState R) := by
    intro v hv
    obtain ⟨-, -, -, -, -, -, R, -, -, rfl⟩ := (update_eq_ok platform w v authority i p _).mp hv
    exact ⟨R, rfl⟩
  cases hA : transact platform w authority (accrueCall i p d) with
  | ok u =>
    cases hU : transact platform w authority (updateCall i p params.marketPriceOracleId) with
    | ok v =>
      obtain ⟨R, rfl⟩ := hwrites v hU
      simp only [(update_after_accrue platform w _ authority i p d params h hp u hA).mpr ⟨R, hU, rfl⟩,
        (accrue_after_put platform w _ authority i p d params h hp R).mpr ⟨u, hA, rfl⟩]
    | error m =>
      simp only [hA]
      cases hU' : transact platform u authority (updateCall i p params.marketPriceOracleId) with
      | ok w' =>
        obtain ⟨R, hR, -⟩ :=
          (update_after_accrue platform w w' authority i p d params h hp u hA).mp hU'
        rw [hU] at hR
        cases hR
      | error m' => rfl
  | error m =>
    cases hU : transact platform w authority (updateCall i p params.marketPriceOracleId) with
    | ok v =>
      simp only
      obtain ⟨R, rfl⟩ := hwrites v hU
      cases hA' : transact platform (put stablecoinProgramId w redemptionId
          (.redemptionPriceState R)) authority (accrueCall i p d) with
      | ok w' =>
        obtain ⟨u, hu, -⟩ := (accrue_after_put platform w w' authority i p d params h hp R).mp hA'
        rw [hA] at hu
        cases hu
      | error m' => rfl
    | error m' => simp only [hA]

omit h hp in
/-- What the combined poke chains and leaves in the accumulator is what an accrual does. -/
theorem refresh_accrues (v : Accounts) (calls : List ChainedCall) (o : AccountId)
    (hperf : Performs w authority (refreshCall i p d o).accountIds .refreshGlobals v calls) :
    ∃ v', Performs w authority (accrueCall i p d).accountIds .accrueStabilityFee v' calls ∧
      v' accumulatorId = v accumulatorId := by
  obtain ⟨hn, -, hi, hdd, hmd, params', accumulator, now, accrual, redemption, reading, reads, hr,
    hreading, href, hcalls⟩ := (performs_refresh w v authority calls i p _ d _ _ o _).mp hperf
  refine ⟨_, (performs_accrue w _ authority calls i p _ d _ _).mpr ⟨hn.sublist
    (.cons_cons _ (.cons_cons _ (.cons_cons _ (.cons_cons _ (.cons_cons _ (.cons _ (.cons _
      (.refl _)))))))), ⟨rfl, rfl, rfl⟩, hi, hdd, hmd, params', accumulator, now, accrual, reads, rfl,
    hcalls⟩, ?_⟩
  unfold Refreshed at href
  split at href
  · obtain ⟨redemption', -, rfl⟩ := href
    rw [put_other stablecoinProgramId _ redemptionId accumulatorId _ (by decide)]
  · rw [href]

theorem accrue_keeps_redemption (u : Accounts)
    (hu : transact platform w authority (accrueCall i p d) = .ok u) :
    u redemptionId = w redemptionId := by
  obtain ⟨-, depth, params', accumulator, now, accrual, -, ha, hs⟩ :=
    (accrue_eq_ok platform w u authority i p d).mp hu
  exact accrue_agrees platform w authority i p d params h hp _ _ _ _ ha u depth hs redemptionId
    (by simp)

end

/-- The combined poke has the effect of its two parts: of the accrual and the rate update where
the rate update goes through, of the accrual alone where it rejects the oracle or comes too early.
The order of the two parts does not matter. -/
theorem refresh_equals_its_parts (platform : Platform) (genesis : Genesis) (events : List Event)
    (params : ProtocolParameters)
    (initialized : storedParameters (run platform genesis.world events) = some params)
    (authority : List AccountId) (caller parametersId definitionId : AccountId) :
    let w := run platform genesis.world events
    let accrue := accrueCall caller parametersId definitionId
    let update := updateCall caller parametersId params.marketPriceOracleId
    let refresh := refreshCall caller parametersId definitionId params.marketPriceOracleId
    (∀ w', transact platform w authority refresh = .ok w' ↔
      ∃ u, transact platform w authority accrue = .ok u ∧
        (transact platform u authority update = .ok w' ∨
          (∃ m ∈ rejections, transact platform u authority update = .error m) ∧ w' = u)) ∧
    (∀ u, transact platform w authority accrue = .ok u → u redemptionId = w redemptionId) ∧
    (∀ v calls, Performs w authority refresh.accountIds .refreshGlobals v calls →
      ∃ v', Performs w authority accrue.accountIds .accrueStabilityFee v' calls ∧
        v' accumulatorId = v accumulatorId) ∧
    run platform w [.transaction authority accrue, .transaction authority update]
      = run platform w [.transaction authority update, .transaction authority accrue] := by
  intro w accrue update refresh
  have h := run_established platform genesis events
  exact ⟨fun w' => refresh_parts platform w w' authority caller parametersId definitionId params h
      initialized,
    accrue_keeps_redemption platform w authority caller parametersId definitionId params h initialized,
    fun v calls hperf => refresh_accrues w authority caller parametersId definitionId v calls _ hperf,
    pokes_commute platform w authority caller parametersId definitionId params h initialized⟩

def quotedLater : Event := .environment fun id =>
  if id = clock01ProgramAccountId then ⟨.key 6, 0, .clock ⟨5, by norm_num⟩, 0⟩
  else if id = .key 70 then
    ⟨twapOracleProgramId, 0, .oraclePrice ⟨definitionId, .key 20, fixedPointOne, ⟨5, by norm_num⟩,
      .key 71, ⟨0, by norm_num⟩⟩, 0⟩
  else default

theorem first_refresh_has_parts :
    let w := run tablePlatform (clockedGenesis 0).world
      (firstInitialization ++ firstOpening ++ [quotedLater])
    ∃ u, transact tablePlatform w [.key 60] (accrueCall (.key 60) parametersId definitionId)
        = .ok u ∧
      (transact tablePlatform u [.key 60] (updateCall (.key 60) parametersId (.key 70))
          = .ok (Event.apply tablePlatform w (.transaction [.key 60]
            (refreshCall (.key 60) parametersId definitionId (.key 70)))) ∨
        (∃ m ∈ rejections, transact tablePlatform u [.key 60]
            (updateCall (.key 60) parametersId (.key 70)) = .error m) ∧
          Event.apply tablePlatform w (.transaction [.key 60]
            (refreshCall (.key 60) parametersId definitionId (.key 70))) = u) :=
  ((refresh_equals_its_parts tablePlatform (clockedGenesis 0) _
    (initialParameters firstParams (.key 60) definitionId (.key 20) (.key 70)) (by decide +kernel)
    [.key 60] (.key 60) parametersId definitionId).1 _).mp
      (transact_apply _ _ _ _ (by decide +kernel))

end LezPrograms.Stablecoin
