import LezPrograms.Stablecoin.Backing
import LezPrograms.Stablecoin.Founding
import LezPrograms.Stablecoin.Vaults

/-! # The frozen protocol

While the freeze flag is set nobody opens a position, takes on debt or takes
collateral out, and what reduces risk goes on as if the flag were not set. -/

set_option autoImplicit false

namespace LezPrograms.Stablecoin
open LezPrograms.Checked LezPrograms.Lee LezPrograms.Stablecoin.Math

def flagged (isFrozen : Bool) : Data → Data
  | .protocolParameters p => .protocolParameters { p with isFrozen := isFrozen }
  | data => data

def withFlag (isFrozen : Bool) (w : Accounts) : Accounts :=
  Function.update w parametersId
    { w parametersId with data := flagged isFrozen (w parametersId).data }

section
variable (b : Bool) (w : Accounts)

theorem withFlag_of_ne (id : AccountId) (h : id ≠ parametersId) : withFlag b w id = w id :=
  Function.update_of_ne h _ _

theorem withFlag_parameters (p : ProtocolParameters)
    (h : Holds stablecoinProgramId (w parametersId) (.protocolParameters p)) :
    Holds stablecoinProgramId (withFlag b w parametersId)
      (.protocolParameters { p with isFrozen := b }) := by
  rw [withFlag, Function.update_self]
  exact ⟨h.1, by simp only [h.2, flagged]⟩

theorem withFlag_congr (v : Accounts) (h : v parametersId = w parametersId) :
    withFlag b v = fun id => if id = parametersId then withFlag b w id else v id := by
  funext id
  by_cases hid : id = parametersId
  · rw [if_pos hid, hid, withFlag, withFlag, Function.update_self, Function.update_self, h]
  · rw [if_neg hid, withFlag_of_ne _ _ _ hid]

theorem withFlag_put (x : AccountId) (data : Data) (h : x ≠ parametersId) :
    withFlag b (put stablecoinProgramId w x data) = put stablecoinProgramId (withFlag b w) x data := by
  funext id
  by_cases hid : id = parametersId
  · rw [hid, put_other _ _ _ _ _ h.symm, withFlag, withFlag, Function.update_self,
      Function.update_self, put_other _ _ _ _ _ h.symm]
  · rw [withFlag_of_ne _ _ _ hid]
    by_cases hx : id = x
    · rw [hx, put_same, put_same, withFlag_of_ne _ _ _ h]
    · rw [put_other _ _ _ _ _ hx, put_other _ _ _ _ _ hx, withFlag_of_ne _ _ _ hid]

theorem flagged_again (c : Bool) (data : Data) : flagged b (flagged c data) = flagged b data := by
  cases data <;> rfl

theorem withFlag_again (c : Bool) : withFlag b (withFlag c w) = withFlag b w := by
  funext id
  by_cases hid : id = parametersId
  · rw [hid]
    simp only [withFlag, Function.update_self, flagged_again]
  · rw [withFlag_of_ne _ _ _ hid, withFlag_of_ne _ _ _ hid, withFlag_of_ne _ _ _ hid]

/-- Some flag is the one already set. -/
theorem withFlag_own : ∃ c, withFlag c w = w := by
  have hself : ∀ c, flagged c (w parametersId).data = (w parametersId).data → withFlag c w = w := by
    intro c hc
    rw [withFlag, hc]
    exact Function.update_eq_self _ _
  cases hd : (w parametersId).data with
  | protocolParameters p => exact ⟨p.isFrozen, hself _ (by rw [hd]; rfl)⟩
  | _ => exact ⟨true, hself _ (by rw [hd]; rfl)⟩

end

def Instruction.ignoresFlag : Instruction → Bool
  | .depositCollateral _ | .repayDebt _ | .accrueStabilityFee | .refreshGlobals
  | .updateRedemptionRate | .resetRedemptionRateController | .closePosition => true
  | _ => false

def SoleParameters (w : Accounts) : Prop :=
  ∀ id q, Holds stablecoinProgramId (w id) (.protocolParameters q) → id = parametersId

theorem Sound.soleParameters (w : Accounts) (h : Sound w) : SoleParameters w := by
  intro id q hq
  rcases h with hu | ⟨s, hr, -⟩
  · exact (hu.not_holds w _ _ hq).elim
  · exact (hr.reads_parameters w s id q hq).1

theorem SoleParameters.withFlag (b : Bool) (w : Accounts) (h : SoleParameters w) :
    SoleParameters (withFlag b w) := by
  intro id q hq
  by_contra hid
  rw [withFlag_of_ne _ _ _ hid] at hq
  exact hid (h id q hq)

def Unflagged (w : Accounts) (authority ids : List AccountId) (instruction : Instruction)
    (v : Accounts) (calls : List ChainedCall) : Prop :=
  (∀ b, Performs (withFlag b w) authority ids instruction (withFlag b v) calls) ∧
    v parametersId = w parametersId ∧
    ∀ call ∈ calls, (∃ i, call.instruction = .token i) ∧ parametersId ∉ call.accountIds

section
variable (w v : Accounts) (authority : List AccountId) (calls : List ChainedCall)

theorem AccrualReads.withFlag (b : Bool) (d : AccountId) (params : ProtocolParameters)
    (accumulator : StabilityFeeAccumulator) (now : U64) (accrual : FeeAccrual)
    (hd : d ≠ parametersId)
    (h : AccrualReads stablecoinProgramId w parametersId d params accumulator now accrual) :
    AccrualReads stablecoinProgramId (withFlag b w) parametersId d
      { params with isFrozen := b } accumulator now accrual := by
  refine ⟨withFlag_parameters b w params h.parameters, ?_, ?_, h.computed, h.definition, ?_⟩
  · rw [withFlag_of_ne _ _ _ (by decide)]
    exact h.accumulates
  · rw [withFlag_of_ne _ _ _ (by decide)]
    exact h.clock
  · rw [withFlag_of_ne _ _ _ (by decide), withFlag_of_ne _ _ _ hd]
    exact h.master

theorem readOracle_withFlag (b : Bool) (o : AccountId) (params : ProtocolParameters)
    (ho : o ≠ parametersId) : readOracle (view (Stablecoin.withFlag b w) [] o)
      { params with isFrozen := b } = readOracle (view w [] o) params := by
  rw [show view (Stablecoin.withFlag b w) [] o = view w [] o by
    rw [view, view, withFlag_of_ne _ _ _ ho]]
  rfl

theorem PositionReads.withFlag (b : Bool) (o x : AccountId) (data : Position)
    (h : PositionReads stablecoinProgramId w authority o x data) :
    x ≠ parametersId ∧
      PositionReads stablecoinProgramId (withFlag b w) authority o x data := by
  have hx : x ≠ parametersId := by
    rw [h.derived]
    exact fun he => by cases (AccountId.pda.inj he).2
  refine ⟨hx, h.authorized, ?_, h.derived, h.owner⟩
  rw [withFlag_of_ne _ _ _ hx]
  exact h.stored

theorem Refreshed.kept (params : ProtocolParameters) (redemption : RedemptionPriceState)
    (reading : Option TwapOracle.OraclePriceAccount) (now : U64)
    (h : Refreshed params redemption reading now w v) :
    v parametersId = w parametersId ∧ ∀ b, Refreshed { params with isFrozen := b } redemption
      reading now (Stablecoin.withFlag b w) (Stablecoin.withFlag b v) := by
  unfold Refreshed at h ⊢
  have husable : ∀ b, usablePrice { params with isFrozen := b } redemption reading now
      = usablePrice params redemption reading now := fun _ => rfl
  simp only [husable]
  cases hu : usablePrice params redemption reading now with
  | none =>
    simp only [hu] at h
    simp only [h, implies_true, and_self]
  | some price =>
    simp only [hu] at h
    obtain ⟨redemption', hadv, rfl⟩ := h
    exact ⟨put_other _ _ _ _ _ (by decide),
      fun b => ⟨redemption', hadv, withFlag_put _ _ _ _ (by decide)⟩⟩

theorem reset_unflagged (ids : List AccountId)
    (h : Performs w authority ids .resetRedemptionRateController v calls) :
    Unflagged w authority ids .resetRedemptionRateController v calls := by
  have hs := h.step
  cases hs with
  | setParameters _ _ _ _ _ hsetter => cases hsetter
  | resetRedemptionRateController i =>
    obtain ⟨hn, hids, hauth, params, redemption, now, hp, hr, hclock, hent, hv, -⟩ :=
      (performs_reset w _ authority _ i _ _ _).mp h
    refine ⟨fun b => (performs_reset _ _ authority _ i _ _ _).mpr ⟨hn, hids, hauth, _, redemption,
      now, withFlag_parameters b w params hp, ?_, ?_, hent, ?_, rfl⟩, ?_, ?_⟩
    · rwa [withFlag_of_ne _ _ _ (by decide)]
    · rwa [withFlag_of_ne _ _ _ (by decide)]
    · rw [hv, withFlag_put _ _ _ _ (by decide)]
    · rw [put_other _ _ _ _ _ (by decide)]
    · exact fun call hc => by cases hc

theorem deposit_unflagged (ids : List AccountId) (amount : U128)
    (h : Performs w authority ids (.depositCollateral amount) v calls) :
    Unflagged w authority ids (.depositCollateral amount) v calls := by
  have hs := h.step
  cases hs with
  | setParameters _ _ _ _ _ hsetter => cases hsetter
  | depositCollateral o x u _ data =>
    obtain ⟨hn, hids, hu, data', params, balance, held, new, reads, hk, hp, hvault, hprogram, huser,
      htoken, hsum, hv, hcalls⟩ := (performs_deposit w _ authority _ o x _ u _ amount).mp h
    have hkp : data.vaultAccountId ≠ parametersId := by
      intro he
      simp [he] at hn
    have hup : u ≠ parametersId := by
      rintro rfl
      simp at hn
    have hx : x ≠ parametersId := by
      rintro rfl
      simp at hn
    refine ⟨fun b => (performs_deposit _ _ authority _ o x _ u _ amount).mpr ⟨hn, hids, hu, data',
      _, balance, held, new, (reads.withFlag w authority b o x data').2, hk,
      withFlag_parameters b w params hp, ?_, ?_, ?_, htoken, hsum, ?_, ?_⟩, ?_, ?_⟩
    · rwa [withFlag_of_ne _ _ _ hkp]
    · rwa [withFlag_of_ne _ _ _ hkp, withFlag_of_ne _ _ _ hup]
    · rwa [withFlag_of_ne _ _ _ hup]
    · rw [hv, withFlag_put _ _ _ _ hx]
    · rw [hcalls, withFlag_of_ne _ _ _ hkp]
    · rw [put_other _ _ _ _ _ hx.symm]
    · intro call hc
      rw [List.mem_singleton.mp hc]
      refine ⟨⟨_, rfl⟩, ?_⟩
      change parametersId ∉ [u, data.vaultAccountId]
      simp only [List.mem_cons, List.not_mem_nil, or_false, not_or]
      exact ⟨hup.symm, hkp.symm⟩

theorem close_unflagged (ids : List AccountId)
    (h : Performs w authority ids .closePosition v calls) :
    Unflagged w authority ids .closePosition v calls := by
  have hs := h.step
  cases hs with
  | setParameters _ _ _ _ _ hsetter => cases hsetter
  | closePosition o x _ data =>
    obtain ⟨hn, hids, data', params, token, balance, reads, hk, hp, hdebt, hcollateral, hvault,
      hzero, hv, -⟩ := (performs_close w _ authority _ o x _ _).mp h
    have hkp : data.vaultAccountId ≠ parametersId := by
      intro he
      simp [he] at hn
    have hx : x ≠ parametersId := by
      rintro rfl
      simp at hn
    refine ⟨fun b => (performs_close _ _ authority _ o x _ _).mpr ⟨hn, hids, data', _, token,
      balance, (reads.withFlag w authority b o x data').2, hk, withFlag_parameters b w params hp,
      hdebt, hcollateral, ?_, hzero, ?_, rfl⟩, ?_, ?_⟩
    · rwa [withFlag_of_ne _ _ _ hkp]
    · rw [hv, withFlag_put _ _ _ _ hx]
    · rw [put_other _ _ _ _ _ hx.symm]
    · exact fun call hc => by cases hc

theorem repay_unflagged (ids : List AccountId) (amount : U128)
    (h : Performs w authority ids (.repayDebt amount) v calls) :
    Unflagged w authority ids (.repayDebt amount) v calls := by
  have hs := h.step
  cases hs with
  | setParameters _ _ _ _ _ hsetter => cases hsetter
  | repayDebt o x d u =>
    obtain ⟨hn, hids, hu, data, params, accumulator, now, accrual, delta, debt, total, reads, hdelta,
      hdebt, htotal, hv, hcalls⟩ := (performs_repay w _ authority _ o x d u _ _ _ _ amount).mp h
    have hd : d ≠ parametersId := by
      rintro rfl
      simp at hn
    have hup : u ≠ parametersId := by
      rintro rfl
      simp at hn
    have hx : x ≠ parametersId := by
      rintro rfl
      simp at hn
    have hreads : ∀ b, DebtReads (withFlag b w) authority o x d u data { params with isFrozen := b }
        accumulator now accrual := by
      intro b
      refine ⟨(reads.position.withFlag w authority b o x data).2,
        reads.accrues.withFlag w b d params accumulator now accrual hd, ?_, ?_, ?_, ?_⟩
      · rw [withFlag_of_ne _ _ _ hd]
        exact reads.definition
      · rw [withFlag_of_ne _ _ _ (by decide)]
        exact reads.master
      · rw [withFlag_of_ne _ _ _ hd, withFlag_of_ne _ _ _ hup]
        exact reads.sameProgram
      · rw [withFlag_of_ne _ _ _ hup]
        exact reads.holding
    refine ⟨fun b => (performs_repay _ _ authority _ o x d u _ _ _ _ amount).mpr ⟨hn, hids, hu, data,
      _, accumulator, now, accrual, delta, debt, total, hreads b, hdelta, hdebt, htotal, ?_, ?_⟩,
      ?_, ?_⟩
    · rw [hv, withFlag_put _ _ _ _ (by decide), withFlag_put _ _ _ _ hx]
    · rw [hcalls, withFlag_of_ne _ _ _ hd]
    · rw [put_other _ _ _ _ _ (by decide), put_other _ _ _ _ _ hx.symm]
    · intro call hc
      rcases List.mem_append.mp hc with hc | hc
      · obtain ⟨ht, hi⟩ := surplusCalls_token _ _ _ call hc
        refine ⟨ht, ?_⟩
        rw [hi]
        simp only [List.mem_cons, List.not_mem_nil, or_false, not_or]
        exact ⟨hd.symm, by decide⟩
      · rw [List.mem_singleton.mp hc]
        refine ⟨⟨_, rfl⟩, ?_⟩
        change parametersId ∉ [d, u]
        simp only [List.mem_cons, List.not_mem_nil, or_false, not_or]
        exact ⟨hd.symm, hup.symm⟩

variable (sole : SoleParameters w)
include sole

theorem accrue_unflagged (ids : List AccountId)
    (h : Performs w authority ids .accrueStabilityFee v calls) :
    Unflagged w authority ids .accrueStabilityFee v calls := by
  have hs := h.step
  cases hs with
  | setParameters _ _ _ _ _ hsetter => cases hsetter
  | accrueStabilityFee i p d =>
    obtain ⟨hn, hids, hauth, hdd, hmd, params, accumulator, now, accrual, reads, hv, hcalls⟩ :=
      (performs_accrue w _ authority _ i p _ d _ _).mp h
    obtain rfl := sole p params reads.parameters
    have hd : d ≠ parametersId := by
      rintro rfl
      simp at hn
    refine ⟨fun b => (performs_accrue _ _ authority _ i _ _ d _ _).mpr ⟨hn, hids, hauth, ?_, ?_, _,
      accumulator, now, accrual, reads.withFlag w b d _ _ _ _ hd, ?_, ?_⟩, ?_, ?_⟩
    · rwa [withFlag_of_ne _ _ _ hd]
    · rwa [withFlag_of_ne _ _ _ (by decide)]
    · rw [hv, withFlag_put _ _ _ _ (by decide)]
    · rw [hcalls, withFlag_of_ne _ _ _ hd]
    · rw [put_other _ _ _ _ _ (by decide)]
    · intro call hc
      obtain ⟨ht, hi⟩ := surplusCalls_token _ _ _ call hc
      refine ⟨ht, ?_⟩
      rw [hi]
      simp only [List.mem_cons, List.not_mem_nil, or_false, not_or]
      exact ⟨hd.symm, by decide⟩

theorem update_unflagged (ids : List AccountId)
    (h : Performs w authority ids .updateRedemptionRate v calls) :
    Unflagged w authority ids .updateRedemptionRate v calls := by
  have hs := h.step
  cases hs with
  | setParameters _ _ _ _ _ hsetter => cases hsetter
  | updateRedemptionRate i p o =>
    obtain ⟨hn, hids, hauth, params, redemption, now, oracle, redemption', hp, hr, hclock, hquoted,
      hadv, hv, -⟩ := (performs_update w _ authority _ i p _ o _).mp h
    obtain rfl := sole p params hp
    have ho : o ≠ parametersId := by
      rintro rfl
      simp at hn
    refine ⟨fun b => (performs_update _ _ authority _ i _ _ o _).mpr ⟨hn, hids, hauth, _,
      redemption, now, oracle, redemption', withFlag_parameters b w params hp, ?_, ?_,
      ⟨?_, hquoted.fresh, hquoted.positive, hquoted.due⟩, hadv, ?_, rfl⟩, ?_, ?_⟩
    · rwa [withFlag_of_ne _ _ _ (by decide)]
    · rwa [withFlag_of_ne _ _ _ (by decide)]
    · rw [readOracle_withFlag w b o params ho]
      exact hquoted.reading
    · rw [hv, withFlag_put _ _ _ _ (by decide)]
    · rw [put_other _ _ _ _ _ (by decide)]
    · exact fun call hc => by cases hc

theorem refresh_unflagged (ids : List AccountId)
    (h : Performs w authority ids .refreshGlobals v calls) :
    Unflagged w authority ids .refreshGlobals v calls := by
  have hids : ∃ i p d o, ids = [i, p, accumulatorId, d, masterId, redemptionId, o,
      clock01ProgramAccountId] := by
    have hs := h.step
    cases hs with
    | setParameters _ _ _ _ _ hsetter => cases hsetter
    | refreshFee i p d o => exact ⟨i, p, d, o, rfl⟩
    | refreshBoth i p d o => exact ⟨i, p, d, o, rfl⟩
  obtain ⟨i, p, d, o, rfl⟩ := hids
  obtain ⟨hn, hids, hauth, hdd, hmd, params, accumulator, now, accrual, redemption, reading, reads,
    hr, hreading, hrefreshed, hcalls⟩ := (performs_refresh w _ authority _ i p _ d _ _ o _).mp h
  obtain rfl := sole p params reads.parameters
  have hd : d ≠ parametersId := by
    rintro rfl
    simp at hn
  have ho : o ≠ parametersId := by
    rintro rfl
    simp at hn
  obtain ⟨hkept, hflag⟩ := hrefreshed.kept
  refine ⟨fun b => (performs_refresh _ _ authority _ i _ _ d _ _ o _).mpr ⟨hn, hids, hauth, ?_, ?_, _,
    accumulator, now, accrual, redemption, reading, reads.withFlag w b d _ _ _ _ hd, ?_, ?_, ?_,
    ?_⟩, ?_, ?_⟩
  · rwa [withFlag_of_ne _ _ _ hd]
  · rwa [withFlag_of_ne _ _ _ (by decide)]
  · rwa [withFlag_of_ne _ _ _ (by decide)]
  · rwa [readOracle_withFlag w b o params ho]
  · rw [← withFlag_put _ _ _ _ (by decide)]
    exact hflag b
  · rw [hcalls, withFlag_of_ne _ _ _ hd]
  · rw [hkept, put_other _ _ _ _ _ (by decide)]
  · intro call hc
    rw [hcalls] at hc
    obtain ⟨ht, hi⟩ := surplusCalls_token _ _ _ call hc
    refine ⟨ht, ?_⟩
    rw [hi]
    simp only [List.mem_cons, List.not_mem_nil, or_false, not_or]
    exact ⟨hd.symm, by decide⟩

theorem performs_unflagged (ids : List AccountId) (instruction : Instruction)
    (hi : instruction.ignoresFlag = true)
    (h : Performs w authority ids instruction v calls) :
    Unflagged w authority ids instruction v calls := by
  cases instruction with
  | depositCollateral amount => exact deposit_unflagged w v authority calls ids amount h
  | repayDebt amount => exact repay_unflagged w v authority calls ids amount h
  | accrueStabilityFee => exact accrue_unflagged w v authority calls sole ids h
  | refreshGlobals => exact refresh_unflagged w v authority calls sole ids h
  | updateRedemptionRate => exact update_unflagged w v authority calls sole ids h
  | resetRedemptionRateController => exact reset_unflagged w v authority calls ids h
  | closePosition => exact close_unflagged w v authority calls ids h
  | _ => cases hi

end

/-- A transaction that does not read the flag succeeds alike under every flag. -/
theorem transact_withFlag (platform : Platform) (b : Bool) (w w' : Accounts)
    (sole : SoleParameters w) (authority : List AccountId) (call : ChainedCall)
    (instruction : Instruction) (hc : call.instruction = .stablecoin instruction)
    (hi : instruction.ignoresFlag = true) (h : transact platform w authority call = .ok w') :
    transact platform (withFlag b w) authority call = .ok (withFlag b w') ∧
      w' parametersId = w parametersId := by
  obtain ⟨hg, hp, depth, v, calls, hd, hperf, hs⟩ :=
    (transact_eq_ok platform w w' authority call instruction hc).mp h
  obtain ⟨hflag, hkept, hcalls⟩ := performs_unflagged w v authority calls sole _ instruction hi hperf
  have hids : parametersId ∉ calls.flatMap ChainedCall.accountIds := by
    rw [List.mem_flatMap]
    rintro ⟨c, hc, hid⟩
    exact (hcalls c hc).2 hid
  obtain ⟨h1, h2⟩ := settle_local platform.tickMath depth stablecoinProgramId authority
    (calls.flatMap ChainedCall.accountIds) calls
    (fun c hc => ⟨(hcalls c hc).1, fun id hid => List.mem_flatMap.mpr ⟨c, hc, hid⟩⟩)
    v (withFlag b v) w' (fun id hid => withFlag_of_ne b v id fun he => hids (he ▸ hid)) hs
  have hw' := h2 parametersId hids
  refine ⟨(transact_eq_ok _ _ _ _ _ _ hc).mpr ⟨hg, hp, depth, _, calls, hd, hflag b, h1.trans ?_⟩,
    hw'.trans hkept⟩
  rw [Except.ok.injEq, withFlag_congr b v w' hw']
  funext id
  by_cases hid : id ∈ calls.flatMap ChainedCall.accountIds
  · have hne : id ≠ parametersId := fun he => hids (he ▸ hid)
    rw [splice_of_mem _ _ _ _ hid, if_neg hne]
  · rw [splice_of_not_mem _ _ _ _ hid, h2 id hid]
    split
    · rename_i he
      rw [he]
    · rename_i he
      rw [withFlag_of_ne _ _ _ he]

/-- The outcome of such a transaction is the same under every flag. -/
theorem outcome_withFlag (platform : Platform) (b : Bool) (w : Accounts) (sole : SoleParameters w)
    (authority : List AccountId) (call : ChainedCall) (instruction : Instruction)
    (hc : call.instruction = .stablecoin instruction) (hi : instruction.ignoresFlag = true) :
    (transact platform (withFlag b w) authority call).toOption
      = (transact platform w authority call).toOption.map (withFlag b) := by
  cases h : transact platform w authority call with
  | ok w' =>
    rw [(transact_withFlag platform b w w' sole authority call instruction hc hi h).1]
    rfl
  | error m =>
    cases hu : transact platform (withFlag b w) authority call with
    | error m' => rfl
    | ok u =>
      obtain ⟨c, hc'⟩ := withFlag_own w
      obtain ⟨hback, -⟩ := transact_withFlag platform c _ u (sole.withFlag b w) authority call
        instruction hc hi hu
      rw [withFlag_again, hc', h] at hback
      cases hback

theorem AccrualReads.kept_by_position (w : Accounts) (x p d : AccountId) (data data' : Position)
    (params : ProtocolParameters) (a : StabilityFeeAccumulator) (now : U64) (accrual : FeeAccrual)
    (h : AccrualReads stablecoinProgramId w p d params a now accrual)
    (hx : Holds stablecoinProgramId (w x) (.position data)) :
    Holds stablecoinProgramId (put stablecoinProgramId w x (.position data') accumulatorId)
      (.stabilityFeeAccumulator a) := by
  rw [put_other _ _ _ _ _ ?_]
  · exact h.accumulates
  · rintro rfl
    cases hx.2.symm.trans h.accumulates.2

def Closes (event : Event) : Prop :=
  ∃ authority call, event = .transaction authority call ∧
    call.instruction = .stablecoin .closePosition

structure Contained (event : Event) (before after : Option Position) : Prop where
  opened : before = none → after = none
  kept : ∀ x y, before = some x → after = some y →
    y.normalizedDebtAmount.val ≤ x.normalizedDebtAmount.val ∧
      x.collateralAmount.val ≤ y.collateralAmount.val
  closed : ∀ x, before = some x → after = none →
    x.normalizedDebtAmount.val = 0 ∧ x.collateralAmount.val = 0 ∧ Closes event

theorem Contained.same (event : Event) (before : Option Position) :
    Contained event before before := by
  refine ⟨id, fun x y hx hy => ?_, fun x hx hn => ?_⟩
  · rw [hx, Option.some.injEq] at hy
    rw [hy]
    exact ⟨le_rfl, le_rfl⟩
  · rw [hx] at hn
    cases hn

theorem positionAt_congr (w v : Accounts) (id : AccountId)
    (h : owned stablecoinProgramId v id = owned stablecoinProgramId w id) :
    positionAt v id = positionAt w id := by
  rw [positionAt, positionAt, h]

/-- A write of another kind of record is no change of a position. -/
theorem positionAt_put (w : Accounts) (t id : AccountId) (data old : Data)
    (ht : Holds stablecoinProgramId (w t) old) (hold : ∀ y, old ≠ .position y)
    (hd : ∀ y, data ≠ .position y) :
    positionAt (put stablecoinProgramId w t data) id = positionAt w id := by
  apply Option.ext
  intro x
  rw [positionAt_eq_some, positionAt_eq_some, owned_put _ _ _ _ (Or.inl ht.1)]
  apply update_position _ _ _ _ _ _ hd
  intro y hy
  rw [Holds.owned_eq _ _ _ _ ht, Option.some.injEq] at hy
  exact hold y hy

/-- A position written in place of another one. -/
theorem contained_put (w : Accounts) (event : Event) (x id : AccountId) (data data' : Position)
    (hx : Holds stablecoinProgramId (w x) (.position data))
    (hdebt : data'.normalizedDebtAmount.val ≤ data.normalizedDebtAmount.val)
    (hcollateral : data.collateralAmount.val ≤ data'.collateralAmount.val) :
    Contained event (positionAt w id)
      (positionAt (put stablecoinProgramId w x (.position data')) id) := by
  by_cases hid : id = x
  · subst hid
    have hbefore := (positionAt_eq_some w id data).mpr (Holds.owned_eq _ _ _ _ hx)
    have hafter : positionAt (put stablecoinProgramId w id (.position data')) id = some data' := by
      rw [positionAt_eq_some, owned_put _ _ _ _ (Or.inl hx.1), Function.update_self]
    rw [hbefore, hafter]
    refine ⟨(fun h => by cases h), fun y z hy hz => ?_, fun y _ hn => by cases hn⟩
    cases hy
    cases hz
    exact ⟨hdebt, hcollateral⟩
  · rw [positionAt_congr _ _ _ (owned_congr _ _ _ _ (put_other _ _ _ _ _ hid))]
    exact .same event _

section
variable (platform : Platform) (w : Accounts) (event : Event)

theorem frozen_step (hs : Sound w) (p : ProtocolParameters)
    (hp : Holds stablecoinProgramId (w parametersId) (.protocolParameters p))
    (hf : p.isFrozen = true) (authority ids : List AccountId) (instruction : Instruction)
    (v : Accounts) (calls : List ChainedCall)
    (he : instruction = .closePosition → Closes event)
    (step : Step stablecoinProgramId w authority ids instruction v calls) (id : AccountId) :
    Contained event (positionAt w id) (positionAt v id) := by
  have hfrozen : ∀ q, Holds stablecoinProgramId (w parametersId) (.protocolParameters q) →
      q.isFrozen = true := by
    intro q hq
    rwa [← Data.protocolParameters.inj (hp.2.symm.trans hq.2)]
  have hquiet : ∀ (u : Accounts) (t : AccountId) (data old : Data),
      Holds stablecoinProgramId (u t) old → (∀ y, old ≠ .position y) →
      (∀ y, data ≠ .position y) → Contained event (positionAt u id)
        (positionAt (put stablecoinProgramId u t data) id) := by
    intro u t data old ht hold hd
    rw [positionAt_put u t id data old ht hold hd]
    exact .same event _
  cases step with
  | initializeProgram _ _ _ _ _ _ _ hfresh =>
    have hd := hp.2
    rw [hfresh] at hd
    cases hd
  | openPosition _ _ _ _ _ _ _ _ _ _ _ _ hq hunfrozen =>
    rw [hfrozen _ hq] at hunfrozen
    cases hunfrozen
  | generateDebt _ _ _ _ _ _ _ _ _ _ _ _ _ _ _ accrues hunfrozen =>
    rw [hfrozen _ accrues.parameters] at hunfrozen
    cases hunfrozen
  | withdrawCollateral _ _ _ _ _ _ _ _ _ _ _ _ _ hq hunfrozen =>
    rw [hfrozen _ hq] at hunfrozen
    cases hunfrozen
  | accrueStabilityFee _ _ _ _ _ _ _ _ reads =>
    exact hquiet w _ _ _ reads.accumulates (fun _ => Data.noConfusion) fun _ => Data.noConfusion
  | updateRedemptionRate _ _ _ _ _ _ _ _ _ _ hr =>
    exact hquiet w _ _ _ hr (fun _ => Data.noConfusion) fun _ => Data.noConfusion
  | refreshFee _ _ _ _ _ _ _ _ _ reads =>
    exact hquiet w _ _ _ reads.accumulates (fun _ => Data.noConfusion) fun _ => Data.noConfusion
  | refreshBoth _ _ _ _ _ _ _ _ _ _ _ _ reads hr =>
    rw [positionAt_put _ _ _ _ _ (by rwa [put_other _ _ _ _ _ (by decide)])
      (fun _ => Data.noConfusion) fun _ => Data.noConfusion]
    exact hquiet w _ _ _ reads.accumulates (fun _ => Data.noConfusion) fun _ => Data.noConfusion
  | resetRedemptionRateController _ _ _ _ _ _ _ hr =>
    exact hquiet w _ _ _ hr (fun _ => Data.noConfusion) fun _ => Data.noConfusion
  | setStabilityFeePerMillisecond _ _ _ _ _ _ _ _ _ _ accrues =>
    rw [positionAt_put _ _ _ _ _ (by rw [put_other _ _ _ _ _ (by decide)]; exact accrues.accumulates)
      (fun _ => Data.noConfusion) fun _ => Data.noConfusion]
    exact hquiet w _ _ _ accrues.parameters (fun _ => Data.noConfusion) fun _ => Data.noConfusion
  | setParameters _ _ _ _ _ _ _ hq =>
    exact hquiet w _ _ _ hq (fun _ => Data.noConfusion) fun _ => Data.noConfusion
  | depositCollateral o x u amount data _ _ balance new _ reads _ _ hvault hsum =>
    have hcovers := sound_covers w hs x data
      ((positionAt_eq_some w x data).mpr (Holds.owned_eq _ _ _ _ reads.stored))
    have hunits := unitsAt_le_of_data w _ _ balance hvault
    refine contained_put w event x id data _ reads.stored le_rfl ?_
    change data.collateralAmount.val ≤ new.val
    omega
  | repayDebt o x d u amount data _ a _ accrual _ debt _ reads _ accrues _ _ hdebt =>
    rw [positionAt_put _ _ _ _ (.stabilityFeeAccumulator a) ?_ (fun _ => Data.noConfusion)
      fun _ => Data.noConfusion]
    · refine contained_put w event x id data _ reads.stored ?_ le_rfl
      change debt.val ≤ data.normalizedDebtAmount.val
      omega
    · exact accrues.kept_by_position w _ _ _ _ _ _ _ _ _ reads.stored
  | closePosition o x token data balance reads hdebt hcollateral =>
    have hbefore := (positionAt_eq_some w x data).mpr (Holds.owned_eq _ _ _ _ reads.stored)
    by_cases hid : id = x
    · subst hid
      have hafter : positionAt (put stablecoinProgramId w id .empty) id = none := by
        rw [positionAt, owned_put _ _ _ _ (Or.inl reads.stored.1), Function.update_self]
      rw [hbefore, hafter]
      refine ⟨(fun h => by cases h), (fun _ _ _ h => by cases h), fun y hy _ => ?_⟩
      cases hy
      exact ⟨hdebt, hcollateral, he rfl⟩
    · rw [positionAt_congr _ _ _ (owned_congr _ _ _ _ (put_other _ _ _ _ _ hid))]
      exact .same event _

end

def Unfreezes (platform : Platform) (w : Accounts) (event : Event) : Prop :=
  ∃ authority call w', event = .transaction authority call ∧
    call.instruction = .stablecoin .unfreeze ∧ transact platform w authority call = .ok w'

section
variable (platform : Platform) (w : Accounts)

/-- Until the program is unfrozen an event keeps the flag and contains every position. -/
theorem frozen_event (hs : Sound w) (p : ProtocolParameters) (hp : storedParameters w = some p)
    (hf : p.isFrozen = true) (event : Event) (hu : ¬Unfreezes platform w event) :
    (∃ q, storedParameters (event.apply platform w) = some q ∧ q.isFrozen = true) ∧
      ∀ id, Contained event (positionAt w id) (positionAt (event.apply platform w) id) := by
  have hheld := (storedParameters_eq_some w p).mp hp
  rcases event_cases platform w event with
    ⟨he, -⟩ | ⟨authority, call, instruction, v, calls, rfl, ht⟩
  · have hsame := elsewhere_stored w _ he
    refine ⟨⟨p, by rwa [storedParameters, hsame], hf⟩, fun id => ?_⟩
    rw [positionAt_congr _ _ id (congrFun hsame id)]
    exact .same event _
  · obtain ⟨v', calls', hperf, hsame⟩ := ht.performs
    obtain ⟨s, hr⟩ : ∃ s, Represents w s := by
      rcases hs with hu | ⟨s, hr, -⟩
      · exact (hu.not_holds w _ _ hheld).elim
      · exact ⟨s, hr⟩
    obtain ⟨-, rfl⟩ := hr.reads_parameters w s _ p hheld
    constructor
    · cases hset : instruction.setsParameters with
      | false =>
        obtain ⟨rate, hrate⟩ := hr.step_parameters w s authority _ instruction v' calls' hset
          hperf.step
        exact ⟨{ s.parameters with stabilityFeePerMillisecond := rate },
          by rw [storedParameters, hsame, hrate], hf⟩
      | true =>
        obtain ⟨q, q', hq, hrewrites, rfl⟩ := setter_writes w v' authority calls' _ instruction hset
          hperf
        obtain ⟨-, rfl⟩ := hr.reads_parameters w s _ q hq
        refine ⟨q', ?_, hrewrites.frozen ?_ hf⟩
        · rw [storedParameters, hsame, owned_put_same _ _ _ _ (Holds.owned_eq _ _ _ _ hq),
            Function.update_self]
        · rw [decide_eq_false_iff_not]
          rintro rfl
          exact hu ⟨authority, call, _, rfl, ht.called, ht.succeeds⟩
    · intro id
      rw [positionAt_congr _ _ id (congrFun hsame id)]
      refine frozen_step w _ hs s.parameters hheld hf _ _ instruction v' calls' ?_ hperf.step id
      rintro rfl
      exact ⟨authority, call, rfl, ht.called⟩

end

def NeverUnfreezes (platform : Platform) (w : Accounts) (events : List Event) : Prop :=
  ∀ first event rest, events = first ++ event :: rest →
    ¬Unfreezes platform (run platform w first) event

theorem NeverUnfreezes.split (platform : Platform) (w : Accounts) (event : Event)
    (events : List Event) (h : NeverUnfreezes platform w (event :: events)) :
    ¬Unfreezes platform w event ∧ NeverUnfreezes platform (event.apply platform w) events := by
  refine ⟨h [] event events rfl, fun first e rest he => ?_⟩
  have := h (event :: first) e rest (by rw [he]; rfl)
  exact this

def Frozen (w : Accounts) : Prop := ∃ p, storedParameters w = some p ∧ p.isFrozen = true

instance (w : Accounts) : Decidable (Frozen w) :=
  decidable_of_iff ((storedParameters w).any ProtocolParameters.isFrozen = true) (by
    rw [Option.any_eq_true]
    rfl)

theorem neverUnfreezes_of (platform : Platform) (w : Accounts) (events : List Event)
    (h : ∀ event ∈ events, ∀ authority call, event = .transaction authority call →
      call.instruction ≠ .stablecoin .unfreeze) : NeverUnfreezes platform w events := by
  rintro first event rest rfl ⟨authority, call, w', he, hc, -⟩
  exact h event (by simp) authority call he hc

theorem frozen_run (platform : Platform) (w : Accounts) (events : List Event) (hs : Sound w)
    (hf : Frozen w) (hn : NeverUnfreezes platform w events) :
    Sound (run platform w events) ∧ Frozen (run platform w events) ∧
      ∀ id, (positionAt w id = none → positionAt (run platform w events) id = none) ∧
        ∀ x y, positionAt w id = some x → positionAt (run platform w events) id = some y →
          y.normalizedDebtAmount.val ≤ x.normalizedDebtAmount.val ∧
            x.collateralAmount.val ≤ y.collateralAmount.val := by
  induction events generalizing w with
  | nil =>
    refine ⟨hs, hf, fun id => ⟨fun h => h, fun x y hx hy => ?_⟩⟩
    obtain rfl := Option.some.inj (hx.symm.trans hy)
    exact ⟨le_rfl, le_rfl⟩
  | cons event events ih =>
    obtain ⟨hu, hn⟩ := hn.split
    obtain ⟨p, hp, hpf⟩ := hf
    obtain ⟨hf', hc⟩ := frozen_event platform w hs p hp hpf event hu
    obtain ⟨h1, h2, h3⟩ := ih _ (event_sound platform w event hs) hf' hn
    refine ⟨h1, h2, fun id => ⟨fun h => (h3 id).1 ((hc id).opened h), fun x y hx hy => ?_⟩⟩
    cases hz : positionAt (event.apply platform w) id with
    | none =>
      have hnone := (h3 id).1 hz
      have hy' : positionAt (run platform (event.apply platform w) events) id = some y := hy
      rw [hnone] at hy'
      cases hy'
    | some z =>
      obtain ⟨k1, k2⟩ := (hc id).kept x z hx hz
      obtain ⟨l1, l2⟩ := (h3 id).2 z y hz hy
      exact ⟨l1.trans k1, k2.trans l2⟩

/-- From a freeze to the next unfreeze no position is opened, no debt grows and no collateral
leaves a position; a position ends only by being closed when it has neither. Meanwhile what does
not read the flag has the outcome that it has under any other flag. -/
theorem frozen_protocol_is_safe (platform : Platform) (genesis : Genesis)
    (events later : List Event)
    (frozen : Frozen (run platform genesis.world events))
    (still : NeverUnfreezes platform (run platform genesis.world events) later) :
    Frozen (run platform genesis.world (events ++ later)) ∧
      (∀ id, (positionAt (run platform genesis.world events) id = none →
          positionAt (run platform genesis.world (events ++ later)) id = none) ∧
        ∀ x y, positionAt (run platform genesis.world events) id = some x →
          positionAt (run platform genesis.world (events ++ later)) id = some y →
          y.normalizedDebtAmount.val ≤ x.normalizedDebtAmount.val ∧
            x.collateralAmount.val ≤ y.collateralAmount.val) ∧
      (∀ first event rest, later = first ++ event :: rest → ∀ id,
        Contained event (positionAt (run platform genesis.world (events ++ first)) id)
          (positionAt (run platform genesis.world (events ++ first ++ [event])) id)) ∧
      ∀ authority call instruction isFrozen, call.instruction = .stablecoin instruction →
        instruction.ignoresFlag = true →
        (transact platform (withFlag isFrozen (run platform genesis.world (events ++ later)))
            authority call).toOption
          = (transact platform (run platform genesis.world (events ++ later)) authority
              call).toOption.map (withFlag isFrozen) := by
  have hs := run_sound platform genesis events
  rw [run_append]
  obtain ⟨h1, h2, h3⟩ := frozen_run platform _ later hs frozen still
  refine ⟨h2, h3, ?_, ?_⟩
  · rintro first event rest rfl id
    have hfirst : NeverUnfreezes platform (run platform genesis.world events) first :=
      fun f e r he => still f e (r ++ event :: rest) (by rw [he]; simp)
    obtain ⟨k1, ⟨p, hp, hpf⟩, -⟩ := frozen_run platform _ first hs frozen hfirst
    rw [run_concat, run_append]
    exact (frozen_event platform _ k1 p hp hpf event (still first event rest rfl)).2 id
  · intro authority call instruction isFrozen hc hi
    exact outcome_withFlag platform isFrozen _ h1.soleParameters authority call instruction hc hi

/-- A frozen instance in which the owner of a position tries to generate debt. -/
theorem frozen_instance_stays_frozen :
    Frozen (run tablePlatform (clockedGenesis 0).world
      ((firstInitialization ++ firstOpening ++ [firstFreeze])
        ++ [.transaction [.key 30] firstGeneration])) :=
  (frozen_protocol_is_safe tablePlatform (clockedGenesis 0) _ _ (by decide +kernel)
    (neverUnfreezes_of _ _ _ (by
      intro event he authority call hc
      rw [List.mem_singleton.mp he, Event.transaction.injEq] at hc
      rw [← hc.2]
      decide))).1

end LezPrograms.Stablecoin
