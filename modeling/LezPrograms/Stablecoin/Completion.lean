import LezPrograms.Stablecoin.Neutral
import LezPrograms.Stablecoin.Repayable
import LezPrograms.Stablecoin.Squatting
import LezPrograms.Token.Completion

/-! # When the instructions of an owner succeed

What borrowing, repaying and withdrawing need besides the checks of the program:
distinct accounts, room for the fees that are due, and the token calls. -/

set_option autoImplicit false

namespace LezPrograms.Stablecoin
open LezPrograms.Checked LezPrograms.Checked.Unsigned LezPrograms.Lee LezPrograms.Token
open LezPrograms.Stablecoin.Math LezPrograms.Stablecoin.Compounding

/-- No position belongs to the clock account, which cannot open one: it stands among the
accounts of the opening already. -/
def ClockOwnsNothing (w : Accounts) : Prop :=
  ∀ id x, positionAt w id = some x → x.ownerAccountId ≠ clock01ProgramAccountId

theorem ClockOwnsNothing.put (w : Accounts) (h : ClockOwnsNothing w) (t : AccountId) (data : Data)
    (hd : ∀ x, data = .position x → x.ownerAccountId ≠ clock01ProgramAccountId) :
    ClockOwnsNothing (put stablecoinProgramId w t data) := by
  intro id x hx
  by_cases hid : id = t
  · subst hid
    rw [positionAt_eq_some, owned_eq_some, put_same, writeData_data] at hx
    exact hd x hx.2
  · rw [positionAt_eq_some, owned_congr _ _ _ _ (put_other _ _ _ _ _ hid)] at hx
    exact h id x ((positionAt_eq_some w id x).mpr hx)

theorem ClockOwnsNothing.stored (w v : Accounts) (h : ClockOwnsNothing w)
    (he : owned stablecoinProgramId v = owned stablecoinProgramId w) : ClockOwnsNothing v := by
  intro id x hx
  rw [positionAt_eq_some, he, ← positionAt_eq_some] at hx
  exact h id x hx

theorem ClockOwnsNothing.step (w v : Accounts) (h : ClockOwnsNothing w)
    (authority ids : List AccountId) (instruction : Instruction) (calls : List ChainedCall)
    (hn : ids.Nodup) (step : Step stablecoinProgramId w authority ids instruction v calls) :
    ClockOwnsNothing v := by
  have hglobal : ∀ (u : Accounts) (t : AccountId) (data : Data), ClockOwnsNothing u →
      (∀ x, data ≠ .position x) → ClockOwnsNothing (Lee.put stablecoinProgramId u t data) :=
    fun u t data hu hne => hu.put u t data fun x hx => absurd hx (hne x)
  have hposition : ∀ (t : AccountId) (data data' : Position),
      Holds stablecoinProgramId (w t) (.position data) →
      data'.ownerAccountId = data.ownerAccountId →
      ClockOwnsNothing (Lee.put stablecoinProgramId w t (.position data')) := by
    intro t data data' hdata howner
    refine h.put w t _ fun x hx => ?_
    rw [← Data.position.inj hx, howner]
    exact h t data ((positionAt_eq_some w t data).mpr (Holds.owned_eq _ _ _ _ hdata))
  cases step with
  | initializeProgram =>
    exact hglobal _ _ _ (hglobal _ _ _ (hglobal _ _ _ h fun _ => Data.noConfusion)
      fun _ => Data.noConfusion) fun _ => Data.noConfusion
  | accrueStabilityFee => exact hglobal _ _ _ h fun _ => Data.noConfusion
  | updateRedemptionRate => exact hglobal _ _ _ h fun _ => Data.noConfusion
  | refreshFee => exact hglobal _ _ _ h fun _ => Data.noConfusion
  | refreshBoth =>
    exact hglobal _ _ _ (hglobal _ _ _ h fun _ => Data.noConfusion) fun _ => Data.noConfusion
  | resetRedemptionRateController => exact hglobal _ _ _ h fun _ => Data.noConfusion
  | openPosition =>
    refine h.put w _ _ fun x hx => ?_
    rw [← Data.position.inj hx]
    rintro (rfl : _ = _)
    simp at hn
  | depositCollateral _ position _ _ _ data _ _ _ _ reads =>
    exact hposition _ _ _ reads.stored rfl
  | closePosition => exact hglobal _ _ _ h fun _ => Data.noConfusion
  | generateDebt _ position _ _ _ _ _ _ _ _ _ _ _ _ reads =>
    exact hglobal _ _ _ (hposition _ _ _ reads.stored rfl) fun _ => Data.noConfusion
  | repayDebt _ position _ _ _ _ _ _ _ _ _ _ _ reads =>
    exact hglobal _ _ _ (hposition _ _ _ reads.stored rfl) fun _ => Data.noConfusion
  | withdrawCollateral _ position _ _ _ _ _ _ _ _ _ _ reads =>
    exact hposition _ _ _ reads.stored rfl
  | setStabilityFeePerMillisecond =>
    exact hglobal _ _ _ (hglobal _ _ _ h fun _ => Data.noConfusion) fun _ => Data.noConfusion
  | setParameters => exact hglobal _ _ _ h fun _ => Data.noConfusion

theorem run_clock_owns_nothing (platform : Platform) (genesis : Genesis) (events : List Event) :
    ClockOwnsNothing (run platform genesis.world events) := by
  refine run_preserves platform ClockOwnsNothing (fun w event h => ?_) _ ?_ events
  · rcases event_cases platform w event with
      ⟨he, -⟩ | ⟨authority, call, instruction, v, calls, rfl, ht⟩
    · exact h.stored w _ (elsewhere_stored w _ he)
    · exact (h.step w v authority _ instruction calls ht.distinct ht.step).stored v _
        ht.invoked.stored_eq
  · intro id x hx
    rw [(genesis_uninitialized genesis).positionAt] at hx
    cases hx

section
variable (w : Accounts) (o u : AccountId)

theorem ne_of_holding (id : AccountId) (held : Holding) (hu : (w u).data = .tokenHolding held)
    (data : Data) (hid : (w id).data = data) (hd : ∀ held, data ≠ .tokenHolding held) : u ≠ id := by
  rintro rfl
  exact hd held (hid.symm.trans hu)

theorem nodup_callers (ids : List AccountId) (hids : ids.Nodup) (hne : o ≠ u)
    (ho : ∀ id ∈ ids, o ≠ id) (hu : ∀ id ∈ ids, u ≠ id) : (o :: u :: ids).Nodup := by
  refine List.nodup_cons.mpr ⟨fun hm => ?_, List.nodup_cons.mpr ⟨fun hm => hu u hm rfl, hids⟩⟩
  rcases List.mem_cons.mp hm with he | hm
  · exact hne he
  · exact ho o hm rfl

end

theorem accumulated_grows (anchor rate v : U128) (since now : U64)
    (hrate : fixedPointOne.val ≤ rate.val)
    (h : computeCurrentAccumulatedRate anchor rate since now = .ok v) : anchor.val ≤ v.val := by
  rw [computeCurrentAccumulatedRate_eq _ _ _ _ _ h, exactProjection,
    Nat.le_div_iff_mul_le fixedPointOne_pos]
  exact Nat.mul_le_mul_left _ (exactFactor_ge_one _ _ hrate)

def dueFees (accumulator : StabilityFeeAccumulator) (rate : U128) : ℕ :=
  accumulator.totalNormalizedDebt.val
    * (rate.val - accumulator.accumulatedRateAtLastAccrual.val) / fixedPointOne.val

/-- An accrual succeeds if the rate and the fees fit. -/
theorem accrual_exists (params : ProtocolParameters) (accumulator : StabilityFeeAccumulator)
    (now : U64) (rate : U128) (hfee : fixedPointOne.val ≤ params.stabilityFeePerMillisecond.val)
    (hrate : computeCurrentAccumulatedRate accumulator.accumulatedRateAtLastAccrual
      params.stabilityFeePerMillisecond accumulator.lastAccruedAt now = .ok rate)
    (hfits : dueFees accumulator rate < 2 ^ 128) :
    accrueFees params accumulator now = .ok
      ⟨⟨rate, now, accumulator.totalNormalizedDebt⟩, ⟨dueFees accumulator rate, hfits⟩⟩ := by
  have hgrows := accumulated_grows _ _ _ _ _ hfee hrate
  have hdelta : rate.val - accumulator.accumulatedRateAtLastAccrual.val < 2 ^ 128 :=
    (Nat.sub_le _ _).trans_lt rate.isLt
  simp only [accrueFees, bind_eq_ok, pure_eq_ok, expect_eq_ok, checkedSub_eq_some, mulDiv_eq_ok]
  exact ⟨rate, hrate, ⟨_, hdelta⟩, Nat.sub_add_cancel hgrows, ⟨_, hfits⟩,
    ⟨fixedPointOne_pos.ne', rfl⟩, rfl⟩

theorem CurrentRate.unique (w : Accounts) (rate rate' : U128) (h : CurrentRate w rate)
    (h' : CurrentRate w rate') : rate = rate' := by
  obtain ⟨p, a, now, hp, ha, hnow, hrate⟩ := h
  obtain ⟨p', a', now', hp', ha', hnow', hrate'⟩ := h'
  obtain rfl := Option.some.inj (hp.symm.trans hp')
  obtain rfl := Option.some.inj (ha.symm.trans ha')
  obtain rfl := Data.clock.inj (hnow.symm.trans hnow')
  exact Except.ok.inj (hrate.symm.trans hrate')

def SupplyFits (w : Accounts) (amount : ℕ) : Prop :=
  ∀ accumulator rate, storedAccumulator w = some accumulator → CurrentRate w rate →
    supplyOf w definitionId + dueFees accumulator rate + amount < 2 ^ 128

def DebtFits (w : Accounts) (amount : U128) : Prop :=
  ∀ accumulator rate delta, storedAccumulator w = some accumulator → CurrentRate w rate →
    mulDivCeil amount fixedPointOne rate = .ok delta →
    accumulator.totalNormalizedDebt.val + delta.val < 2 ^ 128

theorem supply_lt (d : Definition) : d.supply < 2 ^ 128 := by
  cases d <;> exact Fin.isLt _

theorem supplyOf_eq (w : Accounts) (id : AccountId) (d : Definition)
    (h : DefinitionAt w id d) (hf : d.isFungible) : supplyOf w id = d.supply := by
  rw [supplyOf, h, Option.elim_some]
  cases d with
  | fungible => rfl
  | nonFungible => exact hf.elim

theorem settle_concat (tickMath : TwapOracle.TickMath) (depth : ℕ) (self : AccountId)
    (authority : List AccountId) (w : Accounts) (calls : List ChainedCall) (call : ChainedCall) :
    settle tickMath depth self authority w (calls ++ [call]) =
      settle tickMath depth self authority w calls >>= fun v =>
        invoke tickMath depth v (callAuthority authority self call) call := by
  rw [settle, List.foldlM_append]
  simp only [List.foldlM_cons, List.foldlM_nil, bind_pure]
  rfl

section
variable (tickMath : TwapOracle.TickMath) (depth : ℕ) (authority : List AccountId)
variable (v : Accounts) (name : String) (metadata : Option AccountId) (supply fees : U128)
  (hd : DefinitionAt v definitionId (.fungible name supply metadata (some definitionId)))

theorem definition_authorized (tokenProgram holding : AccountId) (amount : U128) :
    definitionId ∈ callAuthority authority stablecoinProgramId
      (mintCall tokenProgram definitionId holding amount) :=
  List.mem_append_right _ (List.mem_map.mpr ⟨_, List.mem_singleton_self _, rfl⟩)

include hd

theorem surplus_settles (y : U128) (hm : HoldingAt v masterId (.fungible definitionId y))
    (hle : y.val ≤ supply.val) (hfits : supply.val + fees.val < 2 ^ 128) :
    ∃ v' supply', settle tickMath (depth + 1) stablecoinProgramId authority v
        (surplusCalls tokenProgramId definitionId stablecoinProgramId fees) = .ok v' ∧
      Touches v v' definitionId masterId ∧
      DefinitionAt v' definitionId (.fungible name supply' metadata (some definitionId)) ∧
      supply'.val = supply.val + fees.val := by
  unfold surplusCalls
  split
  · obtain ⟨v', supply', y', hv', htouches, hd', -, hs, -⟩ := mint_succeeds tickMath depth v
      (callAuthority authority stablecoinProgramId (mintCall tokenProgramId definitionId masterId fees))
      definitionId masterId fees [computeStablecoinDefinitionPdaSeed] (by decide) name supply metadata
      y hd (Or.inr hm) (definition_authorized authority _ _ _) hfits (by omega)
    refine ⟨v', supply', ?_, htouches, hd', hs⟩
    simp only [settle, List.foldlM_cons, List.foldlM_nil, bind_pure]
    exact hv'
  · exact ⟨v, supply, rfl, fun _ _ _ => rfl, hd, by omega⟩

variable (u : AccountId) (balance amount : U128)
  (hu : HoldingAt v u (.fungible definitionId balance)) (hum : u ≠ masterId)
include hu hum

theorem generation_settles (y : U128) (hm : HoldingAt v masterId (.fungible definitionId y))
    (hle : y.val ≤ supply.val) (hfits : supply.val + fees.val + amount.val < 2 ^ 128)
    (hbalance : balance.val + amount.val < 2 ^ 128) :
    ∃ v', settle tickMath (depth + 1) stablecoinProgramId authority v
      (surplusCalls tokenProgramId definitionId stablecoinProgramId fees ++
        [mintCall tokenProgramId definitionId u amount]) = .ok v' := by
  have hud : u ≠ definitionId := by
    rintro rfl
    cases hu.symm.trans hd
  obtain ⟨v', supply', hv', htouches, hd', hs⟩ := surplus_settles tickMath depth authority v name
    metadata supply fees hd y hm hle (by omega)
  obtain ⟨v'', -, -, hv'', -⟩ := mint_succeeds tickMath depth v'
    (callAuthority authority stablecoinProgramId (mintCall tokenProgramId definitionId u amount))
    definitionId u amount [computeStablecoinDefinitionPdaSeed] hud.symm name supply' metadata balance
    hd' (Or.inr (htouches.holdingAt _ _ _ _ _ _ hud hum hu)) (definition_authorized authority _ _ _)
    (by omega) hbalance
  exact ⟨v'', by rw [settle_concat, hv', ok_bind]; exact hv''⟩

theorem repayment_settles (y : U128) (hm : HoldingAt v masterId (.fungible definitionId y))
    (hle : y.val ≤ supply.val) (hfits : supply.val + fees.val < 2 ^ 128) (hauth : u ∈ authority)
    (hpays : amount.val ≤ balance.val) (hsupply : balance.val ≤ supply.val) :
    ∃ v', settle tickMath (depth + 1) stablecoinProgramId authority v
      (surplusCalls tokenProgramId definitionId stablecoinProgramId fees ++
        [burnCall tokenProgramId definitionId u amount]) = .ok v' := by
  have hud : u ≠ definitionId := by
    rintro rfl
    cases hu.symm.trans hd
  obtain ⟨v', supply', hv', htouches, hd', hs⟩ := surplus_settles tickMath depth authority v name
    metadata supply fees hd y hm hle hfits
  obtain ⟨v'', -, -, hv'', -⟩ := burn_succeeds tickMath depth v'
    (callAuthority authority stablecoinProgramId (burnCall tokenProgramId definitionId u amount))
    definitionId u amount [] hud.symm name supply' metadata (some definitionId) balance
    hd' (htouches.holdingAt _ _ _ _ _ _ hud hum hu) (List.mem_append_left _ hauth)
    (by omega) hpays
  exact ⟨v'', by rw [settle_concat, hv', ok_bind]; exact hv''⟩

end

structure DebtInputs (w : Accounts) (o x u : AccountId) (data : Position)
    (params : ProtocolParameters) (accumulator : StabilityFeeAccumulator) (now : U64) (rate : U128)
    (balance : U128) : Prop where
  derived : x = computePositionPda stablecoinProgramId o data.positionNonce
  owner : data.ownerAccountId = o
  position : Holds stablecoinProgramId (w x) (.position data)
  parameters : Holds stablecoinProgramId (w parametersId) (.protocolParameters params)
  accumulates : Holds stablecoinProgramId (w accumulatorId) (.stabilityFeeAccumulator accumulator)
  clock : (w clock01ProgramAccountId).data = .clock now
  rate : computeCurrentAccumulatedRate accumulator.accumulatedRateAtLastAccrual
    params.stabilityFeePerMillisecond accumulator.lastAccruedAt now = .ok rate
  sameProgram : (w u).programOwner = (w definitionId).programOwner
  holding : (w u).data = .tokenHolding (.fungible definitionId balance)

section
variable (w : Accounts) (he : Established w) (hclock : ClockOwnsNothing w)
variable (authority : List AccountId) (hg : Granted authority)
variable (o x u : AccountId) (data : Position) (params : ProtocolParameters)
  (accumulator : StabilityFeeAccumulator) (now : U64) (rate balance : U128)
  (h : DebtInputs w o x u data params accumulator now rate balance)

include h in
theorem DebtInputs.storedAccumulator : storedAccumulator w = some accumulator :=
  Holds.storedAccumulator w accumulator h.accumulates

include h in
theorem DebtInputs.current : CurrentRate w rate :=
  ⟨params, accumulator, now, Holds.storedParameters w params h.parameters, h.storedAccumulator,
    h.clock, h.rate⟩

include he h

theorem DebtInputs.represents : ∃ s, Represents w s ∧ s.parameters = params :=
  he.represents w params (Holds.storedParameters w params h.parameters)

/-- The stablecoin can be minted, and the master holding takes it. -/
theorem DebtInputs.stablecoin : ∃ name metadata, ∃ supply y : U128,
    DefinitionAt w definitionId (.fungible name supply metadata (some definitionId)) ∧
      HoldingAt w masterId (.fungible definitionId y) := by
  have hp := Holds.storedParameters w params h.parameters
  obtain ⟨s, hr, -⟩ := he.represents w params hp
  obtain ⟨d, hd, hm, hf, -⟩ := hr.tokens.definition
  obtain ⟨held, hheld, hkind, htoken⟩ := (he.2 params hp).master
  cases d with
  | nonFungible => exact hf.elim
  | fungible name supply metadata mintAuthority =>
    obtain rfl : mintAuthority = some definitionId := hm
    cases held with
    | fungible token y =>
      obtain rfl : token = definitionId := htoken
      exact ⟨name, metadata, supply, y, hd, hheld⟩
    | nftMaster => cases hkind
    | nftPrintedCopy => cases hkind

theorem DebtInputs.held : HoldingAt w u (.fungible definitionId balance) :=
  (owned_eq_some _ _ _ _).mpr ⟨h.sameProgram.trans
    (he.tokens w params (Holds.storedParameters w params h.parameters)).1, h.holding⟩

/-- What a change of debt reads after the accrual. -/
theorem DebtInputs.reads (ho : o ∈ authority) (accrual : FeeAccrual)
    (ha : accrueFees params accumulator now = .ok accrual) :
    DebtReads w authority o x definitionId u data params accumulator now accrual := by
  obtain ⟨s, hr, rfl⟩ := h.represents w he _ _ _ _ _ _ _ _ _
  obtain ⟨hd, hm, hdne, hmne⟩ := he.tokens w _ (Holds.storedParameters w _ h.parameters)
  exact ⟨⟨ho, h.position, h.derived, h.owner⟩, ⟨h.parameters, h.accumulates, h.clock, ha,
    hr.named.symm, hm.trans hd.symm⟩, hdne, hmne, h.sameProgram, _, h.holding, rfl⟩

include hclock hg

/-- The caller's accounts differ from those of the program as soon as they differ from each other
and the holding is not the master holding. -/
theorem DebtInputs.nodup (ho : o ∈ authority) (hne : o ≠ u) (hum : u ≠ masterId) :
    (o :: u :: x :: [definitionId, masterId, accumulatorId, redemptionId, parametersId,
      clock01ProgramAccountId]).Nodup := by
  obtain ⟨s, hr, rfl⟩ := h.represents w he _ _ _ _ _ _ _ _ _
  obtain ⟨d, hd, -⟩ := hr.tokens.definition
  have hredemption := ((owned_eq_some _ _ _ _).mp hr.records.redemption).2
  have hderived : ∀ id : AccountId, id.DerivedBy stablecoinProgramId → o ≠ id := by
    rintro id hid rfl
    exact hg o ho stablecoinProgramId (by decide) hid
  have hoc : o ≠ clock01ProgramAccountId := by
    rw [← h.owner]
    exact hclock x data ((positionAt_eq_some w x data).mpr (Holds.owned_eq _ _ _ _ h.position))
  have huid := ne_of_holding w u
  refine nodup_callers o u _ ?_ hne ?_ ?_
  · refine List.nodup_cons.mpr ⟨fun hm => ?_, by decide⟩
    rw [h.derived] at hm
    simp only [List.mem_cons, List.not_mem_nil, or_false] at hm
    rcases hm with hm | hm | hm | hm | hm | hm <;> cases hm
  · intro id hid
    simp only [List.mem_cons, List.not_mem_nil, or_false] at hid
    rcases hid with rfl | rfl | rfl | rfl | rfl | rfl | rfl
    · exact hderived _ (by rw [h.derived]; rfl)
    · exact hderived _ rfl
    · exact hderived _ rfl
    · exact hderived _ rfl
    · exact hderived _ rfl
    · exact hderived _ rfl
    · exact hoc
  · intro id hid
    simp only [List.mem_cons, List.not_mem_nil, or_false] at hid
    rcases hid with rfl | rfl | rfl | rfl | rfl | rfl | rfl
    · exact huid _ _ h.holding _ h.position.2 fun _ => Data.noConfusion
    · exact huid _ _ h.holding _ hd.data fun _ => Data.noConfusion
    · exact hum
    · exact huid _ _ h.holding _ h.accumulates.2 fun _ => Data.noConfusion
    · exact huid _ _ h.holding _ hredemption fun _ => Data.noConfusion
    · exact huid _ _ h.holding _ h.parameters.2 fun _ => Data.noConfusion
    · exact huid _ _ h.holding _ h.clock fun _ => Data.noConfusion

end

/-- No position owes more than the accumulator counts. -/
theorem debt_le_total (w : Accounts) (h : Sound w) (x : AccountId) (data : Position)
    (accumulator : StabilityFeeAccumulator) (hx : Holds stablecoinProgramId (w x) (.position data))
    (ha : Holds stablecoinProgramId (w accumulatorId) (.stabilityFeeAccumulator accumulator)) :
    data.normalizedDebtAmount.val ≤ accumulator.totalNormalizedDebt.val := by
  rcases h with hu | ⟨s, hs, -, hbal, -⟩
  · exact (hu.not_holds w _ _ hx).elim
  · obtain rfl := hs.reads_accumulator w s accumulator ha
    have hstored := Holds.owned_eq _ _ _ _ hx
    have hdebt := hbal.debt_le _ x ((hs.records.live x).mpr ⟨data, hstored⟩)
    rwa [(hs.records.amounts x data hstored).1, hs.records.total] at hdebt

def generateCall (o x u : AccountId) (amount : U128) : ChainedCall :=
  .new stablecoinProgramId [o, x, definitionId, u, masterId, accumulatorId, redemptionId,
    parametersId, clock01ProgramAccountId] (.stablecoin (.generateDebt amount))

def repayCall (o x u : AccountId) (amount : U128) : ChainedCall :=
  .new stablecoinProgramId [o, x, definitionId, u, masterId, accumulatorId, parametersId,
    clock01ProgramAccountId] (.stablecoin (.repayDebt amount))

section
variable (platform : Platform) (w : Accounts) (he : Established w)

/-- The fees of a successful accrual fitted into the supply. -/
theorem surplus_supply (v w' : Accounts) (authority : List AccountId) (tokenProgram : AccountId)
    (fees : U128) (d : Definition) (hd : DefinitionAt v definitionId d)
    (h : Settled stablecoinProgramId authority v
      (surplusCalls tokenProgram definitionId stablecoinProgramId fees) w') :
    d.supply + fees.val < 2 ^ 128 := by
  obtain ⟨d', -, -, -, hs⟩ := surplus_settled authority v w' tokenProgram fees d h hd
  rw [← hs]
  exact supply_lt d'

theorem AccrualReads.fits (d : AccountId) (params : ProtocolParameters)
    (accumulator : StabilityFeeAccumulator) (now : U64) (accrual : FeeAccrual) (amount : ℕ)
    (h : AccrualReads stablecoinProgramId w parametersId d params accumulator now accrual)
    (hfits : supplyOf w definitionId + accrual.accruedFees.val + amount < 2 ^ 128) :
    SupplyFits w amount := by
  intro accumulator' rate hstored hcurrent
  obtain rfl := Option.some.inj
    ((Holds.storedAccumulator w accumulator h.accumulates).symm.trans hstored)
  obtain rfl := hcurrent.unique w _ _ h.current
  rw [dueFees, ← (accrueFees_spec _ _ _ _ h.computed).2.2]
  exact hfits

include he

/-- A successful generation of debt found room in the supply and in the total of the debts. -/
theorem generate_fits (w' : Accounts) (authority : List AccountId) (o x u : AccountId) (amount : U128)
    (h : transact platform w authority (generateCall o x u amount) = .ok w') :
    u ≠ o ∧ u ≠ masterId ∧ SupplyFits w amount.val ∧ DebtFits w amount := by
  obtain ⟨v, calls, hperf, hs⟩ := transact_settled platform w w' authority _ h _ rfl
  obtain ⟨hn, -, data, params, accumulator, redemption, now, accrual, delta, newDebt, newTotal,
    reads, -, -, hdelta, -, htotal, -, -, -, rfl⟩ :=
    (performs_generate w v authority calls o x definitionId u _ _ _ _ _ amount).mp hperf
  have hp := Holds.storedParameters w params reads.accrues.parameters
  obtain ⟨s, hr, rfl⟩ := he.represents w params hp
  obtain ⟨d, hd, -, hf, -⟩ := hr.tokens.definition
  have htokens := owned_frame tokenProgramId stablecoinProgramId w v hperf.frame (by decide)
    (by decide)
  have hdv : DefinitionAt v definitionId d := by rwa [DefinitionAt, htokens]
  obtain ⟨v', hsurplus, hmint⟩ := (settled_append _ _ _ _ _ _).mp hs
  obtain ⟨d', hd', -, -, hsupply⟩ := surplus_settled authority v v' _ _ d hsurplus hdv
  obtain ⟨d'', -, -, -, hsupply'⟩ :=
    (((settled_singleton _ _ _ _ _).mp hmint).transition _ _ _ _ _ rfl).2.minted _ _ _ _ _ _ d' hd'
  refine ⟨?_, ?_, reads.accrues.fits w _ _ _ _ _ _ ?_, ?_⟩
  · rintro rfl
    simp at hn
  · rintro rfl
    simp at hn
  · rw [supplyOf_eq w _ d hd hf, ← hsupply, ← hsupply']
    exact supply_lt d''
  · intro accumulator' rate delta' hstored hcurrent hdelta'
    obtain rfl := Option.some.inj
      ((Holds.storedAccumulator w accumulator reads.accrues.accumulates).symm.trans hstored)
    obtain rfl := hcurrent.unique w _ _ reads.accrues.current
    obtain rfl := Except.ok.inj (hdelta'.symm.trans hdelta)
    rw [← (accrueFees_spec _ _ _ _ reads.accrues.computed).2.1, ← htotal]
    exact newTotal.isLt

theorem repay_fits (w' : Accounts) (authority : List AccountId) (o x u : AccountId) (amount : U128)
    (h : transact platform w authority (repayCall o x u amount) = .ok w') :
    u ≠ o ∧ SupplyFits w 0 := by
  obtain ⟨v, calls, hperf, hs⟩ := transact_settled platform w w' authority _ h _ rfl
  obtain ⟨hn, -, -, data, params, accumulator, now, accrual, delta, newDebt, newTotal, reads, -, -,
    -, -, rfl⟩ :=
    (performs_repay w v authority calls o x definitionId u _ _ _ _ amount).mp hperf
  have hp := Holds.storedParameters w params reads.accrues.parameters
  obtain ⟨s, hr, rfl⟩ := he.represents w params hp
  obtain ⟨d, hd, -, hf, -⟩ := hr.tokens.definition
  have htokens := owned_frame tokenProgramId stablecoinProgramId w v hperf.frame (by decide)
    (by decide)
  have hdv : DefinitionAt v definitionId d := by rwa [DefinitionAt, htokens]
  obtain ⟨v', hsurplus, -⟩ := (settled_append _ _ _ _ _ _).mp hs
  refine ⟨?_, reads.accrues.fits w _ _ _ _ _ _ ?_⟩
  · rintro rfl
    simp at hn
  · rw [supplyOf_eq w _ d hd hf]
    exact surplus_supply v v' authority _ _ d hdv hsurplus

variable (hcalls : 2 ≤ platform.callDepth) (hc : Conserved w) (hclock : ClockOwnsNothing w)
variable (authority : List AccountId) (hg : Granted authority)
variable (o x u : AccountId) (data : Position) (params : ProtocolParameters)
  (accumulator : StabilityFeeAccumulator) (now : U64) (rate balance amount delta : U128)
  (h : DebtInputs w o x u data params accumulator now rate balance) (ho : o ∈ authority)
include hcalls hc hclock hg h ho

theorem generate_succeeds (redemption : RedemptionPriceState) (newDebt : U128)
    (hfrozen : params.isFrozen = false)
    (hredemption : Holds stablecoinProgramId (w redemptionId) (.redemptionPriceState redemption))
    (hdelta : mulDivCeil amount fixedPointOne rate = .ok delta)
    (hdebt : newDebt.val = data.normalizedDebtAmount.val + delta.val)
    (hprice : (computeCurrentRedemptionPriceWide redemption.redemptionPriceAtLastUpdate
      redemption.redemptionRatePerMillisecond redemption.lastUpdatedAt now).val ≠ 0)
    (hcol : assertPositionIsCollateralized { data with normalizedDebtAmount := newDebt }
      (widen rate (by decide)) (computeCurrentRedemptionPriceWide
        redemption.redemptionPriceAtLastUpdate redemption.redemptionRatePerMillisecond
        redemption.lastUpdatedAt now) params.minimumCollateralizationRatio = .ok ())
    (hbalance : balance.val + amount.val < 2 ^ 128) (hne : u ≠ o) (hum : u ≠ masterId)
    (hsupply : SupplyFits w amount.val) (htotal : DebtFits w amount) :
    ∃ w', transact platform w authority (generateCall o x u amount) = .ok w' := by
  obtain ⟨s, hr, rfl⟩ := h.represents w he _ _ _ _ _ _ _ _ _
  obtain ⟨name, metadata, supply, y, hd, hm⟩ := h.stablecoin w he _ _ _ _ _ _ _ _ _
  have hfits := hsupply _ _ h.storedAccumulator h.current
  rw [supplyOf_eq w _ _ hd trivial] at hfits
  have hduefees : dueFees accumulator rate < 2 ^ 128 := by omega
  have haccrual := accrual_exists s.parameters accumulator now rate hr.parameters.feeLower h.rate
    hduefees
  have hreads := h.reads w he authority _ _ _ _ _ _ _ _ _ ho _ haccrual
  have hnewTotal := htotal _ _ delta h.storedAccumulator h.current hdelta
  have hn : [o, x, definitionId, u, masterId, accumulatorId, redemptionId, parametersId,
      clock01ProgramAccountId].Nodup := by
    refine (List.Perm.nodup_iff ?_).mp
      (h.nodup w he hclock authority hg _ _ _ _ _ _ _ _ _ ho hne.symm hum)
    exact List.Perm.cons o ((@List.perm_middle _ _ [x, definitionId] _).symm)
  have hperf := (performs_generate w _ authority _ o x definitionId u masterId accumulatorId
    redemptionId parametersId clock01ProgramAccountId amount).mpr ⟨hn, ⟨rfl, rfl, rfl, rfl, rfl⟩,
      data, _, accumulator, redemption, now, _, delta, newDebt, ⟨_, hnewTotal⟩, hreads, hfrozen,
      hredemption, hdelta, hdebt, rfl, hprice, hcol, rfl, rfl⟩
  have htokens := owned_frame tokenProgramId stablecoinProgramId w _ hperf.frame (by decide)
    (by decide)
  obtain ⟨depth, hdepth⟩ := Nat.exists_eq_add_of_le' hcalls
  obtain ⟨w', hw'⟩ := generation_settles platform.tickMath depth authority _ name metadata supply
    ⟨dueFees accumulator rate, hduefees⟩ (by rwa [DefinitionAt, htokens]) u balance amount
    (by rw [HoldingAt, htokens]; exact h.held w he _ _ _ _ _ _ _ _ _) hum y
    (by rwa [HoldingAt, htokens])
    (by
      have hle := hc.le_supply w definitionId masterId y (Or.inr hm)
      rwa [supplyOf_eq w _ _ hd trivial] at hle) hfits hbalance
  rw [hd.owner] at hperf
  exact ⟨w', (transact_eq_ok platform w w' authority _ _ rfl).mpr ⟨hg, rfl, depth + 1, _, _, hdepth,
    hperf, hw'⟩⟩

theorem repay_succeeds (hdelta : mulDiv amount fixedPointOne rate = .ok delta)
    (hdebt : delta.val ≤ data.normalizedDebtAmount.val) (hpays : amount.val ≤ balance.val)
    (hu : u ∈ authority) (hne : u ≠ o) (hsupply : SupplyFits w 0) :
    ∃ w', transact platform w authority (repayCall o x u amount) = .ok w' := by
  obtain ⟨s, hr, rfl⟩ := h.represents w he _ _ _ _ _ _ _ _ _
  obtain ⟨name, metadata, supply, y, hd, hm⟩ := h.stablecoin w he _ _ _ _ _ _ _ _ _
  have hheld := h.held w he _ _ _ _ _ _ _ _ _
  have hfits := hsupply _ _ h.storedAccumulator h.current
  rw [supplyOf_eq w _ _ hd trivial, Nat.add_zero] at hfits
  have hduefees : dueFees accumulator rate < 2 ^ 128 := (Nat.le_add_left _ _).trans_lt hfits
  have haccrual := accrual_exists s.parameters accumulator now rate hr.parameters.feeLower h.rate
    hduefees
  have hreads := h.reads w he authority _ _ _ _ _ _ _ _ _ ho _ haccrual
  have hum : u ≠ masterId := by
    rintro rfl
    exact hg _ hu stablecoinProgramId (by decide) derivedBy_master
  have hn : [o, x, definitionId, u, masterId, accumulatorId, parametersId,
      clock01ProgramAccountId].Nodup := by
    have hperm := (List.Perm.nodup_iff (List.Perm.cons o
      ((@List.perm_middle _ _ [x, definitionId] _).symm))).mp
      (h.nodup w he hclock authority hg _ _ _ _ _ _ _ _ _ ho hne.symm hum)
    exact hperm.sublist (((List.sublist_cons_self redemptionId _).cons_cons accumulatorId
      |>.cons_cons masterId |>.cons_cons u |>.cons_cons definitionId |>.cons_cons x).cons_cons o)
  have hle := debt_le_total w he.1 x data accumulator h.position h.accumulates
  have hperf := (performs_repay w _ authority _ o x definitionId u masterId accumulatorId
    parametersId clock01ProgramAccountId amount).mpr ⟨hn, ⟨rfl, rfl, rfl, rfl⟩, hu, data, _,
      accumulator, now, _, delta, ⟨_, (Nat.sub_le _ delta.val).trans_lt data.normalizedDebtAmount.isLt⟩,
      ⟨_, (Nat.sub_le _ delta.val).trans_lt accumulator.totalNormalizedDebt.isLt⟩, hreads, hdelta,
      Nat.sub_add_cancel hdebt, Nat.sub_add_cancel (hdebt.trans hle), rfl, rfl⟩
  have htokens := owned_frame tokenProgramId stablecoinProgramId w _ hperf.frame (by decide)
    (by decide)
  have hsupplies : ∀ id z, HoldingAt w id (.fungible definitionId z) → z.val ≤ supply.val := by
    intro id z hz
    have hle := hc.le_supply w definitionId id z (Or.inr hz)
    rwa [supplyOf_eq w _ _ hd trivial] at hle
  obtain ⟨depth, hdepth⟩ := Nat.exists_eq_add_of_le' hcalls
  obtain ⟨w', hw'⟩ := repayment_settles platform.tickMath depth authority _ name metadata supply
    ⟨dueFees accumulator rate, hduefees⟩ (by rwa [DefinitionAt, htokens]) u balance amount
    (by rwa [HoldingAt, htokens]) hum y (by rwa [HoldingAt, htokens]) (hsupplies _ _ hm) hfits hu
    hpays (hsupplies _ _ hheld)
  rw [hd.owner] at hperf
  exact ⟨w', (transact_eq_ok platform w w' authority _ _ rfl).mpr ⟨hg, rfl, depth + 1, _, _, hdepth,
    hperf, hw'⟩⟩

end

def withdrawCollateralCall (o x u : AccountId) (amount : U128) : ChainedCall :=
  .new stablecoinProgramId [o, x, vaultId x, u, accumulatorId, redemptionId, parametersId,
    clock01ProgramAccountId] (.stablecoin (.withdrawCollateral amount))

structure WithdrawalInputs (w : Accounts) (o x u : AccountId) (data : Position)
    (params : ProtocolParameters) (accumulator : StabilityFeeAccumulator)
    (redemption : RedemptionPriceState) (now : U64) (vaultBalance balance : U128) : Prop where
  derived : x = computePositionPda stablecoinProgramId o data.positionNonce
  owner : data.ownerAccountId = o
  vault : data.vaultAccountId = vaultId x
  position : Holds stablecoinProgramId (w x) (.position data)
  parameters : Holds stablecoinProgramId (w parametersId) (.protocolParameters params)
  accumulates : Holds stablecoinProgramId (w accumulatorId) (.stabilityFeeAccumulator accumulator)
  redemption : Holds stablecoinProgramId (w redemptionId) (.redemptionPriceState redemption)
  clock : (w clock01ProgramAccountId).data = .clock now
  vaultHolding : (w (vaultId x)).data
    = .tokenHolding (.fungible params.collateralDefinitionId vaultBalance)
  sameProgram : (w u).programOwner = (w (vaultId x)).programOwner
  holding : (w u).data = .tokenHolding (.fungible params.collateralDefinitionId balance)

section
variable (platform : Platform) (hcalls : 2 ≤ platform.callDepth) (w : Accounts)
  (he : Established w) (hclock : ClockOwnsNothing w)
variable (authority : List AccountId) (hg : Granted authority)
variable (o x u : AccountId) (data : Position) (params : ProtocolParameters)
  (accumulator : StabilityFeeAccumulator) (redemption : RedemptionPriceState) (now : U64)
  (vaultBalance balance amount remaining : U128)
  (h : WithdrawalInputs w o x u data params accumulator redemption now vaultBalance balance)
include he h

/-- The token program keeps the vault of a position. -/
theorem WithdrawalInputs.vaultAt :
    HoldingAt w (vaultId x) (.fungible params.collateralDefinitionId vaultBalance) := by
  have hp := Holds.storedParameters w params h.parameters
  obtain ⟨s, hr, -⟩ := he.represents w params hp
  have hlive := (hr.records.live x).mpr ⟨data, Holds.owned_eq _ _ _ _ h.position⟩
  obtain ⟨held, hheld, -⟩ := hr.tokens.vaults x hlive
  exact (owned_eq_some _ _ _ _).mpr ⟨hheld.owner, h.vaultHolding⟩

include hclock hg

omit he in
theorem WithdrawalInputs.nodup (ho : o ∈ authority) (hne : u ≠ o) (huk : u ≠ vaultId x) :
    [o, x, vaultId x, u, accumulatorId, redemptionId, parametersId,
      clock01ProgramAccountId].Nodup := by
  have hderived : ∀ id : AccountId, id.DerivedBy stablecoinProgramId → o ≠ id := by
    rintro id hid rfl
    exact hg o ho stablecoinProgramId (by decide) hid
  have hoc : o ≠ clock01ProgramAccountId := by
    rw [← h.owner]
    exact hclock x data ((positionAt_eq_some w x data).mpr (Holds.owned_eq _ _ _ _ h.position))
  have huid := ne_of_holding w u
  have hx : x.DerivedBy stablecoinProgramId := by
    rw [h.derived]
    rfl
  have hglobals : ∀ id ∈ [accumulatorId, redemptionId, parametersId, clock01ProgramAccountId],
      id ≠ x ∧ id ≠ vaultId x := by
    intro id hid
    rw [h.derived]
    simp only [List.mem_cons, List.not_mem_nil, or_false] at hid
    rcases hid with rfl | rfl | rfl | rfl <;> exact ⟨fun he => (by cases he), fun he => (by cases he)⟩
  have hprogram : (x :: vaultId x :: [accumulatorId, redemptionId, parametersId,
      clock01ProgramAccountId]).Nodup := by
    refine nodup_callers x (vaultId x) _ (by decide) ?_ (fun id hid => (hglobals id hid).1.symm)
      fun id hid => (hglobals id hid).2.symm
    intro hxk
    exact absurd (h.position.2.symm.trans ((congrArg (fun id => (w id).data) hxk).trans
      h.vaultHolding)) Data.noConfusion
  refine (List.Perm.nodup_iff ?_).mp (nodup_callers o u _ hprogram hne.symm ?_ ?_)
  · exact List.Perm.cons o ((@List.perm_middle _ _ [x, vaultId x] _).symm)
  · intro id hid
    simp only [List.mem_cons, List.not_mem_nil, or_false] at hid
    rcases hid with rfl | rfl | rfl | rfl | rfl | rfl
    · exact hderived _ hx
    · exact hderived _ rfl
    · exact hderived _ rfl
    · exact hderived _ rfl
    · exact hderived _ rfl
    · exact hoc
  · intro id hid
    simp only [List.mem_cons, List.not_mem_nil, or_false] at hid
    rcases hid with rfl | rfl | rfl | rfl | rfl | rfl
    · exact huid _ _ h.holding _ h.position.2 fun _ => Data.noConfusion
    · exact huk
    · exact huid _ _ h.holding _ h.accumulates.2 fun _ => Data.noConfusion
    · exact huid _ _ h.holding _ h.redemption.2 fun _ => Data.noConfusion
    · exact huid _ _ h.holding _ h.parameters.2 fun _ => Data.noConfusion
    · exact huid _ _ h.holding _ h.clock fun _ => Data.noConfusion

include hcalls

theorem withdraw_succeeds (ho : o ∈ authority) (hfrozen : params.isFrozen = false)
    (hrest : remaining.val + amount.val = data.collateralAmount.val)
    (hcol : assertWithdrawalIsCollateralized { data with collateralAmount := remaining } accumulator
      redemption params now amount = .ok ())
    (hvault : amount.val ≤ vaultBalance.val) (hbalance : balance.val + amount.val < 2 ^ 128)
    (hne : u ≠ o) (huk : u ≠ vaultId x) :
    ∃ w', transact platform w authority (withdrawCollateralCall o x u amount) = .ok w' := by
  have hk := h.vaultAt w he _ _ _ _ _ _ _ _ _ _
  have hu : HoldingAt w u (.fungible params.collateralDefinitionId balance) :=
    (owned_eq_some _ _ _ _).mpr ⟨h.sameProgram.trans hk.owner, h.holding⟩
  have hperf := (performs_withdraw w _ authority _ o x (vaultId x) u accumulatorId redemptionId
    parametersId clock01ProgramAccountId amount).mpr
    ⟨h.nodup w hclock authority hg _ _ _ _ _ _ _ _ _ _ ho hne huk, ⟨rfl, rfl, rfl, rfl, rfl⟩,
      data, params, accumulator, redemption, now, _, _, remaining,
      ⟨ho, h.position, h.derived, h.owner⟩, h.vault, h.parameters, hfrozen, h.accumulates,
      h.redemption, h.clock, h.vaultHolding, rfl, h.sameProgram, h.holding, rfl, hrest, hcol, rfl, rfl⟩
  have htokens := owned_frame tokenProgramId stablecoinProgramId w _ hperf.frame (by decide)
    (by decide)
  obtain ⟨depth, hdepth⟩ := Nat.exists_eq_add_of_le' hcalls
  obtain ⟨w', -, -, hw', -⟩ := transfer_succeeds platform.tickMath depth _
    (callAuthority authority stablecoinProgramId (withdrawCall tokenProgramId x (vaultId x) u amount))
    (vaultId x) u amount [computePositionVaultPdaSeed x] huk.symm params.collateralDefinitionId
    vaultBalance balance (by rwa [HoldingAt, htokens]) (Or.inr (by rwa [HoldingAt, htokens]))
    (List.mem_append_right _ (List.mem_map.mpr ⟨_, List.mem_singleton_self _, rfl⟩)) hvault hbalance
  rw [hk.owner] at hperf
  refine ⟨w', (transact_eq_ok platform w w' authority _ _ rfl).mpr ⟨hg, rfl, depth + 1, _, _, hdepth,
    hperf, ?_⟩⟩
  simp only [settle, List.foldlM_cons, List.foldlM_nil, bind_pure]
  exact hw'

end

end LezPrograms.Stablecoin
