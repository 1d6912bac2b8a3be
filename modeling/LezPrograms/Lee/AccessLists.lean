import LezPrograms.Lee.Footprint
import LezPrograms.Locality

/-! # Access lists

A program answers with diffs of the accounts that it was given, and the calls that it
chains name no others. -/

set_option autoImplicit false

namespace LezPrograms.Lee
open LezPrograms.Checked

structure Confined (accounts : List InputAccount) (diffs : List StateDiff)
    (calls : List ChainedCall) : Prop where
  diffs : ∀ diff ∈ diffs, diff.preState ∈ accounts
  calls : ∀ call ∈ calls, ∀ id ∈ call.accountIds, id ∈ accounts.map (·.accountId)

def ConfinedTo (accounts : List InputAccount) (output : HandlerResult) : Prop :=
  ∀ diffs calls, output = .ok (diffs, calls) → Confined accounts diffs calls

section
variable (accounts : List InputAccount)

theorem confined_error (m : String) : ConfinedTo accounts (.error m) :=
  fun _ _ h => absurd h (error_ne_ok _ _)

theorem confined_pure (diffs : List StateDiff) (calls : List ChainedCall)
    (h : Confined accounts diffs calls) : ConfinedTo accounts (pure (diffs, calls)) := by
  intro diffs' calls' he
  rw [pure_eq_ok, Prod.mk.injEq] at he
  obtain ⟨rfl, rfl⟩ := he
  exact h

theorem ConfinedTo.bind {α : Type} (x : Outcome α) (f : α → HandlerResult)
    (h : ∀ a, x = .ok a → ConfinedTo accounts (f a)) : ConfinedTo accounts (x >>= f) := by
  intro diffs calls he
  obtain ⟨a, ha, he⟩ := (bind_eq_ok _ _ _).mp he
  exact h a ha diffs calls he

end

section
open Amm

theorem confined_initializeConfig (owner config : InputAccount) (nonce : U256)
    (tokenProgramId twapOracleProgramId authority : AccountId) (swapFeeBps protocolFeeBps : U128)
    (program : AccountId) :
    ConfinedTo [owner, config] (initializeConfig owner config nonce tokenProgramId
      twapOracleProgramId authority swapFeeBps protocolFeeBps program) := by
  unfold initializeConfig
  repeat refine ConfinedTo.bind _ _ _ fun _ _ => ?_
  exact confined_pure _ _ _ ⟨by simp [AccountStateDiff.new, AccountStateDiff.unchanged], by simp⟩

theorem confined_updateConfig (config authority : InputAccount) (newAuthority program : AccountId) :
    ConfinedTo [config, authority] (updateConfig config authority newAuthority program) := by
  unfold updateConfig
  repeat refine ConfinedTo.bind _ _ _ fun _ _ => ?_
  exact confined_pure _ _ _ ⟨by simp [AccountStateDiff.new, AccountStateDiff.unchanged], by simp⟩

theorem confined_withdrawProtocolFees (config protocolFeeHolding destination authority : InputAccount)
    (amount : U128) (program : AccountId) :
    ConfinedTo [config, protocolFeeHolding, destination, authority]
      (withdrawProtocolFees config protocolFeeHolding destination authority amount program) := by
  unfold withdrawProtocolFees
  repeat refine ConfinedTo.bind _ _ _ fun _ _ => ?_
  exact confined_pure _ _ _ ⟨by simp [AccountStateDiff.unchanged],
    by simp [ChainedCall.new, ChainedCall.withPdaSeeds, transferCall]⟩

theorem confined_newDefinition (config pool vaultA vaultB poolDefinitionLp lpLockHolding
    userHoldingA userHoldingB userHoldingLp currentTickAccount clock : InputAccount)
    (tokenAAmount tokenBAmount : U128) (program : AccountId) :
    ConfinedTo [config, pool, vaultA, vaultB, poolDefinitionLp, lpLockHolding, userHoldingA,
        userHoldingB, userHoldingLp, currentTickAccount, clock]
      (newDefinition config pool vaultA vaultB poolDefinitionLp lpLockHolding userHoldingA
        userHoldingB userHoldingLp currentTickAccount clock tokenAAmount tokenBAmount program) := by
  unfold newDefinition
  repeat refine ConfinedTo.bind _ _ _ fun _ _ => ?_
  exact confined_pure _ _ _ ⟨by simp [AccountStateDiff.new, AccountStateDiff.unchanged],
    by simp [ChainedCall.new, ChainedCall.withPdaSeeds, transferCall]⟩

theorem updateTickCall_accountIds (oracle : AccountId) (tick pool clock config : InputAccount)
    (q : PoolDefinition) (reserveA reserveB : U128) (call : ChainedCall)
    (h : updateTickCall oracle tick pool clock config q reserveA reserveB = .ok call) :
    call.accountIds = [tick.accountId, pool.accountId, clock.accountId] := by
  simp only [updateTickCall, bind_eq_ok, pure_eq_ok] at h
  obtain ⟨_, -, _, -, rfl⟩ := h
  rfl

theorem confined_addLiquidity (config pool vaultA vaultB poolDefinitionLp userHoldingA userHoldingB
    userHoldingLp currentTickAccount clock : InputAccount)
    (minAmountLiquidity maxAmountToAddTokenA maxAmountToAddTokenB : U128) (program : AccountId) :
    ConfinedTo [config, pool, vaultA, vaultB, poolDefinitionLp, userHoldingA, userHoldingB,
        userHoldingLp, currentTickAccount, clock]
      (addLiquidity config pool vaultA vaultB poolDefinitionLp userHoldingA userHoldingB
        userHoldingLp currentTickAccount clock minAmountLiquidity maxAmountToAddTokenA
        maxAmountToAddTokenB program) := by
  unfold addLiquidity
  repeat refine ConfinedTo.bind _ _ _ fun _ _ => ?_
  rename_i call hcall
  have hids := updateTickCall_accountIds _ _ _ _ _ _ _ _ _ hcall
  exact confined_pure _ _ _ ⟨by simp [AccountStateDiff.new, AccountStateDiff.unchanged],
    by simp [ChainedCall.new, ChainedCall.withPdaSeeds, transferCall, hids]⟩

theorem confined_removeLiquidity (config pool vaultA vaultB poolDefinitionLp userHoldingA
    userHoldingB userHoldingLp currentTickAccount clock : InputAccount)
    (removeLiquidityAmount minAmountToRemoveTokenA minAmountToRemoveTokenB : U128)
    (program : AccountId) :
    ConfinedTo [config, pool, vaultA, vaultB, poolDefinitionLp, userHoldingA, userHoldingB,
        userHoldingLp, currentTickAccount, clock]
      (removeLiquidity config pool vaultA vaultB poolDefinitionLp userHoldingA userHoldingB
        userHoldingLp currentTickAccount clock removeLiquidityAmount minAmountToRemoveTokenA
        minAmountToRemoveTokenB program) := by
  unfold removeLiquidity
  repeat refine ConfinedTo.bind _ _ _ fun _ _ => ?_
  rename_i call hcall
  have hids := updateTickCall_accountIds _ _ _ _ _ _ _ _ _ hcall
  exact confined_pure _ _ _ ⟨by simp [AccountStateDiff.new, AccountStateDiff.unchanged],
    by simp [ChainedCall.new, ChainedCall.withPdaSeeds, transferCall, hids]⟩

theorem confined_syncReserves (config pool vaultA vaultB currentTickAccount clock : InputAccount)
    (program : AccountId) :
    ConfinedTo [config, pool, vaultA, vaultB, currentTickAccount, clock]
      (syncReserves config pool vaultA vaultB currentTickAccount clock program) := by
  unfold syncReserves
  repeat refine ConfinedTo.bind _ _ _ fun _ _ => ?_
  rename_i call hcall
  have hids := updateTickCall_accountIds _ _ _ _ _ _ _ _ _ hcall
  exact confined_pure _ _ _ ⟨by simp [AccountStateDiff.new, AccountStateDiff.unchanged],
    by simp [hids]⟩

theorem settleSwap_accountIds (context amountName : String) (userDeposit vaultDeposit vaultWithdraw
    userWithdraw : InputAccount) (amounts : SwapAmounts) (protocolFeeBps : U128)
    (protocolFeeHolding : InputAccount) (poolId configId : AccountId) (calls : List ChainedCall)
    (deposit withdraw : U128)
    (h : settleSwap context amountName userDeposit vaultDeposit vaultWithdraw userWithdraw amounts
      protocolFeeBps protocolFeeHolding poolId configId = .ok (calls, deposit, withdraw)) :
    ∀ call ∈ calls, ∀ id ∈ call.accountIds, id = userDeposit.accountId ∨
      id = vaultDeposit.accountId ∨ id = vaultWithdraw.accountId ∨ id = userWithdraw.accountId ∨
      id = protocolFeeHolding.accountId := by
  simp only [settleSwap, bind_eq_ok, pure_eq_ok, Prod.mk.injEq] at h
  obtain ⟨_, -, _, -, _, -, _, -, _, -, rfl, -⟩ := h
  intro call hc id hid
  rcases List.mem_append.mp hc with hc | hc
  · simp only [List.mem_cons, List.not_mem_nil, or_false] at hc
    rcases hc with rfl | rfl
    · simp only [transferCall, ChainedCall.new, ChainedCall.withPdaSeeds, List.mem_cons,
        List.not_mem_nil, or_false] at hid
      tauto
    · simp only [transferCall, ChainedCall.new, ChainedCall.withPdaSeeds, List.mem_cons,
        List.not_mem_nil, or_false] at hid
      tauto
  · split at hc
    · rw [List.mem_singleton.mp hc] at hid
      simp only [transferCall, ChainedCall.new, ChainedCall.withPdaSeeds, List.mem_cons,
        List.not_mem_nil, or_false] at hid
      tauto
    · cases hc

theorem confined_swap (context logicContext amountName : String)
    (price : U128 → U128 → U128 → Outcome SwapAmounts)
    (config pool vaultA vaultB userInputHolding userOutputHolding currentTickAccount clock
      protocolFeeHolding : InputAccount) (program : AccountId) :
    ConfinedTo [config, pool, vaultA, vaultB, userInputHolding, userOutputHolding,
        currentTickAccount, clock, protocolFeeHolding]
      (swap context logicContext amountName price config pool vaultA vaultB userInputHolding
        userOutputHolding currentTickAccount clock protocolFeeHolding program) := by
  unfold swap
  repeat refine ConfinedTo.bind _ _ _ fun _ _ => ?_
  rename_i settled hsettled _ _ call hcall
  have hids := updateTickCall_accountIds _ _ _ _ _ _ _ _ _ hcall
  refine confined_pure _ _ _ ⟨by simp [AccountStateDiff.new, AccountStateDiff.unchanged],
    fun next hnext id hid => ?_⟩
  rcases List.mem_append.mp hnext with hnext | hnext
  · have hid := settleSwap_accountIds _ _ _ _ _ _ _ _ _ _ _ _ _ _ hsettled next hnext id hid
    simp only [List.map_cons, List.map_nil, List.mem_cons]
    split_ifs at hid <;> tauto
  · rw [List.mem_singleton.mp hnext, hids] at hid
    simp only [List.map_cons, List.map_nil, List.mem_cons] at hid ⊢
    tauto

theorem confined_window (accounts : List InputAccount) (now deadline : U64)
    (output : HandlerResult) (h : ConfinedTo accounts output) :
    ConfinedTo accounts (withTimestampValidityWindow now deadline output) := by
  intro diffs calls he
  simp only [withTimestampValidityWindow, bind_eq_ok, ensure_eq_ok, exists_const, pure_eq_ok] at he
  obtain ⟨_, hresult, -, rfl⟩ := he
  exact h diffs calls hresult

theorem amm_confined (program : AccountId) (now : U64) (accounts : List InputAccount)
    (instruction : Amm.Instruction) :
    ConfinedTo accounts (Amm.main program now accounts instruction) := by
  unfold Amm.main
  split
  · exact confined_initializeConfig _ _ _ _ _ _ _ _ _
  · exact confined_updateConfig _ _ _ _
  · exact .bind _ _ _ fun _ _ => .bind _ _ _ fun _ _ => confined_window _ _ _ _
      (confined_newDefinition _ _ _ _ _ _ _ _ _ _ _ _ _ _)
  · exact .bind _ _ _ fun _ _ => confined_window _ _ _ _
      (confined_addLiquidity _ _ _ _ _ _ _ _ _ _ _ _ _ _)
  · exact .bind _ _ _ fun _ _ => confined_window _ _ _ _
      (confined_removeLiquidity _ _ _ _ _ _ _ _ _ _ _ _ _ _)
  · exact confined_window _ _ _ _ (confined_swap _ _ _ _ _ _ _ _ _ _ _ _ _ _)
  · exact confined_window _ _ _ _ (confined_swap _ _ _ _ _ _ _ _ _ _ _ _ _ _)
  · exact confined_syncReserves _ _ _ _ _ _ _
  · exact confined_withdrawProtocolFees _ _ _ _ _ _
  · exact confined_error _ _

end

section
open Stablecoin

theorem surplusMintCall_accountIds (stablecoinDefinition stablecoinMasterHolding : InputAccount)
    (parameters : ProtocolParameters) (program : AccountId) (accruedFees : U128)
    (surplusMint : Option ChainedCall)
    (h : surplusMintCall stablecoinDefinition stablecoinMasterHolding parameters program accruedFees
      = .ok surplusMint) :
    ∀ call ∈ surplusMint.toList, call.accountIds
      = [stablecoinDefinition.accountId, stablecoinMasterHolding.accountId] := by
  simp only [surplusMintCall, bind_eq_ok, ensure_eq_ok, exists_const, pure_eq_ok] at h
  obtain ⟨-, -, -, -, -, rfl⟩ := h
  intro call hc
  split at hc
  · rw [Option.toList_some, List.mem_singleton] at hc
    rw [hc]
    rfl
  · cases hc

theorem confined_initializeProgram (admin protocolParameters stabilityFeeAccumulator
    redemptionPriceState stablecoinDefinition stablecoinMasterHolding collateralDefinition
    marketPriceOracle clock : InputAccount) (program : AccountId)
    (params : InitializeProgramParams) :
    ConfinedTo [admin, protocolParameters, stabilityFeeAccumulator, redemptionPriceState,
        stablecoinDefinition, stablecoinMasterHolding, collateralDefinition, marketPriceOracle, clock]
      (initializeProgram admin protocolParameters stabilityFeeAccumulator redemptionPriceState
        stablecoinDefinition stablecoinMasterHolding collateralDefinition marketPriceOracle clock
        program params) := by
  unfold Stablecoin.initializeProgram
  repeat refine ConfinedTo.bind _ _ _ fun _ _ => ?_
  exact confined_pure _ _ _ ⟨by simp [AccountStateDiff.new, AccountStateDiff.unchanged],
    by simp [ChainedCall.new, ChainedCall.withPdaSeeds]⟩

theorem confined_accrueStabilityFee (caller protocolParameters stabilityFeeAccumulator
    stablecoinDefinition stablecoinMasterHolding clock : InputAccount) (program : AccountId) :
    ConfinedTo [caller, protocolParameters, stabilityFeeAccumulator, stablecoinDefinition,
        stablecoinMasterHolding, clock]
      (accrueStabilityFee caller protocolParameters stabilityFeeAccumulator stablecoinDefinition
        stablecoinMasterHolding clock program) := by
  unfold accrueStabilityFee
  repeat refine ConfinedTo.bind _ _ _ fun _ _ => ?_
  rename_i _ hmint
  have hids := surplusMintCall_accountIds _ _ _ _ _ _ hmint
  exact confined_pure _ _ _ ⟨by simp [AccountStateDiff.new, AccountStateDiff.unchanged],
    fun call hc => by simp [hids call hc]⟩

theorem confined_updateRedemptionRate (caller protocolParameters redemptionPriceState
    marketPriceOracle clock : InputAccount) (program : AccountId) :
    ConfinedTo [caller, protocolParameters, redemptionPriceState, marketPriceOracle, clock]
      (updateRedemptionRate caller protocolParameters redemptionPriceState marketPriceOracle clock
        program) := by
  unfold updateRedemptionRate
  repeat refine ConfinedTo.bind _ _ _ fun _ _ => ?_
  exact confined_pure _ _ _ ⟨by simp [AccountStateDiff.new, AccountStateDiff.unchanged], by simp⟩

theorem confined_refreshGlobals (caller protocolParameters stabilityFeeAccumulator
    stablecoinDefinition stablecoinMasterHolding redemptionPriceState marketPriceOracle clock :
    InputAccount) (program : AccountId) :
    ConfinedTo [caller, protocolParameters, stabilityFeeAccumulator, stablecoinDefinition,
        stablecoinMasterHolding, redemptionPriceState, marketPriceOracle, clock]
      (refreshGlobals caller protocolParameters stabilityFeeAccumulator stablecoinDefinition
        stablecoinMasterHolding redemptionPriceState marketPriceOracle clock program) := by
  unfold refreshGlobals
  repeat refine ConfinedTo.bind _ _ _ fun _ _ => ?_
  rename_i _ hmint diff hdiff
  have hids := surplusMintCall_accountIds _ _ _ _ _ _ hmint
  have hpre : diff.preState = redemptionPriceState := by
    split at hdiff
    · simp only [bind_eq_ok, pure_eq_ok] at hdiff
      obtain ⟨_, -, rfl⟩ := hdiff
      rfl
    · rw [pure_eq_ok] at hdiff
      rw [← hdiff]
      rfl
  exact confined_pure _ _ _ ⟨by simp [AccountStateDiff.new, AccountStateDiff.unchanged, hpre],
    fun call hc => by simp [hids call hc]⟩

theorem confined_resetRedemptionRateController (authority protocolParameters redemptionPriceState
    clock : InputAccount) (program : AccountId) :
    ConfinedTo [authority, protocolParameters, redemptionPriceState, clock]
      (resetRedemptionRateController authority protocolParameters redemptionPriceState clock
        program) := by
  unfold resetRedemptionRateController
  repeat refine ConfinedTo.bind _ _ _ fun _ _ => ?_
  exact confined_pure _ _ _ ⟨by simp [AccountStateDiff.new, AccountStateDiff.unchanged], by simp⟩

theorem confined_openPosition (owner position vault userCollateralHolding collateralDefinition
    protocolParameters clock : InputAccount) (program : AccountId) (positionNonce : U64)
    (initialCollateralAmount : U128) :
    ConfinedTo [owner, position, vault, userCollateralHolding, collateralDefinition,
        protocolParameters, clock]
      (openPosition owner position vault userCollateralHolding collateralDefinition
        protocolParameters clock program positionNonce initialCollateralAmount) := by
  unfold openPosition
  repeat refine ConfinedTo.bind _ _ _ fun _ _ => ?_
  exact confined_pure _ _ _ ⟨by simp [AccountStateDiff.new, AccountStateDiff.unchanged],
    by simp [ChainedCall.new, ChainedCall.withPdaSeeds]⟩

theorem confined_depositCollateral (owner position vault userCollateralHolding
    protocolParameters : InputAccount) (program : AccountId) (amount : U128) :
    ConfinedTo [owner, position, vault, userCollateralHolding, protocolParameters]
      (depositCollateral owner position vault userCollateralHolding protocolParameters program
        amount) := by
  unfold depositCollateral
  repeat refine ConfinedTo.bind _ _ _ fun _ _ => ?_
  exact confined_pure _ _ _ ⟨by simp [AccountStateDiff.new, AccountStateDiff.unchanged],
    by simp [ChainedCall.new]⟩

theorem confined_closePosition (owner position vault protocolParameters : InputAccount)
    (program : AccountId) :
    ConfinedTo [owner, position, vault, protocolParameters]
      (closePosition owner position vault protocolParameters program) := by
  unfold closePosition
  repeat refine ConfinedTo.bind _ _ _ fun _ _ => ?_
  exact confined_pure _ _ _ ⟨by simp [AccountStateDiff.new, AccountStateDiff.unchanged], by simp⟩

theorem confined_generateDebt (owner position stablecoinDefinition userStablecoinHolding
    stablecoinMasterHolding stabilityFeeAccumulator redemptionPriceState protocolParameters clock :
    InputAccount) (program : AccountId) (amount : U128) :
    ConfinedTo [owner, position, stablecoinDefinition, userStablecoinHolding,
        stablecoinMasterHolding, stabilityFeeAccumulator, redemptionPriceState, protocolParameters,
        clock]
      (generateDebt owner position stablecoinDefinition userStablecoinHolding
        stablecoinMasterHolding stabilityFeeAccumulator redemptionPriceState protocolParameters clock
        program amount) := by
  unfold generateDebt
  repeat refine ConfinedTo.bind _ _ _ fun _ _ => ?_
  rename_i surplusMint hmint _ _ _ _ _ _ _ _ _ _
  have hids := surplusMintCall_accountIds _ _ _ _ _ _ hmint
  refine confined_pure _ _ _ ⟨by simp [AccountStateDiff.new, AccountStateDiff.unchanged],
    fun call hc => ?_⟩
  rcases List.mem_append.mp hc with hc | hc
  · simp [hids call hc]
  · simp [List.mem_singleton.mp hc, ChainedCall.new, ChainedCall.withPdaSeeds]

theorem confined_repayDebt (owner position stablecoinDefinition userStablecoinHolding
    stablecoinMasterHolding stabilityFeeAccumulator protocolParameters clock : InputAccount)
    (program : AccountId) (amount : U128) :
    ConfinedTo [owner, position, stablecoinDefinition, userStablecoinHolding,
        stablecoinMasterHolding, stabilityFeeAccumulator, protocolParameters, clock]
      (repayDebt owner position stablecoinDefinition userStablecoinHolding stablecoinMasterHolding
        stabilityFeeAccumulator protocolParameters clock program amount) := by
  unfold repayDebt
  repeat refine ConfinedTo.bind _ _ _ fun _ _ => ?_
  rename_i surplusMint hmint _ _ _ _ _ _
  have hids := surplusMintCall_accountIds _ _ _ _ _ _ hmint
  refine confined_pure _ _ _ ⟨by simp [AccountStateDiff.new, AccountStateDiff.unchanged],
    fun call hc => ?_⟩
  rcases List.mem_append.mp hc with hc | hc
  · simp [hids call hc]
  · simp [List.mem_singleton.mp hc, ChainedCall.new]

theorem confined_withdrawCollateral (owner position vault userCollateralHolding
    stabilityFeeAccumulator redemptionPriceState protocolParameters clock : InputAccount)
    (program : AccountId) (amount : U128) :
    ConfinedTo [owner, position, vault, userCollateralHolding, stabilityFeeAccumulator,
        redemptionPriceState, protocolParameters, clock]
      (withdrawCollateral owner position vault userCollateralHolding stabilityFeeAccumulator
        redemptionPriceState protocolParameters clock program amount) := by
  unfold withdrawCollateral
  repeat refine ConfinedTo.bind _ _ _ fun _ _ => ?_
  exact confined_pure _ _ _ ⟨by simp [AccountStateDiff.new, AccountStateDiff.unchanged],
    by simp [ChainedCall.new, ChainedCall.withPdaSeeds]⟩

theorem confined_setStabilityFeePerMillisecond (admin protocolParameters stabilityFeeAccumulator
    stablecoinDefinition stablecoinMasterHolding clock : InputAccount) (program : AccountId)
    (newRate : U128) :
    ConfinedTo [admin, protocolParameters, stabilityFeeAccumulator, stablecoinDefinition,
        stablecoinMasterHolding, clock]
      (setStabilityFeePerMillisecond admin protocolParameters stabilityFeeAccumulator
        stablecoinDefinition stablecoinMasterHolding clock program newRate) := by
  unfold setStabilityFeePerMillisecond
  repeat refine ConfinedTo.bind _ _ _ fun _ _ => ?_
  rename_i _ hmint
  have hids := surplusMintCall_accountIds _ _ _ _ _ _ hmint
  exact confined_pure _ _ _ ⟨by simp [AccountStateDiff.new, AccountStateDiff.unchanged],
    fun call hc => by simp [hids call hc]⟩

theorem confined_updateParameters (admin protocolParameters : InputAccount) (program : AccountId)
    (mutate : ProtocolParameters → Outcome ProtocolParameters) :
    ConfinedTo [admin, protocolParameters]
      (updateParameters admin protocolParameters program mutate) := by
  unfold updateParameters
  repeat refine ConfinedTo.bind _ _ _ fun _ _ => ?_
  exact confined_pure _ _ _ ⟨by simp [AccountStateDiff.new, AccountStateDiff.unchanged], by simp⟩

theorem confined_setMarketPriceOracle (admin protocolParameters newOracle : InputAccount)
    (program : AccountId) :
    ConfinedTo [admin, protocolParameters, newOracle]
      (setMarketPriceOracle admin protocolParameters newOracle program) := by
  unfold setMarketPriceOracle
  refine ConfinedTo.bind _ _ _ fun updated hupdated => ?_
  obtain ⟨hdiffs, hcalls⟩ := confined_updateParameters _ _ _ _ _ _ hupdated
  refine confined_pure _ _ _ ⟨fun diff hd => ?_, fun call hc id hid => ?_⟩
  · rcases List.mem_append.mp hd with hd | hd
    · exact List.mem_append_left [newOracle] (hdiffs diff hd)
    · rw [List.mem_singleton.mp hd]
      exact List.mem_append_right [admin, protocolParameters] (List.mem_singleton_self _)
  · rw [show [admin, protocolParameters, newOracle] = [admin, protocolParameters] ++ [newOracle]
      from rfl, List.map_append]
    exact List.mem_append_left _ (hcalls call hc id hid)

theorem confined_setFrozen (freezeAuthority protocolParameters : InputAccount)
    (program : AccountId) (isFrozen : Bool) :
    ConfinedTo [freezeAuthority, protocolParameters]
      (setFrozen freezeAuthority protocolParameters program isFrozen) := by
  unfold setFrozen
  repeat refine ConfinedTo.bind _ _ _ fun _ _ => ?_
  exact confined_pure _ _ _ ⟨by simp [AccountStateDiff.new, AccountStateDiff.unchanged], by simp⟩

theorem stablecoin_confined (program : AccountId) (accounts : List InputAccount)
    (instruction : Stablecoin.Instruction) :
    ConfinedTo accounts (Stablecoin.main program accounts instruction) := by
  unfold Stablecoin.main
  split
  · exact confined_initializeProgram _ _ _ _ _ _ _ _ _ _ _
  · exact confined_accrueStabilityFee _ _ _ _ _ _ _
  · exact confined_updateRedemptionRate _ _ _ _ _ _
  · exact confined_refreshGlobals _ _ _ _ _ _ _ _ _
  · exact confined_openPosition _ _ _ _ _ _ _ _ _ _
  · exact confined_depositCollateral _ _ _ _ _ _ _
  · exact confined_generateDebt _ _ _ _ _ _ _ _ _ _ _
  · exact confined_closePosition _ _ _ _ _
  · exact confined_updateParameters _ _ _ _
  · exact confined_updateParameters _ _ _ _
  · exact confined_setMarketPriceOracle _ _ _ _
  · exact confined_updateParameters _ _ _ _
  · exact confined_updateParameters _ _ _ _
  · exact confined_updateParameters _ _ _ _
  · exact confined_setStabilityFeePerMillisecond _ _ _ _ _ _ _ _
  · exact confined_setFrozen _ _ _ _
  · exact confined_setFrozen _ _ _ _
  · exact confined_withdrawCollateral _ _ _ _ _ _ _ _ _ _
  · exact confined_repayDebt _ _ _ _ _ _ _ _ _ _
  · exact confined_resetRedemptionRateController _ _ _ _ _
  · exact confined_error _ _

end

section
open TwapOracle

theorem twapOracle_preStates (tickMath : TickMath) (program : AccountId)
    (accounts : List InputAccount) (instruction : TwapOracle.Instruction) (diffs : List StateDiff)
    (h : TwapOracle.main tickMath program accounts instruction = .ok diffs) :
    ∀ diff ∈ diffs, diff.preState ∈ accounts := by
  unfold TwapOracle.main at h
  split at h
  · simp only [TwapOracle.createPriceObservations, bind_eq_ok, ensure_eq_ok, exists_const,
      pure_eq_ok] at h
    obtain ⟨-, -, -, -, -, _, -, rfl⟩ := h
    simp [AccountStateDiff.new, AccountStateDiff.unchanged]
  · simp only [TwapOracle.createOraclePriceAccount, bind_eq_ok, ensure_eq_ok, exists_const,
      pure_eq_ok] at h
    obtain ⟨-, -, -, -, -, _, -, -, -, rfl⟩ := h
    simp [AccountStateDiff.new, AccountStateDiff.unchanged]
  · simp only [createCurrentTickAccount, bind_eq_ok, ensure_eq_ok, exists_const, pure_eq_ok] at h
    obtain ⟨-, -, -, -, _, -, _, -, rfl⟩ := h
    simp [AccountStateDiff.new, AccountStateDiff.unchanged]
  · simp only [updateCurrentTick, bind_eq_ok, ensure_eq_ok, exists_const, pure_eq_ok] at h
    obtain ⟨-, -, -, _, -, _, -, _, -, rfl⟩ := h
    simp [AccountStateDiff.new, AccountStateDiff.unchanged]
  · simp only [publishPrice, bind_eq_ok, ensure_eq_ok, exists_const] at h
    obtain ⟨-, -, -, -, -, -, _, -, _, -, _, -, _, -, h⟩ := h
    split at h
    · rw [pure_eq_ok] at h
      subst h
      simp [AccountStateDiff.unchanged]
    · simp only [bind_eq_ok, pure_eq_ok] at h
      obtain ⟨_, -, _, -, rfl⟩ := h
      simp [AccountStateDiff.new, AccountStateDiff.unchanged]
  · simp only [recordTick, bind_eq_ok, ensure_eq_ok, exists_const] at h
    obtain ⟨-, -, -, -, _, -, _, -, _, -, recorded, -, h⟩ := h
    split at h
    · rw [pure_eq_ok] at h
      subst h
      simp [AccountStateDiff.unchanged]
    · rw [pure_eq_ok] at h
      subst h
      simp [AccountStateDiff.new, AccountStateDiff.unchanged]
  · exact absurd h (error_ne_ok _ _)

end

/-- Every program is confined to the accounts of its call. -/
theorem dispatch_confined (tickMath : TwapOracle.TickMath) (now : U64) (programId : AccountId)
    (instruction : Instruction) (accounts : List InputAccount) :
    ConfinedTo accounts (dispatch tickMath now programId instruction accounts) := by
  cases instruction with
  | token i =>
    intro diffs calls h
    obtain ⟨rfl, hdiffs⟩ := dispatch_token_preStates tickMath now programId i accounts diffs calls h
    exact ⟨hdiffs, fun call hc => absurd hc List.not_mem_nil⟩
  | twapOracle i =>
    refine ConfinedTo.bind _ _ _ fun _ _ => .bind _ _ _ fun diffs hdiffs => ?_
    exact confined_pure _ _ _ ⟨twapOracle_preStates tickMath programId accounts i diffs hdiffs,
      fun call hc => absurd hc List.not_mem_nil⟩
  | amm i => exact .bind _ _ _ fun _ _ => amm_confined programId now accounts i
  | stablecoin i => exact .bind _ _ _ fun _ _ => stablecoin_confined programId accounts i

end LezPrograms.Lee
