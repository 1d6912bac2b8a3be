import LezPrograms.Amm.Reachable

/-! # Custody of fees and isolation of configurations

Only the authority of a configuration takes anything from its fee holdings. An
instruction under one configuration takes nothing from the accounts of another; it
can pay into them, since users name the accounts that they are paid in. -/

set_option autoImplicit false

namespace LezPrograms.Amm
open LezPrograms.Checked LezPrograms.Lee LezPrograms.Token

def OnlyPaid (w w' : Accounts) (calls : List ChainedCall) (x : AccountId) : Prop :=
  ∀ held, HoldingAt w x held → ∃ held', HoldingAt w' x held' ∧
    held'.definitionId = held.definitionId ∧ held'.units = held.units + deposits calls x

/-- The pools and LP supplies of the configuration `d` are as before, and its vaults and fee
holdings have only been paid into. -/
structure Untouched (d : AccountId) (w w' : Accounts) (calls : List ChainedCall) : Prop where
  pools : ∀ x q, PoolOf d x q → PoolAt w x q → PoolAt w' x q
  vaults : ∀ x q, PoolOf d x q → PoolAt w x q → ∀ side, OnlyPaid w w' calls (q.vault side)
  supplies : ∀ x q, PoolOf d x q → PoolAt w x q →
    supplyAt w' q.liquidityPoolId = supplyAt w q.liquidityPoolId
  fees : ∀ token, OnlyPaid w w' calls (computeProtocolFeePda ammProgramId d token)

theorem Untouched.congr (d : AccountId) (w w' : Accounts) (calls calls' : List ChainedCall)
    (h : Untouched d w w' calls) (hsame : ∀ x, deposits calls' x = deposits calls x) :
    Untouched d w w' calls' := by
  have hpaid : ∀ x, OnlyPaid w w' calls x → OnlyPaid w w' calls' x := by
    intro x hx
    rwa [OnlyPaid, hsame]
  exact ⟨h.pools, fun x q hof hq side => hpaid _ (h.vaults x q hof hq side), h.supplies,
    fun token => hpaid _ (h.fees token)⟩

def configOf (instruction : Instruction) (ids : List AccountId) : Option AccountId :=
  match instruction, ids with
  | .initializeConfig _ _ _ _ _ _, [_, c] => some c
  | _, c :: _ => some c
  | _, [] => none

theorem protocolFee_key (c token : AccountId) (seed : PdaSeed) (h : computeProtocolFeePda
    ammProgramId c token = .forPublicPda ammProgramId seed) :
    seed = computeProtocolFeePdaSeed c token := by
  cases h
  rfl

theorem computeProtocolFeePdaSeed_inj (c d a b : AccountId)
    (h : computeProtocolFeePdaSeed c a = computeProtocolFeePdaSeed d b) : c = d ∧ a = b := by
  cases h
  exact ⟨rfl, rfl⟩

theorem not_fee_creationCalls (cfg : AmmConfig) (d x ua ub ul tokenA tokenB : AccountId)
    (a b userLp price : U128) (seed : PdaSeed)
    (seeded : computePoolPdaSeed d tokenA tokenB = .ok seed) (c token : AccountId) :
    ∀ call ∈ creationCalls cfg x ua ub ul tokenA tokenB a b userLp price seed,
      computeProtocolFeePdaSeed c token ∉ call.pdaSeeds := by
  have hlock : computeProtocolFeePdaSeed c token
      ∉ (lpLockCall ammProgramId cfg.tokenProgramId x).pdaSeeds := by
    intro h
    rcases List.mem_cons.mp h with h | h
    · cases h
    · cases List.mem_singleton.mp h
  have hpool : computeProtocolFeePdaSeed c token ∉ [seed] := by
    intro h
    obtain ⟨-, _, _, he⟩ := computePoolPdaSeed_shape _ _ _ _ seeded
    rw [← List.mem_singleton.mp h] at he
    cases he
  simp only [creationCalls, List.forall_mem_cons, List.not_mem_nil, false_implies, implies_true,
    and_true]
  exact ⟨hlock, not_fee_liquidityToken c x token, not_fee_vault c x _ token,
    not_fee_vault c x _ token, hpool⟩

theorem burned_creationCalls (cfg : AmmConfig) (x ua ub ul tokenA tokenB : AccountId)
    (a b userLp price : U128) (seed : PdaSeed) (id : AccountId) :
    ∀ call ∈ creationCalls cfg x ua ub ul tokenA tokenB a b userLp price seed,
      call.burned id = 0 := by
  simp only [creationCalls, List.forall_mem_cons, List.not_mem_nil, false_implies, implies_true,
    and_true]
  exact ⟨rfl, rfl, rfl, rfl, rfl⟩

section
variable (w v : Accounts) (authority ids : List AccountId) (instruction : Instruction)
  (calls : List ChainedCall) (hw : Sound w)
  (h : Effect w authority ids instruction v calls)
include hw h

/-- The calls of an instruction take from a fee holding only in a withdrawal that the authority of
its configuration has signed. -/
theorem Effect.fee_taken (c token : AccountId) :
    (∀ call ∈ calls, call.debit (computeProtocolFeePda ammProgramId c token) = 0 ∨
        ∀ seed ∈ call.pdaSeeds, computeProtocolFeePda ammProgramId c token ≠
          .forPublicPda ammProgramId seed) ∨
      ∃ destination cfg amount,
        ids = [c, computeProtocolFeePda ammProgramId c token, destination, cfg.authority] ∧
        instruction = .withdrawProtocolFees amount ∧ ConfigAt w c cfg ∧
        cfg.authority ∈ authority ∧
        calls = [transferCall cfg.tokenProgramId (computeProtocolFeePda ammProgramId c token)
          destination amount [computeProtocolFeePdaSeed c token]] := by
  have hkey : ∀ call : ChainedCall, computeProtocolFeePdaSeed c token ∉ call.pdaSeeds →
      ∀ seed ∈ call.pdaSeeds, computeProtocolFeePda ammProgramId c token ≠
        .forPublicPda ammProgramId seed :=
    fun call hn seed hs he => hn (protocolFee_key c token seed he ▸ hs)
  cases h with
  | configured => exact Or.inl fun call hc => absurd hc List.not_mem_nil
  | withdrawn d t destination cfg amount config signed =>
    by_cases he : computeProtocolFeePdaSeed c token = computeProtocolFeePdaSeed d t
    · obtain ⟨rfl, rfl⟩ := computeProtocolFeePdaSeed_inj _ _ _ _ he
      exact Or.inr ⟨destination, cfg, amount, rfl, rfl, config, signed, rfl⟩
    · exact Or.inl (List.forall_mem_singleton.mpr (Or.inr (hkey _ fun hm =>
        he (List.mem_singleton.mp hm))))
  | created _ d x ua ub ul a b cfg _ _ _ userLp price seed rest _ _ _ _ _ _ _ _ _ seeded =>
    exact Or.inl fun call hc => Or.inr (hkey call
      (not_fee_creationCalls cfg d x ua ub ul _ _ a b userLp price seed seeded c token call hc))
  | operated _ d x rest q q' _ op =>
    refine Or.inl fun call hc => ?_
    by_cases hs : computeProtocolFeePdaSeed c token ∈ call.pdaSeeds
    · have hd : c = d := by
        by_contra hne
        exact ((op.proper call hc).granted _ hs).not_protocolFee d x _ c token hne rfl
      subst hd
      obtain ⟨side, hdebit⟩ := op.payer call hc token hs
      refine Or.inl (hdebit _ ?_)
      rw [(hw.pools x q op.stored).vaultIds side]
      intro he
      cases he
    · exact Or.inr (hkey call hs)

/-- What an instruction under `c` does to the pool `x` of another configuration. -/
theorem Effect.other_pool (c d x : AccountId) (rest : List AccountId) (hids : ids = c :: rest)
    (hd : d ≠ c) (q : PoolDefinition) (hof : PoolOf d x q) (hq : PoolAt w x q) :
    PoolAt v x q ∧ (∀ call ∈ calls, ∀ seed ∈ call.pdaSeeds, Spared x seed) ∧
      ∀ call ∈ calls, call.burned q.liquidityPoolId = 0 := by
  rcases h.pool w v authority ids instruction calls x q hq with
    ⟨hv, hspared⟩ | ⟨e, rest', q', he, op, -⟩
  · refine ⟨hv, hspared, ?_⟩
    cases h with
    | configured => exact fun call hc => absurd hc List.not_mem_nil
    | withdrawn => exact List.forall_mem_singleton.mpr rfl
    | created => exact burned_creationCalls _ _ _ _ _ _ _ _ _ _ _ _ _
    | operated _ e y rest' p _ _ op =>
      rw [List.cons.injEq] at hids
      intro call hc
      refine op.burns call hc _ ?_
      rw [(hw.pools x q hq).liquidityId, (hw.pools y p op.stored).liquidityId]
      intro he
      cases he
      have hqp := hq.unique w x q p op.stored
      subst hqp
      exact hd (hof.config_unique _ _ _ _ _ op.poolOf |>.trans hids.1)
  · rw [hids, List.cons.injEq] at he
    exact absurd (hof.config_unique _ _ _ _ _ op.poolOf |>.trans he.1.symm) hd

end

section
variable (w v w' : Accounts) (authority : List AccountId) (ho : Outside ammProgramId authority)
  (calls : List ChainedCall) (hf : Frame ammProgramId w v)
  (hsettled : Settled ammProgramId authority v calls w')
include ho hf hsettled

theorem OnlyPaid.of_settled (seed : PdaSeed)
    (hcalls : ∀ call ∈ calls, call.debit (.forPublicPda ammProgramId seed) = 0 ∨
      ∀ s ∈ call.pdaSeeds, AccountId.forPublicPda ammProgramId seed ≠ .forPublicPda ammProgramId s) :
    OnlyPaid w w' calls (.forPublicPda ammProgramId seed) := by
  intro held hh
  have htokens := owned_frame tokenProgramId _ _ _ hf (by decide) (by decide)
  obtain ⟨held', hh', ht, -, hflow⟩ := hsettled.holding_flows _ _ _ _ _ _ held
    (by rwa [HoldingAt, htokens])
  have hzero := hsettled.debits_eq_zero _ _ _ _ _ _ (ho.not_mem _ _ _) hcalls
  exact ⟨held', hh', ht, by rw [deposits]; omega⟩

theorem Untouched.of_settled (hw : Sound w) (d : AccountId)
    (hpools : ∀ x q, PoolOf d x q → PoolAt w x q → PoolAt v x q ∧
      (∀ call ∈ calls, ∀ seed ∈ call.pdaSeeds, Spared x seed) ∧
        ∀ call ∈ calls, call.burned q.liquidityPoolId = 0)
    (hfees : ∀ token, ∀ call ∈ calls, ∀ seed ∈ call.pdaSeeds,
      computeProtocolFeePda ammProgramId d token ≠ .forPublicPda ammProgramId seed) :
    Untouched d w w' calls where
  pools x q hof hq := by
    rw [PoolAt, hsettled.owned_eq _ _ ammProgramId (by decide) (by decide)]
    exact (hpools x q hof hq).1
  vaults x q hof hq side := by
    rw [(hw.pools x q hq).vaultIds side]
    exact OnlyPaid.of_settled w v w' authority ho calls hf hsettled _ fun call hc =>
      Or.inr fun seed hs => ((hpools x q hof hq).2.1 call hc seed hs).vault _
  supplies x q hof hq := by
    obtain ⟨-, hspared, hburned⟩ := hpools x q hof hq
    have htokens := owned_frame tokenProgramId _ _ _ hf (by decide) (by decide)
    obtain ⟨definition, hd, -, hm, -⟩ := (hw.pools x q hq).liquidity
    rw [(hw.pools x q hq).liquidityId] at hd hm hburned ⊢
    obtain ⟨definition', hd', -, -, hsupply⟩ := hsettled.definition_burned _ _ _ _
      (ho.not_mem _ _ _) _ _ _ (fun call hc seed hs => (hspared call hc seed hs).liquidity)
      definition (by rwa [DefinitionAt, htokens]) hm
    rw [sum_eq_zero_of_idle calls _ hburned] at hsupply
    rw [hd'.supplyAt_eq, hd.supplyAt_eq]
    exact hsupply
  fees token := OnlyPaid.of_settled w v w' authority ho calls hf hsettled _ fun call hc =>
    Or.inr (hfees token call hc)

end

section
variable (platform : Platform) (w v w' : Accounts) (authority : List AccountId)
  (call : ChainedCall) (instruction : Instruction) (calls : List ChainedCall) (hbare : Bare w)
  (hw : Sound w) (h : Transacted platform w authority call instruction v calls w')
include hbare hw h

theorem Transacted.untouched (c : AccountId) (rest : List AccountId)
    (hids : call.accountIds = c :: rest) (d : AccountId) (hd : d ≠ c) :
    Untouched d w w' calls := by
  have effect := h.effect platform w v w' authority call instruction calls hbare hw
  refine .of_settled w v w' authority h.outside calls h.frame h.settled hw d (fun x q hof hq =>
    effect.other_pool w v authority _ instruction calls hw c d x rest hids hd q hof hq) ?_
  intro token chained hc seed hs
  rcases effect.granted with hnone | ⟨e, x, rest', he, hgranted⟩
  · rw [hnone] at hc
    cases hc
  · rw [hids, List.cons.injEq] at he
    rcases hgranted chained hc seed hs with hg | rfl
    · exact hg.not_protocolFee e x seed d token (he.1 ▸ hd)
    · intro he'
      cases he'

theorem Transacted.isolated (d : AccountId) (hd : configOf instruction call.accountIds ≠ some d) :
    Untouched d w w' calls := by
  have hcases : (∃ c rest, call.accountIds = c :: rest ∧
      configOf instruction call.accountIds = some c) ∨
        (calls = [] ∧ ∀ x q, PoolAt w x q → PoolAt v x q) := by
    have hstep := h.step
    generalize hids : call.accountIds = ids at hstep
    cases hstep with
    | initializeConfig owner nonce cfg _ fresh =>
      refine Or.inr ⟨rfl, fun x q hq => ?_⟩
      have hne : x ≠ computeConfigPda ammProgramId owner nonce := by
        rintro rfl
        have hdata := hq.data
        rw [fresh] at hdata
        cases hdata
      exact (owned_congr _ _ _ x (put_other _ _ _ _ _ hne)).trans hq
    | swap _ _ _ _ _ _ _ _ _ _ _ _ _ _ _ _ _ _ _ _ _ _ priced =>
      cases priced with
      | exactInput => exact Or.inl ⟨_, _, rfl, rfl⟩
      | exactOutput => exact Or.inl ⟨_, _, rfl, rfl⟩
    | updateConfig | withdrawProtocolFees | newDefinition | addLiquidity | removeLiquidity
      | syncReserves => exact Or.inl ⟨_, _, rfl, rfl⟩
  rcases hcases with ⟨c, rest, hids, hc⟩ | ⟨hnone, hkept⟩
  · exact h.untouched platform w v w' authority call instruction calls hbare hw c rest hids d
      fun he => hd (he ▸ hc)
  · have hidle : ∀ call ∈ calls, False := fun call hc => by
      rw [hnone] at hc
      exact List.not_mem_nil hc
    exact .of_settled w v w' authority h.outside calls h.frame h.settled hw d
      (fun x q _ hq => ⟨hkept x q hq, fun call hc => (hidle call hc).elim,
        fun call hc => (hidle call hc).elim⟩) fun _ call hc => (hidle call hc).elim

/-- A fee holding grows, or the authority of its configuration has withdrawn from it. -/
theorem Transacted.fee (c token : AccountId) (held : Holding)
    (hh : HoldingAt w (computeProtocolFeePda ammProgramId c token) held) :
    ∃ held', HoldingAt w' (computeProtocolFeePda ammProgramId c token) held' ∧
      held'.definitionId = held.definitionId ∧
      (held.units ≤ held'.units ∨ ∃ destination cfg amount,
        call.accountIds = [c, computeProtocolFeePda ammProgramId c token, destination,
          cfg.authority] ∧
        instruction = .withdrawProtocolFees amount ∧ ConfigAt w c cfg ∧ cfg.authority ∈ authority ∧
        held'.units + amount.val = held.units) := by
  have effect := h.effect platform w v w' authority call instruction calls hbare hw
  rcases effect.fee_taken w v authority _ instruction calls hw c token with
    hcalls | ⟨destination, cfg, amount, hids, hi, hconfig, hsigned, rfl⟩
  · obtain ⟨held', hh', ht, hunits⟩ := OnlyPaid.of_settled w v w' authority h.outside calls h.frame
      h.settled _ hcalls held hh
    exact ⟨held', hh', ht, Or.inl (by omega)⟩
  · have htokens := owned_frame tokenProgramId _ _ _ h.frame (by decide) (by decide)
    obtain ⟨held', hh', ht, -, hflow⟩ := h.settled.holding_flows _ _ _ _ _ _ held
      (by rwa [HoldingAt, htokens])
    have hn := h.distinct
    rw [hids] at hn
    simp only [List.nodup_cons, List.mem_cons, not_or] at hn
    simp only [List.map_cons, List.map_nil, List.sum_cons, List.sum_nil, debit_transferCall,
      credit_transferCall, if_true, if_neg hn.2.1.1, Nat.add_zero] at hflow
    exact ⟨held', hh', ht, Or.inr ⟨destination, cfg, amount, hids, hi, hconfig, hsigned, hflow⟩⟩

end

/-- A fee holding loses only what the authority of its configuration withdraws, and an instruction
under one configuration leaves the pools and the LP supplies of every other alone and only pays
into its vaults and fee holdings. -/
theorem configs_only_pay_each_other (platform : Platform) (genesis : Genesis) (events : List Event) :
    (∀ (event : Event) c token held,
      HoldingAt (run platform genesis.world events) (computeProtocolFeePda ammProgramId c token)
        held →
      ∃ held', HoldingAt (event.apply platform (run platform genesis.world events))
          (computeProtocolFeePda ammProgramId c token) held' ∧
        held'.definitionId = held.definitionId ∧
        (held.units ≤ held'.units ∨ ∃ authority call destination cfg amount,
          event = .transaction authority call ∧
          call.instruction = .amm (.withdrawProtocolFees amount) ∧
          call.accountIds = [c, computeProtocolFeePda ammProgramId c token, destination,
            cfg.authority] ∧
          ConfigAt (run platform genesis.world events) c cfg ∧ cfg.authority ∈ authority ∧
          held'.units + amount.val = held.units)) ∧
    ∀ authority call instruction w', call.instruction = .amm instruction →
      transact platform (run platform genesis.world events) authority call = .ok w' →
      ∀ d, configOf instruction call.accountIds ≠ some d →
        Untouched d (run platform genesis.world events) w'
          (executedCalls platform (run platform genesis.world events)
            (.transaction authority call)) := by
  obtain ⟨hbare, hw⟩ := run_sound platform genesis events
  constructor
  · intro event c token held hh
    rcases event_cases platform _ event with
      ⟨he, -⟩ | ⟨authority, call, instruction, v, calls, rfl, ht⟩
    · obtain ⟨held', hh', hg⟩ := elsewhere_preserves ammProgramId (fun u => ∃ held',
        HoldingAt u (computeProtocolFeePda ammProgramId c token) held' ∧ Grown held held')
        (fun u u' hu hf => by
          obtain ⟨a, ha, hg⟩ := hu
          obtain ⟨b, hb, hg'⟩ := hf.holding_grows _ _ _ _ (derivedBy_forPublicPda _ _) a ha
          exact ⟨b, hb, hg.trans _ _ _ hg'⟩) _ _ he ⟨held, hh, Grown.refl held⟩
      exact ⟨held', hh', hg.token, Or.inl hg.units⟩
    · obtain ⟨held', hh', ht', hcases⟩ := ht.fee platform _ v _ authority call instruction calls
        hbare hw c token held hh
      refine ⟨held', hh', ht', hcases.imp_right ?_⟩
      rintro ⟨destination, cfg, amount, hids, rfl, hconfig, hsigned, hunits⟩
      exact ⟨authority, call, destination, cfg, amount, rfl, ht.called, hids, hconfig, hsigned,
        hunits⟩
  · intro authority call instruction w' hi h
    obtain ⟨v, calls, ht⟩ := transacted_of_ok platform _ w' authority call instruction hi h
    exact fun d hd => (ht.isolated platform _ v w' authority call instruction calls hbare hw d
      hd).congr d _ w' calls _ (ht.deposits_eq platform _ v w' authority call instruction calls)

def firstWithdrawal : ChainedCall :=
  ⟨ammProgramId, [firstConfigId, computeProtocolFeePda ammProgramId firstConfigId (.key 20),
    .key 21, .key 61], .amm (.withdrawProtocolFees 3), []⟩

/-- The authority withdraws 3 of the fee of 5 that the first swap has left. -/
theorem first_fee_withdrawal :
    (∃ held', HoldingAt (Event.apply tablePlatform
        (run tablePlatform (clockedGenesis 0).world
          (firstPoolEvents ++ [.transaction [.key 21] firstSwap]))
        (.transaction [.key 61] firstWithdrawal))
        (computeProtocolFeePda ammProgramId firstConfigId (.key 20)) held' ∧
      (5 ≤ held'.units ∨ ∃ amount : U128, held'.units + amount.val = 5)) ∧
    ∃ w', ∀ d, d ≠ firstConfigId → Untouched d (run tablePlatform (clockedGenesis 0).world
      (firstPoolEvents ++ [.transaction [.key 21] firstSwap])) w'
      (executedCalls tablePlatform (run tablePlatform (clockedGenesis 0).world
        (firstPoolEvents ++ [.transaction [.key 21] firstSwap]))
        (.transaction [.key 61] firstWithdrawal)) := by
  obtain ⟨hfee, hothers⟩ := configs_only_pay_each_other tablePlatform (clockedGenesis 0)
    (firstPoolEvents ++ [.transaction [.key 21] firstSwap])
  constructor
  · obtain ⟨held', hh', -, hcases⟩ := hfee (.transaction [.key 61] firstWithdrawal) firstConfigId
      (.key 20) (.fungible (.key 20) 5) (by unfold HoldingAt; decide +kernel)
    exact ⟨held', hh', hcases.imp_right fun ⟨_, _, _, _, amount, _, _, _, _, _, hunits⟩ =>
      ⟨amount, hunits⟩⟩
  · have huntouched := hothers [.key 61] firstWithdrawal _ _ rfl
      (transact_apply _ _ _ _ (by decide +kernel))
    exact ⟨_, fun d hd => huntouched d fun he => hd (Option.some.inj he).symm⟩

def secondConfigId : AccountId := computeConfigPda ammProgramId (.key 60) 1

def secondPoolId : AccountId :=
  .forPublicPda ammProgramId (.account secondConfigId (.account (.key 22) (.account (.key 20) .nil)))

def secondPool : PoolDefinition :=
  createdPool ammProgramId secondPoolId (.key 20) (.key 22) 20000 40000 10000

def secondPoolEvents : List Event :=
  firstPoolEvents ++
    [.transaction [.key 60] ⟨ammProgramId, [.key 60, secondConfigId],
        .amm (.initializeConfig 1 tokenProgramId twapOracleProgramId (.key 62) 100 5000), []⟩,
      .transaction [.key 21, .key 23, .key 25] ⟨ammProgramId, [secondConfigId, secondPoolId,
        secondPool.vaultAId, secondPool.vaultBId, secondPool.liquidityPoolId,
        computeLpLockHoldingPda ammProgramId secondPoolId, .key 21, .key 23, .key 25,
        TwapOracle.computeCurrentTickAccountPda twapOracleProgramId secondPoolId,
        clock01ProgramAccountId], .amm (.newDefinition 40000 10000 1), []⟩]

def crossingSwap : ChainedCall :=
  ⟨ammProgramId, [firstConfigId, firstPoolId, firstPool.vaultAId, firstPool.vaultBId, .key 21,
    secondPool.vaultBId, firstTickId, clock01ProgramAccountId,
    computeProtocolFeePda ammProgramId firstConfigId (.key 20)],
    .amm (.swapExactInput 1000 1 1), []⟩

/-- An instruction under one configuration can change a vault of another. -/
theorem swap_pays_another_config :
    ¬∀ (platform : Platform) (genesis : Genesis) (events : List Event) authority call instruction
      w', call.instruction = .amm instruction →
      transact platform (run platform genesis.world events) authority call = .ok w' →
      ∀ d, configOf instruction call.accountIds ≠ some d → ∀ x q, PoolOf d x q →
        PoolAt (run platform genesis.world events) x q → ∀ side,
        unitsAt w' (q.vault side) = unitsAt (run platform genesis.world events) (q.vault side) := by
  intro h
  have hsame := h tablePlatform (clockedGenesis 0) secondPoolEvents [.key 21] crossingSwap _ _ rfl
    (transact_apply _ _ _ _ (by decide +kernel)) secondConfigId (by decide) secondPoolId secondPool
    (by unfold PoolOf; decide +kernel) (by unfold PoolAt; decide +kernel) .b
  revert hsame
  decide +kernel

end LezPrograms.Amm
