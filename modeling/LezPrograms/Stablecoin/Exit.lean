import LezPrograms.Stablecoin.Completion

/-! # The way out of a position

While the protocol is not frozen the owner of a position can leave it: repaying
the nominal debt clears it, a deposit of nothing records what others sent to the
vault, a withdrawal takes the whole vault, and the position is closed. -/

set_option autoImplicit false

namespace LezPrograms.Stablecoin
open LezPrograms.Checked LezPrograms.Checked.Unsigned LezPrograms.Lee LezPrograms.Token
open LezPrograms.Stablecoin.Math LezPrograms.Stablecoin.Compounding

def depositCollateralCall (o x u : AccountId) (amount : U128) : ChainedCall :=
  .new stablecoinProgramId [o, x, vaultId x, u, parametersId]
    (.stablecoin (.depositCollateral amount))

def closePositionCall (o x : AccountId) : ChainedCall :=
  .new stablecoinProgramId [o, x, vaultId x, parametersId] (.stablecoin .closePosition)

theorem fungible_after (authority : List AccountId) (v w' : Accounts) (calls : List ChainedCall)
    (h : Settled stablecoinProgramId authority v calls w') (y token : AccountId) (b b' : U128)
    (hb : HoldingAt v y (.fungible token b))
    (hflow : b'.val + (calls.map fun call => call.debit y).sum
      = b.val + (calls.map fun call => call.credit y).sum) :
    HoldingAt w' y (.fungible token b') := by
  obtain ⟨held, hheld, htoken, hkind, hunits⟩ := h.holding_flows _ _ _ _ _ y _ hb
  obtain ⟨c, hc⟩ := TokenHolding.eq_fungible_of_kind held hkind
  rw [htoken] at hc
  subst hc
  change c.val + _ = b.val + _ at hunits
  obtain rfl : c = b' := Fin.ext (by omega)
  exact hheld

section
variable (tokenProgram d y : AccountId) (fees : U128)

theorem debit_surplusCalls :
    ((surplusCalls tokenProgram d stablecoinProgramId fees).map fun call => call.debit y).sum
      = 0 := by
  unfold surplusCalls
  split <;> rfl

theorem credit_surplusCalls (hy : y ≠ masterId) :
    ((surplusCalls tokenProgram d stablecoinProgramId fees).map fun call => call.credit y).sum
      = 0 := by
  unfold surplusCalls
  split
  · exact (Nat.add_zero _).trans (if_neg hy)
  · rfl

end

theorem vault_ne_master (x : AccountId) : vaultId x ≠ masterId := by
  intro h
  cases (AccountId.pda.inj h).2

theorem close_nodup (authority : List AccountId) (hg : Granted authority) (o : AccountId) (nonce : U64)
    (x : AccountId) (hx : x = computePositionPda stablecoinProgramId o nonce) (ho : o ∈ authority) :
    [o, x, vaultId x, parametersId].Nodup := by
  have hsigner : ∀ y : AccountId, y.DerivedBy stablecoinProgramId → o ≠ y := by
    rintro y hy rfl
    exact hg o ho stablecoinProgramId (by decide) hy
  have hderived : x.DerivedBy stablecoinProgramId := by
    rw [hx]
    rfl
  have hxp : x ≠ parametersId := by
    rw [hx]
    intro hxp
    cases (AccountId.pda.inj hxp).2
  have hxv : x ≠ vaultId x := by
    intro hxv
    rw [hx] at hxv
    cases (PdaSeed.account.inj (AccountId.pda.inj hxv).2).2
  have hvp : vaultId x ≠ parametersId := by
    intro hvp
    cases (AccountId.pda.inj hvp).2
  simp only [List.nodup_cons, List.mem_cons, List.not_mem_nil, or_false, not_or, not_false_eq_true,
    List.nodup_nil, and_true]
  exact ⟨⟨hsigner x hderived, hsigner _ (derivedBy_vault x), hsigner _ rfl⟩, ⟨hxv, hxp⟩, hvp⟩

/-- The accounts of a deposit differ if its holding is another key than the owner. -/
theorem deposit_nodup (authority : List AccountId) (hg : Granted authority) (o u : AccountId)
    (nonce : U64) (x : AccountId) (hx : x = computePositionPda stablecoinProgramId o nonce)
    (ho : o ∈ authority) (hu : u ∈ authority) (hne : u ≠ o) :
    [o, x, vaultId x, u, parametersId].Nodup := by
  have hsigner : ∀ y : AccountId, y.DerivedBy stablecoinProgramId → u ≠ y := by
    rintro y hy rfl
    exact hg u hu stablecoinProgramId (by decide) hy
  have hderived : x.DerivedBy stablecoinProgramId := by
    rw [hx]
    rfl
  change ([o, x, vaultId x] ++ u :: [parametersId]).Nodup
  rw [List.nodup_middle, List.nodup_cons]
  refine ⟨?_, close_nodup authority hg o nonce x hx ho⟩
  simp only [List.mem_cons, List.cons_append, List.nil_append, List.not_mem_nil, or_false, not_or]
  exact ⟨hne, hsigner x hderived, hsigner _ (derivedBy_vault x), hsigner _ rfl⟩

/-- A deposit that another key signs and covers is performed, and its transfer succeeds. -/
theorem deposit_transfers (tickMath : TwapOracle.TickMath) (depth : ℕ) (w : Accounts)
    (authority : List AccountId) (hg : Granted authority) (o x u : AccountId) (data : Position)
    (params : ProtocolParameters) (reads : PositionReads stablecoinProgramId w authority o x data)
    (hnamed : data.vaultAccountId = vaultId x)
    (hparameters : Holds stablecoinProgramId (w parametersId) (.protocolParameters params))
    (hu : u ∈ authority) (hne : u ≠ o) (vault balance amount total : U128)
    (hvault : HoldingAt w (vaultId x) (.fungible params.collateralDefinitionId vault))
    (hholding : HoldingAt w u (.fungible params.collateralDefinitionId balance))
    (hpays : amount.val ≤ balance.val) (htotal : total.val = vault.val + amount.val) :
    Performs w authority [o, x, vaultId x, u, parametersId] (.depositCollateral amount)
        (put stablecoinProgramId w x (.position { data with collateralAmount := total }))
        [depositCall tokenProgramId u (vaultId x) amount] ∧
      ∃ w', invoke tickMath (depth + 1)
        (put stablecoinProgramId w x (.position { data with collateralAmount := total }))
        (callAuthority authority stablecoinProgramId
          (depositCall tokenProgramId u (vaultId x) amount))
        (depositCall tokenProgramId u (vaultId x) amount) = .ok w' := by
  have hperf := (performs_deposit w _ authority _ o x (vaultId x) u parametersId amount).mpr
    ⟨deposit_nodup authority hg o u _ x reads.derived reads.authorized hu hne, rfl, hu, data, params,
      vault, _, total, reads, hnamed, hparameters, hvault.data, hholding.owner.trans hvault.owner.symm,
      hholding.data, rfl, htotal, rfl, rfl⟩
  rw [hvault.owner] at hperf
  refine ⟨hperf, ?_⟩
  have htokens := owned_frame tokenProgramId stablecoinProgramId w _ hperf.frame (by decide)
    (by decide)
  have huv : u ≠ vaultId x := by
    rintro rfl
    exact hg _ hu stablecoinProgramId (by decide) (derivedBy_vault x)
  obtain ⟨w', -, -, hw', -⟩ := transfer_succeeds tickMath depth _
    (callAuthority authority stablecoinProgramId (depositCall tokenProgramId u (vaultId x) amount))
    u (vaultId x) amount [] huv params.collateralDefinitionId balance vault
    (by rwa [HoldingAt, htokens]) (Or.inr (by rwa [HoldingAt, htokens]))
    (List.mem_append_left _ hu) hpays (htotal ▸ total.isLt)
  exact ⟨w', hw'⟩

structure Leaving (w : Accounts) (o x u k : AccountId) (data : Position)
    (params : ProtocolParameters) (now : U64) (stables vault balance : U128) : Prop where
  derived : x = computePositionPda stablecoinProgramId o data.positionNonce
  owner : data.ownerAccountId = o
  vaultId : data.vaultAccountId = vaultId x
  position : owned stablecoinProgramId w x = some (.position data)
  parameters : owned stablecoinProgramId w parametersId = some (.protocolParameters params)
  clock : (w clock01ProgramAccountId).data = .clock now
  stablecoins : HoldingAt w u (.fungible definitionId stables)
  vault : HoldingAt w (Stablecoin.vaultId x) (.fungible params.collateralDefinitionId vault)
  collateral : HoldingAt w k (.fungible params.collateralDefinitionId balance)

structure Keys (authority : List AccountId) (o u k : AccountId) : Prop where
  granted : Granted authority
  owner : o ∈ authority
  stablecoins : u ∈ authority
  collateral : k ∈ authority
  distinct : u ≠ o ∧ k ≠ o

section
variable (w : Accounts) (o x u k : AccountId) (data : Position) (params : ProtocolParameters)
  (now : U64) (stables vault balance : U128)
  (h : Leaving w o x u k data params now stables vault balance)
variable (authority : List AccountId) (keys : Keys authority o u k)

include keys in
/-- No signing key is an address of the program. -/
theorem Keys.ne_derived (id y : AccountId) (hid : id ∈ authority)
    (hy : y.DerivedBy stablecoinProgramId) : id ≠ y := by
  rintro rfl
  exact keys.granted id hid stablecoinProgramId (by decide) hy

include h

theorem Leaving.position_holds : Holds stablecoinProgramId (w x) (.position data) :=
  (owned_eq_some _ _ _ _).mp h.position

theorem Leaving.parameters_hold :
    Holds stablecoinProgramId (w parametersId) (.protocolParameters params) :=
  (owned_eq_some _ _ _ _).mp h.parameters

theorem Leaving.stored : storedParameters w = some params :=
  Holds.storedParameters w params (h.parameters_hold w o x u k data params now stables vault balance)

/-- The two holdings are of different tokens. -/
theorem Leaving.holdings_ne (he : Established w) : k ≠ u := by
  rintro rfl
  have hsame := h.collateral.symm.trans h.stablecoins
  simp only [Option.some.injEq, Data.tokenHolding.injEq, TokenHolding.fungible.injEq] at hsame
  exact (he.2 params (h.stored w o x k k data params now stables vault balance)).collateral hsame.1

theorem Leaving.not_position : parametersId ≠ x ∧ accumulatorId ≠ x ∧ clock01ProgramAccountId ≠ x := by
  rw [h.derived]
  refine ⟨fun hx => ?_, fun hx => ?_, fun hx => ?_⟩
  · cases (AccountId.pda.inj hx).2
  · cases (AccountId.pda.inj hx).2
  · cases hx

/-- What an instruction of the owner and its token calls leave. -/
theorem Leaving.after (v w' : Accounts) (calls : List ChainedCall)
    (hframe : Frame stablecoinProgramId w v)
    (ht : ∀ call ∈ calls, ∃ i, call.instruction = .token i)
    (hs : Settled stablecoinProgramId authority v calls w')
    (hclock : v clock01ProgramAccountId = w clock01ProgramAccountId) (data' : Position)
    (hsame : data'.ownerAccountId = data.ownerAccountId ∧
      data'.positionNonce = data.positionNonce ∧ data'.vaultAccountId = data.vaultAccountId)
    (hx : owned stablecoinProgramId v x = some (.position data'))
    (hp : owned stablecoinProgramId v parametersId = some (.protocolParameters params))
    (stables' vault' balance' : U128)
    (hu : stables'.val + (calls.map fun call => call.debit u).sum
      = stables.val + (calls.map fun call => call.credit u).sum)
    (hv : vault'.val + (calls.map fun call => call.debit (Stablecoin.vaultId x)).sum
      = vault.val + (calls.map fun call => call.credit (Stablecoin.vaultId x)).sum)
    (hk : balance'.val + (calls.map fun call => call.debit k).sum
      = balance.val + (calls.map fun call => call.credit k).sum) :
    Leaving w' o x u k data' params now stables' vault' balance' := by
  have hstored := hs.owned_eq _ _ stablecoinProgramId (by decide) (by decide)
  have htokens := owned_frame tokenProgramId stablecoinProgramId w v hframe (by decide) (by decide)
  have hc : (v clock01ProgramAccountId).data = .clock now := by rw [hclock, h.clock]
  have hclock' : w' clock01ProgramAccountId = v clock01ProgramAccountId := by
    refine hs.others_kept _ _ _ _ _ _ ht
      (Token.data_ne_default _ (by rw [hc]; exact Data.noConfusion)) ?_
    rw [hc]
    rintro (⟨_, hd⟩ | ⟨_, hd⟩) <;> cases hd
  obtain ⟨howner, hnonce, hvault⟩ := hsame
  refine ⟨hnonce ▸ h.derived, howner.trans h.owner, hvault.trans h.vaultId, hstored ▸ hx,
    hstored ▸ hp, by rw [hclock', hc], ?_, ?_, ?_⟩
  · exact fungible_after authority v w' calls hs u _ stables stables'
      (by rw [HoldingAt, htokens]; exact h.stablecoins) hu
  · exact fungible_after authority v w' calls hs _ _ vault vault'
      (by rw [HoldingAt, htokens]; exact h.vault) hv
  · exact fungible_after authority v w' calls hs k _ balance balance'
      (by rw [HoldingAt, htokens]; exact h.collateral) hk

variable (platform : Platform) (hcalls : 2 ≤ platform.callDepth) (he : Established w)
  (hclk : ClockOwnsNothing w)
include keys hcalls he hclk

/-- Repaying what the debt amounts to clears it. -/
theorem Leaving.repaid (hc : Conserved w) (rate full : U128) (hrate : CurrentRate w rate)
    (hfull : full.val = nominalDebt data.normalizedDebtAmount.val rate.val)
    (hpays : full.val ≤ stables.val) (hfits : SupplyFits w 0) :
    ∃ w' data', ∃ stables' : U128,
      transact platform w authority (repayCall o x u full) = .ok w' ∧
      stables'.val + full.val = stables.val ∧ data'.normalizedDebtAmount.val = 0 ∧
      Leaving w' o x u k data' params now stables' vault balance := by
  have hx := h.position_holds w o x u k data params now stables vault balance
  have hp := h.parameters_hold w o x u k data params now stables vault balance
  have hstoredp := h.stored w o x u k data params now stables vault balance
  obtain ⟨s, hr, rfl⟩ := he.represents w params hstoredp
  obtain ⟨p, accumulator, now', hp', ha, hnow, hcurrent⟩ := id hrate
  obtain rfl := Option.some.inj (hp'.symm.trans hstoredp)
  obtain rfl := Data.clock.inj (hnow.symm.trans h.clock)
  obtain rfl := Option.some.inj (ha.symm.trans hr.storedAccumulator)
  have hacc := (owned_eq_some _ _ _ _).mp hr.records.accumulator
  have hinputs : DebtInputs w o x u data s.parameters s.accumulator now' rate stables :=
    ⟨h.derived, h.owner, hx, hp, hacc, hnow, hcurrent,
      h.stablecoins.owner.trans (he.tokens w _ hstoredp).1.symm, h.stablecoins.data⟩
  have hone : fixedPointOne.val ≤ rate.val :=
    hr.accumulated.trans (accumulated_grows _ _ _ _ _ hr.parameters.feeLower hcurrent)
  have hdelta := mulDiv_nominal data.normalizedDebtAmount rate full hone hfull
  obtain ⟨w', hw'⟩ := repay_succeeds platform w he hcalls hc hclk authority keys.granted o x u data
    s.parameters s.accumulator now' rate stables full _ hinputs keys.owner hdelta le_rfl hpays
    keys.stablecoins keys.distinct.1 hfits
  obtain ⟨v, calls, hperf, hs⟩ := transact_settled platform w w' authority _ hw' _ rfl
  obtain ⟨-, -, -, data', params', accumulator', now'', accrual, delta, newDebt, newTotal, reads,
    hdelta', hdebt, -, rfl, rfl⟩ :=
    (performs_repay w v authority calls o x definitionId u _ _ _ _ full).mp hperf
  obtain rfl := Data.position.inj (reads.position.stored.2.symm.trans hx.2)
  obtain rfl := hrate.unique w _ _ reads.accrues.current
  obtain rfl := Except.ok.inj (hdelta.symm.trans hdelta')
  have hku := h.holdings_ne w o x u k data' _ _ _ _ _ he
  have hum := keys.ne_derived o u k authority u masterId keys.stablecoins derivedBy_master
  have hkm := keys.ne_derived o u k authority k masterId keys.collateral derivedBy_master
  have huv := keys.ne_derived o u k authority u (Stablecoin.vaultId x) keys.stablecoins
    (derivedBy_vault x)
  obtain ⟨hpx, hax, hcx⟩ := h.not_position w o x u k data' _ _ _ _ _
  have hle : full.val ≤ stables.val := hpays
  refine ⟨w', { data' with normalizedDebtAmount := newDebt },
    ⟨stables.val - full.val, (Nat.sub_le _ _).trans_lt stables.isLt⟩, hw', Nat.sub_add_cancel hle,
    by simpa using hdebt, ?_⟩
  refine h.after w o x u k data' _ _ _ _ _ authority _ w' _ hperf.frame ?_ hs ?_
    { data' with normalizedDebtAmount := newDebt } ⟨rfl, rfl, rfl⟩ ?_ ?_ _ vault balance ?_ ?_ ?_
  · exact stablecoin_token _ _ _ _ _ _ _ hperf.step
  · rw [put_other _ _ _ _ _ (by decide), put_other _ _ _ _ _ hcx]
  · rw [owned_congr _ _ _ x (put_other _ _ _ _ _ hax.symm), owned_put _ _ _ _ (Or.inl hx.1),
      Function.update_self]
  · rw [owned_congr _ _ _ _ (put_other _ _ _ _ _ (by decide)),
      owned_congr _ _ _ _ (put_other _ _ _ _ _ hpx)]
    exact h.parameters
  · rw [List.map_append, List.map_append, List.sum_append, List.sum_append, debit_surplusCalls,
      credit_surplusCalls _ _ _ _ hum]
    change stables.val - full.val + (0 + ((if u = u then full.val else 0) + 0))
      = stables.val + (0 + (0 + 0))
    rw [if_pos rfl]
    omega
  · rw [List.map_append, List.map_append, List.sum_append, List.sum_append, debit_surplusCalls,
      credit_surplusCalls _ _ _ _ (vault_ne_master x)]
    change vault.val + (0 + ((if Stablecoin.vaultId x = u then full.val else 0) + 0))
      = vault.val + (0 + (0 + 0))
    rw [if_neg huv.symm]
  · rw [List.map_append, List.map_append, List.sum_append, List.sum_append, debit_surplusCalls,
      credit_surplusCalls _ _ _ _ hkm]
    change balance.val + (0 + ((if k = u then full.val else 0) + 0)) = balance.val + (0 + (0 + 0))
    rw [if_neg hku]

omit he hclk hcalls in
/-- An instruction that writes the position and makes one token call. -/
theorem Leaving.acts (ids : List AccountId) (instruction : Instruction) (data' : Position)
    (hsame : data'.ownerAccountId = data.ownerAccountId ∧
      data'.positionNonce = data.positionNonce ∧ data'.vaultAccountId = data.vaultAccountId)
    (call : ChainedCall)
    (hperf : Performs w authority ids instruction
      (put stablecoinProgramId w x (.position data')) [call])
    (ht : ∃ i, call.instruction = .token i) (depth : ℕ) (hdepth : platform.callDepth = depth + 2)
    (w' : Accounts)
    (hw' : invoke platform.tickMath (depth + 1) (put stablecoinProgramId w x (.position data'))
      (callAuthority authority stablecoinProgramId call) call = .ok w')
    (vault' balance' : U128) (hu : call.debit u = 0 ∧ call.credit u = 0)
    (hv : vault'.val + call.debit (Stablecoin.vaultId x)
      = vault.val + call.credit (Stablecoin.vaultId x))
    (hk : balance'.val + call.debit k = balance.val + call.credit k) :
    transact platform w authority (.new stablecoinProgramId ids (.stablecoin instruction)) = .ok w' ∧
      Leaving w' o x u k data' params now stables vault' balance' := by
  obtain ⟨hpx, -, hcx⟩ := h.not_position w o x u k data params now stables vault balance
  have hx := h.position_holds w o x u k data params now stables vault balance
  have hsettle : settle platform.tickMath (depth + 1) stablecoinProgramId authority
      (put stablecoinProgramId w x (.position data')) [call] = .ok w' := by
    simp only [settle, List.foldlM_cons, List.foldlM_nil, bind_pure]
    exact hw'
  have hleaf : ∀ c ∈ [call], ∃ i, c.instruction = .token i :=
    fun c hc => List.mem_singleton.mp hc ▸ ht
  have hs := settled_of_foldlM platform.tickMath (depth + 1) stablecoinProgramId authority _
    (fun c hc => Or.inl (hleaf c hc)) _ w' hsettle
  refine ⟨(transact_eq_ok platform w w' authority _ _ rfl).mpr ⟨keys.granted, rfl, depth + 1, _, _,
    hdepth, hperf, hsettle⟩, h.after w o x u k data _ _ _ _ _ authority _ w' _ hperf.frame hleaf hs
    (put_other _ _ _ _ _ hcx) data' hsame ?_ ?_ stables vault' balance' ?_ ?_ ?_⟩
  · rw [owned_put _ _ _ _ (Or.inl hx.1), Function.update_self]
  · rw [owned_congr _ _ _ _ (put_other _ _ _ _ _ hpx)]
    exact h.parameters
  · simp only [List.map_cons, List.map_nil, List.sum_singleton, hu.1, hu.2]
  · simpa only [List.map_cons, List.map_nil, List.sum_singleton] using hv
  · simpa only [List.map_cons, List.map_nil, List.sum_singleton] using hk

omit he hclk in
/-- A deposit of nothing records everything the vault holds. -/
theorem Leaving.recorded : ∃ w' data',
    transact platform w authority (depositCollateralCall o x k (zero 128)) = .ok w' ∧
    data'.normalizedDebtAmount = data.normalizedDebtAmount ∧ data'.collateralAmount = vault ∧
    Leaving w' o x u k data' params now stables vault balance := by
  have hx := h.position_holds w o x u k data params now stables vault balance
  have hp := h.parameters_hold w o x u k data params now stables vault balance
  obtain ⟨depth, hdepth⟩ := Nat.exists_eq_add_of_le' hcalls
  obtain ⟨hperf, w', hw'⟩ := deposit_transfers platform.tickMath depth w authority keys.granted o x k
    data params ⟨keys.owner, hx, h.derived, h.owner⟩ h.vaultId hp keys.collateral keys.distinct.2 vault
    balance (zero 128) vault h.vault h.collateral (Nat.zero_le _) rfl
  have hidle : ∀ y, ChainedCall.debit (depositCall tokenProgramId k (Stablecoin.vaultId x) (zero 128)) y
      = 0 ∧ ChainedCall.credit (depositCall tokenProgramId k (Stablecoin.vaultId x) (zero 128)) y = 0 :=
    fun y => ⟨ite_self 0, ite_self 0⟩
  obtain ⟨ht, hl⟩ := h.acts w o x u k data params now stables vault balance authority keys platform
    _ _ { data with collateralAmount := vault } ⟨rfl, rfl, rfl⟩ _ hperf ⟨_, rfl⟩ depth hdepth w' hw'
    vault balance (hidle u) (by rw [(hidle _).1, (hidle _).2]) (by rw [(hidle _).1, (hidle _).2])
  exact ⟨w', { data with collateralAmount := vault }, ht, rfl, rfl, hl⟩

/-- Without debt the owner takes out everything that is recorded. -/
theorem Leaving.emptied (hc : Conserved w) (hopen : params.isFrozen = false)
    (hdebt : data.normalizedDebtAmount.val = 0) (hall : data.collateralAmount = vault) :
    ∃ w' data', ∃ balance' : U128,
      transact platform w authority (withdrawCollateralCall o x k vault) = .ok w' ∧
      data'.normalizedDebtAmount.val = 0 ∧ data'.collateralAmount.val = 0 ∧
      balance'.val = balance.val + vault.val ∧
      Leaving w' o x u k data' params now stables (zero 128) balance' := by
  have hx := h.position_holds w o x u k data params now stables vault balance
  have hp := h.parameters_hold w o x u k data params now stables vault balance
  have hku := h.holdings_ne w o x u k data params now stables vault balance he
  have hkv := keys.ne_derived o u k authority k _ keys.collateral (derivedBy_vault x)
  have huv := keys.ne_derived o u k authority u _ keys.stablecoins (derivedBy_vault x)
  obtain ⟨s, hr, rfl⟩ := he.represents w params
    (h.stored w o x u k data params now stables vault balance)
  have hinputs : WithdrawalInputs w o x k data s.parameters s.accumulator s.redemption now vault
      balance :=
    ⟨h.derived, h.owner, h.vaultId, hx, hp, (owned_eq_some _ _ _ _).mp hr.records.accumulator,
      (owned_eq_some _ _ _ _).mp hr.records.redemption, h.clock, h.vault.data,
      h.collateral.owner.trans h.vault.owner.symm, h.collateral.data⟩
  have hn := hinputs.nodup w hclk authority keys.granted _ _ _ _ _ _ _ _ _ _ keys.owner
    keys.distinct.2 hkv
  have hperf := (performs_withdraw w _ authority _ o x (Stablecoin.vaultId x) k accumulatorId
    redemptionId parametersId clock01ProgramAccountId vault).mpr
    ⟨hn, ⟨rfl, rfl, rfl, rfl, rfl⟩, data, s.parameters, s.accumulator, s.redemption, now, _, _,
      zero 128, ⟨keys.owner, hx, h.derived, h.owner⟩, h.vaultId, hp, hopen, hinputs.accumulates,
      hinputs.redemption, h.clock, h.vault.data, rfl, hinputs.sameProgram, h.collateral.data, rfl,
      by rw [hall]; exact Nat.zero_add _, if_neg fun hand => hand.2 hdebt, rfl, rfl⟩
  have htokens := owned_frame tokenProgramId stablecoinProgramId w _ hperf.frame (by decide)
    (by decide)
  have hroom := hc.room w _ (Stablecoin.vaultId x) k vault balance h.vault (Or.inr h.collateral)
    hkv.symm
  obtain ⟨depth, hdepth⟩ := Nat.exists_eq_add_of_le' hcalls
  obtain ⟨w', -, balance', hw', -, -, -, -, hbalance⟩ := transfer_succeeds platform.tickMath depth _
    (callAuthority authority stablecoinProgramId
      (withdrawCall tokenProgramId x (Stablecoin.vaultId x) k vault))
    (Stablecoin.vaultId x) k vault [computePositionVaultPdaSeed x] hkv.symm
    s.parameters.collateralDefinitionId vault balance
    (by rw [HoldingAt, htokens]; exact h.vault)
    (Or.inr (by rw [HoldingAt, htokens]; exact h.collateral))
    (List.mem_append_right _ (List.mem_map.mpr ⟨_, List.mem_singleton_self _, rfl⟩)) le_rfl (by omega)
  rw [h.vault.owner] at hperf
  obtain ⟨ht, hl⟩ := h.acts w o x u k data s.parameters now stables vault balance authority keys
    platform _ _ { data with collateralAmount := zero 128 } ⟨rfl, rfl, rfl⟩ _ hperf ⟨_, rfl⟩ depth
    hdepth w' hw' (zero 128) balance' ⟨if_neg huv, if_neg hku.symm⟩
    (by
      change 0 + (if _ = _ then vault.val else 0) = vault.val + (if _ = k then vault.val else 0)
      rw [if_pos rfl, if_neg hkv.symm, Nat.zero_add, Nat.add_zero])
    (by
      change balance'.val + (if k = _ then vault.val else 0)
        = balance.val + (if k = k then vault.val else 0)
      rw [if_neg hkv, if_pos rfl, hbalance, Nat.add_zero])
  exact ⟨w', { data with collateralAmount := zero 128 }, balance', ht, hdebt, rfl, hbalance, hl⟩

omit he hclk in
/-- An empty position without debt is closed, and nothing else changes. -/
theorem Leaving.closed (hdebt : data.normalizedDebtAmount.val = 0)
    (hempty : data.collateralAmount.val = 0) (hvault : vault.val = 0) :
    ∃ w', transact platform w authority (closePositionCall o x) = .ok w' ∧ positionAt w' x = none ∧
      owned tokenProgramId w' = owned tokenProgramId w := by
  have hx := h.position_holds w o x u k data params now stables vault balance
  have hp := h.parameters_hold w o x u k data params now stables vault balance
  have hids := close_nodup authority keys.granted o _ x h.derived keys.owner
  have hperf := (performs_close w _ authority _ o x (Stablecoin.vaultId x) parametersId).mpr
    ⟨hids, rfl, data, params, _, vault, ⟨keys.owner, hx, h.derived, h.owner⟩, h.vaultId, hp, hdebt,
      hempty, h.vault.data, hvault, rfl, rfl⟩
  obtain ⟨depth, hdepth⟩ := Nat.exists_eq_add_of_le' hcalls
  refine ⟨_, (transact_eq_ok platform w _ authority _ _ rfl).mpr ⟨keys.granted, rfl, depth + 1, _, _,
    hdepth, hperf, rfl⟩, ?_, owned_frame tokenProgramId stablecoinProgramId w _ hperf.frame
    (by decide) (by decide)⟩
  rw [positionAt, owned_put _ _ _ _ (Or.inl hx.1), Function.update_self]

end

/-- The world after a transaction is reached by the longer run. -/
theorem run_transacted (platform : Platform) (w w' : Accounts) (events : List Event)
    (authority : List AccountId) (call : ChainedCall)
    (h : transact platform (run platform w events) authority call = .ok w') :
    w' = run platform w (events ++ [.transaction authority call]) := by
  simp only [run_concat, Event.apply, h]

/-- In a world that a run reaches, while the protocol is not frozen, the owner of a position who
holds what its debt amounts to can leave it in four transactions. The position is then closed, the
nominal debt is burned, and everything in the vault is the owner's. -/
theorem positions_can_be_left (platform : Platform) (hcalls : 2 ≤ platform.callDepth)
    (genesis : Genesis) (events : List Event) (authority : List AccountId) (o x u k : AccountId)
    (data : Position) (params : ProtocolParameters) (rate full stables balance : U128)
    (keys : Keys authority o u k)
    (hx : positionAt (run platform genesis.world events) x = some data)
    (howner : data.ownerAccountId = o)
    (hp : storedParameters (run platform genesis.world events) = some params)
    (hopen : params.isFrozen = false) (hrate : CurrentRate (run platform genesis.world events) rate)
    (hfits : SupplyFits (run platform genesis.world events) 0)
    (hfull : full.val = nominalDebt data.normalizedDebtAmount.val rate.val)
    (hu : HoldingAt (run platform genesis.world events) u (.fungible definitionId stables))
    (hpays : full.val ≤ stables.val)
    (hk : HoldingAt (run platform genesis.world events) k
      (.fungible params.collateralDefinitionId balance)) :
    ∃ w₁ w₂ w₃ w₄, ∃ vault stables' balance' : U128,
      HoldingAt (run platform genesis.world events) (vaultId x)
        (.fungible params.collateralDefinitionId vault) ∧
      data.collateralAmount.val ≤ vault.val ∧
      transact platform (run platform genesis.world events) authority (repayCall o x u full) = .ok w₁ ∧
      transact platform w₁ authority (depositCollateralCall o x k (zero 128)) = .ok w₂ ∧
      transact platform w₂ authority (withdrawCollateralCall o x k vault) = .ok w₃ ∧
      transact platform w₃ authority (closePositionCall o x) = .ok w₄ ∧
      positionAt w₄ x = none ∧
      HoldingAt w₄ u (.fungible definitionId stables') ∧ stables'.val + full.val = stables.val ∧
      HoldingAt w₄ k (.fungible params.collateralDefinitionId balance') ∧
      balance'.val = balance.val + vault.val := by
  have he := run_established platform genesis
  have hc := run_conserved platform genesis
  have hclk := run_clock_owns_nothing platform genesis
  obtain ⟨s, hr, rfl⟩ := (he events).represents _ params hp
  obtain ⟨hlive, hvault, hplaced, -⟩ := hr.position _ s x data hx
  obtain ⟨held, hheld, hkind, htoken, -⟩ := hr.tokens.vaults x hlive
  obtain ⟨vault, hvaulted⟩ := TokenHolding.eq_fungible_of_kind held hkind
  rw [htoken] at hvaulted
  subst hvaulted
  have hcovered := sound_covers _ (he events).1 x data hx
  rw [hvault, hheld.unitsAt_eq] at hcovered
  obtain ⟨-, -, now, -, -, hnow, -⟩ := id hrate
  have h : Leaving _ o x u k data s.parameters now stables vault balance :=
    ⟨howner ▸ hplaced, howner, hvault, (positionAt_eq_some _ x data).mp hx, hr.records.parameters,
      hnow, hu, hheld, hk⟩
  obtain ⟨w₁, data₁, stables', h₁, hstables, hdebt₁, hl₁⟩ := h.repaid _ _ _ _ _ _ _ _ _ _ _ authority
    keys platform hcalls (he events) (hclk events) (hc events).2 rate full hrate hfull hpays hfits
  obtain rfl := run_transacted platform _ _ _ _ _ h₁
  obtain ⟨w₂, data₂, h₂, hdebt₂, hall₂, hl₂⟩ := hl₁.recorded _ _ _ _ _ _ _ _ _ _ _ authority keys
    platform hcalls
  obtain rfl := run_transacted platform _ _ _ _ _ h₂
  obtain ⟨w₃, data₃, balance', h₃, hdebt₃, hempty₃, hbalance, hl₃⟩ := hl₂.emptied _ _ _ _ _ _ _ _ _ _ _
    authority keys platform hcalls (he _) (hclk _) (hc _).2 hopen (by rw [hdebt₂, hdebt₁]) hall₂
  obtain ⟨w₄, h₄, hclosed, htokens⟩ := hl₃.closed _ _ _ _ _ _ _ _ _ _ _ authority keys platform hcalls
    hdebt₃ hempty₃ rfl
  exact ⟨_, _, w₃, w₄, vault, stables', balance', hheld, hcovered, h₁, h₂, h₃, h₄, hclosed,
    by rw [HoldingAt, htokens]; exact hl₃.stablecoins, hstables,
    by rw [HoldingAt, htokens]; exact hl₃.collateral, hbalance⟩

def firstDebtEvents : List Event :=
  firstInitialization ++ firstOpening ++ [.transaction [.key 30] firstGeneration]

def firstDebtWorld : Accounts := run tablePlatform (clockedGenesis 0).world firstDebtEvents

def indebtedPosition : Position := ⟨.key 30, 0, vaultId firstPositionId, 2000, 1000, 0⟩

def firstParameters : ProtocolParameters :=
  initialParameters firstParams (.key 60) definitionId (.key 20) (.key 70)

theorem firstDebt_rate : CurrentRate firstDebtWorld fixedPointOne :=
  ⟨firstParameters, ⟨fixedPointOne, 0, 1000⟩, 0, by decide +kernel, by decide +kernel,
    by decide +kernel, by decide +kernel⟩

/-- No time has passed, so no fees are due. -/
theorem firstDebt_fits : SupplyFits firstDebtWorld 0 := by
  intro accumulator rate hstored hcurrent
  obtain rfl := hcurrent.unique firstDebtWorld _ _ firstDebt_rate
  have hstored' : storedAccumulator firstDebtWorld = some ⟨fixedPointOne, 0, 1000⟩ := by
    decide +kernel
  obtain rfl := Option.some.inj (hstored.symm.trans hstored')
  have hsupply : supplyOf firstDebtWorld definitionId = 1000 := by decide +kernel
  rw [hsupply, dueFees, Nat.sub_self, Nat.mul_zero, Nat.zero_div]
  decide

theorem first_position_is_left : ∃ w₁ w₂ w₃ w₄, ∃ vault : U128,
    transact tablePlatform firstDebtWorld [.key 30, .key 31, .key 21]
      (repayCall (.key 30) firstPositionId (.key 31) 1000) = .ok w₁ ∧
    transact tablePlatform w₁ [.key 30, .key 31, .key 21]
      (depositCollateralCall (.key 30) firstPositionId (.key 21) (zero 128)) = .ok w₂ ∧
    transact tablePlatform w₂ [.key 30, .key 31, .key 21]
      (withdrawCollateralCall (.key 30) firstPositionId (.key 21) vault) = .ok w₃ ∧
    transact tablePlatform w₃ [.key 30, .key 31, .key 21]
      (closePositionCall (.key 30) firstPositionId) = .ok w₄ ∧
    positionAt w₄ firstPositionId = none := by
  obtain ⟨w₁, w₂, w₃, w₄, vault, -, -, -, -, h₁, h₂, h₃, h₄, hclosed, -⟩ :=
    positions_can_be_left tablePlatform le_rfl (clockedGenesis 0) firstDebtEvents
      [.key 30, .key 31, .key 21] (.key 30) firstPositionId (.key 31) (.key 21) indebtedPosition
      firstParameters fixedPointOne 1000 1000 999999999999999999999998000
      ⟨by unfold Granted; decide, by decide, by decide, by decide, by decide⟩ (by decide +kernel) rfl
      (by decide +kernel) rfl firstDebt_rate firstDebt_fits
      (by decide +kernel) (by decide +kernel : owned _ _ _ = _) le_rfl
      (by decide +kernel : owned _ _ _ = _)
  exact ⟨w₁, w₂, w₃, w₄, vault, h₁, h₂, h₃, h₄, hclosed⟩

end LezPrograms.Stablecoin
