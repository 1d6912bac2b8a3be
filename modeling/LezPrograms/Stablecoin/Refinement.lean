import LezPrograms.Stablecoin.Instance

/-! # The program refines the ledger

Every successful stablecoin instruction takes one step of the ledger; every
other event is a step elsewhere. -/

set_option autoImplicit false

namespace LezPrograms.Stablecoin
open LezPrograms.Checked LezPrograms.Lee LezPrograms.Token LezPrograms.Stablecoin.Math
open LezPrograms.Stablecoin.Compounding

section
variable (authority : List AccountId) (ho : Outside stablecoinProgramId authority)
variable (w v w' : Accounts)

theorem surplus_settled (tokenProgram : AccountId) (fees : U128) (d : Definition)
    (h : Settled stablecoinProgramId authority v
      (surplusCalls tokenProgram definitionId stablecoinProgramId fees) w')
    (hd : DefinitionAt v definitionId d) :
    ∃ d', DefinitionAt w' definitionId d' ∧ d'.mintAuthority = d.mintAuthority ∧
      (d'.isFungible ↔ d.isFungible) ∧ d'.supply = d.supply + fees.val := by
  unfold surplusCalls at h
  split at h
  · obtain ⟨-, ht⟩ := ((settled_singleton _ _ _ _ _).mp h).transition _ _ _ _ _ rfl
    exact ht.minted _ _ _ _ _ _ d hd
  · cases h
    exact ⟨d, hd, rfl, Iff.rfl, by omega⟩

theorem surplusCalls_seeds (tokenProgram d : AccountId) (fees : U128) (call : ChainedCall)
    (h : call ∈ surplusCalls tokenProgram d stablecoinProgramId fees) :
    call.pdaSeeds = [computeStablecoinDefinitionPdaSeed] := by
  unfold surplusCalls at h
  split at h
  · rw [List.mem_singleton.mp h]
    rfl
  · cases h

include ho

/-- Calls without vault seeds leave the vaults at least as full. -/
theorem Tokens.settled (collateralId : AccountId) (supply supply' : ℕ) (live : Finset AccountId)
    (vault : AccountId → ℕ) (calls : List ChainedCall)
    (t : Tokens w collateralId supply live vault)
    (hv : owned tokenProgramId v = owned tokenProgramId w)
    (hseeds : ∀ call ∈ calls, ∀ seed ∈ call.pdaSeeds, ∀ id ∈ live,
      seed ≠ computePositionVaultPdaSeed id)
    (h : Settled stablecoinProgramId authority v calls w')
    (hdef : ∀ d, DefinitionAt v definitionId d → d.mintAuthority = some definitionId →
      d.isFungible → d.supply = supply → ∃ d', DefinitionAt w' definitionId d' ∧
        d'.mintAuthority = some definitionId ∧ d'.isFungible ∧ d'.supply = supply') :
    Tokens w' collateralId supply' live (vaultUnits w') ∧
      ∀ x ∈ live, vault x ≤ vaultUnits w' x := by
  apply t.of_kept
  · intro d hd
    exact hdef d (by rwa [DefinitionAt, hv])
  · intro d hd
    exact h.definition_shape _ _ _ _ _ _ d (by rwa [DefinitionAt, hv])
  · intro id hid held hh
    apply h.holding_grows _ _ _ (fun hm => ho _ hm (derivedBy_vault id)) _ _ _ _ held
      (by rwa [HoldingAt, hv])
    rintro call hc seed hs he
    have hseed := AccountId.pda.inj he
    exact hseeds call hc seed hs id hid hseed.2.symm

/-- The calls of an accrual raise the supply by the fees. -/
theorem Tokens.accrued (collateralId tokenProgram : AccountId) (supply : ℕ)
    (live : Finset AccountId) (vault : AccountId → ℕ) (fees : U128)
    (t : Tokens w collateralId supply live vault)
    (hv : owned tokenProgramId v = owned tokenProgramId w)
    (h : Settled stablecoinProgramId authority v
      (surplusCalls tokenProgram definitionId stablecoinProgramId fees) w') :
    Tokens w' collateralId (supply + fees.val) live (vaultUnits w') ∧
      ∀ x ∈ live, vault x ≤ vaultUnits w' x := by
  apply t.settled authority ho w v w' _ _ _ _ _ _ hv _ h
  · intro d hd hm hf hs
    obtain ⟨d', h1, h2, h3, h4⟩ := surplus_settled authority v w' tokenProgram fees d h hd
    exact ⟨d', h1, h2.trans hm, h3.mpr hf, by rw [h4, hs]⟩
  · intro call hc seed hs id _ he
    rw [surplusCalls_seeds _ _ _ call hc, List.mem_singleton] at hs
    rw [hs] at he
    cases he

end

theorem Holds.owned_eq (program id : AccountId) (w : Accounts) (data : Data)
    (h : Holds program (w id) data) : owned program w id = some data :=
  (owned_eq_some _ _ _ _).mpr h

section
variable (w : Accounts) (s : Instance) (h : Represents w s)
include h

theorem Represents.reads_parameters (id : AccountId) (p : ProtocolParameters)
    (hp : Holds stablecoinProgramId (w id) (.protocolParameters p)) :
    id = parametersId ∧ p = s.parameters := by
  have hid := h.records.sole id p (Holds.owned_eq _ _ _ _ hp)
  have he := Holds.owned_eq _ _ _ _ hp
  rw [hid, h.records.parameters, Option.some.injEq, Data.protocolParameters.injEq] at he
  exact ⟨hid, he.symm⟩

theorem Represents.reads_accumulator (a : StabilityFeeAccumulator)
    (ha : Holds stablecoinProgramId (w accumulatorId) (.stabilityFeeAccumulator a)) :
    a = s.accumulator := by
  have he := Holds.owned_eq _ _ _ _ ha
  rw [h.records.accumulator, Option.some.injEq, Data.stabilityFeeAccumulator.injEq] at he
  exact he.symm

theorem Represents.reads_redemption (r : RedemptionPriceState)
    (hr : Holds stablecoinProgramId (w redemptionId) (.redemptionPriceState r)) :
    r = s.redemption := by
  have he := Holds.owned_eq _ _ _ _ hr
  rw [h.records.redemption, Option.some.injEq, Data.redemptionPriceState.injEq] at he
  exact he.symm

theorem Represents.reads_accrual (p d : AccountId) (params : ProtocolParameters)
    (a : StabilityFeeAccumulator) (now : U64) (accrual : FeeAccrual)
    (hr : AccrualReads stablecoinProgramId w p d params a now accrual) :
    (p = parametersId ∧ params = s.parameters ∧ a = s.accumulator ∧ d = definitionId) ∧
      Ledger.Accrues fixedPointOne.val s.ledger
        accrual.accumulator.accumulatedRateAtLastAccrual.val accrual.accruedFees.val ∧
      fixedPointOne.val ≤ accrual.accumulator.accumulatedRateAtLastAccrual.val ∧
      accrual.accumulator.totalNormalizedDebt = s.accumulator.totalNormalizedDebt := by
  obtain ⟨hp, rfl⟩ := h.reads_parameters w s p params hr.parameters
  obtain rfl := h.reads_accumulator w s a hr.accumulates
  obtain ⟨h1, h2, h3⟩ := accrueFees_spec _ _ _ _ hr.computed
  refine ⟨⟨hp, rfl, rfl, hr.definition.trans h.named⟩, ⟨?_, ?_⟩, h.accumulated.trans h1, h2⟩
  · rw [h.records.rate]
    exact h1
  · rw [h.records.rate, h.records.total]
    exact h3

theorem Represents.reads_position (authority : List AccountId) (owner position : AccountId)
    (x : Position) (hr : PositionReads stablecoinProgramId w authority owner position x) :
    owned stablecoinProgramId w position = some (.position x) ∧ position ∈ s.ledger.live ∧
      x.vaultAccountId = vaultId position ∧
      s.ledger.debt position = x.normalizedDebtAmount.val ∧
      s.ledger.collateral position = x.collateralAmount.val := by
  have he := Holds.owned_eq _ _ _ _ hr.stored
  exact ⟨he, (h.records.live position).mpr ⟨x, he⟩, (h.records.placed position x he).2,
    h.records.amounts position x he⟩

end

structure Invoked (authority : List AccountId) (w v : Accounts) (calls : List ChainedCall)
    (w' : Accounts) : Prop where
  outside : Outside stablecoinProgramId authority
  frame : Frame stablecoinProgramId w v
  settled : Settled stablecoinProgramId authority v calls w'

section
variable (authority : List AccountId) (w v w' : Accounts) (calls : List ChainedCall)

theorem Invoked.tokens_eq (i : Invoked authority w v calls w') :
    owned tokenProgramId v = owned tokenProgramId w :=
  owned_frame _ _ _ _ i.frame (by decide) (by decide)

theorem Invoked.stored_eq (i : Invoked authority w v calls w') :
    owned stablecoinProgramId w' = owned stablecoinProgramId v :=
  i.settled.owned_eq _ _ stablecoinProgramId (by decide) (by decide)

/-- `s` moves to a state that `w'` represents by a step of the ledger, whose loss may depend
on the rate it leaves. -/
def Moves (s : Instance) (loss : ℕ → Shortfall) (w' : Accounts) : Prop :=
  ∃ s', Represents w' s' ∧
    Ledger.Step fixedPointOne.val s.ledger (loss s'.ledger.rate) s'.ledger

theorem owned_put_same (w : Accounts) (id : AccountId) (data data' : Data)
    (h : owned stablecoinProgramId w id = some data) :
    owned stablecoinProgramId (put stablecoinProgramId w id data')
      = Function.update (owned stablecoinProgramId w) id (some data') :=
  owned_put _ _ _ _ (Or.inl ((owned_eq_some _ _ _ _).mp h).1)

/-- An accrual, followed by writes that leave accumulator, positions and tokens alone. -/
theorem accrual_moves (s : Instance) (tokenProgram : AccountId)
    (accrual : FeeAccrual) (params' : ProtocolParameters) (r' : RedemptionPriceState)
    (h : Represents w s)
    (i : Invoked authority w v
      (surplusCalls tokenProgram definitionId stablecoinProgramId accrual.accruedFees) w')
    (ha : Ledger.Accrues fixedPointOne.val s.ledger
      accrual.accumulator.accumulatedRateAtLastAccrual.val accrual.accruedFees.val)
    (hone : fixedPointOne.val ≤ accrual.accumulator.accumulatedRateAtLastAccrual.val)
    (hcol : params'.collateralDefinitionId = s.parameters.collateralDefinitionId)
    (hdef : params'.stablecoinDefinitionId = s.parameters.stablecoinDefinitionId)
    (hparams : ParametersBounded params') (hr : RedemptionBounded r')
    (hv : Records (owned stablecoinProgramId v) params' accrual.accumulator r'
      { s.ledger with rate := accrual.accumulator.accumulatedRateAtLastAccrual.val }) :
    Moves s (fun _ => ⟨1, 0, 0⟩) w' := by
  obtain ⟨ht, hk⟩ := h.tokens.accrued authority i.outside w v w' _ _ _ _ _ _ (i.tokens_eq) i.settled
  rw [← hcol] at ht
  rw [← i.stored_eq] at hv
  have hrep := represents_mk w' _ _ _ _ (hv.set_tokens _ _ _ _ _ _ (vaultUnits w')) ht
    (hdef.trans h.named) hparams hone hr
  exact ⟨_, hrep, .accrue _ _ _ ha hk⟩

/-- Writes that leave accumulator, positions and tokens alone. -/
theorem quiet_moves (s : Instance) (params' : ProtocolParameters) (r' : RedemptionPriceState)
    (h : Represents w s) (i : Invoked authority w v [] w')
    (hcol : params'.collateralDefinitionId = s.parameters.collateralDefinitionId)
    (hdef : params'.stablecoinDefinitionId = s.parameters.stablecoinDefinitionId)
    (hparams : ParametersBounded params') (hr : RedemptionBounded r')
    (hv : Records (owned stablecoinProgramId v) params' s.accumulator r' s.ledger) :
    Moves s (fun _ => ⟨0, 0, 0⟩) w' := by
  have ht := h.tokens
  have hw : w' = v := by
    cases i.settled
    rfl
  obtain ⟨d, hd⟩ := ht.definition
  have hT : Tokens v params'.collateralDefinitionId s.ledger.supply s.ledger.live
      s.ledger.vault := by
    have he := i.tokens_eq
    rw [hcol]
    refine ⟨?_, ?_, ?_⟩ <;> simp only [DefinitionAt, HoldingAt, he]
    · exact ht.definition
    · exact ht.collateral
    · exact ht.vaults
  rw [hw]
  exact ⟨_, represents_mk v _ _ _ _ hv hT (hdef.trans h.named) hparams h.accumulated hr,
    .elsewhere _ 0 _ rfl fun _ _ => le_rfl⟩

/-- The tokens after an accrual and one more call whose effect on the supply is known. -/
theorem Tokens.accrued_and (ho : Outside stablecoinProgramId authority)
    (collateralId tokenProgram : AccountId) (supply supply' : ℕ)
    (live : Finset AccountId) (vault : AccountId → ℕ) (fees : U128) (call : ChainedCall)
    (t : Tokens w collateralId supply live vault)
    (hT : owned tokenProgramId v = owned tokenProgramId w)
    (hseeds : ∀ seed ∈ call.pdaSeeds, ∀ id, seed ≠ computePositionVaultPdaSeed id)
    (hcall : ∀ u d, DefinitionAt u definitionId d →
      Leaf (callAuthority authority stablecoinProgramId call) u call w' →
      d.supply = supply + fees.val → ∃ d', DefinitionAt w' definitionId d' ∧
        d'.mintAuthority = d.mintAuthority ∧ (d'.isFungible ↔ d.isFungible) ∧ d'.supply = supply')
    (h : Settled stablecoinProgramId authority v
      (surplusCalls tokenProgram definitionId stablecoinProgramId fees ++ [call]) w') :
    Tokens w' collateralId supply' live (vaultUnits w') ∧
      ∀ x ∈ live, vault x ≤ vaultUnits w' x := by
  apply t.settled authority ho w v w' _ _ _ _ _ _ hT _ h
  · intro d hd hm hf hs
    obtain ⟨u, h1, h2⟩ := (settled_append _ _ _ _ _ _).mp h
    obtain ⟨b, hb, hbm, hbf, hbs⟩ := surplus_settled authority v u tokenProgram fees d h1 hd
    obtain ⟨d', hd', hm', hf', hs'⟩ := hcall u b hb ((settled_singleton _ _ _ _ _).mp h2)
      (by rw [hbs, hs])
    exact ⟨d', hd', hm'.trans (hbm.trans hm), hf'.mpr (hbf.mpr hf), hs'⟩
  · intro c hc seed hs id _
    rcases List.mem_append.mp hc with hc | hc
    · rw [surplusCalls_seeds _ _ _ c hc, List.mem_singleton] at hs
      rw [hs]
      exact PdaSeed.noConfusion
    · rw [List.mem_singleton.mp hc] at hs
      exact hseeds seed hs id

theorem generate_moves (s : Instance) (h : Represents w s) (position d user tokenProgram : AccountId)
    (amount debtDelta newDebt newTotal : U128) (x : Position) (accrual : FeeAccrual)
    (hd : d = definitionId)
    (i : Invoked authority w v (surplusCalls tokenProgram d stablecoinProgramId
      accrual.accruedFees ++ [mintCall tokenProgram d user amount]) w')
    (ha : Ledger.Accrues fixedPointOne.val s.ledger
      accrual.accumulator.accumulatedRateAtLastAccrual.val accrual.accruedFees.val)
    (hone : fixedPointOne.val ≤ accrual.accumulator.accumulatedRateAtLastAccrual.val)
    (hsame : accrual.accumulator.totalNormalizedDebt = s.accumulator.totalNormalizedDebt)
    (hx : owned stablecoinProgramId w position = some (.position x))
    (delta : mulDivCeil amount fixedPointOne accrual.accumulator.accumulatedRateAtLastAccrual
      = .ok debtDelta)
    (debt : newDebt.val = x.normalizedDebtAmount.val + debtDelta.val)
    (total : newTotal.val = accrual.accumulator.totalNormalizedDebt.val + debtDelta.val)
    (hv : owned stablecoinProgramId v = Function.update (Function.update
      (owned stablecoinProgramId w) position
        (some (.position { x with normalizedDebtAmount := newDebt })))
      accumulatorId (some (.stabilityFeeAccumulator
        { accrual.accumulator with totalNormalizedDebt := newTotal }))) :
    Moves s (fun rate => ⟨1, rate, 0⟩) w' := by
  subst hd
  obtain ⟨hdebt, hcollateral⟩ := h.records.amounts position x hx
  have hlive := (h.records.live position).mpr ⟨x, hx⟩
  obtain ⟨-, hcovers, htight⟩ := mulDivCeil_bounds _ _ _ _ delta
  obtain ⟨ht, hk⟩ := h.tokens.accrued_and authority w v w' i.outside _ tokenProgram _
    (s.ledger.supply + accrual.accruedFees.val + amount.val) _ _ _ _ i.tokens_eq
    (by
      intro seed hs id
      rw [List.mem_singleton.mp hs]
      exact PdaSeed.noConfusion)
    (by
      intro u b hb hl hs
      obtain ⟨d', h1, h2, h3, h4⟩ := (hl.transition _ _ _ _ _ rfl).2.minted _ _ _ _ _ _ b hb
      exact ⟨d', h1, h2, h3, by rw [h4, hs]⟩)
    i.settled
  have hrec := (h.records.set_position _ _ _ _ _ position x
    { x with normalizedDebtAmount := newDebt } hx rfl rfl rfl
    (Function.update s.ledger.debt position (s.ledger.debt position + debtDelta.val))
    s.ledger.collateral (by rw [Function.update_self, hdebt, debt])
    (fun t ht => Function.update_of_ne ht _ _) hcollateral (fun _ _ => rfl)).set_accumulator _ _ _ _ _
    { accrual.accumulator with totalNormalizedDebt := newTotal } _ (s.ledger.total + debtDelta.val)
    rfl (by rw [total, hsame, h.records.total])
  rw [← hv, ← i.stored_eq] at hrec
  have hrep := represents_mk w' _ _ _ _ (hrec.set_tokens _ _ _ _ _ _ (vaultUnits w')) ht h.named
    h.parameters hone h.redemption
  exact ⟨_, hrep, .generate _ _ amount.val debtDelta.val _ position ha hk hlive hcovers htight⟩

theorem repay_moves (s : Instance) (h : Represents w s) (position d user tokenProgram : AccountId)
    (amount debtDelta newDebt newTotal : U128) (x : Position) (accrual : FeeAccrual)
    (hd : d = definitionId)
    (i : Invoked authority w v (surplusCalls tokenProgram d stablecoinProgramId
      accrual.accruedFees ++ [burnCall tokenProgram d user amount]) w')
    (ha : Ledger.Accrues fixedPointOne.val s.ledger
      accrual.accumulator.accumulatedRateAtLastAccrual.val accrual.accruedFees.val)
    (hone : fixedPointOne.val ≤ accrual.accumulator.accumulatedRateAtLastAccrual.val)
    (hsame : accrual.accumulator.totalNormalizedDebt = s.accumulator.totalNormalizedDebt)
    (hx : owned stablecoinProgramId w position = some (.position x))
    (delta : mulDiv amount fixedPointOne accrual.accumulator.accumulatedRateAtLastAccrual
      = .ok debtDelta)
    (debt : newDebt.val + debtDelta.val = x.normalizedDebtAmount.val)
    (total : newTotal.val + debtDelta.val = accrual.accumulator.totalNormalizedDebt.val)
    (hv : owned stablecoinProgramId v = Function.update (Function.update
      (owned stablecoinProgramId w) position
        (some (.position { x with normalizedDebtAmount := newDebt })))
      accumulatorId (some (.stabilityFeeAccumulator
        { accrual.accumulator with totalNormalizedDebt := newTotal }))) :
    Moves s (fun rate => ⟨1, rate, 0⟩) w' := by
  subst hd
  obtain ⟨hdebt, hcollateral⟩ := h.records.amounts position x hx
  have hlive := (h.records.live position).mpr ⟨x, hx⟩
  obtain ⟨hcovers, htight⟩ := mulDiv_bounds _ _ _ _ delta
  -- the burn succeeded, so the supply after the accrual covers the amount
  obtain ⟨supply, hsupply⟩ : ∃ supply,
      supply + amount.val = s.ledger.supply + accrual.accruedFees.val := by
    obtain ⟨b, hb, hm, hf, hs⟩ := h.tokens.definition
    obtain ⟨u, h1, h2⟩ := (settled_append _ _ _ _ _ _).mp i.settled
    obtain ⟨b', hb', -, -, hs'⟩ := surplus_settled authority v u _ _ b h1
      (by rwa [DefinitionAt, i.tokens_eq])
    have hl := (settled_singleton _ _ _ _ _).mp h2
    obtain ⟨c, -, -, -, hc⟩ := (hl.transition _ _ _ _ _ rfl).2.burned _ _ _ _ _ _ b' hb'
    exact ⟨c.supply, by rw [hc, hs', hs]⟩
  obtain ⟨ht, hk⟩ := h.tokens.accrued_and authority w v w' i.outside _ tokenProgram _ supply _ _ _ _
    i.tokens_eq (fun seed hs => by cases hs)
    (by
      intro u b hb hl hs
      obtain ⟨d', h1, h2, h3, h4⟩ := (hl.transition _ _ _ _ _ rfl).2.burned _ _ _ _ _ _ b hb
      exact ⟨d', h1, h2, h3, by omega⟩)
    i.settled
  have hrec := (h.records.set_position _ _ _ _ _ position x
    { x with normalizedDebtAmount := newDebt } hx rfl rfl rfl
    (Function.update s.ledger.debt position newDebt.val) s.ledger.collateral
    (Function.update_self _ _ _) (fun t ht => Function.update_of_ne ht _ _) hcollateral
    (fun _ _ => rfl)).set_accumulator _ _ _ _ _
    { accrual.accumulator with totalNormalizedDebt := newTotal } _ newTotal.val rfl rfl
  rw [← hv, ← i.stored_eq] at hrec
  have hrep := represents_mk w' _ _ _ _ (hrec.set_tokens _ _ _ _ _ _ (vaultUnits w')) ht h.named
    h.parameters hone h.redemption
  refine ⟨_, hrep, .repay _ _ amount.val debtDelta.val newDebt.val newTotal.val supply _ position ha
    hk hlive ?_ ?_ ?_ ?_ hsupply⟩
  · rw [Nat.mul_comm amount.val] at hcovers
    rwa [Nat.mul_comm amount.val]
  · exact htight
  · rw [hdebt, debt]
  · rw [total, hsame, h.records.total]

/-- The definition keeps its supply across calls that do not carry its seed or burn. -/
theorem definition_settled (ho : Outside stablecoinProgramId authority)
    (hseeds : ∀ call ∈ calls, ∀ seed ∈ call.pdaSeeds, seed ≠ computeStablecoinDefinitionPdaSeed)
    (hburn : ∀ call ∈ calls, ∀ n, call.instruction ≠ .token (.burn n))
    (h : Settled stablecoinProgramId authority v calls w') (supply : ℕ) (d : Definition)
    (hd : DefinitionAt v definitionId d) (hm : d.mintAuthority = some definitionId)
    (hf : d.isFungible) (hs : d.supply = supply) :
    ∃ d', DefinitionAt w' definitionId d' ∧ d'.mintAuthority = some definitionId ∧
      d'.isFungible ∧ d'.supply = supply := by
  obtain ⟨d', h1, h2, h3, h4⟩ := h.definition_fixed _ _ definitionId definitionId
    (fun hmem => ho _ hmem derivedBy_definition) v w' calls
    (fun call hc seed hs he => hseeds call hc seed hs (AccountId.pda.inj he).2.symm) hburn d hd hm
  exact ⟨d', h1, h2, h3.mpr hf, h4.trans hs⟩

/-- The tokens after calls that may carry the vault seed of one position. -/
theorem Tokens.settled_except (ho : Outside stablecoinProgramId authority)
    (collateralId : AccountId) (supply : ℕ) (live : Finset AccountId) (vault : AccountId → ℕ)
    (id : AccountId) (t : Tokens w collateralId supply live vault)
    (hT : owned tokenProgramId v = owned tokenProgramId w)
    (hseeds : ∀ call ∈ calls, ∀ seed ∈ call.pdaSeeds, seed = computePositionVaultPdaSeed id)
    (hburn : ∀ call ∈ calls, ∀ n, call.instruction ≠ .token (.burn n))
    (h : Settled stablecoinProgramId authority v calls w') :
    Tokens w' collateralId supply (live.erase id) (vaultUnits w') ∧
      ∀ x ∈ live, x ≠ id → vault x ≤ vaultUnits w' x := by
  have t' : Tokens w collateralId supply (live.erase id) vault :=
    ⟨t.definition, t.collateral, fun x hx => t.vaults x (Finset.mem_of_mem_erase hx)⟩
  obtain ⟨h1, h2⟩ := t'.settled authority ho w v w' _ _ supply _ _ calls hT
    (by
      intro call hc seed hs x hx he
      rw [hseeds call hc seed hs] at he
      exact Finset.ne_of_mem_erase hx (PdaSeed.account.inj he).1.symm)
    h (fun d hd hm hf hs => definition_settled authority v w' calls ho
      (fun call hc seed hs => by
        rw [hseeds call hc seed hs]
        exact PdaSeed.noConfusion) hburn h supply d hd hm hf hs)
  exact ⟨h1, fun x hx hne => h2 x (Finset.mem_erase.mpr ⟨hne, hx⟩)⟩

/-- Adding back the vault that the calls were about. -/
theorem Tokens.insert (collateralId : AccountId) (supply : ℕ) (live : Finset AccountId)
    (id : AccountId) (t : Tokens w' collateralId supply (live.erase id) (vaultUnits w'))
    (hvault : ∃ h, HoldingAt w' (vaultId id) h ∧ h.kind = .fungible ∧
      h.definitionId = collateralId ∧ h.units = vaultUnits w' id) :
    Tokens w' collateralId supply (insert id live) (vaultUnits w') := by
  refine ⟨t.definition, t.collateral, ?_⟩
  intro x hx
  by_cases he : x = id
  · rw [he]
    exact hvault
  · exact t.vaults x (Finset.mem_erase.mpr ⟨he, Finset.mem_of_mem_insert_of_ne hx he⟩)

theorem withdraw_moves (s : Instance) (h : Represents w s) (position user tokenProgram : AccountId)
    (amount newCollateral : U128) (x : Position)
    (i : Invoked authority w v
      [withdrawCall tokenProgram position (vaultId position) user amount] w')
    (hx : owned stablecoinProgramId w position = some (.position x))
    (rest : newCollateral.val + amount.val = x.collateralAmount.val)
    (hv : owned stablecoinProgramId v = Function.update (owned stablecoinProgramId w) position
      (some (.position { x with collateralAmount := newCollateral }))) :
    Moves s (fun _ => ⟨0, 0, 0⟩) w' := by
  obtain ⟨hdebt, hcollateral⟩ := h.records.amounts position x hx
  have hlive := (h.records.live position).mpr ⟨x, hx⟩
  obtain ⟨ht, hk⟩ := h.tokens.settled_except authority w v w' _ i.outside _ _ _ _ position
    i.tokens_eq (fun call hc seed hs => by
      rw [List.mem_singleton.mp hc] at hs
      exact List.mem_singleton.mp hs)
    (fun call hc n => by
      rw [List.mem_singleton.mp hc]
      exact fun he => by cases he) i.settled
  obtain ⟨held, hheld, hkind, htoken, hunits⟩ := h.tokens.vaults position hlive
  have hl := (settled_singleton _ _ _ _ _).mp i.settled
  obtain ⟨held', hheld', htoken', hkind', hunits'⟩ := (hl.transition _ _ _ _ _ rfl).2.sent
    _ _ _ _ _ _ held (by rwa [HoldingAt, i.tokens_eq])
  have hfill : vaultUnits w' position = held'.units := hheld'.unitsAt_eq
  have hdrain : vaultUnits w' position + amount.val = s.ledger.vault position := by
    rw [hfill, hunits', hunits]
  have ht' := ht.insert w' _ _ _ position
    ⟨held', hheld', hkind'.trans hkind, htoken'.trans htoken, hfill.symm⟩
  rw [Finset.insert_eq_self.mpr hlive] at ht'
  have hrec := h.records.set_position _ _ _ _ _ position x
    { x with collateralAmount := newCollateral } hx rfl rfl rfl s.ledger.debt
    (Function.update s.ledger.collateral position newCollateral.val) hdebt (fun _ _ => rfl)
    (Function.update_self _ _ _) (fun t ht => Function.update_of_ne ht _ _)
  rw [← hv, ← i.stored_eq] at hrec
  have hrep := represents_mk w' _ _ _ _ (hrec.set_tokens _ _ _ _ _ s.ledger.supply (vaultUnits w'))
    ht' h.named h.parameters h.accumulated h.redemption
  exact ⟨_, hrep, .withdraw amount.val newCollateral.val _ position hlive hk
    (by rw [hcollateral, rest]) hdrain⟩

theorem deposit_moves (s : Instance) (h : Represents w s) (position user tokenProgram : AccountId)
    (token : AccountId) (amount balance newCollateral : U128) (x : Position)
    (i : Invoked authority w v [depositCall tokenProgram user (vaultId position) amount] w')
    (hx : owned stablecoinProgramId w position = some (.position x))
    (vault : (w (vaultId position)).data = .tokenHolding (.fungible token balance))
    (sum : newCollateral.val = balance.val + amount.val)
    (hv : owned stablecoinProgramId v = Function.update (owned stablecoinProgramId w) position
      (some (.position { x with collateralAmount := newCollateral }))) :
    Moves s (fun _ => ⟨0, 0, 0⟩) w' := by
  obtain ⟨hdebt, hcollateral⟩ := h.records.amounts position x hx
  have hlive := (h.records.live position).mpr ⟨x, hx⟩
  obtain ⟨ht, hk⟩ := h.tokens.settled_except authority w v w' _ i.outside _ _ _ _ position
    i.tokens_eq (fun call hc seed hs => by
      rw [List.mem_singleton.mp hc] at hs
      cases hs)
    (fun call hc n => by
      rw [List.mem_singleton.mp hc]
      exact fun he => by cases he) i.settled
  obtain ⟨held, hheld, hkind, htoken, hunits⟩ := h.tokens.vaults position hlive
  have hl := (settled_singleton _ _ _ _ _).mp i.settled
  obtain ⟨held', hheld', htoken', hkind', hunits'⟩ := (hl.transition _ _ _ _ _ rfl).2.received
    _ _ _ _ _ _ held (by rwa [HoldingAt, i.tokens_eq])
  have hbalance : balance.val = s.ledger.vault position := by
    have hd := hheld.data
    rw [vault, Data.tokenHolding.injEq] at hd
    rw [← hunits, ← hd]
    rfl
  have hfill : vaultUnits w' position = held'.units := hheld'.unitsAt_eq
  have hfilled : vaultUnits w' position = s.ledger.vault position + amount.val := by
    rw [hfill, hunits', hunits]
  have ht' := ht.insert w' _ _ _ position
    ⟨held', hheld', hkind'.trans hkind, htoken'.trans htoken, hfill.symm⟩
  rw [Finset.insert_eq_self.mpr hlive] at ht'
  have hrec := h.records.set_position _ _ _ _ _ position x
    { x with collateralAmount := newCollateral } hx rfl rfl rfl s.ledger.debt
    (Function.update s.ledger.collateral position (s.ledger.vault position + amount.val)) hdebt
    (fun _ _ => rfl) (by rw [Function.update_self, sum, hbalance])
    (fun t ht => Function.update_of_ne ht _ _)
  rw [← hv, ← i.stored_eq] at hrec
  have hrep := represents_mk w' _ _ _ _ (hrec.set_tokens _ _ _ _ _ s.ledger.supply (vaultUnits w'))
    ht' h.named h.parameters h.accumulated h.redemption
  exact ⟨_, hrep, .deposit amount.val _ position hlive hk hfilled⟩

theorem close_moves (s : Instance) (h : Represents w s) (position : AccountId) (x : Position)
    (i : Invoked authority w v [] w')
    (hx : owned stablecoinProgramId w position = some (.position x))
    (settled : x.normalizedDebtAmount.val = 0) (empty : x.collateralAmount.val = 0)
    (hv : owned stablecoinProgramId v = Function.update (owned stablecoinProgramId w) position
      (some .empty)) : Moves s (fun _ => ⟨0, 0, 0⟩) w' := by
  obtain ⟨hdebt, hcollateral⟩ := h.records.amounts position x hx
  have hlive := (h.records.live position).mpr ⟨x, hx⟩
  have hrec := h.records.close_position _ _ _ _ _ position x hx
  rw [← hv, ← i.stored_eq] at hrec
  have he : owned tokenProgramId w' = owned tokenProgramId w := by
    rw [← i.tokens_eq]
    cases i.settled
    rfl
  have ht : Tokens w' s.parameters.collateralDefinitionId s.ledger.supply
      (s.ledger.live.erase position) s.ledger.vault := by
    refine ⟨?_, ?_, fun id hid => ?_⟩ <;> simp only [DefinitionAt, HoldingAt, he]
    · exact h.tokens.definition
    · exact h.tokens.collateral
    · exact h.tokens.vaults id (Finset.mem_of_mem_erase hid)
  have hrep := represents_mk w' _ _ _ _ hrec ht h.named h.parameters h.accumulated h.redemption
  exact ⟨_, hrep, .closing position hlive (by rw [hdebt, settled]) (by rw [hcollateral, empty])⟩

/-- The two calls of an opening create the vault and fill it. -/
theorem opened_vault (position user collateralId tokenProgram : AccountId) (amount : U128)
    (hs : Settled stablecoinProgramId authority v
      [initializeVaultCall tokenProgram collateralId position (vaultId position),
        depositCall tokenProgram user (vaultId position) amount] w')
    (hfresh : v (vaultId position) = default) (d : Definition)
    (hd : DefinitionAt v collateralId d) (hf : d.isFungible) :
    ∃ held, HoldingAt w' (vaultId position) held ∧ held.kind = .fungible ∧
      held.definitionId = collateralId ∧ held.units = amount.val := by
  cases hs with
  | cons _ u _ _ _ first rest =>
    obtain ⟨-, ht⟩ := first.transition _ _ _ _ _ rfl
    obtain ⟨definition, hdata, -, -, -, hu, -⟩ := ht.initializeAccount
    have hsame := hd.data
    rw [hdata, Data.tokenDefinition.injEq] at hsame
    subst hsame
    have howner : (u (vaultId position)).programOwner = tokenProgramId := by
      rcases ht.frame (vaultId position) with he | ⟨-, he⟩
      · rw [he, hfresh] at hu
        cases hu
      · exact he
    obtain ⟨-, ht'⟩ := ((settled_singleton _ _ _ _ _).mp rest).transition _ _ _ _ _ rfl
    obtain ⟨held, hh, htoken, hkind, hunits⟩ := ht'.received _ _ _ _ _ _ _
      ((owned_eq_some _ _ _ _).mpr ⟨howner, hu⟩)
    rw [TokenHolding.zeroizedFromDefinition_units, Nat.zero_add] at hunits
    rw [TokenHolding.zeroizedFromDefinition_definitionId] at htoken
    cases definition with
    | fungible => exact ⟨held, hh, hkind, htoken, hunits⟩
    | nonFungible => exact absurd hf id

theorem open_moves (s : Instance) (h : Represents w s) (position user tokenProgram : AccountId)
    (amount : U128) (x : Position)
    (i : Invoked authority w v
      [initializeVaultCall tokenProgram s.parameters.collateralDefinitionId position
          (vaultId position),
        depositCall tokenProgram user (vaultId position) amount] w')
    (hfresh : owned stablecoinProgramId w position = none)
    (hvault : v (vaultId position) = default)
    (hid : position = computePositionPda stablecoinProgramId x.ownerAccountId x.positionNonce)
    (hxv : x.vaultAccountId = vaultId position) (hdebt : x.normalizedDebtAmount.val = 0)
    (hcol : x.collateralAmount = amount)
    (hv : owned stablecoinProgramId v = Function.update (owned stablecoinProgramId w) position
      (some (.position x))) : Moves s (fun _ => ⟨0, 0, 0⟩) w' := by
  have hlive : position ∉ s.ledger.live := by
    rw [h.records.live position, hfresh]
    rintro ⟨_, h⟩
    cases h
  obtain ⟨ht, hk⟩ := h.tokens.settled_except authority w v w' _ i.outside _ _ _ _ position
    i.tokens_eq
    (by
      intro call hc seed hs
      rcases List.mem_cons.mp hc with rfl | hc
      · exact List.mem_singleton.mp hs
      · rw [List.mem_singleton.mp hc] at hs
        cases hs)
    (by
      intro call hc n he
      rcases List.mem_cons.mp hc with rfl | hc
      · cases he
      · rw [List.mem_singleton.mp hc] at he
        cases he)
    i.settled
  obtain ⟨d, hd, hf⟩ := h.tokens.collateral
  obtain ⟨held, hheld, hkind, htoken, hunits⟩ := opened_vault authority v w' position user _
    tokenProgram amount i.settled hvault d (by rwa [DefinitionAt, i.tokens_eq]) hf
  have hfill : vaultUnits w' position = held.units := hheld.unitsAt_eq
  have ht' := ht.insert w' _ _ _ position ⟨held, hheld, hkind, htoken, hfill.symm⟩
  have hrec := h.records.open_position _ _ _ _ _ position x hfresh hid hxv
  rw [← hv, ← i.stored_eq, hdebt, hcol] at hrec
  have hrep := represents_mk w' _ _ _ _ (hrec.set_tokens _ _ _ _ _ s.ledger.supply (vaultUnits w'))
    ht' h.named h.parameters h.accumulated h.redemption
  exact ⟨_, hrep, .opening amount.val _ position hlive
    (fun y hy => hk y hy fun he => hlive (he ▸ hy)) (hfill.trans hunits)⟩

def Instruction.shortfall (instruction : Instruction) (rate : ℕ) : Shortfall :=
  ⟨if instruction.accrues then 1 else 0, if instruction.converts then rate else 0, 0⟩

theorem step_moves (s : Instance) (h : Represents w s) (ids : List AccountId)
    (instruction : Instruction)
    (step : Step stablecoinProgramId w authority ids instruction v calls)
    (i : Invoked authority w v calls w') : Moves s instruction.shortfall w' := by
  cases step with
  | initializeProgram admin c o params now collateral _ hfresh =>
    have hp := h.records.parameters
    rw [owned, hfresh, if_neg (by decide)] at hp
    cases hp
  | accrueStabilityFee caller p d params a now accrual _ reads =>
    obtain ⟨⟨rfl, rfl, rfl, rfl⟩, ha, hone, hsame⟩ := h.reads_accrual w s p d params a now accrual reads
    apply accrual_moves authority w _ w' s _ accrual s.parameters s.redemption h i ha hone rfl rfl
      h.parameters h.redemption
    rw [owned_put_same _ _ _ _ h.records.accumulator]
    exact h.records.set_accumulator _ _ _ _ _ accrual.accumulator _ s.ledger.total rfl
      (by rw [hsame, h.records.total])
  | updateRedemptionRate caller p o params r r' oracle now _ hp hr _ _ hadv =>
    obtain ⟨rfl, rfl⟩ := h.reads_parameters w s p params hp
    obtain rfl := h.reads_redemption w s r hr
    apply quiet_moves authority w _ w' s s.parameters r' h i rfl rfl h.parameters
      (advanceRedemptionPrice_bounded _ _ _ _ _ hadv)
    rw [owned_put_same _ _ _ _ h.records.redemption]
    exact h.records.set_redemption _ _ _ _ _ r'
  | refreshFee caller p d o params a now accrual _ reads =>
    obtain ⟨⟨rfl, rfl, rfl, rfl⟩, ha, hone, hsame⟩ := h.reads_accrual w s p d params a now accrual reads
    apply accrual_moves authority w _ w' s _ accrual s.parameters s.redemption h i ha hone rfl rfl
      h.parameters h.redemption
    rw [owned_put_same _ _ _ _ h.records.accumulator]
    exact h.records.set_accumulator _ _ _ _ _ accrual.accumulator _ s.ledger.total rfl
      (by rw [hsame, h.records.total])
  | refreshBoth caller p d o params a now accrual r r' price _ reads hr hadv =>
    obtain ⟨⟨rfl, rfl, rfl, rfl⟩, ha, hone, hsame⟩ := h.reads_accrual w s p d params a now accrual reads
    obtain rfl := h.reads_redemption w s r hr
    apply accrual_moves authority w _ w' s _ accrual s.parameters r' h i ha hone rfl rfl
      h.parameters (advanceRedemptionPrice_bounded _ _ _ _ _ hadv)
    have hrec := h.records.set_accumulator _ _ _ _ _ accrual.accumulator _ s.ledger.total rfl
      (by rw [hsame, h.records.total])
    have hput := owned_put_same w _ _ (.stabilityFeeAccumulator accrual.accumulator)
      h.records.accumulator
    rw [owned_put_same _ _ (.redemptionPriceState s.redemption) _
      (by rw [hput]; exact hrec.redemption), hput]
    exact hrec.set_redemption _ _ _ _ _ r'
  | resetRedemptionRateController signer params r now _ hp _ hr _ =>
    obtain rfl := h.reads_redemption w s r hr
    apply quiet_moves authority w _ w' s s.parameters (resetState s.redemption now) h i rfl rfl
      h.parameters (resetState_bounded _ _)
    rw [owned_put_same _ _ _ _ h.records.redemption]
    exact h.records.set_redemption _ _ _ _ _ _
  | openPosition owner user c nonce amount params now holding _ _ hx hv hp _ hc _ _ _ _ =>
    obtain ⟨-, rfl⟩ := h.reads_parameters w s _ params hp
    subst hc
    have hne : vaultId (computePositionPda stablecoinProgramId owner nonce)
        ≠ computePositionPda stablecoinProgramId owner nonce := by
      intro he
      have hseed := (AccountId.pda.inj he).2
      cases (PdaSeed.account.inj hseed).2
    have hnone : owned stablecoinProgramId w (computePositionPda stablecoinProgramId owner nonce)
        = none := by
      rw [owned, hx, if_neg (by decide)]
    refine open_moves authority w _ w' s h _ user _ amount
      ⟨owner, nonce, _, amount, Unsigned.zero 128, now⟩ i hnone ?_ rfl rfl rfl rfl ?_
    · rw [put_other _ _ _ _ _ hne, hv]
    · exact owned_put _ _ _ _ (Or.inr (by rw [hx]; exact Data.noConfusion))
  | depositCollateral owner position user amount x params collateral balance new _ reads _ _ hvault
      hsum =>
    obtain ⟨hx, -, hxv, -⟩ := h.reads_position w s authority owner position x reads
    rw [hxv] at i hvault
    exact deposit_moves authority w _ w' s h position user _ collateral amount balance new x i hx
      hvault hsum (by rw [owned_put_same _ _ _ _ hx, hxv])
  | closePosition owner position token x balance reads hsettled hempty _ _ =>
    obtain ⟨hx, -⟩ := h.reads_position w s authority owner position x reads
    exact close_moves authority w _ w' s h position x i hx hsettled hempty (owned_put_same _ _ _ _ hx)
  | generateDebt owner position d user amount x params a r now accrual delta debt total reads accrues
      _ _ hdelta hdebt htotal _ _ =>
    obtain ⟨hx, -⟩ := h.reads_position w s authority owner position x reads
    obtain ⟨⟨-, rfl, rfl, rfl⟩, ha, hone, hsame⟩ := h.reads_accrual w s _ d params a now accrual accrues
    refine generate_moves authority w _ w' s h position _ user _ amount delta debt total x accrual rfl
      i ha hone hsame hx hdelta hdebt htotal ?_
    rw [owned_put_same _ accumulatorId (.stabilityFeeAccumulator s.accumulator) _ ?_,
      owned_put_same _ _ _ _ hx]
    rw [owned_put_same _ _ _ _ hx, Function.update_of_ne ?_]
    · exact h.records.accumulator
    · rintro rfl
      rw [h.records.accumulator] at hx
      cases hx
  | repayDebt owner position d user amount x params a now accrual delta debt total reads _ accrues _
      hdelta hdebt htotal =>
    obtain ⟨hx, -⟩ := h.reads_position w s authority owner position x reads
    obtain ⟨⟨-, rfl, rfl, rfl⟩, ha, hone, hsame⟩ := h.reads_accrual w s _ d params a now accrual accrues
    refine repay_moves authority w _ w' s h position _ user _ amount delta debt total x accrual rfl
      i ha hone hsame hx hdelta hdebt htotal ?_
    rw [owned_put_same _ accumulatorId (.stabilityFeeAccumulator s.accumulator) _ ?_,
      owned_put_same _ _ _ _ hx]
    rw [owned_put_same _ _ _ _ hx, Function.update_of_ne ?_]
    · exact h.records.accumulator
    · rintro rfl
      rw [h.records.accumulator] at hx
      cases hx
  | withdrawCollateral owner position user amount x params a r now new vh uh reads _ _ _ _ _ hxv _ _
      _ _ hrest _ =>
    obtain ⟨hx, -⟩ := h.reads_position w s authority owner position x reads
    rw [hxv] at i
    exact withdraw_moves authority w _ w' s h position user _ amount new x i hx hrest
      (by rw [owned_put_same _ _ _ _ hx, hxv])
  | setStabilityFeePerMillisecond admin d rate params a now accrual _ _ hband accrues =>
    obtain ⟨⟨-, rfl, rfl, rfl⟩, ha, hone, hsame⟩ := h.reads_accrual w s _ d params a now accrual accrues
    apply accrual_moves authority w _ w' s _ accrual
      { s.parameters with stabilityFeePerMillisecond := rate } s.redemption h i ha hone rfl rfl
      (h.parameters.set_fee _ rate _ hband) h.redemption
    have hrec := h.records.set_parameters _ _ _ _ _
      { s.parameters with stabilityFeePerMillisecond := rate }
    have hput := owned_put_same w _ _ (.protocolParameters
      { s.parameters with stabilityFeePerMillisecond := rate }) h.records.parameters
    rw [owned_put_same _ _ (.stabilityFeeAccumulator s.accumulator) _
      (by rw [hput]; exact hrec.accumulator), hput]
    exact hrec.set_accumulator _ _ _ _ _ accrual.accumulator _ s.ledger.total rfl
      (by rw [hsame, h.records.total])
  | setParameters signer rest _ params params' hsetter _ hp hupdate =>
    obtain ⟨-, rfl⟩ := h.reads_parameters w s _ params hp
    obtain ⟨hdef, hcol⟩ := hupdate.definitions_kept
    have hloss : instruction.shortfall = fun _ => ⟨0, 0, 0⟩ := by
      funext rate
      obtain ⟨ha, hc⟩ := instruction.setsParameters_idle hsetter
      simp only [Instruction.shortfall, ha, hc, Bool.false_eq_true, if_false]
    rw [hloss]
    apply quiet_moves authority w _ w' s params' s.redemption h i hcol hdef
      (hupdate.bounded _ _ _ h.parameters) h.redemption
    rw [owned_put_same _ _ _ _ h.records.parameters]
    exact h.records.set_parameters _ _ _ _ _ params'

end

end LezPrograms.Stablecoin
