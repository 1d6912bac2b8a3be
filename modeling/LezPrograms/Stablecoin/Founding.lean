import LezPrograms.Stablecoin.Governance
import LezPrograms.Stablecoin.Transactions

/-! # What an initialization settles for good

The master holding stays a holding of the stablecoin, the collateral is another
token, and the bound oracle is none of the accounts that the program keeps. -/

set_option autoImplicit false

namespace LezPrograms.Stablecoin
open LezPrograms.Checked LezPrograms.Lee LezPrograms.Token LezPrograms.Stablecoin.Math

theorem storedParameters_eq_some (w : Accounts) (p : ProtocolParameters) :
    storedParameters w = some p ↔
      Holds stablecoinProgramId (w parametersId) (.protocolParameters p) := by
  rw [Holds, ← owned_eq_some, storedParameters]
  split <;> simp_all

def Quotable (w : Accounts) (id : AccountId) : Prop :=
  w id = default ∨ ∃ oracle, (w id).data = .oraclePrice oracle

structure Rewrites (w : Accounts) (unfreezes : Bool) (q q' : ProtocolParameters) : Prop where
  frozen : unfreezes = false → q.isFrozen = true → q'.isFrozen = true
  oracle : q'.marketPriceOracleId = q.marketPriceOracleId ∨ Quotable w q'.marketPriceOracleId

theorem assertOracleQuotes_quotable (w : Accounts) (authority : List AccountId)
    (o baseAsset quoteAsset : AccountId) (decodeText baseText quoteText : String) (u : Unit)
    (h : assertOracleQuotes (view w authority o) baseAsset quoteAsset decodeText baseText quoteText
      = .ok u) : Quotable w o := by
  simp only [assertOracleQuotes, ite_eq_ok, bind_eq_ok, expect_eq_ok, tryFrom_oraclePrice] at h
  rcases h with ⟨h, -⟩ | ⟨-, oracle, h, -⟩
  · exact Or.inl h
  · exact Or.inr ⟨oracle, h⟩

section
variable (w v : Accounts) (authority : List AccountId) (calls : List ChainedCall)
  (diffs : List StateDiff)

/-- An update of the parameters replaces the stored ones as its mutation says. -/
theorem updateParameters_writes (R : ProtocolParameters → ProtocolParameters → Prop)
    (i x : AccountId) (mutate : ProtocolParameters → Outcome ProtocolParameters)
    (hmutate : ∀ q q', mutate q = .ok q' → R q q') (tail : List StateDiff)
    (htail : ∀ v, applyDiffs stablecoinProgramId v tail = .ok v)
    (h : updateParameters (view w authority i) (view w authority x) stablecoinProgramId mutate
      = .ok (diffs, calls))
    (ha : applyDiffs stablecoinProgramId w (diffs ++ tail) = .ok v) :
    ∃ q q', Holds stablecoinProgramId (w parametersId) (.protocolParameters q) ∧ R q q' ∧
      v = put stablecoinProgramId w parametersId (.protocolParameters q') := by
  simp only [updateParameters, bind_eq_ok, pure_eq_ok, decodeProtocolParameters_eq_ok,
    Prod.mk.injEq] at h
  simp only [view_account, view_accountId] at h
  obtain ⟨q, ⟨-, rfl, hq⟩, _, -, q', hnew, rfl, -⟩ := h
  simp only [List.cons_append, List.nil_append, applyDiffs_unchanged, applyDiffs_new,
    view_accountId, htail, Except.ok.injEq] at ha
  obtain ⟨-, rfl⟩ := ha
  exact ⟨q, q', hq, hmutate _ _ hnew, rfl⟩

def Instruction.frozenAfter (instruction : Instruction) (isFrozen : Bool) : Bool :=
  match instruction with
  | .freeze => true
  | .unfreeze => false
  | _ => isFrozen

structure Sets (w : Accounts) (instruction : Instruction) (q q' : ProtocolParameters) : Prop where
  frozen : q'.isFrozen = instruction.frozenAfter q.isFrozen
  oracle : q'.marketPriceOracleId = q.marketPriceOracleId ∨ Quotable w q'.marketPriceOracleId

theorem setFrozen_writes (i x : AccountId) (isFrozen : Bool) (instruction : Instruction)
    (hb : ∀ b, instruction.frozenAfter b = isFrozen)
    (h : setFrozen (view w authority i) (view w authority x) stablecoinProgramId isFrozen
      = .ok (diffs, calls))
    (ha : applyDiffs stablecoinProgramId w diffs = .ok v) :
    ∃ q q', Holds stablecoinProgramId (w parametersId) (.protocolParameters q) ∧
      Sets w instruction q q' ∧
      v = put stablecoinProgramId w parametersId (.protocolParameters q') := by
  simp only [setFrozen, bind_eq_ok, ensure_eq_ok, exists_const, pure_eq_ok,
    decodeProtocolParameters_eq_ok, Prod.mk.injEq] at h
  simp only [view_account, view_accountId] at h
  obtain ⟨-, q, ⟨-, rfl, hq⟩, -, rfl, -⟩ := h
  simp only [applyDiffs_unchanged, applyDiffs_new, view_accountId, applyDiffs_nil,
    Except.ok.injEq] at ha
  obtain ⟨-, rfl⟩ := ha
  exact ⟨q, { q with isFrozen := isFrozen }, hq, ⟨(hb _).symm, Or.inl rfl⟩, rfl⟩

/-- The setters of the parameters, by what they make of the freeze flag and the oracle. -/
theorem setter_sets (ids : List AccountId) (instruction : Instruction)
    (hs : instruction.setsParameters = true)
    (h : Performs w authority ids instruction v calls) :
    ∃ q q', Holds stablecoinProgramId (w parametersId) (.protocolParameters q) ∧
      Sets w instruction q q' ∧
      v = put stablecoinProgramId w parametersId (.protocolParameters q') := by
  obtain ⟨-, diffs, hm, ha⟩ := h
  have hadmin : ∀ (i x : AccountId) (other : Instruction) (_ : ∀ b, other.frozenAfter b = b)
      (mutate : ProtocolParameters → Outcome ProtocolParameters),
      (∀ q q', mutate q = .ok q' → q'.isFrozen = q.isFrozen ∧
        q'.marketPriceOracleId = q.marketPriceOracleId) →
      updateParameters (view w authority i) (view w authority x) stablecoinProgramId mutate
        = .ok (diffs, calls) →
      ∃ q q', Holds stablecoinProgramId (w parametersId) (.protocolParameters q) ∧
        Sets w other q q' ∧
        v = put stablecoinProgramId w parametersId (.protocolParameters q') := by
    intro i x other hother mutate hmutate h
    refine updateParameters_writes w v authority calls diffs (Sets w other) i x mutate ?_ []
      (fun _ => rfl) h (by rwa [List.append_nil])
    intro q q' hq
    obtain ⟨h1, h2⟩ := hmutate q q' hq
    exact ⟨h1.trans (hother _).symm, Or.inl h2⟩
  rcases ids with _ | ⟨i, _ | ⟨x, _ | ⟨k, _ | ⟨l, ids⟩⟩⟩⟩
  · cases instruction <;> exact absurd hm (error_ne_ok _ _)
  · cases instruction <;> exact absurd hm (error_ne_ok _ _)
  · cases instruction with
    | setMinimumCollateralizationRatio ratio =>
      refine hadmin i x _ (fun _ => rfl) _ (fun q q' hq => ?_) hm
      simp only [bind_eq_ok, pure_eq_ok] at hq
      obtain ⟨_, -, rfl⟩ := hq
      exact ⟨rfl, rfl⟩
    | setControllerGains proportional integral =>
      refine hadmin i x _ (fun _ => rfl) _ (fun q q' hq => ?_) hm
      simp only [bind_eq_ok, pure_eq_ok] at hq
      obtain ⟨_, -, rfl⟩ := hq
      exact ⟨rfl, rfl⟩
    | setTimingParameters minimum maximum =>
      refine hadmin i x _ (fun _ => rfl) _ (fun q q' hq => ?_) hm
      simp only [bind_eq_ok, pure_eq_ok] at hq
      obtain ⟨_, -, _, -, rfl⟩ := hq
      exact ⟨rfl, rfl⟩
    | setAdmin new =>
      refine hadmin i x _ (fun _ => rfl) _ (fun q q' hq => ?_) hm
      rw [pure_eq_ok] at hq
      exact hq ▸ ⟨rfl, rfl⟩
    | setFreezeAuthority new =>
      refine hadmin i x _ (fun _ => rfl) _ (fun q q' hq => ?_) hm
      rw [pure_eq_ok] at hq
      exact hq ▸ ⟨rfl, rfl⟩
    | freeze => exact setFrozen_writes w v authority calls diffs i x true _ (fun _ => rfl) hm ha
    | unfreeze => exact setFrozen_writes w v authority calls diffs i x false _ (fun _ => rfl) hm ha
    | _ => exact absurd hm (error_ne_ok _ _)
  · cases instruction with
    | setMarketPriceOracle =>
      simp only [List.map_cons, List.map_nil, main, setMarketPriceOracle, bind_eq_ok, pure_eq_ok,
        Prod.exists, Prod.mk.injEq] at hm
      obtain ⟨diffs', calls', hm, rfl, rfl⟩ := hm
      refine updateParameters_writes w v authority calls' diffs' (Sets w _) i x _ ?_ _
        (fun _ => rfl) hm ha
      intro q q' hq
      simp only [bind_eq_ok, pure_eq_ok] at hq
      obtain ⟨_, hquotes, rfl⟩ := hq
      exact ⟨rfl, Or.inr (assertOracleQuotes_quotable w authority k _ _ _ _ _ _ hquotes)⟩
    | _ => exact absurd hm (error_ne_ok _ _)
  · cases instruction <;> first | exact absurd hm (error_ne_ok _ _) | cases hs

/-- A setter other than the one that unfreezes leaves a frozen program frozen. -/
theorem setter_writes (ids : List AccountId) (instruction : Instruction)
    (hs : instruction.setsParameters = true)
    (h : Performs w authority ids instruction v calls) :
    ∃ q q', Holds stablecoinProgramId (w parametersId) (.protocolParameters q) ∧
      Rewrites w (decide (instruction = .unfreeze)) q q' ∧
      v = put stablecoinProgramId w parametersId (.protocolParameters q') := by
  obtain ⟨q, q', hq, hsets, hv⟩ := setter_sets w v authority calls ids instruction hs h
  refine ⟨q, q', hq, ⟨fun hu hf => ?_, hsets.oracle⟩, hv⟩
  have hne : instruction ≠ .unfreeze := of_decide_eq_false hu
  rw [hsets.frozen, hf]
  cases instruction <;> first | rfl | exact absurd rfl hne

end

section
variable (w : Accounts) (s : Instance) (h : Represents w s) (authority : List AccountId)
include h

/-- Apart from the setters, an instruction rewrites at most the fee among the parameters. -/
theorem Represents.step_parameters (ids : List AccountId) (instruction : Instruction) (v : Accounts)
    (calls : List ChainedCall) (hset : instruction.setsParameters = false)
    (step : Step stablecoinProgramId w authority ids instruction v calls) :
    ∃ rate, owned stablecoinProgramId v parametersId
      = some (.protocolParameters { s.parameters with stabilityFeePerMillisecond := rate }) := by
  have hp := h.records.parameters
  have hacc : parametersId ≠ accumulatorId := by decide
  have hred : parametersId ≠ redemptionId := by decide
  have hother : ∀ (u : Accounts) (id : AccountId) (data : Data), parametersId ≠ id →
      owned stablecoinProgramId (put stablecoinProgramId u id data) parametersId
        = owned stablecoinProgramId u parametersId := fun u id data hne =>
    owned_congr _ _ _ _ (put_other _ _ _ _ _ hne)
  have hkept : owned stablecoinProgramId w parametersId = some (.protocolParameters
      { s.parameters with stabilityFeePerMillisecond := s.parameters.stabilityFeePerMillisecond }) :=
    hp
  cases step with
  | initializeProgram _ _ _ _ _ _ _ hfresh =>
    rw [owned, hfresh] at hp
    cases hp
  | accrueStabilityFee => exact ⟨_, (hother _ _ _ hacc).trans hkept⟩
  | updateRedemptionRate => exact ⟨_, (hother _ _ _ hred).trans hkept⟩
  | refreshFee => exact ⟨_, (hother _ _ _ hacc).trans hkept⟩
  | refreshBoth => exact ⟨_, (hother _ _ _ hred).trans ((hother _ _ _ hacc).trans hkept)⟩
  | resetRedemptionRateController => exact ⟨_, (hother _ _ _ hred).trans hkept⟩
  | openPosition =>
    exact ⟨_, (hother _ _ _ (fun he => by cases (AccountId.pda.inj he).2)).trans hkept⟩
  | depositCollateral _ position _ _ _ _ _ _ _ _ reads =>
    exact ⟨_, (hother _ _ _ (h.position_ne w s position _ reads.stored)).trans hkept⟩
  | closePosition _ position _ _ _ reads =>
    exact ⟨_, (hother _ _ _ (h.position_ne w s position _ reads.stored)).trans hkept⟩
  | generateDebt _ position _ _ _ _ _ _ _ _ _ _ _ _ reads =>
    exact ⟨_, (hother _ _ _ hacc).trans ((hother _ _ _
      (h.position_ne w s position _ reads.stored)).trans hkept)⟩
  | repayDebt _ position _ _ _ _ _ _ _ _ _ _ _ reads =>
    exact ⟨_, (hother _ _ _ hacc).trans ((hother _ _ _
      (h.position_ne w s position _ reads.stored)).trans hkept)⟩
  | withdrawCollateral _ position _ _ _ _ _ _ _ _ _ _ reads =>
    exact ⟨_, (hother _ _ _ (h.position_ne w s position _ reads.stored)).trans hkept⟩
  | setStabilityFeePerMillisecond _ _ rate params _ _ _ _ _ _ reads =>
    obtain ⟨-, rfl⟩ := h.reads_parameters w s _ params reads.parameters
    exact ⟨rate, by rw [hother _ _ _ hacc, owned_put_same _ _ _ _ hp, Function.update_self]⟩
  | setParameters _ _ _ _ _ hsetter =>
    rw [hset] at hsetter
    cases hsetter

omit h in
/-- Only the initialization grants the authority of the master holding. -/
theorem step_master_seed (ids : List AccountId) (instruction : Instruction) (v : Accounts)
    (calls : List ChainedCall) (hfresh : w parametersId ≠ default)
    (step : Step stablecoinProgramId w authority ids instruction v calls) :
    ∀ call ∈ calls, ∀ seed ∈ call.pdaSeeds, masterId ≠ .forPublicPda stablecoinProgramId seed := by
  have hseed : ∀ seed, (seed = computeStablecoinDefinitionPdaSeed ∨
      ∃ x, seed = computePositionVaultPdaSeed x) →
      masterId ≠ .forPublicPda stablecoinProgramId seed := by
    rintro seed (rfl | ⟨x, rfl⟩) he
    · cases (AccountId.pda.inj he).2
    · cases (AccountId.pda.inj he).2
  have hsurplus : ∀ tokenProgram d fees, ∀ call ∈ surplusCalls tokenProgram d stablecoinProgramId
      fees, ∀ seed ∈ call.pdaSeeds, masterId ≠ .forPublicPda stablecoinProgramId seed := by
    intro tokenProgram d fees call hc seed hs
    rw [surplusCalls_seeds _ _ _ call hc, List.mem_singleton] at hs
    exact hseed seed (Or.inl hs)
  intro call hc seed hs
  cases step with
  | initializeProgram _ _ _ _ _ _ _ hfresh' => exact absurd hfresh' hfresh
  | accrueStabilityFee => exact hsurplus _ _ _ call hc seed hs
  | refreshFee => exact hsurplus _ _ _ call hc seed hs
  | refreshBoth => exact hsurplus _ _ _ call hc seed hs
  | setStabilityFeePerMillisecond => exact hsurplus _ _ _ call hc seed hs
  | updateRedemptionRate => cases hc
  | resetRedemptionRateController => cases hc
  | closePosition => cases hc
  | setParameters => cases hc
  | openPosition =>
    rcases List.mem_cons.mp hc with rfl | hc
    · exact hseed seed (Or.inr ⟨_, List.mem_singleton.mp hs⟩)
    · rw [List.mem_singleton.mp hc] at hs
      cases hs
  | depositCollateral =>
    rw [List.mem_singleton.mp hc] at hs
    cases hs
  | withdrawCollateral =>
    rw [List.mem_singleton.mp hc] at hs
    exact hseed seed (Or.inr ⟨_, List.mem_singleton.mp hs⟩)
  | generateDebt =>
    rcases List.mem_append.mp hc with hc | hc
    · exact hsurplus _ _ _ call hc seed hs
    · rw [List.mem_singleton.mp hc] at hs
      exact hseed seed (Or.inl (List.mem_singleton.mp hs))
  | repayDebt =>
    rcases List.mem_append.mp hc with hc | hc
    · exact hsurplus _ _ _ call hc seed hs
    · rw [List.mem_singleton.mp hc] at hs
      cases hs

end

structure Founded (w : Accounts) (p : ProtocolParameters) : Prop where
  oracle : p.marketPriceOracleId ≠ accumulatorId ∧ p.marketPriceOracleId ≠ definitionId ∧
    p.marketPriceOracleId ≠ masterId
  master : ∃ held, HoldingAt w masterId held ∧ held.kind = .fungible ∧
    held.definitionId = definitionId
  collateral : p.collateralDefinitionId ≠ definitionId

theorem derivedBy_master : masterId.DerivedBy stablecoinProgramId := rfl

theorem Founded.elsewhere (w w' : Accounts) (p : ProtocolParameters) (h : Founded w p)
    (he : Elsewhere stablecoinProgramId w w') : Founded w' p := by
  refine elsewhere_preserves stablecoinProgramId (fun v => Founded v p) ?_ w w' he h
  intro v v' hv hf
  obtain ⟨held, hheld, hkind, htoken⟩ := hv.master
  obtain ⟨held', hheld', hg⟩ := hf.holding_grows stablecoinProgramId v v' masterId derivedBy_master
    held hheld
  exact ⟨hv.oracle, ⟨held', hheld', hg.kind.trans hkind, hg.token.trans htoken⟩, hv.collateral⟩

section
variable (w v w' : Accounts) (authority : List AccountId) (calls : List ChainedCall)

/-- The calls of an instruction after the initialization keep the master holding. -/
theorem Founded.invoked (p p' : ProtocolParameters) (h : Founded w p)
    (hp : w parametersId ≠ default) (i : Invoked authority w v calls w') (ids : List AccountId)
    (instruction : Instruction)
    (step : Step stablecoinProgramId w authority ids instruction v calls)
    (horacle : p'.marketPriceOracleId = p.marketPriceOracleId ∨
      p'.marketPriceOracleId ≠ accumulatorId ∧ p'.marketPriceOracleId ≠ definitionId ∧
        p'.marketPriceOracleId ≠ masterId)
    (hcollateral : p'.collateralDefinitionId = p.collateralDefinitionId) : Founded w' p' := by
  obtain ⟨held, hheld, hkind, htoken⟩ := h.master
  obtain ⟨held', hheld', hg⟩ := i.settled.holding_grows _ _ masterId
    (fun hm => i.outside _ hm derivedBy_master) v w' calls
    (step_master_seed w authority ids instruction v calls hp step) held
    (by rwa [HoldingAt, i.tokens_eq])
  refine ⟨?_, ⟨held', hheld', hg.kind.trans hkind, hg.token.trans htoken⟩, ?_⟩
  · rcases horacle with he | he
    · rw [he]
      exact h.oracle
    · exact he
  · rw [hcollateral]
    exact h.collateral

/-- An account that may be bound as the oracle is none that the program keeps. -/
theorem Quotable.apart (s : Instance) (h : Represents w s) (p : ProtocolParameters)
    (hf : Founded w p) (o : AccountId) (ho : Quotable w o) :
    o ≠ accumulatorId ∧ o ≠ definitionId ∧ o ≠ masterId := by
  have hne : ∀ id data, (w id).data = data → data ≠ .empty → (∀ oracle, data ≠ .oraclePrice oracle) →
      o ≠ id := by
    rintro id data hd hempty horacle rfl
    rcases ho with ho | ⟨oracle, ho⟩
    · rw [ho] at hd
      exact hempty hd.symm
    · exact horacle oracle (hd.symm.trans ho)
  obtain ⟨d, hd, -⟩ := h.tokens.definition
  obtain ⟨held, hheld, -⟩ := hf.master
  exact ⟨hne _ _ ((owned_eq_some _ _ _ _).mp h.records.accumulator).2 Data.noConfusion
      fun _ => Data.noConfusion,
    hne _ _ hd.data Data.noConfusion fun _ => Data.noConfusion,
    hne _ _ hheld.data Data.noConfusion fun _ => Data.noConfusion⟩

theorem initialized_founded (hu : Uninitialized w) (ids : List AccountId)
    (instruction : Instruction) (hn : ids.Nodup)
    (step : Step stablecoinProgramId w authority ids instruction v calls)
    (i : Invoked authority w v calls w') (p : ProtocolParameters)
    (hp : storedParameters w' = some p) : Founded w' p := by
  obtain ⟨s, hr, -⟩ := step_initializes authority w v w' calls hu ids instruction step i
  obtain ⟨params, rfl⟩ := hu.step w v authority ids instruction calls step
  cases step with
  | initializeProgram admin c o _ now collateral =>
    have hp' : owned stablecoinProgramId w' parametersId = some (.protocolParameters
        (initialParameters params admin definitionId c o)) := by
      rw [i.stored_eq, owned_eq_some, put_other _ _ _ _ _ (by decide),
        put_other _ _ _ _ _ (by decide), put_same, writeData_data]
      refine ⟨writeData_owner_of_ne _ _ _ ?_, rfl⟩
      intro he
      have hfresh : w parametersId = default := ‹_›
      rw [hfresh] at he
      cases he
    rw [storedParameters, hp', Option.some.injEq] at hp
    subst hp
    obtain ⟨-, ht⟩ := ((settled_singleton _ _ _ _ _).mp i.settled).transition _ _ _ _ _ rfl
    obtain ⟨⟨-, -, hfresh, -⟩, -, hmaster⟩ := ht.newFungibleDefinition
    have howner : (w' masterId).programOwner = tokenProgramId := by
      rcases ht.frame masterId with he | ⟨-, he⟩
      · rw [he, hfresh] at hmaster
        cases hmaster
      · exact he
    refine ⟨⟨?_, ?_, ?_⟩, ⟨_, (owned_eq_some _ _ _ _).mpr ⟨howner, hmaster⟩, rfl, rfl⟩, ?_⟩
    · rintro (rfl : o = _)
      simp at hn
    · rintro (rfl : o = _)
      simp at hn
    · rintro (rfl : o = _)
      simp at hn
    · rintro (rfl : c = _)
      simp at hn
  | setParameters _ _ _ _ _ hsetter => cases hsetter

end

def Established (w : Accounts) : Prop :=
  Sound w ∧ ∀ p, storedParameters w = some p → Founded w p

theorem event_established (platform : Platform) (w : Accounts) (event : Event)
    (h : Established w) : Established (event.apply platform w) := by
  obtain ⟨hs, hf⟩ := h
  refine ⟨event_sound platform w event hs, fun p hp => ?_⟩
  rcases event_cases platform w event with
    ⟨he, -⟩ | ⟨authority, call, instruction, v, calls, rfl, ht⟩
  · have hsame := elsewhere_stored w _ he
    exact (hf p (by rwa [storedParameters, ← hsame])).elsewhere w _ p he
  · rcases hs with hu | ⟨s, hr, -⟩
    · exact initialized_founded w v _ authority calls hu _ instruction ht.distinct ht.step
        ht.invoked p hp
    · have hfounded := hf _ hr.storedParameters
      have hd := Holds.ne_default _ _ _ ((owned_eq_some _ _ _ _).mp hr.records.parameters)
        Data.noConfusion
      have hinvoked := hfounded.invoked w v _ authority calls s.parameters p hd ht.invoked _
        instruction ht.step
      obtain ⟨p', hp', hgoverned⟩ := hr.step_governed w s authority _ instruction v calls ht.step
      have hstored : owned stablecoinProgramId v parametersId = some (.protocolParameters p) := by
        rw [← ht.invoked.stored_eq]
        exact Holds.owned_eq _ _ _ _ ((storedParameters_eq_some _ p).mp hp)
      rw [hstored, Option.some.injEq, Data.protocolParameters.injEq] at hp'
      subst hp'
      refine hinvoked ?_ ?_
      · cases hset : instruction.setsParameters with
        | false =>
          obtain ⟨rate, hrate⟩ := hr.step_parameters w s authority _ instruction v calls hset ht.step
          rw [hstored, Option.some.injEq, Data.protocolParameters.injEq] at hrate
          rw [hrate]
          exact Or.inl rfl
        | true =>
          obtain ⟨u, calls', hperf, hsame⟩ := ht.performs
          obtain ⟨q, q', hq, hrewrites, rfl⟩ := setter_writes w u authority calls' _ instruction
            hset hperf
          obtain ⟨-, rfl⟩ := hr.reads_parameters w s _ q hq
          have hp'' := (storedParameters_eq_some _ p).mp hp
          have hq' : p = q' := by
            have he := congrFun hsame parametersId
            rw [Holds.owned_eq _ _ _ _ hp'', owned_put_same _ _ _ _ (Holds.owned_eq _ _ _ _ hq),
              Function.update_self, Option.some.injEq, Data.protocolParameters.injEq] at he
            exact he
          rw [hq']
          rcases hrewrites.oracle with he | ho
          · exact Or.inl he
          · exact Or.inr (ho.apart w s hr s.parameters hfounded _)
      · rcases hgoverned with rfl | ⟨signer, -, -, hg⟩
        · rfl
        · exact hg.definitions_kept.2

theorem run_established (platform : Platform) (genesis : Genesis) (events : List Event) :
    Established (run platform genesis.world events) := by
  refine run_preserves platform Established (event_established platform) _ ⟨?_, ?_⟩ events
  · exact Or.inl (genesis_uninitialized genesis)
  · intro p hp
    rw [((genesis_uninitialized genesis).views).1] at hp
    cases hp

/-- An initialized world has the instance whose parameters it stores. -/
theorem Established.represents (w : Accounts) (p : ProtocolParameters) (h : Established w)
    (hp : storedParameters w = some p) : ∃ s, Represents w s ∧ s.parameters = p := by
  rcases h.1 with hu | ⟨s, hr, -⟩
  · exact (hu.not_holds w _ _ ((storedParameters_eq_some w p).mp hp)).elim
  · exact ⟨s, hr, (hr.reads_parameters w s _ p ((storedParameters_eq_some w p).mp hp)).2.symm⟩

theorem Established.transacted (platform : Platform) (w w' : Accounts) (h : Established w)
    (authority : List AccountId) (call : ChainedCall)
    (ht : transact platform w authority call = .ok w') : Established w' := by
  have he := event_established platform w (.transaction authority call) h
  simp only [Event.apply, ht] at he
  exact he

/-- The token program keeps the stablecoin and the master holding. -/
theorem Established.tokens (w : Accounts) (p : ProtocolParameters) (h : Established w)
    (hp : storedParameters w = some p) :
    (w definitionId).programOwner = tokenProgramId ∧ (w masterId).programOwner = tokenProgramId ∧
      w definitionId ≠ default ∧ w masterId ≠ default := by
  obtain ⟨s, hr, -⟩ := h.represents w p hp
  obtain ⟨d, hd, -⟩ := hr.tokens.definition
  obtain ⟨held, hheld, -⟩ := (h.2 p hp).master
  obtain ⟨hdo, hdd⟩ := (owned_eq_some _ _ _ _).mp hd
  obtain ⟨hmo, hmd⟩ := (owned_eq_some _ _ _ _).mp hheld
  exact ⟨hdo, hmo, Token.data_ne_default _ (by rw [hdd]; exact Data.noConfusion),
    Token.data_ne_default _ (by rw [hmd]; exact Data.noConfusion)⟩

end LezPrograms.Stablecoin
