import LezPrograms.Stablecoin.Refinement

/-! # Reachable worlds

From a world in which the program owns nothing, every run leads to a world that
is still uninitialized or represents a ledger that is backed, balanced and
covered. -/

set_option autoImplicit false

namespace LezPrograms.Stablecoin
open LezPrograms.Checked LezPrograms.Lee LezPrograms.Token LezPrograms.Stablecoin.Math
open LezPrograms.Stablecoin.Controller

def Uninitialized (w : Accounts) : Prop := ∀ id, owned stablecoinProgramId w id = none

theorem Uninitialized.not_holds (w : Accounts) (hu : Uninitialized w) (id : AccountId) (data : Data)
    (h : Holds stablecoinProgramId (w id) data) : False := by
  have he := Holds.owned_eq _ _ _ _ h
  rw [hu id] at he
  cases he

/-- Before the initialization no other instruction of the program succeeds. -/
theorem Uninitialized.step (w v : Accounts) (hu : Uninitialized w) (authority ids : List AccountId)
    (instruction : Instruction) (calls : List ChainedCall)
    (h : Step stablecoinProgramId w authority ids instruction v calls) :
    ∃ params, instruction = .initializeProgram params := by
  cases h with
  | initializeProgram _ _ _ params => exact ⟨params, rfl⟩
  | accrueStabilityFee _ _ _ _ _ _ _ _ reads => exact (hu.not_holds w _ _ reads.parameters).elim
  | updateRedemptionRate _ _ _ _ _ _ _ _ _ hp => exact (hu.not_holds w _ _ hp).elim
  | refreshFee _ _ _ _ _ _ _ _ _ reads => exact (hu.not_holds w _ _ reads.parameters).elim
  | refreshBoth _ _ _ _ _ _ _ _ _ _ _ _ reads =>
    exact (hu.not_holds w _ _ reads.parameters).elim
  | resetRedemptionRateController _ _ _ _ _ hp => exact (hu.not_holds w _ _ hp).elim
  | openPosition _ _ _ _ _ _ _ _ _ _ _ _ hp => exact (hu.not_holds w _ _ hp).elim
  | depositCollateral _ _ _ _ _ _ _ _ _ _ reads => exact (hu.not_holds w _ _ reads.stored).elim
  | closePosition _ _ _ _ _ reads => exact (hu.not_holds w _ _ reads.stored).elim
  | generateDebt _ _ _ _ _ _ _ _ _ _ _ _ _ _ reads =>
    exact (hu.not_holds w _ _ reads.stored).elim
  | repayDebt _ _ _ _ _ _ _ _ _ _ _ _ _ reads => exact (hu.not_holds w _ _ reads.stored).elim
  | withdrawCollateral _ _ _ _ _ _ _ _ _ _ _ _ reads =>
    exact (hu.not_holds w _ _ reads.stored).elim
  | setStabilityFeePerMillisecond _ _ _ _ _ _ _ _ _ _ reads =>
    exact (hu.not_holds w _ _ reads.parameters).elim
  | setParameters _ _ _ _ _ _ _ hp => exact (hu.not_holds w _ _ hp).elim

def emptyLedger : Ledger AccountId :=
  { rate := fixedPointOne.val, total := 0, supply := 0, live := ∅, debt := fun _ => 0
    collateral := fun _ => 0, vault := fun _ => 0 }

theorem records_initial (p : ProtocolParameters) (a : StabilityFeeAccumulator)
    (r : RedemptionPriceState) (ha : a.accumulatedRateAtLastAccrual = fixedPointOne)
    (ht : a.totalNormalizedDebt.val = 0) (stored : AccountId → Option Data)
    (hs : ∀ id, stored id = none) :
    Records (Function.update (Function.update (Function.update stored parametersId
      (some (.protocolParameters p))) accumulatorId (some (.stabilityFeeAccumulator a)))
      redemptionId (some (.redemptionPriceState r))) p a r emptyLedger := by
  have hread : ∀ id data, Function.update (Function.update (Function.update stored parametersId
      (some (.protocolParameters p))) accumulatorId (some (.stabilityFeeAccumulator a)))
      redemptionId (some (.redemptionPriceState r)) id = some data →
      (id = redemptionId ∧ data = .redemptionPriceState r) ∨
        (id = accumulatorId ∧ data = .stabilityFeeAccumulator a) ∨
        (id = parametersId ∧ data = .protocolParameters p) := by
    intro id data h
    by_cases h1 : id = redemptionId
    · rw [h1, Function.update_self, Option.some.injEq] at h
      exact Or.inl ⟨h1, h.symm⟩
    · rw [Function.update_of_ne h1] at h
      by_cases h2 : id = accumulatorId
      · rw [h2, Function.update_self, Option.some.injEq] at h
        exact Or.inr (Or.inl ⟨h2, h.symm⟩)
      · rw [Function.update_of_ne h2] at h
        by_cases h3 : id = parametersId
        · rw [h3, Function.update_self, Option.some.injEq] at h
          exact Or.inr (Or.inr ⟨h3, h.symm⟩)
        · rw [Function.update_of_ne h3, hs] at h
          cases h
  have hno : ∀ id x, Function.update (Function.update (Function.update stored parametersId
      (some (.protocolParameters p))) accumulatorId (some (.stabilityFeeAccumulator a)))
      redemptionId (some (.redemptionPriceState r)) id ≠ some (.position x) := by
    intro id x h
    rcases hread id _ h with ⟨-, h⟩ | ⟨-, h⟩ | ⟨-, h⟩ <;> cases h
  refine ⟨?_, ?_, Function.update_self _ _ _, ?_, ?_, ?_, ?_, ?_, ?_⟩
  · rw [Function.update_of_ne (by decide), Function.update_of_ne (by decide), Function.update_self]
  · rw [Function.update_of_ne (by decide), Function.update_self]
  · intro id q h
    rcases hread id _ h with ⟨-, h⟩ | ⟨-, h⟩ | ⟨h, -⟩
    · cases h
    · cases h
    · exact h
  · exact fun id x h => absurd h (hno id x)
  · intro id
    constructor
    · intro h
      cases h
    · rintro ⟨x, h⟩
      exact absurd h (hno id x)
  · exact fun id x h => absurd h (hno id x)
  · rw [ha]
    rfl
  · rw [ht]
    rfl

theorem owned_put_fresh (w : Accounts) (id : AccountId) (data : Data) (h : w id = default)
    (hd : data ≠ .empty) :
    owned stablecoinProgramId (put stablecoinProgramId w id data)
      = Function.update (owned stablecoinProgramId w) id (some data) :=
  owned_put _ _ _ _ (Or.inr (by rw [h]; exact hd))

section
variable (authority : List AccountId) (w v w' : Accounts) (calls : List ChainedCall)

/-- The first successful instruction initializes an empty instance. -/
theorem step_initializes (hu : Uninitialized w) (ids : List AccountId) (instruction : Instruction)
    (step : Step stablecoinProgramId w authority ids instruction v calls)
    (i : Invoked authority w v calls w') :
    ∃ s, Represents w' s ∧ s.ledger = emptyLedger := by
  obtain ⟨params, rfl⟩ := hu.step w v authority ids instruction calls step
  cases step with
  | initializeProgram admin c o _ now collateral _ hfp hfa hfr _ _ _ hdata hfungible hbands =>
    obtain ⟨hparams, hprice⟩ := parametersInBand_bounds params admin definitionId c o hbands
    obtain ⟨hp, ht⟩ := ((settled_singleton _ _ _ _ _).mp i.settled).transition _ _ _ _ _ rfl
    obtain ⟨⟨-, hfresh, -, -⟩, hdef, -⟩ := ht.newFungibleDefinition
    have hT := i.tokens_eq
    have hS := i.stored_eq
    rw [owned_put_fresh _ _ _ _ Data.noConfusion, owned_put_fresh _ _ _ _ Data.noConfusion,
      owned_put_fresh _ _ _ hfp Data.noConfusion] at hS
    · have howner : (w' definitionId).programOwner = tokenProgramId := by
        rcases ht.frame definitionId with he | ⟨-, he⟩
        · rw [he, hfresh] at hdef
          cases hdef
        · exact he
      obtain ⟨d, hd, hdf⟩ := i.settled.definition_shape _ _ c _ _ _ collateral
        (by rw [DefinitionAt, hT]; exact (owned_eq_some _ _ _ _).mpr ⟨hp, hdata⟩)
      refine ⟨_, represents_mk w' (initialParameters params admin definitionId c o)
        ⟨fixedPointOne, now, Unsigned.zero 128⟩
        ⟨params.initialRedemptionPrice, fixedPointOne, ⟨0, zero_mem_i128⟩, now⟩ emptyLedger ?_
        ⟨⟨_, (owned_eq_some _ _ _ _).mpr ⟨howner, hdef⟩, rfl, trivial, rfl⟩,
          ⟨d, hd, hdf.mpr hfungible⟩, fun id hid => by cases hid⟩ rfl
        hparams le_rfl (redemptionBounded_at_one _ _ hprice.1 hprice.2), rfl⟩
      rw [hS]
      exact records_initial _ _ _ rfl rfl _ hu
    · rwa [put_other _ _ _ _ _ (by decide)]
    · rwa [put_other _ _ _ _ _ (by decide), put_other _ _ _ _ _ (by decide)]
  | setParameters _ _ _ _ _ hsetter => cases hsetter

end

structure Transacted (platform : Platform) (w : Accounts) (authority : List AccountId)
    (call : ChainedCall) (instruction : Instruction) (v : Accounts) (calls : List ChainedCall)
    (w' : Accounts) : Prop where
  succeeds : transact platform w authority call = .ok w'
  called : call.instruction = .stablecoin instruction
  distinct : call.accountIds.Nodup
  step : Step stablecoinProgramId w authority call.accountIds instruction v calls
  invoked : Invoked authority w v calls w'

theorem transacted_of_ok (platform : Platform) (w w' : Accounts) (authority : List AccountId)
    (call : ChainedCall) (instruction : Instruction)
    (hi : call.instruction = .stablecoin instruction)
    (h : transact platform w authority call = .ok w') :
    ∃ v calls, Transacted platform w authority call instruction v calls w' := by
  obtain ⟨ho, hperf⟩ := transact_performed platform w w' authority call h
  cases hperf with
  | token j hc => rw [hi] at hc; cases hc
  | oracle j hc => rw [hi] at hc; cases hc
  | amm j v calls hc => rw [hi] at hc; cases hc
  | stablecoin j v calls hc hn hs hf hset =>
    rw [hi] at hc
    cases hc
    exact ⟨v, calls, h, hi, hn, hs, ⟨ho _ (by decide), hf, hset⟩⟩

def Invokes (event : Event) : Prop :=
  ∃ authority call instruction, event = .transaction authority call ∧
    call.instruction = .stablecoin instruction

/-- The event is a successful invocation of the program, or it happens elsewhere; a failed
invocation changes nothing. -/
theorem event_cases (platform : Platform) (w : Accounts) (event : Event) :
    (Elsewhere stablecoinProgramId w (event.apply platform w) ∧
        (Invokes event → event.apply platform w = w)) ∨
      ∃ authority call instruction v calls, event = .transaction authority call ∧
        Transacted platform w authority call instruction v calls (event.apply platform w) := by
  by_cases hs : Invokes event
  · obtain ⟨authority, call, instruction, rfl, hi⟩ := hs
    rw [Event.apply]
    split
    · rename_i w' h
      obtain ⟨v, calls, ht⟩ := transacted_of_ok platform w w' authority call instruction hi h
      exact Or.inr ⟨authority, call, instruction, v, calls, rfl, ht⟩
    · exact Or.inl ⟨.refl, fun _ => rfl⟩
  · refine Or.inl ⟨Event.elsewhere platform stablecoinProgramId w event (by decide) ?_ ?_,
      fun h => absurd h hs⟩
    · exact fun _ _ _ _ _ => by decide
    · exact fun authority call i he hi => absurd ⟨authority, call, i, he, hi⟩ hs

/-- A world that is uninitialized or represents a sound ledger. -/
def Sound (w : Accounts) : Prop :=
  Uninitialized w ∨ ∃ s, Represents w s ∧ s.ledger.Backed fixedPointOne.val ∧
    s.ledger.Balanced ∧ s.ledger.Covered

inductive EventShortfall (platform : Platform) (w : Accounts) (event : Event)
    (before after : Instance) : Shortfall → Prop
  | elsewhere (elsewhere : Elsewhere stablecoinProgramId w (event.apply platform w))
      (idle : Invokes event → event.apply platform w = w) :
      EventShortfall platform w event before after
        ⟨0, 0, before.ledger.supply - after.ledger.supply⟩
  | invoked (authority : List AccountId) (call : ChainedCall) (instruction : Instruction)
      (v : Accounts) (calls : List ChainedCall) (eq : event = .transaction authority call)
      (transacted : Transacted platform w authority call instruction v calls
        (event.apply platform w)) :
      EventShortfall platform w event before after (instruction.shortfall after.ledger.rate)

/-- Every event refines one step of the ledger. -/
theorem event_refines (platform : Platform) (w : Accounts) (event : Event) (s : Instance)
    (h : Represents w s) :
    ∃ s' loss, Represents (event.apply platform w) s' ∧
      Ledger.Step fixedPointOne.val s.ledger loss s'.ledger ∧
      EventShortfall platform w event s s' loss := by
  rcases event_cases platform w event with
    ⟨he, hidle⟩ | ⟨authority, call, instruction, v, calls, rfl, ht⟩
  · obtain ⟨supply, vault, hs, hv, hr⟩ := Elsewhere.represents w _ s h he
    exact ⟨_, _, hr, .elsewhere supply (s.ledger.supply - supply) vault (by omega) hv,
      .elsewhere he hidle⟩
  · obtain ⟨s', hr, hstep⟩ := step_moves authority w v _ calls s h _ instruction ht.step ht.invoked
    exact ⟨s', _, hr, hstep, .invoked authority call instruction v calls rfl ht⟩

theorem Uninitialized.event (platform : Platform) (w : Accounts) (event : Event)
    (hu : Uninitialized w) : Uninitialized (event.apply platform w) ∨
      ∃ s, Represents (event.apply platform w) s ∧ s.ledger = emptyLedger := by
  rcases event_cases platform w event with
    ⟨he, -⟩ | ⟨authority, call, instruction, v, calls, rfl, ht⟩
  · refine Or.inl (elsewhere_preserves stablecoinProgramId Uninitialized ?_ w _ he hu)
    intro v v' hv hf id
    rw [hf.owned_eq stablecoinProgramId v v' (by decide) (by decide)]
    exact hv id
  · exact Or.inr (step_initializes authority w v _ calls hu _ instruction ht.step ht.invoked)

theorem event_sound (platform : Platform) (w : Accounts) (event : Event) (h : Sound w) :
    Sound (event.apply platform w) := by
  rcases h with hu | ⟨s, hr, hb, hbal, hcov⟩
  · rcases hu.event platform w event with hu | ⟨s, hr, he⟩
    · exact Or.inl hu
    · refine Or.inr ⟨s, hr, ?_, ?_, ?_⟩
      · rw [he]
        exact le_of_eq (by simp [emptyLedger])
      · rw [he]
        rfl
      · intro id hid
        rw [he] at hid
        cases hid
  · obtain ⟨s', loss, hr', hstep, -⟩ := event_refines platform w event s hr
    exact Or.inr ⟨s', hr', hstep.backed _ _ _ Compounding.fixedPointOne_pos hb,
      hstep.balanced _ _ _ hbal, hstep.covered _ _ _ hcov⟩

theorem genesis_uninitialized (genesis : Genesis) : Uninitialized genesis.world := by
  intro id
  have hne : (genesis.world id).programOwner ≠ stablecoinProgramId := by
    intro he
    have hd := genesis.unowned id
    rw [he] at hd
    exact hd (by decide)
  rw [owned, if_neg hne]

theorem run_sound (platform : Platform) (genesis : Genesis) (events : List Event) :
    Sound (run platform genesis.world events) :=
  run_preserves platform Sound (fun w event h => event_sound platform w event h) _
    (Or.inl (genesis_uninitialized genesis)) events

def storedParameters (w : Accounts) : Option ProtocolParameters :=
  match owned stablecoinProgramId w parametersId with
  | some (.protocolParameters p) => some p
  | _ => none

def storedAccumulator (w : Accounts) : Option StabilityFeeAccumulator :=
  match owned stablecoinProgramId w accumulatorId with
  | some (.stabilityFeeAccumulator a) => some a
  | _ => none

def storedRedemption (w : Accounts) : Option RedemptionPriceState :=
  match owned stablecoinProgramId w redemptionId with
  | some (.redemptionPriceState r) => some r
  | _ => none

/-- The live position at `id`: opened and not closed. -/
def positionAt (w : Accounts) (id : AccountId) : Option Position :=
  match owned stablecoinProgramId w id with
  | some (.position x) => some x
  | _ => none

def totalNormalizedDebt (w : Accounts) : ℕ :=
  (storedAccumulator w).elim 0 fun a => a.totalNormalizedDebt.val

def accumulatedRate (w : Accounts) : ℕ :=
  (storedAccumulator w).elim 0 fun a => a.accumulatedRateAtLastAccrual.val

def stablecoinSupply (w : Accounts) : ℕ :=
  (storedParameters w).elim 0 fun p => supplyAt w p.stablecoinDefinitionId

def debtAt (w : Accounts) (id : AccountId) : ℕ :=
  (positionAt w id).elim 0 fun x => x.normalizedDebtAmount.val

theorem positionAt_eq_some (w : Accounts) (id : AccountId) (x : Position) :
    positionAt w id = some x ↔ owned stablecoinProgramId w id = some (.position x) := by
  unfold positionAt
  split <;> simp_all

section
variable (w : Accounts)

theorem Uninitialized.views (hu : Uninitialized w) :
    storedParameters w = none ∧ storedAccumulator w = none ∧ storedRedemption w = none ∧
      totalNormalizedDebt w = 0 ∧ accumulatedRate w = 0 ∧ stablecoinSupply w = 0 := by
  have hp : storedParameters w = none := by rw [storedParameters, hu parametersId]
  have ha : storedAccumulator w = none := by rw [storedAccumulator, hu accumulatorId]
  have hr : storedRedemption w = none := by rw [storedRedemption, hu redemptionId]
  exact ⟨hp, ha, hr, by rw [totalNormalizedDebt, ha]; rfl, by rw [accumulatedRate, ha]; rfl,
    by rw [stablecoinSupply, hp]; rfl⟩

theorem Uninitialized.positionAt (hu : Uninitialized w) (id : AccountId) :
    positionAt w id = none := by
  rw [LezPrograms.Stablecoin.positionAt, hu id]

variable (s : Instance) (h : Represents w s)
include h

theorem Represents.storedParameters : storedParameters w = some s.parameters := by
  rw [LezPrograms.Stablecoin.storedParameters, h.records.parameters]

theorem Represents.storedAccumulator : storedAccumulator w = some s.accumulator := by
  rw [LezPrograms.Stablecoin.storedAccumulator, h.records.accumulator]

theorem Represents.storedRedemption : storedRedemption w = some s.redemption := by
  rw [LezPrograms.Stablecoin.storedRedemption, h.records.redemption]

theorem Represents.totalNormalizedDebt : totalNormalizedDebt w = s.ledger.total := by
  rw [LezPrograms.Stablecoin.totalNormalizedDebt, h.storedAccumulator, h.records.total]
  rfl

theorem Represents.accumulatedRate : accumulatedRate w = s.ledger.rate := by
  rw [LezPrograms.Stablecoin.accumulatedRate, h.storedAccumulator, h.records.rate]
  rfl

theorem Represents.stablecoinSupply : stablecoinSupply w = s.ledger.supply := by
  obtain ⟨d, hd, -, -, hs⟩ := h.tokens.definition
  rw [LezPrograms.Stablecoin.stablecoinSupply, h.storedParameters, Option.elim_some, h.named,
    hd.supplyAt_eq, hs]

theorem Represents.live_iff (id : AccountId) :
    id ∈ s.ledger.live ↔ (positionAt w id).isSome = true := by
  rw [h.records.live, Option.isSome_iff_exists]
  simp only [positionAt_eq_some]

theorem Represents.debtAt (id : AccountId) (hid : id ∈ s.ledger.live) :
    debtAt w id = s.ledger.debt id := by
  obtain ⟨x, hx⟩ := (h.records.live id).mp hid
  rw [LezPrograms.Stablecoin.debtAt, (positionAt_eq_some w id x).mpr hx, (h.records.amounts id x hx).1]
  rfl

end

def firstParams : InitializeProgramParams :=
  { freezeAuthorityAccountId := .key 61
    initialStabilityFeePerMillisecond := fixedPointOne
    initialControllerProportionalGain := ⟨0, zero_mem_i128⟩
    initialControllerIntegralGain := fixedPointOneSigned
    initialMinimumCollateralizationRatio := minCollateralizationRatio
    minimumMillisecondsBetweenRateUpdates := ⟨1, one_lt_u64⟩
    maximumOraclePriceAgeMilliseconds := ⟨1, one_lt_u64⟩
    initialRedemptionPrice := fixedPointOne
    stablecoinName := "USD" }

def firstInitialization : List Event :=
  [.transaction [.key 20, .key 21] ⟨tokenProgramId, [.key 20, .key 21],
      .token (.newFungibleDefinition "COL" fixedPointOne none), []⟩,
    .transaction [.key 60] ⟨stablecoinProgramId, [.key 60, parametersId, accumulatorId,
      redemptionId, definitionId, computeStablecoinMasterHoldingPda stablecoinProgramId, .key 20,
      .key 70, clock01ProgramAccountId], .stablecoin (.initializeProgram firstParams), []⟩]

def firstPositionId : AccountId := computePositionPda stablecoinProgramId (.key 30) 0

def firstOpening : List Event :=
  [.transaction [.key 30, .key 21] ⟨stablecoinProgramId, [.key 30, firstPositionId,
      vaultId firstPositionId, .key 21, .key 20, parametersId, clock01ProgramAccountId],
      .stablecoin (.openPosition 0 2000), []⟩,
    .transaction [.key 31] ⟨tokenProgramId, [definitionId, .key 31], .token .initializeAccount,
      []⟩]

def firstWorld : Accounts :=
  run tablePlatform (clockedGenesis 0).world (firstInitialization ++ firstOpening)

def firstGeneration : ChainedCall :=
  ⟨stablecoinProgramId, [.key 30, firstPositionId, definitionId, .key 31,
    computeStablecoinMasterHoldingPda stablecoinProgramId, accumulatorId, redemptionId,
    parametersId, clock01ProgramAccountId], .stablecoin (.generateDebt 1000), []⟩

example : (transact tablePlatform firstWorld [.key 30] firstGeneration).toBool = true := by
  decide +kernel

end LezPrograms.Stablecoin
