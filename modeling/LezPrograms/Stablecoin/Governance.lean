import LezPrograms.Stablecoin.Projections

/-! # Governance of the parameters

The parameters stay in their bands. Only the admin of the moment changes them,
only the freeze authority of the moment freezes and unfreezes, and nobody
changes the two definitions. -/

set_option autoImplicit false

namespace LezPrograms.Stablecoin
open LezPrograms.Checked LezPrograms.Lee LezPrograms.Token LezPrograms.Stablecoin.Math

inductive Governed (p : ProtocolParameters) (signer : AccountId) : ProtocolParameters → Prop
  | admin (p' : ProtocolParameters) (entitled : signer = p.adminAccountId)
      (frozen : p'.isFrozen = p.isFrozen)
      (stablecoin : p'.stablecoinDefinitionId = p.stablecoinDefinitionId)
      (collateral : p'.collateralDefinitionId = p.collateralDefinitionId) : Governed p signer p'
  | freezeAuthority (isFrozen : Bool) (entitled : signer = p.freezeAuthorityAccountId) :
      Governed p signer { p with isFrozen := isFrozen }

theorem ParametersUpdate.governed (p p' : ProtocolParameters) (signer : AccountId)
    (h : ParametersUpdate p signer p') : Governed p signer p' := by
  cases h with
  | frozen isFrozen entitled => exact .freezeAuthority isFrozen entitled
  | ratio _ _ entitled => exact .admin _ entitled rfl rfl rfl
  | gains _ _ entitled => exact .admin _ entitled rfl rfl rfl
  | timing _ _ _ _ entitled => exact .admin _ entitled rfl rfl rfl
  | admin _ entitled => exact .admin _ entitled rfl rfl rfl
  | freezeAuthority _ entitled => exact .admin _ entitled rfl rfl rfl
  | oracle _ entitled => exact .admin _ entitled rfl rfl rfl

section
variable (w : Accounts) (s : Instance) (h : Represents w s) (authority : List AccountId)
include h

theorem Represents.position_ne (id : AccountId) (x : Position)
    (hx : Holds stablecoinProgramId (w id) (.position x)) : parametersId ≠ id := by
  rintro rfl
  have he := Holds.owned_eq _ _ _ _ hx
  rw [h.records.parameters] at he
  cases he

/-- A step keeps the parameters, or its first account signs for the change. -/
theorem Represents.step_governed (ids : List AccountId) (instruction : Instruction) (v : Accounts)
    (calls : List ChainedCall)
    (step : Step stablecoinProgramId w authority ids instruction v calls) :
    ∃ p', owned stablecoinProgramId v parametersId = some (.protocolParameters p') ∧
      (p' = s.parameters ∨ ∃ signer, ids[0]? = some signer ∧ signer ∈ authority ∧
        Governed s.parameters signer p') := by
  have hp := h.records.parameters
  have ha := (owned_eq_some _ _ _ _).mp h.records.accumulator
  have hr := (owned_eq_some _ _ _ _).mp h.records.redemption
  have hacc : parametersId ≠ accumulatorId := by decide
  have hred : parametersId ≠ redemptionId := by decide
  have hother : ∀ (u : Accounts) (id : AccountId) (data : Data), parametersId ≠ id →
      owned stablecoinProgramId (put stablecoinProgramId u id data) parametersId
        = owned stablecoinProgramId u parametersId := fun u id data hne =>
    owned_congr _ _ _ _ (put_other _ _ _ _ _ hne)
  cases step with
  | initializeProgram _ _ _ _ _ _ _ hfresh =>
    rw [owned, hfresh] at hp
    cases hp
  | accrueStabilityFee => exact ⟨_, (hother _ _ _ hacc).trans hp, Or.inl rfl⟩
  | updateRedemptionRate => exact ⟨_, (hother _ _ _ hred).trans hp, Or.inl rfl⟩
  | refreshFee => exact ⟨_, (hother _ _ _ hacc).trans hp, Or.inl rfl⟩
  | refreshBoth =>
    exact ⟨_, (hother _ _ _ hred).trans ((hother _ _ _ hacc).trans hp), Or.inl rfl⟩
  | resetRedemptionRateController => exact ⟨_, (hother _ _ _ hred).trans hp, Or.inl rfl⟩
  | openPosition => exact ⟨_, (hother _ _ _
      (fun he => by cases (AccountId.pda.inj he).2)).trans hp, Or.inl rfl⟩
  | depositCollateral _ position _ _ _ _ _ _ _ _ reads =>
    exact ⟨_, (hother _ _ _ (h.position_ne w s position _ reads.stored)).trans hp, Or.inl rfl⟩
  | closePosition _ position _ _ _ reads =>
    exact ⟨_, (hother _ _ _ (h.position_ne w s position _ reads.stored)).trans hp, Or.inl rfl⟩
  | generateDebt _ position _ _ _ _ _ _ _ _ _ _ _ _ reads =>
    exact ⟨_, (hother _ _ _ hacc).trans ((hother _ _ _
      (h.position_ne w s position _ reads.stored)).trans hp), Or.inl rfl⟩
  | repayDebt _ position _ _ _ _ _ _ _ _ _ _ _ reads =>
    exact ⟨_, (hother _ _ _ hacc).trans ((hother _ _ _
      (h.position_ne w s position _ reads.stored)).trans hp), Or.inl rfl⟩
  | withdrawCollateral _ position _ _ _ _ _ _ _ _ _ _ reads =>
    exact ⟨_, (hother _ _ _ (h.position_ne w s position _ reads.stored)).trans hp, Or.inl rfl⟩
  | setStabilityFeePerMillisecond admin d newRate params accumulator now accrual hauth hentitled
      _ reads =>
    obtain ⟨-, rfl⟩ := h.reads_parameters w s _ params reads.parameters
    refine ⟨{ s.parameters with stabilityFeePerMillisecond := newRate }, ?_,
      Or.inr ⟨admin, rfl, hauth, .admin _ hentitled rfl rfl rfl⟩⟩
    rw [hother _ _ _ hacc, owned_put_same _ _ _ _ hp, Function.update_self]
  | setParameters signer rest _ params params' _ hauth hstored hupdate =>
    obtain ⟨-, rfl⟩ := h.reads_parameters w s _ params hstored
    refine ⟨params', ?_, Or.inr ⟨signer, rfl, hauth, hupdate.governed⟩⟩
    rw [owned_put_same _ _ _ _ hp, Function.update_self]

end

def SignedBy (event : Event) (signer : AccountId) : Prop :=
  ∃ authority call instruction, event = .transaction authority call ∧
    call.instruction = .stablecoin instruction ∧ call.accountIds[0]? = some signer ∧
    signer ∈ authority

section
variable (platform : Platform) (w : Accounts) (event : Event)

/-- An event keeps the parameters of an initialized instance, or it is governed by its signer. -/
theorem event_governed (s : Instance) (h : Represents w s) :
    ∃ p', storedParameters (event.apply platform w) = some p' ∧
      (p' = s.parameters ∨ ∃ signer, SignedBy event signer ∧ Governed s.parameters signer p') := by
  rcases event_cases platform w event with
    ⟨he, -⟩ | ⟨authority, call, instruction, v, calls, rfl, ht⟩
  · obtain ⟨supply, vault, -, -, hr⟩ := Elsewhere.represents w _ s h he
    exact ⟨s.parameters, hr.storedParameters, Or.inl rfl⟩
  · obtain ⟨p', hp', hcases⟩ := h.step_governed w s authority _ instruction v calls ht.step
    refine ⟨p', ?_, ?_⟩
    · rw [storedParameters, ht.invoked.stored_eq, hp']
    · rcases hcases with rfl | ⟨signer, hfirst, hauth, hg⟩
      · exact Or.inl rfl
      · exact Or.inr ⟨signer, ⟨authority, call, instruction, rfl, ht.called, hfirst, hauth⟩, hg⟩

theorem Governed.definitions_kept (p p' : ProtocolParameters) (signer : AccountId)
    (h : Governed p signer p') :
    p'.stablecoinDefinitionId = p.stablecoinDefinitionId ∧
      p'.collateralDefinitionId = p.collateralDefinitionId := by
  cases h with
  | admin _ _ _ h1 h2 => exact ⟨h1, h2⟩
  | freezeAuthority => exact ⟨rfl, rfl⟩

/-- The parameters after an event, by who signed it. -/
theorem sound_governed (h : Sound w) (p : ProtocolParameters) (hp : storedParameters w = some p) :
    ∃ p', storedParameters (event.apply platform w) = some p' ∧
      (p' = p ∨ ∃ signer, SignedBy event signer ∧ Governed p signer p') := by
  rcases h with hu | ⟨s, hr, -⟩
  · rw [(hu.views w).1] at hp
    cases hp
  · rw [hr.storedParameters, Option.some.injEq] at hp
    exact hp ▸ event_governed platform w event s hr

end

/-- Over every further run the two definitions stay the same. -/
theorem sound_definitions_kept (platform : Platform) (later : List Event) (w : Accounts)
    (h : Sound w) (p : ProtocolParameters) (hp : storedParameters w = some p) :
    ∃ p', storedParameters (run platform w later) = some p' ∧
      p'.stablecoinDefinitionId = p.stablecoinDefinitionId ∧
      p'.collateralDefinitionId = p.collateralDefinitionId := by
  induction later generalizing w p with
  | nil => exact ⟨p, hp, rfl, rfl⟩
  | cons event later ih =>
    obtain ⟨q, hq, hcases⟩ := sound_governed platform w event h p hp
    obtain ⟨p', hp', h1, h2⟩ := ih _ (event_sound platform w event h) q hq
    rcases hcases with rfl | ⟨signer, -, hg⟩
    · exact ⟨p', hp', h1, h2⟩
    · obtain ⟨k1, k2⟩ := hg.definitions_kept
      exact ⟨p', hp', h1.trans k1, h2.trans k2⟩

/-- After every run the parameters are in their bands; over every further run the definitions stay
the same; and the event that changes the freeze flag is signed by the freeze authority stored before
it, the event that changes anything else by the admin stored before it. -/
theorem parameters_governed (platform : Platform) (genesis : Genesis) (events : List Event) :
    (∀ p, storedParameters (run platform genesis.world events) = some p → ParametersBounded p) ∧
      (∀ p later, storedParameters (run platform genesis.world events) = some p →
        ∃ p', storedParameters (run platform genesis.world (events ++ later)) = some p' ∧
          p'.stablecoinDefinitionId = p.stablecoinDefinitionId ∧
          p'.collateralDefinitionId = p.collateralDefinitionId) ∧
      ∀ p p' event, storedParameters (run platform genesis.world events) = some p →
        storedParameters (run platform genesis.world (events ++ [event])) = some p' →
        (p' ≠ { p with isFrozen := p'.isFrozen } → SignedBy event p.adminAccountId) ∧
        (p'.isFrozen ≠ p.isFrozen → SignedBy event p.freezeAuthorityAccountId) := by
  have hs := run_sound platform genesis events
  refine ⟨sound_parameters _ hs, ?_, ?_⟩
  · intro p later hp
    rw [run_append]
    exact sound_definitions_kept platform later _ hs p hp
  · intro p p' event hp hp'
    obtain ⟨q, hq, hcases⟩ := sound_governed platform _ event hs p hp
    rw [run_concat, hq, Option.some.injEq] at hp'
    subst hp'
    rcases hcases with rfl | ⟨signer, hsigned, hg⟩
    · exact ⟨fun h => absurd rfl h, fun h => absurd rfl h⟩
    · cases hg with
      | admin _ entitled frozen => exact ⟨fun _ => entitled ▸ hsigned, fun h => absurd frozen h⟩
      | freezeAuthority _ entitled =>
        exact ⟨fun h => absurd rfl h, fun _ => entitled ▸ hsigned⟩

end LezPrograms.Stablecoin
