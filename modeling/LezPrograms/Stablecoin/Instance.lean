import LezPrograms.Stablecoin.Bounds
import LezPrograms.Stablecoin.Records

/-! # An instance of the stablecoin in the world

`Represents` connects the accounts of the world with one ledger: the stored
records, the stablecoin's definition, and the vaults of the live positions. -/

set_option autoImplicit false

namespace LezPrograms.Stablecoin
open LezPrograms.Checked LezPrograms.Lee LezPrograms.Token LezPrograms.Stablecoin.Math

structure Instance where
  parameters : ProtocolParameters
  accumulator : StabilityFeeAccumulator
  redemption : RedemptionPriceState
  ledger : Ledger AccountId

structure Tokens (w : Accounts) (collateralId : AccountId) (supply : ℕ) (live : Finset AccountId)
    (vault : AccountId → ℕ) : Prop where
  definition : ∃ d, DefinitionAt w definitionId d ∧ d.mintAuthority = some definitionId ∧
    d.isFungible ∧ d.supply = supply
  collateral : ∃ d, DefinitionAt w collateralId d ∧ d.isFungible
  vaults : ∀ id ∈ live, ∃ h, HoldingAt w (vaultId id) h ∧ h.kind = .fungible ∧
    h.definitionId = collateralId ∧ h.units = vault id

structure Represents (w : Accounts) (s : Instance) : Prop where
  records : Records (owned stablecoinProgramId w) s.parameters s.accumulator s.redemption s.ledger
  tokens : Tokens w s.parameters.collateralDefinitionId s.ledger.supply s.ledger.live
    s.ledger.vault
  named : s.parameters.stablecoinDefinitionId = definitionId
  parameters : ParametersBounded s.parameters
  accumulated : fixedPointOne.val ≤ s.accumulator.accumulatedRateAtLastAccrual.val
  redemption : RedemptionBounded s.redemption

theorem represents_mk (w : Accounts) (p : ProtocolParameters) (a : StabilityFeeAccumulator)
    (r : RedemptionPriceState) (L : Ledger AccountId)
    (records : Records (owned stablecoinProgramId w) p a r L)
    (tokens : Tokens w p.collateralDefinitionId L.supply L.live L.vault)
    (named : p.stablecoinDefinitionId = definitionId) (parameters : ParametersBounded p)
    (accumulated : fixedPointOne.val ≤ a.accumulatedRateAtLastAccrual.val)
    (redemption : RedemptionBounded r) : Represents w ⟨p, a, r, L⟩ :=
  ⟨records, tokens, named, parameters, accumulated, redemption⟩

def vaultUnits (w : Accounts) (positionId : AccountId) : ℕ := unitsAt w (vaultId positionId)

theorem Tokens.of_kept (w w' : Accounts) (collateralId : AccountId) (supply supply' : ℕ)
    (live : Finset AccountId) (vault : AccountId → ℕ)
    (h : Tokens w collateralId supply live vault)
    (hdef : ∀ d, DefinitionAt w definitionId d → d.mintAuthority = some definitionId →
      d.isFungible → d.supply = supply → ∃ d', DefinitionAt w' definitionId d' ∧
        d'.mintAuthority = some definitionId ∧ d'.isFungible ∧ d'.supply = supply')
    (hcol : ∀ d, DefinitionAt w collateralId d → ∃ d', DefinitionAt w' collateralId d' ∧
      (d'.isFungible ↔ d.isFungible))
    (hvault : ∀ id ∈ live, ∀ held, HoldingAt w (vaultId id) held →
      ∃ held', HoldingAt w' (vaultId id) held' ∧ Grown held held') :
    Tokens w' collateralId supply' live (vaultUnits w') ∧
      ∀ x ∈ live, vault x ≤ vaultUnits w' x := by
  obtain ⟨d, hd, hm, hf, hs⟩ := h.definition
  obtain ⟨c, hc, hcf⟩ := h.collateral
  obtain ⟨c', hc', hcf'⟩ := hcol c hc
  refine ⟨⟨hdef d hd hm hf hs, ⟨c', hc', hcf'.mpr hcf⟩, ?_⟩, ?_⟩
  · intro id hid
    obtain ⟨held, hh, hk, ht, -⟩ := h.vaults id hid
    obtain ⟨held', hh', hg⟩ := hvault id hid held hh
    exact ⟨held', hh', hg.kind.trans hk, hg.token.trans ht, (hh'.unitsAt_eq).symm⟩
  · intro id hid
    obtain ⟨held, hh, -, -, hu⟩ := h.vaults id hid
    obtain ⟨held', hh', hg⟩ := hvault id hid held hh
    rw [vaultUnits, hh'.unitsAt_eq, ← hu]
    exact hg.units

theorem derivedBy_definition : definitionId.DerivedBy stablecoinProgramId := rfl

theorem derivedBy_vault (id : AccountId) : (vaultId id).DerivedBy stablecoinProgramId := rfl

/-- Elsewhere the supply can only fall and the vaults can only grow. -/
theorem Foreign.represents (w w' : Accounts) (s : Instance) (h : Represents w s)
    (hf : Foreign stablecoinProgramId w w') :
    ∃ supply, supply ≤ s.ledger.supply ∧
      (∀ x ∈ s.ledger.live, s.ledger.vault x ≤ vaultUnits w' x) ∧
      Represents w' { s with ledger := { s.ledger with
        supply := supply, vault := vaultUnits w' } } := by
  obtain ⟨d, hd, hm, hfun, hs⟩ := h.tokens.definition
  obtain ⟨d', hd', hm', hfun', hs'⟩ := hf.definition_diminished stablecoinProgramId w w'
    definitionId definitionId derivedBy_definition d hd hm
  obtain ⟨ht, hv⟩ := h.tokens.of_kept w w' _ _ d'.supply _ _
    (fun _ _ _ _ _ => ⟨d', hd', hm', hfun'.mpr hfun, rfl⟩)
    (fun c hc => hf.definition_shape stablecoinProgramId w w' _ c hc)
    (fun id _ held hh => hf.holding_grows stablecoinProgramId w w' _ (derivedBy_vault id) held hh)
  refine ⟨d'.supply, hs ▸ hs', hv, ?_, ht, h.named, h.parameters, h.accumulated, h.redemption⟩
  have hr := h.records
  rw [hf.owned_eq stablecoinProgramId w w' (by decide) (by decide)]
  exact ⟨hr.parameters, hr.accumulator, hr.redemption, hr.sole, hr.placed, hr.live, hr.amounts,
    hr.rate, hr.total⟩

theorem Elsewhere.represents (w w' : Accounts) (s : Instance) (h : Represents w s)
    (he : Elsewhere stablecoinProgramId w w') :
    ∃ supply vault, supply ≤ s.ledger.supply ∧
      (∀ x ∈ s.ledger.live, s.ledger.vault x ≤ vault x) ∧
      Represents w' { s with ledger := { s.ledger with supply := supply, vault := vault } } := by
  refine elsewhere_preserves stablecoinProgramId (fun v => ∃ supply vault,
    supply ≤ s.ledger.supply ∧ (∀ x ∈ s.ledger.live, s.ledger.vault x ≤ vault x) ∧
      Represents v { s with ledger := { s.ledger with supply := supply, vault := vault } }) ?_ w w'
    he ⟨_, _, le_rfl, fun _ _ => le_rfl, h⟩
  rintro v v' ⟨supply, vault, hs, hv, hr⟩ hf
  obtain ⟨supply', hs', hv', hr'⟩ := Foreign.represents v v' _ hr hf
  exact ⟨supply', _, hs'.trans hs, fun x hx => (hv x hx).trans (hv' x hx), hr'⟩

end LezPrograms.Stablecoin
