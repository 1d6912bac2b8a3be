import LezPrograms.Stablecoin.Ledger
import LezPrograms.Token.Balances

/-! # The stored records of an instance

The accounts that the program owns, read as the parameters, the accumulator,
the redemption state and the positions of one ledger. -/

set_option autoImplicit false

namespace LezPrograms.Stablecoin
open LezPrograms.Checked LezPrograms.Lee LezPrograms.Token

abbrev parametersId : AccountId := computeProtocolParametersPda stablecoinProgramId

abbrev accumulatorId : AccountId := computeStabilityFeeAccumulatorPda stablecoinProgramId

abbrev redemptionId : AccountId := computeRedemptionPriceStatePda stablecoinProgramId

abbrev definitionId : AccountId := computeStablecoinDefinitionPda stablecoinProgramId

abbrev vaultId (positionId : AccountId) : AccountId :=
  computePositionVaultPda stablecoinProgramId positionId

/-- `stored` holds one instance, whose debts and collateral `L` lists. -/
structure Records (stored : AccountId → Option Data) (p : ProtocolParameters)
    (a : StabilityFeeAccumulator) (r : RedemptionPriceState) (L : Ledger AccountId) : Prop where
  parameters : stored parametersId = some (.protocolParameters p)
  accumulator : stored accumulatorId = some (.stabilityFeeAccumulator a)
  redemption : stored redemptionId = some (.redemptionPriceState r)
  sole : ∀ id q, stored id = some (.protocolParameters q) → id = parametersId
  placed : ∀ id x, stored id = some (.position x) →
    id = computePositionPda stablecoinProgramId x.ownerAccountId x.positionNonce ∧
      x.vaultAccountId = vaultId id
  live : ∀ id, id ∈ L.live ↔ ∃ x, stored id = some (.position x)
  amounts : ∀ id x, stored id = some (.position x) →
    L.debt id = x.normalizedDebtAmount.val ∧ L.collateral id = x.collateralAmount.val
  rate : L.rate = a.accumulatedRateAtLastAccrual.val
  total : L.total = a.totalNormalizedDebt.val

/-- Writing something else than a position where there was none keeps the positions. -/
theorem update_position (stored : AccountId → Option Data) (t id : AccountId) (data : Data)
    (x : Position) (ht : ∀ y, stored t ≠ some (.position y)) (hd : ∀ y, data ≠ .position y) :
    Function.update stored t (some data) id = some (.position x) ↔
      stored id = some (.position x) := by
  by_cases h : id = t
  · subst h
    rw [Function.update_self, Option.some.injEq]
    exact ⟨fun h => absurd h (hd x), fun h => absurd h (ht x)⟩
  · rw [Function.update_of_ne h]

section
variable (stored : AccountId → Option Data) (p : ProtocolParameters) (a : StabilityFeeAccumulator)
  (r : RedemptionPriceState) (L : Ledger AccountId) (h : Records stored p a r L)
include h

theorem Records.set_tokens (supply : ℕ) (vault : AccountId → ℕ) :
    Records stored p a r { L with supply := supply, vault := vault } :=
  ⟨h.parameters, h.accumulator, h.redemption, h.sole, h.placed, h.live, h.amounts, h.rate, h.total⟩

theorem Records.set_accumulator (a' : StabilityFeeAccumulator) (rate total : ℕ)
    (hrate : rate = a'.accumulatedRateAtLastAccrual.val)
    (htotal : total = a'.totalNormalizedDebt.val) :
    Records (Function.update stored accumulatorId (some (.stabilityFeeAccumulator a'))) p a' r
      { L with rate := rate, total := total } := by
  have hu := fun id x => update_position stored accumulatorId id (.stabilityFeeAccumulator a') x
    (fun y => by rw [h.accumulator]; simp) (fun y => Data.noConfusion)
  constructor
  · rw [Function.update_of_ne (by decide)]
    exact h.parameters
  · rw [Function.update_self]
  · rw [Function.update_of_ne (by decide)]
    exact h.redemption
  · intro id q hq
    by_cases hid : id = accumulatorId
    · rw [hid, Function.update_self] at hq
      cases hq
    · rw [Function.update_of_ne hid] at hq
      exact h.sole id q hq
  · exact fun id x hx => h.placed id x ((hu id x).mp hx)
  · simpa only [hu] using h.live
  · exact fun id x hx => h.amounts id x ((hu id x).mp hx)
  · exact hrate
  · exact htotal

theorem Records.set_redemption (r' : RedemptionPriceState) :
    Records (Function.update stored redemptionId (some (.redemptionPriceState r'))) p a r' L := by
  have hu := fun id x => update_position stored redemptionId id (.redemptionPriceState r') x
    (fun y => by rw [h.redemption]; simp) (fun y => Data.noConfusion)
  constructor
  · rw [Function.update_of_ne (by decide)]
    exact h.parameters
  · rw [Function.update_of_ne (by decide)]
    exact h.accumulator
  · rw [Function.update_self]
  · intro id q hq
    by_cases hid : id = redemptionId
    · rw [hid, Function.update_self] at hq
      cases hq
    · rw [Function.update_of_ne hid] at hq
      exact h.sole id q hq
  · exact fun id x hx => h.placed id x ((hu id x).mp hx)
  · simpa only [hu] using h.live
  · exact fun id x hx => h.amounts id x ((hu id x).mp hx)
  · exact h.rate
  · exact h.total

theorem Records.set_parameters (p' : ProtocolParameters) :
    Records (Function.update stored parametersId (some (.protocolParameters p'))) p' a r L := by
  have hu := fun id x => update_position stored parametersId id (.protocolParameters p') x
    (fun y => by rw [h.parameters]; simp) (fun y => Data.noConfusion)
  constructor
  · rw [Function.update_self]
  · rw [Function.update_of_ne (by decide)]
    exact h.accumulator
  · rw [Function.update_of_ne (by decide)]
    exact h.redemption
  · intro id q hq
    by_cases hid : id = parametersId
    · exact hid
    · rw [Function.update_of_ne hid] at hq
      exact h.sole id q hq
  · exact fun id x hx => h.placed id x ((hu id x).mp hx)
  · simpa only [hu] using h.live
  · exact fun id x hx => h.amounts id x ((hu id x).mp hx)
  · exact h.rate
  · exact h.total

/-- Writing at an identifier without globals keeps the globals. -/
theorem Records.globals_kept (id : AccountId) (data : Data)
    (hid : stored id = none ∨ ∃ x, stored id = some (.position x))
    (hd : ∀ q, data ≠ .protocolParameters q) :
    Function.update stored id (some data) parametersId = some (.protocolParameters p) ∧
      Function.update stored id (some data) accumulatorId = some (.stabilityFeeAccumulator a) ∧
      Function.update stored id (some data) redemptionId = some (.redemptionPriceState r) ∧
      ∀ t q, Function.update stored id (some data) t = some (.protocolParameters q) →
        t = parametersId := by
  have hne : ∀ t d, stored t = some d → (∀ x, d ≠ .position x) → t ≠ id := by
    rintro t d ht hnd rfl
    rcases hid with hid | ⟨x, hid⟩
    · rw [hid] at ht
      cases ht
    · rw [hid, Option.some.injEq] at ht
      exact hnd x ht.symm
  have h1 := hne _ _ h.parameters fun x => Data.noConfusion
  have h2 := hne _ _ h.accumulator fun x => Data.noConfusion
  have h3 := hne _ _ h.redemption fun x => Data.noConfusion
  rw [Function.update_of_ne h1, Function.update_of_ne h2, Function.update_of_ne h3]
  refine ⟨h.parameters, h.accumulator, h.redemption, ?_⟩
  intro t q ht
  by_cases he : t = id
  · rw [he, Function.update_self, Option.some.injEq] at ht
    exact absurd ht (hd q)
  · rw [Function.update_of_ne he] at ht
    exact h.sole t q ht

theorem Records.set_position (id : AccountId) (x x' : Position)
    (hx : stored id = some (.position x)) (howner : x'.ownerAccountId = x.ownerAccountId)
    (hnonce : x'.positionNonce = x.positionNonce) (hvault : x'.vaultAccountId = x.vaultAccountId)
    (debt collateral : AccountId → ℕ) (hd : debt id = x'.normalizedDebtAmount.val)
    (hd' : ∀ t, t ≠ id → debt t = L.debt t) (hc : collateral id = x'.collateralAmount.val)
    (hc' : ∀ t, t ≠ id → collateral t = L.collateral t) :
    Records (Function.update stored id (some (.position x'))) p a r
      { L with debt := debt, collateral := collateral } := by
  obtain ⟨h1, h2, h3, h4⟩ := h.globals_kept stored p a r L id (.position x') (Or.inr ⟨x, hx⟩)
    fun q => Data.noConfusion
  refine ⟨h1, h2, h3, h4, ?_, ?_, ?_, h.rate, h.total⟩
  · intro t y hy
    by_cases he : t = id
    · rw [he, Function.update_self, Option.some.injEq, Data.position.injEq] at hy
      rw [he, ← hy, howner, hnonce, hvault]
      exact h.placed id x hx
    · rw [Function.update_of_ne he] at hy
      exact h.placed t y hy
  · intro t
    by_cases he : t = id
    · rw [he, Function.update_self]
      exact ⟨fun _ => ⟨x', rfl⟩, fun _ => (h.live id).mpr ⟨x, hx⟩⟩
    · rw [Function.update_of_ne he]
      exact h.live t
  · intro t y hy
    by_cases he : t = id
    · rw [he, Function.update_self, Option.some.injEq, Data.position.injEq] at hy
      rw [he, ← hy]
      exact ⟨hd, hc⟩
    · rw [Function.update_of_ne he] at hy
      simp only [hd' t he, hc' t he]
      exact h.amounts t y hy

theorem Records.open_position (id : AccountId) (x : Position) (hfresh : stored id = none)
    (hid : id = computePositionPda stablecoinProgramId x.ownerAccountId x.positionNonce)
    (hvault : x.vaultAccountId = vaultId id) :
    Records (Function.update stored id (some (.position x))) p a r { L with
      live := insert id L.live
      debt := Function.update L.debt id x.normalizedDebtAmount.val
      collateral := Function.update L.collateral id x.collateralAmount.val } := by
  obtain ⟨h1, h2, h3, h4⟩ := h.globals_kept stored p a r L id (.position x) (Or.inl hfresh)
    fun q => Data.noConfusion
  refine ⟨h1, h2, h3, h4, ?_, ?_, ?_, h.rate, h.total⟩
  · intro t y hy
    by_cases he : t = id
    · rw [he, Function.update_self, Option.some.injEq, Data.position.injEq] at hy
      rw [he, ← hy]
      exact ⟨hid, hvault⟩
    · rw [Function.update_of_ne he] at hy
      exact h.placed t y hy
  · intro t
    by_cases he : t = id
    · rw [he, Function.update_self]
      exact ⟨fun _ => ⟨x, rfl⟩, fun _ => Finset.mem_insert_self id L.live⟩
    · rw [Function.update_of_ne he, ← h.live t]
      exact ⟨fun hm => Finset.mem_of_mem_insert_of_ne hm he, Finset.mem_insert_of_mem⟩
  · intro t y hy
    by_cases he : t = id
    · rw [he, Function.update_self, Option.some.injEq, Data.position.injEq] at hy
      simp only [he, Function.update_self, hy, and_self]
    · rw [Function.update_of_ne he] at hy
      simp only [Function.update_of_ne he]
      exact h.amounts t y hy

theorem Records.close_position (id : AccountId) (x : Position)
    (hx : stored id = some (.position x)) :
    Records (Function.update stored id (some .empty)) p a r
      { L with live := L.live.erase id } := by
  obtain ⟨h1, h2, h3, h4⟩ := h.globals_kept stored p a r L id .empty (Or.inr ⟨x, hx⟩)
    fun q => Data.noConfusion
  have hold : ∀ t y, Function.update stored id (some .empty) t = some (.position y) →
      t ≠ id ∧ stored t = some (.position y) := by
    intro t y hy
    by_cases he : t = id
    · rw [he, Function.update_self] at hy
      cases hy
    · rw [Function.update_of_ne he] at hy
      exact ⟨he, hy⟩
  refine ⟨h1, h2, h3, h4, ?_, ?_, ?_, h.rate, h.total⟩
  · exact fun t y hy => h.placed t y (hold t y hy).2
  · intro t
    simp only [Finset.mem_erase, h.live t]
    constructor
    · rintro ⟨he, y, hy⟩
      exact ⟨y, by rwa [Function.update_of_ne he]⟩
    · rintro ⟨y, hy⟩
      exact ⟨(hold t y hy).1, y, (hold t y hy).2⟩
  · exact fun t y hy => h.amounts t y (hold t y hy).2

end

end LezPrograms.Stablecoin
