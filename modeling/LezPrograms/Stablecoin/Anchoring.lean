import Mathlib
import LezPrograms.Stablecoin.Founding
import LezPrograms.Stablecoin.Projections

/-! # Re-anchoring the redemption price

A reset and a rate update store the projected price at the clock reading, clamped
into its bounds. Between two writes the projection may drift past a bound, so the
price that is projected at that reading stays the same exactly where the projection
lies within the bounds. -/

set_option autoImplicit false

namespace LezPrograms.Stablecoin
open LezPrograms.Checked LezPrograms.Checked.Unsigned LezPrograms.Lee
open LezPrograms.Stablecoin.Math LezPrograms.Stablecoin.Compounding
open LezPrograms.Stablecoin.Controller LezPrograms.Stablecoin.Saturation

def verdict (w : Accounts) (now : U64) (position : Position) : Option (Outcome Unit) := do
  let p ← storedParameters w
  let a ← storedAccumulator w
  let r ← storedRedemption w
  some (assertPositionIsCollateralized position
    (computeCurrentAccumulatedRateWide a.accumulatedRateAtLastAccrual
      p.stabilityFeePerMillisecond a.lastAccruedAt now)
    (currentPrice r now) p.minimumCollateralizationRatio)

def PriceInBand (r : RedemptionPriceState) (now : U64) : Prop :=
  minimumRedemptionPrice.val ≤ (currentPrice r now).val ∧
    (currentPrice r now).val ≤ maximumRedemptionPrice.val

instance (r : RedemptionPriceState) (now : U64) : Decidable (PriceInBand r now) :=
  inferInstanceAs (Decidable (_ ∧ _))

def Reanchors (instruction : Instruction) : Prop :=
  instruction = .resetRedemptionRateController ∨ instruction = .updateRedemptionRate

structure Reanchored (r r' : RedemptionPriceState) (now : U64) : Prop where
  price : r'.redemptionPriceAtLastUpdate = boundRedemptionPrice (currentPrice r now)
  time : r'.lastUpdatedAt = now

section
variable (r r' : RedemptionPriceState) (now : U64)

theorem resetState_reanchored : Reanchored r (resetState r now) now := ⟨rfl, rfl⟩

theorem advanceRedemptionPrice_reanchored (p : ProtocolParameters) (oraclePrice : U128)
    (h : advanceRedemptionPrice p r oraclePrice now = .ok r') : Reanchored r r' now := by
  simp only [advanceRedemptionPrice, bind_eq_ok, pure_eq_ok] at h
  obtain ⟨output, -, rfl⟩ := h
  exact ⟨rfl, rfl⟩

/-- At the clock reading of its anchor a price is projected as it is stored. -/
theorem currentPrice_at_anchor (h : r.lastUpdatedAt = now) :
    (currentPrice r now).val = r.redemptionPriceAtLastUpdate.val := by
  have helapsed : (clampedElapsed now r.lastUpdatedAt).val = 0 := by
    rw [clampedElapsed, minimum_val, saturatingSub_val, h, Nat.sub_self, Nat.zero_min]
  have hfactor : compoundRate r.redemptionRatePerMillisecond (clampedElapsed now r.lastUpdatedAt)
      = .ok fixedPointOne := by rw [compoundRate, if_pos helapsed]
  rw [currentPrice, computeCurrentRedemptionPriceWide, projectForwardWide_of_ok _ _ _ _ _ hfactor,
    exactProjection, exactFactor_zero _ _ helapsed, Nat.mul_div_cancel _ fixedPointOne_pos]

theorem Reanchored.projected (h : Reanchored r r' now) :
    (currentPrice r' now).val
      = max (min (currentPrice r now).val maximumRedemptionPrice.val) minimumRedemptionPrice.val := by
  rw [currentPrice_at_anchor r' now h.time, h.price]
  rfl

theorem Reanchored.unchanged_iff (h : Reanchored r r' now) :
    currentPrice r' now = currentPrice r now ↔ PriceInBand r now := by
  have hband : minimumRedemptionPrice.val ≤ maximumRedemptionPrice.val := by norm_num
  rw [Fin.ext_iff, h.projected, PriceInBand]
  omega

end

theorem storedRedemption_of_owned (w : Accounts) (r : RedemptionPriceState)
    (h : owned stablecoinProgramId w redemptionId = some (.redemptionPriceState r)) :
    storedRedemption w = some r := by
  rw [storedRedemption, h]

section
variable (platform : Platform) (w w' : Accounts) (s : Instance) (hs : Represents w s)
  (authority : List AccountId) (call : ChainedCall) (instruction : Instruction)
include hs

/-- A transaction that re-anchors the price stores it and leaves the parameters and the accumulator
alone. -/
theorem reanchored_of_ok (hi : call.instruction = .stablecoin instruction)
    (hr : Reanchors instruction) (now : U64)
    (hclock : (w clock01ProgramAccountId).data = .clock now)
    (h : transact platform w authority call = .ok w') :
    ∃ r', Reanchored s.redemption r' now ∧ storedRedemption w' = some r' ∧
      storedParameters w' = some s.parameters ∧ storedAccumulator w' = some s.accumulator := by
  obtain ⟨v, calls, ht⟩ := transacted_of_ok platform w w' authority call instruction hi h
  have hwritten : ∃ r', Reanchored s.redemption r' now ∧
      v = put stablecoinProgramId w redemptionId (.redemptionPriceState r') := by
    have hstep := ht.step
    rcases hr with rfl | rfl
    · generalize call.accountIds = ids at hstep
      cases hstep with
      | setParameters _ _ _ _ _ setter => cases setter
      | resetRedemptionRateController signer params redemption now' _ _ _ stored clock =>
        obtain rfl : now' = now := by
          rw [hclock, Data.clock.injEq] at clock
          exact clock.symm
        obtain rfl := hs.reads_redemption w s redemption stored
        exact ⟨_, resetState_reanchored _ _, rfl⟩
    · generalize call.accountIds = ids at hstep
      cases hstep with
      | setParameters _ _ _ _ _ setter => cases setter
      | updateRedemptionRate caller p o params redemption redemption' oracle now' _ _ stored _ clock
          advanced =>
        obtain rfl : now' = now := by
          rw [hclock, Data.clock.injEq] at clock
          exact clock.symm
        obtain rfl := hs.reads_redemption w s redemption stored
        exact ⟨_, advanceRedemptionPrice_reanchored _ _ _ _ _ advanced, rfl⟩
  obtain ⟨r', hr', rfl⟩ := hwritten
  have hother : ∀ id, id ≠ redemptionId → owned stablecoinProgramId w' id
      = owned stablecoinProgramId w id := by
    intro id hne
    rw [ht.invoked.stored_eq]
    exact owned_congr _ _ _ _ (put_other _ _ _ _ _ hne)
  refine ⟨r', hr', storedRedemption_of_owned w' r' ?_, ?_, ?_⟩
  · rw [ht.invoked.stored_eq, owned_put_same _ _ _ _ hs.records.redemption, Function.update_self]
  · rw [storedParameters, hother _ (by decide), hs.records.parameters]
  · rw [storedAccumulator, hother _ (by decide), hs.records.accumulator]

end

/-- In every reachable world a reset or a rate update leaves the projection of the price at its
clock reading clamped into the bounds. The price stays the same exactly where it was within them,
and there the verdict on every position is the same before and after. -/
theorem reanchoring_continuous_in_band (platform : Platform) (genesis : Genesis)
    (events : List Event) (r : RedemptionPriceState) (now : U64) (w' : Accounts)
    (authority : List AccountId) (call : ChainedCall) (instruction : Instruction)
    (stored : storedRedemption (run platform genesis.world events) = some r)
    (clock : (run platform genesis.world events clock01ProgramAccountId).data = .clock now)
    (called : call.instruction = .stablecoin instruction) (reanchors : Reanchors instruction)
    (succeeds : transact platform (run platform genesis.world events) authority call = .ok w') :
    ∃ r', storedRedemption w' = some r' ∧
      (currentPrice r' now).val
        = max (min (currentPrice r now).val maximumRedemptionPrice.val)
          minimumRedemptionPrice.val ∧
      (currentPrice r' now = currentPrice r now ↔ PriceInBand r now) ∧
      (PriceInBand r now → ∀ position,
        verdict w' now position = verdict (run platform genesis.world events) now position) := by
  rcases run_sound platform genesis events with hu | ⟨s, hs, -⟩
  · rw [(hu.views _).2.2.1] at stored
    cases stored
  · rw [hs.storedRedemption, Option.some.injEq] at stored
    subst stored
    obtain ⟨r', hr', hredemption, hparameters, haccumulator⟩ :=
      reanchored_of_ok platform _ w' s hs authority call instruction called reanchors now clock succeeds
    refine ⟨r', hredemption, hr'.projected, hr'.unchanged_iff, fun hband position => ?_⟩
    simp only [verdict, hredemption, hparameters, haccumulator, hs.storedParameters,
      hs.storedAccumulator, hs.storedRedemption, Option.bind_eq_bind, Option.bind_some,
      hr'.unchanged_iff.mpr hband]

/-- A price just above its floor, a market far above it, and a day after the rate update. -/
def driftingEvents : List Event :=
  [.transaction [.key 20, .key 21] ⟨tokenProgramId, [.key 20, .key 21],
      .token (.newFungibleDefinition "COL" fixedPointOne none), []⟩,
    .transaction [.key 60] ⟨stablecoinProgramId, [.key 60, parametersId, accumulatorId,
      redemptionId, definitionId, computeStablecoinMasterHoldingPda stablecoinProgramId, .key 20,
      .key 70, clock01ProgramAccountId], .stablecoin (.initializeProgram
        { firstParams with initialRedemptionPrice := ⟨1000000001, by norm_num⟩ }), []⟩,
    .environment fun id =>
      if id = clock01ProgramAccountId then ⟨.key 6, 0, .clock 5, 0⟩
      else if id = .key 70 then
        ⟨twapOracleProgramId, 0, .oraclePrice ⟨definitionId, .key 20, 2 ^ 64, 5, .key 71, 0⟩, 0⟩
      else default,
    .transaction [.key 60] ⟨stablecoinProgramId, [.key 60, parametersId, redemptionId, .key 70,
      clock01ProgramAccountId], .stablecoin .updateRedemptionRate, []⟩,
    .environment fun id =>
      if id = clock01ProgramAccountId then ⟨.key 6, 0, .clock 86400005, 0⟩ else default]

def firstReset : ChainedCall :=
  ⟨stablecoinProgramId, [.key 60, parametersId, redemptionId, clock01ProgramAccountId],
    .stablecoin .resetRedemptionRateController, []⟩

def driftedWorld : Accounts := run tablePlatform (clockedGenesis 0).world driftingEvents

def resetWorld : Accounts := Event.apply tablePlatform driftedWorld (.transaction [.key 60] firstReset)

/-- A position that the check approves before the reset only. -/
def borderlinePosition : Position :=
  ⟨.key 40, 0, .key 41, 10995, 10000000000000000000000, 0⟩

/-- The reset lifts the price to its floor, and the verdict on a position changes. -/
theorem reset_lifts_price :
    transact tablePlatform driftedWorld [.key 60] firstReset = .ok resetWorld ∧
    (driftedWorld clock01ProgramAccountId).data = .clock 86400005 ∧
    (storedRedemption driftedWorld).map (fun r => ((currentPrice r 86400005).val, r.lastUpdatedAt))
      = some (999136374, 5) ∧
    (storedRedemption resetWorld).map (fun r => (currentPrice r 86400005).val)
      = some 1000000000 ∧
    verdict driftedWorld 86400005 borderlinePosition = some (.ok ()) ∧
    verdict resetWorld 86400005 borderlinePosition
      = some (.error "Position is undercollateralized") := by
  refine ⟨transact_apply _ _ _ _ ?_, ?_, ?_, ?_, ?_, ?_⟩ <;> decide +kernel

/-- At the clock reading of the rate update itself the reset keeps the price. -/
theorem early_reset_keeps_price :
    ∃ r r', storedRedemption (run tablePlatform (clockedGenesis 0).world (driftingEvents.take 4))
        = some r ∧
      storedRedemption (Event.apply tablePlatform (run tablePlatform (clockedGenesis 0).world
        (driftingEvents.take 4)) (.transaction [.key 60] firstReset)) = some r' ∧
      currentPrice r' 5 = currentPrice r 5 := by
  have hr := @Option.some_get _ (storedRedemption (run tablePlatform (clockedGenesis 0).world
    (driftingEvents.take 4))) (by decide +kernel)
  obtain ⟨r', hr', -, hunchanged, -⟩ := reanchoring_continuous_in_band tablePlatform
    (clockedGenesis 0) (driftingEvents.take 4) _ 5 _ [.key 60] firstReset
    .resetRedemptionRateController hr.symm (by decide +kernel) rfl (Or.inl rfl)
    (transact_apply _ _ _ _ (by decide +kernel))
  exact ⟨_, r', hr.symm, hr', hunchanged.mpr (by decide +kernel)⟩

end LezPrograms.Stablecoin
