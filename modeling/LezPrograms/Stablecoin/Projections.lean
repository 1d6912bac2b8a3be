import LezPrograms.Stablecoin.Reachable

/-! # The stored rates and prices over runs

The clamps of the controller, of the price and of the parameter bands hold in
every reachable world, so the projections that the instructions compute have a
result at every clock reading. -/

set_option autoImplicit false

namespace LezPrograms.Stablecoin
open LezPrograms.Checked LezPrograms.Checked.Unsigned LezPrograms.Lee
open LezPrograms.Stablecoin.Math LezPrograms.Stablecoin.Compounding
open LezPrograms.Stablecoin.Saturation

section
variable (w : Accounts) (h : Sound w)
include h

theorem sound_redemption (r : RedemptionPriceState) (hr : storedRedemption w = some r) :
    RedemptionBounded r := by
  rcases h with hu | ⟨s, hs, -⟩
  · rw [(hu.views w).2.2.1] at hr
    cases hr
  · rw [hs.storedRedemption, Option.some.injEq] at hr
    exact hr ▸ hs.redemption

theorem sound_parameters (p : ProtocolParameters) (hp : storedParameters w = some p) :
    ParametersBounded p := by
  rcases h with hu | ⟨s, hs, -⟩
  · rw [(hu.views w).1] at hp
    cases hp
  · rw [hs.storedParameters, Option.some.injEq] at hp
    exact hp ▸ hs.parameters

theorem sound_accumulated (a : StabilityFeeAccumulator) (ha : storedAccumulator w = some a) :
    fixedPointOne.val ≤ a.accumulatedRateAtLastAccrual.val := by
  rcases h with hu | ⟨s, hs, -⟩
  · rw [(hu.views w).2.1] at ha
    cases ha
  · rw [hs.storedAccumulator, Option.some.injEq] at ha
    exact ha ▸ hs.accumulated

theorem event_accumulates (platform : Platform) (event : Event) :
    accumulatedRate w ≤ accumulatedRate (event.apply platform w) := by
  rcases h with hu | ⟨s, hs, -⟩
  · rw [(hu.views w).2.2.2.2.1]
    exact Nat.zero_le _
  · obtain ⟨s', loss, hs', hstep, -⟩ := event_refines platform w event s hs
    rw [hs.accumulatedRate, hs'.accumulatedRate]
    exact hstep.rate_le _ _ _

end

def currentPrice (r : RedemptionPriceState) (now : U64) : U512 :=
  computeCurrentRedemptionPriceWide r.redemptionPriceAtLastUpdate r.redemptionRatePerMillisecond
    r.lastUpdatedAt now

/-- After every run the redemption state and the accumulator are in their bounds, the accumulated
rate never decreases, and the projections have a result at every clock reading. -/
theorem redemption_and_accumulator_bounded (platform : Platform) (genesis : Genesis)
    (events : List Event) :
    (∀ r, storedRedemption (run platform genesis.world events) = some r →
        RedemptionBounded r ∧
        ∀ now, 0 < (currentPrice r now).val ∧ (currentPrice r now).val < 2 ^ 128 ∧
          (currentPrice r now).val = exactProjection r.redemptionPriceAtLastUpdate
            r.redemptionRatePerMillisecond r.lastUpdatedAt now) ∧
      (∀ a, storedAccumulator (run platform genesis.world events) = some a →
        fixedPointOne.val ≤ a.accumulatedRateAtLastAccrual.val ∧
        ∀ p, storedParameters (run platform genesis.world events) = some p →
          a.accumulatedRateAtLastAccrual.val ≤ (maxValue 128).val / 2 →
          ∀ now, ∃ current, computeCurrentAccumulatedRate a.accumulatedRateAtLastAccrual
            p.stabilityFeePerMillisecond a.lastAccruedAt now = .ok current) ∧
      ∀ event, accumulatedRate (run platform genesis.world events) ≤
        accumulatedRate (run platform genesis.world (events ++ [event])) := by
  have hs := run_sound platform genesis events
  refine ⟨?_, ?_, ?_⟩
  · intro r hr
    have hb := sound_redemption _ hs r hr
    refine ⟨hb, fun now => ?_⟩
    obtain ⟨hexact, hupper, hlower⟩ := hb.projection r now
    exact ⟨hlower, hupper, hexact⟩
  · intro a ha
    refine ⟨sound_accumulated _ hs a ha, fun p hp hhalf now => ?_⟩
    have hmax := maxValue_val (w := 128)
    exact (sound_parameters _ hs p hp).fee_projection p _ _ now (by omega)
  · intro event
    rw [run_concat]
    exact event_accumulates _ hs platform event

end LezPrograms.Stablecoin
