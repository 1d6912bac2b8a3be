import LezPrograms.FlooredPowerGrowth
import LezPrograms.Stablecoin.Repayable

/-! # Waiting never lowers a debt

Within the compounding window a rate of at least one compounds to more over a longer
time, in spite of the floors. The window clamps the elapsed time, so the projected
accumulator is monotone in the clock. -/

set_option autoImplicit false

namespace LezPrograms.Stablecoin
open LezPrograms.Checked LezPrograms.Checked.Unsigned LezPrograms.FlooredPower LezPrograms.Lee
open LezPrograms.Stablecoin.Math LezPrograms.Stablecoin.Compounding

theorem exactFactor_mono (rate : U128) (t₁ t₂ : U64) (hrate : fixedPointOne.val ≤ rate.val)
    (ht : t₁.val ≤ t₂.val) (hwindow : t₂.val ≤ maximumCompoundingWindowMilliseconds.val) :
    exactFactor rate t₁ ≤ exactFactor rate t₂ := by
  refine power_mono _ _ _ _ hrate ht ?_
  calc 2 * t₂.val ^ 3 ≤ 2 * maximumCompoundingWindowMilliseconds.val ^ 3 :=
        Nat.mul_le_mul_left _ (Nat.pow_le_pow_left hwindow 3)
    _ ≤ fixedPointOne.val := by norm_num

theorem clampedElapsed_mono (since now later : U64) (h : now.val ≤ later.val) :
    (clampedElapsed now since).val ≤ (clampedElapsed later since).val := by
  simp only [clampedElapsed, minimum_val, saturatingSub_val]
  omega

theorem exactProjection_mono (anchor rate : U128) (since now later : U64)
    (hrate : fixedPointOne.val ≤ rate.val) (h : now.val ≤ later.val) :
    exactProjection anchor rate since now ≤ exactProjection anchor rate since later := by
  refine Nat.div_le_div_right (Nat.mul_le_mul_left _ ?_)
  exact exactFactor_mono rate _ _ hrate (clampedElapsed_mono since now later h)
    (clampedElapsed_le later since)

theorem nominalDebt_mono (n rate rate' : ℕ) (h : rate ≤ rate') :
    nominalDebt n rate ≤ nominalDebt n rate' := by
  rw [nominalDebt_le_iff]
  exact (Nat.mul_le_mul_left n h).trans ((nominalDebt_le_iff n rate' _).mp le_rfl)

/-- A longer time within the window compounds to at least as much; the projected accumulator never
decreases as the clock advances; and in every reachable world no debt falls by waiting, rounded
up or down. -/
theorem waiting_never_lowers_debt (platform : Platform) (genesis : Genesis) (events : List Event) :
    (∀ (rate y₁ y₂ : U128) (t₁ t₂ : U64), fixedPointOne.val ≤ rate.val → t₁.val ≤ t₂.val →
      t₂.val ≤ maximumCompoundingWindowMilliseconds.val → compoundRate rate t₁ = .ok y₁ →
      compoundRate rate t₂ = .ok y₂ → y₁.val ≤ y₂.val) ∧
    (∀ (anchor rate v v' : U128) (since now later : U64), fixedPointOne.val ≤ rate.val →
      now.val ≤ later.val → computeCurrentAccumulatedRate anchor rate since now = .ok v →
      computeCurrentAccumulatedRate anchor rate since later = .ok v' → v.val ≤ v'.val) ∧
    (∀ a p, storedAccumulator (run platform genesis.world events) = some a →
      storedParameters (run platform genesis.world events) = some p →
      ∀ (now later : U64) (v v' : U128), now.val ≤ later.val →
        computeCurrentAccumulatedRate a.accumulatedRateAtLastAccrual
          p.stabilityFeePerMillisecond a.lastAccruedAt now = .ok v →
        computeCurrentAccumulatedRate a.accumulatedRateAtLastAccrual
          p.stabilityFeePerMillisecond a.lastAccruedAt later = .ok v' →
        v.val ≤ v'.val ∧ ∀ n, nominalDebt n v.val ≤ nominalDebt n v'.val ∧
          n * v.val / fixedPointOne.val ≤ n * v'.val / fixedPointOne.val) := by
  have hprojected : ∀ (anchor rate v v' : U128) (since now later : U64),
      fixedPointOne.val ≤ rate.val → now.val ≤ later.val →
      computeCurrentAccumulatedRate anchor rate since now = .ok v →
      computeCurrentAccumulatedRate anchor rate since later = .ok v' → v.val ≤ v'.val := by
    intro anchor rate v v' since now later hrate hle hv hv'
    rw [computeCurrentAccumulatedRate_eq _ _ _ _ _ hv,
      computeCurrentAccumulatedRate_eq _ _ _ _ _ hv']
    exact exactProjection_mono anchor rate since now later hrate hle
  refine ⟨?_, hprojected, ?_⟩
  · intro rate y₁ y₂ t₁ t₂ hrate ht hwindow h₁ h₂
    rw [compoundRate_eq rate t₁ y₁ h₁, compoundRate_eq rate t₂ y₂ h₂]
    exact exactFactor_mono rate t₁ t₂ hrate ht hwindow
  · intro a p ha hp now later v v' hle hv hv'
    have hfee := (sound_parameters _ (run_sound platform genesis events) p hp).feeLower
    have hmono := hprojected _ _ v v' _ now later hfee hle hv hv'
    exact ⟨hmono, fun n => ⟨nominalDebt_mono n _ _ hmono,
      Nat.div_le_div_right (Nat.mul_le_mul_left n hmono)⟩⟩

end LezPrograms.Stablecoin
