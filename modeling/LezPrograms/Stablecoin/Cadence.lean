import LezPrograms.FlooredPowerError
import LezPrograms.Stablecoin.Bounds
import Mathlib.Algebra.Order.Ring.Rat

/-! # Compounding against the exact power, and accrual schedules

The computed factor loses at most one unit for each millisecond against the
rational power, and an accrual loses at most one more. The accumulator after a
schedule of accruals therefore depends on the time covered and, by one unit for
each accrual, on the number of accruals. -/

set_option autoImplicit false

namespace LezPrograms.Stablecoin
open LezPrograms.Checked LezPrograms.Checked.Unsigned LezPrograms.FlooredPower
open LezPrograms.Stablecoin.Math LezPrograms.Stablecoin.Compounding

abbrev value (rate : U128) : ℚ := ratio ℚ fixedPointOne.val rate.val

def accumulateOver (fee : U128) : U128 → U64 → List U64 → Outcome U128
  | anchor, _, [] => pure anchor
  | anchor, since, now :: rest => do
    let current ← computeCurrentAccumulatedRate anchor fee since now
    accumulateOver fee current now rest

def accrueOver (params : ProtocolParameters) :
    StabilityFeeAccumulator → List U64 → Outcome StabilityFeeAccumulator
  | accumulator, [] => pure accumulator
  | accumulator, now :: rest => do
    let accrual ← accrueFees params accumulator now
    accrueOver params accrual.accumulator rest

/-- Clock readings that do not go back and leave no gap above the compounding window. -/
def Scheduled : U64 → List U64 → Prop
  | _, [] => True
  | since, now :: rest => since.val ≤ now.val ∧
      now.val - since.val ≤ maximumCompoundingWindowMilliseconds.val ∧ Scheduled now rest

def covered : U64 → List U64 → ℕ
  | _, [] => 0
  | since, now :: rest => now.val - since.val + covered now rest

theorem covered_eq (nows : List U64) : ∀ since, Scheduled since nows →
    since.val + covered since nows = (nows.getLastD since).val := by
  induction nows with
  | nil => exact fun since _ => Nat.add_zero _
  | cons now rest ih =>
    rintro since ⟨hle, -, hrest⟩
    rw [covered, List.getLastD_cons, ← ih now hrest]
    omega

/-- Accruals move the accumulated rate as `accumulateOver` says. -/
theorem accrueOver_accumulates (params : ProtocolParameters) (nows : List U64) :
    ∀ accumulator final, accrueOver params accumulator nows = .ok final →
      accumulateOver params.stabilityFeePerMillisecond accumulator.accumulatedRateAtLastAccrual
        accumulator.lastAccruedAt nows = .ok final.accumulatedRateAtLastAccrual := by
  induction nows with
  | nil =>
    intro accumulator final h
    rw [← Except.ok.inj h]
    rfl
  | cons now rest ih =>
    intro accumulator final h
    simp only [accrueOver, accrueFees, bind_eq_ok, pure_eq_ok] at h
    obtain ⟨accrual, ⟨current, hcurrent, _, -, _, -, rfl⟩, hrest⟩ := h
    rw [accumulateOver, hcurrent, ok_bind]
    exact ih _ final hrest

section
variable (rate : U128) (elapsed : U64) (y : U128) (h : compoundRate rate elapsed = .ok y)
include h

theorem compoundRate_value : value y =
    ratio ℚ fixedPointOne.val (power fixedPointOne.val elapsed.val fixedPointOne.val rate.val) := by
  rw [value, compoundRate_eq rate elapsed y h, exactFactor]

theorem compoundRate_le_exact : value y ≤ value rate ^ elapsed.val := by
  have hpow := power_ratio_le (K := ℚ) _ fixedPointOne_pos elapsed.val fixedPointOne.val rate.val 1 _
    (ratio_scale _ fixedPointOne_pos).le le_rfl
  rw [compoundRate_value rate elapsed y h]
  rwa [one_mul] at hpow

theorem compoundRate_kept (hrate : fixedPointOne.val ≤ rate.val) :
    value rate ^ elapsed.val * kept ℚ fixedPointOne.val ^ elapsed.val ≤ value y := by
  have hpow := kept_le_power (K := ℚ) _ fixedPointOne_pos elapsed.val fixedPointOne.val rate.val 0 0
    1 (value rate) zero_le_one (ratio_nonneg _ fixedPointOne_pos _) le_rfl hrate
    (by rw [pow_zero, one_mul, ratio_scale _ fixedPointOne_pos]) (by rw [pow_zero, mul_one])
  rw [compoundRate_value rate elapsed y h]
  rwa [one_mul, Nat.zero_add, Nat.zero_add, Nat.mul_one] at hpow

theorem compoundRate_deficit (hrate : rate.val < fixedPointOne.val) :
    value rate ^ elapsed.val - elapsed.val / fixedPointOne.val ≤ value y := by
  have hone : ratio ℚ fixedPointOne.val fixedPointOne.val = 1 := ratio_scale _ fixedPointOne_pos
  have hpow := le_power_ratio (K := ℚ) _ fixedPointOne_pos elapsed.val fixedPointOne.val rate.val 0 0
    1 (value rate) le_rfl (ratio_le_one _ fixedPointOne_pos _ hrate.le) hone.le le_rfl
    (by rw [hone, Nat.cast_zero, zero_div, add_zero])
    (by rw [Nat.cast_zero, zero_div, add_zero])
  rw [compoundRate_value rate elapsed y h, sub_le_iff_le_add]
  rwa [one_mul, Nat.zero_add, Nat.zero_add, Nat.mul_one] at hpow

end

/-- What is kept after `n` floors is at least what `n` units leave. -/
theorem units_le_kept (n : ℕ) :
    1 - (n : ℚ) / fixedPointOne.val ≤ kept ℚ fixedPointOne.val ^ n := by
  have hk := kept_nonneg (K := ℚ) fixedPointOne.val fixedPointOne_pos
  have hbernoulli := one_add_mul_le_pow (a := kept ℚ fixedPointOne.val - 1) (by linarith) n
  rw [kept] at hbernoulli ⊢
  calc (1 : ℚ) - n / fixedPointOne.val
      = 1 + n * (1 - 1 / fixedPointOne.val - 1) := by ring
    _ ≤ (1 + (1 - 1 / fixedPointOne.val - 1)) ^ n := hbernoulli
    _ = (1 - 1 / fixedPointOne.val) ^ n := by ring

section
variable (fee : U128) (hfee : fixedPointOne.val ≤ fee.val)
include hfee

/-- One accrual keeps the anchor above one and loses a unit for each millisecond and one more. -/
theorem accrual_near (anchor current : U128) (since now : U64)
    (hanchor : fixedPointOne.val ≤ anchor.val) (hgap : now.val - since.val ≤
      maximumCompoundingWindowMilliseconds.val)
    (h : computeCurrentAccumulatedRate anchor fee since now = .ok current) :
    fixedPointOne.val ≤ current.val ∧
      value current ≤ value anchor * value fee ^ (now.val - since.val) ∧
      value anchor * value fee ^ (now.val - since.val)
        * kept ℚ fixedPointOne.val ^ (now.val - since.val + 1) ≤ value current := by
  have hclamped : (clampedElapsed now since).val = now.val - since.val := by
    rw [clampedElapsed, minimum_val, saturatingSub_val, min_eq_left hgap]
  simp only [computeCurrentAccumulatedRate, bind_eq_ok, mulDiv_eq_ok] at h
  obtain ⟨factor, hfactor, -, hcurrent⟩ := h
  have hone : fixedPointOne.val ≤ factor.val := by
    rw [compoundRate_eq _ _ _ hfactor]
    exact exactFactor_ge_one fee _ hfee
  have hupper := compoundRate_le_exact fee _ factor hfactor
  have hlower := compoundRate_kept fee _ factor hfactor hfee
  rw [hclamped] at hupper hlower
  have hk := kept_nonneg (K := ℚ) fixedPointOne.val fixedPointOne_pos
  have ha := ratio_nonneg (K := ℚ) fixedPointOne.val fixedPointOne_pos anchor.val
  have hscaled : current.val = scaledMul fixedPointOne.val anchor.val factor.val := hcurrent
  have hvalue : value current = ratio ℚ fixedPointOne.val
      (scaledMul fixedPointOne.val anchor.val factor.val) := by rw [value, hscaled]
  refine ⟨?_, ?_, ?_⟩
  · rw [hscaled]
    exact le_scaledMul _ _ _ _ fixedPointOne_pos hanchor hone
  · rw [hvalue]
    exact (scaledMul_ratio_le _ fixedPointOne_pos _ _).trans (mul_le_mul_of_nonneg_left hupper ha)
  · rw [hvalue]
    calc value anchor * value fee ^ (now.val - since.val)
            * kept ℚ fixedPointOne.val ^ (now.val - since.val + 1)
        = value anchor * (value fee ^ (now.val - since.val)
            * kept ℚ fixedPointOne.val ^ (now.val - since.val)) * kept ℚ fixedPointOne.val := by ring
      _ ≤ value anchor * value factor * kept ℚ fixedPointOne.val :=
        mul_le_mul_of_nonneg_right (mul_le_mul_of_nonneg_left hlower ha) hk
      _ ≤ _ := kept_le_scaledMul _ fixedPointOne_pos _ _ hanchor hone

theorem accumulateOver_near (nows : List U64) : ∀ (anchor final : U128) (since : U64),
    fixedPointOne.val ≤ anchor.val → Scheduled since nows →
      accumulateOver fee anchor since nows = .ok final →
      value final ≤ value anchor * value fee ^ covered since nows ∧
        value anchor * value fee ^ covered since nows
          * kept ℚ fixedPointOne.val ^ (covered since nows + nows.length) ≤ value final := by
  induction nows with
  | nil =>
    intro anchor final since _ _ h
    rw [← Except.ok.inj h]
    simp [covered]
  | cons now rest ih =>
    rintro anchor final since hanchor ⟨-, hgap, hrest⟩ h
    simp only [accumulateOver, bind_eq_ok] at h
    obtain ⟨current, hcurrent, hfinal⟩ := h
    obtain ⟨hone, hupper, hlower⟩ := accrual_near fee hfee anchor current since now hanchor hgap
      hcurrent
    obtain ⟨hup, hlow⟩ := ih current final now hone hrest hfinal
    have hk := kept_nonneg (K := ℚ) fixedPointOne.val fixedPointOne_pos
    have hpow : 0 ≤ value fee ^ covered now rest :=
      pow_nonneg (ratio_nonneg _ fixedPointOne_pos _) _
    constructor
    · rw [covered, pow_add, ← mul_assoc]
      exact hup.trans (mul_le_mul_of_nonneg_right hupper hpow)
    · refine le_trans ?_ hlow
      calc value anchor * value fee ^ covered since (now :: rest)
              * kept ℚ fixedPointOne.val ^ (covered since (now :: rest) + (now :: rest).length)
          = value anchor * value fee ^ (now.val - since.val)
              * kept ℚ fixedPointOne.val ^ (now.val - since.val + 1)
              * (value fee ^ covered now rest
                * kept ℚ fixedPointOne.val ^ (covered now rest + rest.length)) := by
            rw [covered, List.length_cons]
            ring
        _ ≤ value current * (value fee ^ covered now rest
              * kept ℚ fixedPointOne.val ^ (covered now rest + rest.length)) :=
            mul_le_mul_of_nonneg_right hlower (mul_nonneg hpow (pow_nonneg hk _))
        _ = _ := by ring

end

/-- The compounded rate is at most the exact power; it loses at most one unit for each
millisecond, relative to the power for rates from one on and absolutely below one. Over a schedule
of accruals the accumulator is at most the exact one and loses at most one unit for each
millisecond and one for each accrual, relative to it. -/
theorem compounding_error_bounded :
    (∀ (rate : U128) (elapsed : U64) (y : U128), compoundRate rate elapsed = .ok y →
      value y ≤ value rate ^ elapsed.val ∧
      (fixedPointOne.val ≤ rate.val →
        value rate ^ elapsed.val * (1 - (elapsed.val : ℚ) / fixedPointOne.val) ≤ value y) ∧
      (rate.val < fixedPointOne.val →
        value rate ^ elapsed.val - (elapsed.val : ℚ) / fixedPointOne.val ≤ value y)) ∧
    (∀ (fee anchor final : U128) (since : U64) (nows : List U64),
      fixedPointOne.val ≤ fee.val → fixedPointOne.val ≤ anchor.val → Scheduled since nows →
      accumulateOver fee anchor since nows = .ok final →
      (anchor.val : ℚ) * value fee ^ covered since nows
          * (1 - ((covered since nows + nows.length : ℕ) : ℚ) / fixedPointOne.val) ≤ final.val ∧
        (final.val : ℚ) ≤ anchor.val * value fee ^ covered since nows) ∧
    ∀ (params : ProtocolParameters) (accumulator final : StabilityFeeAccumulator)
      (nows : List U64), accrueOver params accumulator nows = .ok final →
      accumulateOver params.stabilityFeePerMillisecond accumulator.accumulatedRateAtLastAccrual
        accumulator.lastAccruedAt nows = .ok final.accumulatedRateAtLastAccrual := by
  have hscale : (0 : ℚ) < fixedPointOne.val := scale_pos _ fixedPointOne_pos
  refine ⟨?_, ?_, fun params accumulator final nows => accrueOver_accumulates params nows _ _⟩
  · intro rate elapsed y h
    refine ⟨compoundRate_le_exact rate elapsed y h, fun hrate => ?_,
      compoundRate_deficit rate elapsed y h⟩
    have hpow : 0 ≤ value rate ^ elapsed.val := pow_nonneg (ratio_nonneg _ fixedPointOne_pos _) _
    exact (mul_le_mul_of_nonneg_left (units_le_kept _) hpow).trans
      (compoundRate_kept rate elapsed y h hrate)
  · intro fee anchor final since nows hfee hanchor hs h
    obtain ⟨hupper, hlower⟩ := accumulateOver_near fee hfee nows anchor final since hanchor hs h
    have hunscale : ∀ n : ℕ, (n : ℚ) = ratio ℚ fixedPointOne.val n * fixedPointOne.val :=
      fun n => (div_mul_cancel₀ _ hscale.ne').symm
    have hexact : 0 ≤ value anchor * value fee ^ covered since nows :=
      mul_nonneg (ratio_nonneg _ fixedPointOne_pos _)
        (pow_nonneg (ratio_nonneg _ fixedPointOne_pos _) _)
    have hunits := (mul_le_mul_of_nonneg_left (units_le_kept (covered since nows + nows.length))
      hexact).trans hlower
    rw [hunscale anchor.val, hunscale final.val]
    constructor
    · calc _ = value anchor * value fee ^ covered since nows * (1
              - ((covered since nows + nows.length : ℕ) : ℚ) / fixedPointOne.val)
              * fixedPointOne.val := by ring
        _ ≤ value final * fixedPointOne.val := mul_le_mul_of_nonneg_right hunits hscale.le
    · calc value final * fixedPointOne.val
          ≤ value anchor * value fee ^ covered since nows * fixedPointOne.val :=
            mul_le_mul_of_nonneg_right hupper hscale.le
        _ = _ := by ring

end LezPrograms.Stablecoin
