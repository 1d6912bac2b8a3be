import LezPrograms.Checked
import LezPrograms.FlooredPower
import Mathlib.Tactic.NormNum

/-! # Fixed-point arithmetic of the stablecoin

Rates, ratios and price multipliers are scaled by `fixedPointOne`. Two loops
compute powers of a rate: one in 128 bits, which aborts on overflow, and one in
512 bits, which saturates. Both are compared with the same loop over unbounded
naturals, `FlooredPower.power`. -/

set_option autoImplicit false

namespace LezPrograms.Stablecoin.Math
open LezPrograms.Checked LezPrograms.Checked.Unsigned LezPrograms.FlooredPower

def fixedPointOne : U128 := ⟨1000000000000000000000000000, by norm_num⟩

def maximumCompoundingWindowMilliseconds : U64 := ⟨604800000, by norm_num⟩

def priceFractionalBits : ℕ := 64

@[simp] theorem fixedPointOne_val : fixedPointOne.val = 1000000000000000000000000000 := rfl

@[simp] theorem window_val : maximumCompoundingWindowMilliseconds.val = 604800000 := rfl

def mulDiv : U128 → U128 → U128 → Outcome U128 :=
  floorMulDiv ⟨"mul_div: division by zero", "mul_div: intermediate product overflows U256",
    "mul_div: division by zero", "mul_div: result exceeds u128"⟩

def mulDivCeil (a b c : U128) : Outcome U128 := do
  ensure (c.val ≠ 0) "mul_div_ceil: division by zero"
  let product ← expect (checkedMul (widen a u128_le_u256 : U256) (widen b u128_le_u256))
    "mul_div_ceil: intermediate product overflows U256"
  let divisor : U256 := widen c u128_le_u256
  let quotient ← expect (checkedDiv product divisor) "mul_div_ceil: division by zero"
  let remainder ← expect (checkedRem product divisor) "mul_div_ceil: division by zero"
  let ceiled ← (if remainder.val = 0 then pure quotient else
    expect (checkedAdd quotient ⟨1, by norm_num⟩) "mul_div_ceil: ceil increment overflows U256")
  expect (Unsigned.tryFrom 128 ceiled.val) "mul_div_ceil: result exceeds u128"

def oraclePriceToFixedPoint (oraclePrice : U128) : U128 :=
  (Unsigned.tryFrom 128 (oraclePrice.val * fixedPointOne.val / 2 ^ priceFractionalBits)).getD
    (maxValue 128)

theorem mulDiv_eq_ok (a b c r : U128) :
    mulDiv a b c = .ok r ↔ c.val ≠ 0 ∧ r.val = a.val * b.val / c.val :=
  floorMulDiv_eq_ok _ a b c r

theorem mulDiv_bounds (a b c r : U128) (h : mulDiv a b c = .ok r) :
    r.val * c.val ≤ a.val * b.val ∧ a.val * b.val < r.val * c.val + c.val := by
  obtain ⟨hc, hr⟩ := (mulDiv_eq_ok a b c r).mp h
  have hdm := Nat.div_add_mod (a.val * b.val) c.val
  have hm := Nat.mod_lt (a.val * b.val) (Nat.pos_of_ne_zero hc)
  rw [← hr, Nat.mul_comm] at hdm
  omega

theorem mulDivCeil_bounds (a b c r : U128) (h : mulDivCeil a b c = .ok r) :
    c.val ≠ 0 ∧ a.val * b.val ≤ r.val * c.val ∧ r.val * c.val < a.val * b.val + c.val := by
  simp only [mulDivCeil, bind_eq_ok, ensure_eq_ok, exists_const, expect_eq_ok,
    checkedMul_eq_some, checkedDiv_eq_some, checkedRem_eq_some, Unsigned.tryFrom_eq_some,
    widen_val, ite_eq_ok, pure_eq_ok, checkedAdd_eq_some] at h
  obtain ⟨hc, product, hp, quotient, ⟨-, hq⟩, remainder, ⟨-, hm⟩, hceil⟩ := h
  have hdm := Nat.div_add_mod product.val c.val
  have hlt := Nat.mod_lt product.val (Nat.pos_of_ne_zero hc)
  rw [← hq, ← hm, Nat.mul_comm] at hdm
  rw [← hm] at hlt
  obtain ⟨ceiled, ⟨h0, rfl⟩ | ⟨h0, hadd⟩, hr⟩ := hceil
  · rw [hr, ← hp]
    exact ⟨hc, by omega, by omega⟩
  · rw [hr, hadd, ← hp, Nat.succ_mul]
    exact ⟨hc, by omega, by omega⟩

theorem mulDivCeil_eq_ok (a b c r : U128) :
    mulDivCeil a b c = .ok r ↔
      c.val ≠ 0 ∧ a.val * b.val ≤ r.val * c.val ∧ r.val * c.val < a.val * b.val + c.val := by
  refine ⟨mulDivCeil_bounds a b c r, fun ⟨hc, hle, hlt⟩ => ?_⟩
  have hdm := Nat.div_add_mod (a.val * b.val) c.val
  have hm := Nat.mod_lt (a.val * b.val) (Nat.pos_of_ne_zero hc)
  rw [Nat.mul_comm] at hdm
  have hp := product_lt a b
  have hq : a.val * b.val / c.val < 2 ^ 256 := lt_of_le_of_lt (Nat.div_le_self _ _) hp
  have hr : a.val * b.val % c.val < 2 ^ 256 := lt_of_le_of_lt (Nat.mod_le _ _) hp
  simp only [mulDivCeil, bind_eq_ok, ensure_eq_ok, exists_const, expect_eq_ok,
    checkedMul_eq_some, checkedDiv_eq_some, checkedRem_eq_some, Unsigned.tryFrom_eq_some,
    widen_val, ite_eq_ok, pure_eq_ok, checkedAdd_eq_some]
  refine ⟨hc, ⟨_, hp⟩, rfl, ⟨_, hq⟩, ⟨hc, rfl⟩, ⟨_, hr⟩, ⟨hc, rfl⟩, ?_⟩
  by_cases h0 : a.val * b.val % c.val = 0
  · refine ⟨⟨_, hq⟩, Or.inl ⟨h0, rfl⟩, ?_⟩
    rw [h0, Nat.add_zero] at hdm
    change r.val = a.val * b.val / c.val
    apply le_antisymm
    · apply Nat.le_of_lt_succ
      apply Nat.lt_of_mul_lt_mul_right (a := c.val)
      rw [Nat.succ_mul]
      omega
    · apply Nat.le_of_mul_le_mul_right _ (Nat.pos_of_ne_zero hc)
      omega
  · have hval : r.val = a.val * b.val / c.val + 1 := by
      apply le_antisymm
      · apply Nat.le_of_lt_succ
        apply Nat.lt_of_mul_lt_mul_right (a := c.val)
        rw [Nat.succ_mul, Nat.succ_mul]
        omega
      · apply Nat.lt_of_mul_lt_mul_right (a := c.val)
        omega
    refine ⟨widen r (by decide), Or.inr ⟨h0, ?_⟩, rfl⟩
    rw [widen_val, hval]

def compoundLoop (exponent : ℕ) (result base : U128) : Outcome U128 :=
  if exponent = 0 then .ok result
  else do
    let result ← (if exponent % 2 = 1 then mulDiv result base fixedPointOne else pure result)
    let base ← (if 0 < exponent / 2 then mulDiv base base fixedPointOne else pure base)
    compoundLoop (exponent / 2) result base
termination_by exponent
decreasing_by omega

@[simp] theorem compoundLoop_zero (result base : U128) :
    compoundLoop 0 result base = .ok result := by
  rw [compoundLoop]
  simp

def compoundRate (perMillisecondRate : U128) (millisecondsElapsed : U64) : Outcome U128 :=
  if millisecondsElapsed.val = 0 then .ok fixedPointOne
  else if perMillisecondRate = fixedPointOne then .ok fixedPointOne
  else compoundLoop millisecondsElapsed.val fixedPointOne perMillisecondRate

def clampedElapsed (now since : U64) : U64 :=
  minimum (saturatingSub now since) maximumCompoundingWindowMilliseconds

def computeCurrentAccumulatedRate (accumulatedRateAtLastAccrual stabilityFeePerMillisecond : U128)
    (lastAccruedAt now : U64) : Outcome U128 := do
  let factor ← compoundRate stabilityFeePerMillisecond (clampedElapsed now lastAccruedAt)
  mulDiv accumulatedRateAtLastAccrual factor fixedPointOne

def computeCurrentRedemptionPrice (redemptionPriceAtLastUpdate redemptionRatePerMillisecond : U128)
    (lastUpdatedAt now : U64) : Outcome U128 := do
  let factor ← compoundRate redemptionRatePerMillisecond (clampedElapsed now lastUpdatedAt)
  mulDiv redemptionPriceAtLastUpdate factor fixedPointOne

def wideProduct (lhs rhs : U512) : U512 × Bool :=
  match checkedMul lhs rhs with
  | some product => (product, false)
  | none => (maxValue 512, true)

def compoundLoopWide (exponent : ℕ) (result base : U512) (saturated : Bool) : U512 × Bool :=
  if exponent = 0 then (result, saturated)
  else
    let (result, saturated) := if exponent % 2 = 1 then
        (divNat (wideProduct result base).1 fixedPointOne.val,
          saturated || (wideProduct result base).2)
      else (result, saturated)
    let (base, saturated) := if 0 < exponent / 2 then
        (divNat (wideProduct base base).1 fixedPointOne.val,
          saturated || (wideProduct base base).2)
      else (base, saturated)
    compoundLoopWide (exponent / 2) result base saturated
termination_by exponent
decreasing_by omega

def oneWide : U512 := widen fixedPointOne (by decide)

theorem oneWide_val : oneWide.val = fixedPointOne.val := rfl

def compoundRateWideResult (perMillisecondRate : U128) (millisecondsElapsed : U64) :
    U512 × Bool :=
  if millisecondsElapsed.val = 0 ∨ perMillisecondRate = fixedPointOne then (oneWide, false)
  else compoundLoopWide millisecondsElapsed.val oneWide (widen perMillisecondRate (by decide)) false

def compoundRateWide (perMillisecondRate : U128) (millisecondsElapsed : U64) : U512 :=
  (compoundRateWideResult perMillisecondRate millisecondsElapsed).1

def tryProjectRateWide (anchor rate : U128) (lastUpdatedAt now : U64) : Option U512 :=
  let (factor, saturated) := compoundRateWideResult rate (clampedElapsed now lastUpdatedAt)
  if saturated then none
  else (checkedMul (widen anchor (by decide)) factor).map fun product =>
    divNat product fixedPointOne.val

def projectForwardWide (anchor perMillisecondRate : U128) (lastUpdatedAt now : U64) : U512 :=
  let factor := compoundRateWide perMillisecondRate (clampedElapsed now lastUpdatedAt)
  divNat (saturatingMul (widen anchor (by decide)) factor) fixedPointOne.val

def computeCurrentAccumulatedRateWide
    (accumulatedRateAtLastAccrual stabilityFeePerMillisecond : U128)
    (lastAccruedAt now : U64) : U512 :=
  projectForwardWide accumulatedRateAtLastAccrual stabilityFeePerMillisecond lastAccruedAt now

def computeCurrentRedemptionPriceWide
    (redemptionPriceAtLastUpdate redemptionRatePerMillisecond : U128)
    (lastUpdatedAt now : U64) : U512 :=
  projectForwardWide redemptionPriceAtLastUpdate redemptionRatePerMillisecond lastUpdatedAt now

end LezPrograms.Stablecoin.Math
