import LezPrograms.Stablecoin.Math

/-! # The redemption-rate controller

One tick takes the redemption price, the market price, the stored integral term
and the elapsed window to a new rate and a new integral term. All products are
formed in signed 256-bit integers before any clamp is applied. -/

set_option autoImplicit false

namespace LezPrograms.Stablecoin.Controller
open LezPrograms.Checked LezPrograms.Stablecoin.Math

/-- `FIXED_POINT_ONE / 100_000_000_000` -/
def rateDeltaClamp : I128 := ⟨10000000000000000, by norm_num⟩

def integralClamp : I128 := rateDeltaClamp

def minimumRedemptionPrice : U128 := ⟨1000000000, by norm_num⟩

/-- `u128::MAX / 2` -/
def maximumRedemptionPrice : U128 := ⟨2 ^ 127 - 1, by norm_num⟩

def boundRedemptionPrice (projectedRedemptionPrice : U512) : U128 :=
  ⟨max (min projectedRedemptionPrice.val maximumRedemptionPrice.val) minimumRedemptionPrice.val,
    max_lt (lt_of_le_of_lt (min_le_right _ _) maximumRedemptionPrice.isLt)
      minimumRedemptionPrice.isLt⟩

structure ControllerOutput where
  redemptionRatePerMillisecond : U128
  controllerIntegralTerm : I128
deriving DecidableEq

def signed (value : U128) : I256 := ⟨value.val, by
  have := value.isLt
  norm_num at this ⊢
  omega⟩

def widenSigned (value : I128) : I256 := ⟨value.val, by
  have := value.range
  norm_num at this ⊢
  omega⟩

def elapsedSigned (value : U64) : I256 := ⟨value.val, by
  have := value.isLt
  norm_num at this ⊢
  omega⟩

structure Magnitude where
  bound : I128
  nonneg : 0 ≤ bound.val

def Magnitude.negate (m : Magnitude) : I128 := ⟨-m.bound.val, by
  have := m.bound.range
  have := m.nonneg
  norm_num at *
  omega⟩

/-- Bring `value` into the band of `magnitude` on both sides of zero and narrow it. -/
def clampToMagnitude (value : I256) (magnitude : Magnitude) : I128 :=
  if hu : value.val > magnitude.bound.val then magnitude.bound
  else if hl : value.val < magnitude.negate.val then magnitude.negate
  else ⟨value.val, by
    have := magnitude.bound.range
    have := magnitude.negate.range
    omega⟩

def integralMagnitude : Magnitude := ⟨integralClamp, by decide⟩

def rateDeltaMagnitude : Magnitude := ⟨rateDeltaClamp, by decide⟩

def fixedPointOneSigned : I128 := ⟨1000000000000000000000000000, by norm_num⟩

def unboundedRate (rateAdjustment : I128) : U128 :=
  ⟨(max (fixedPointOneSigned.saturatingAdd rateAdjustment).val 1).toNat, by
    have := (fixedPointOneSigned.saturatingAdd rateAdjustment).range
    norm_num at this ⊢
    omega⟩

/-- At a price bound the rate may only point back inside the band. -/
def boundedRate (currentRedemptionPrice rate : U128) : U128 :=
  if currentRedemptionPrice.val ≤ minimumRedemptionPrice.val then rate.maximum fixedPointOne
  else if currentRedemptionPrice.val ≥ maximumRedemptionPrice.val then rate.minimum fixedPointOne
  else rate

def runControllerTick (currentRedemptionPrice marketPrice : U128)
    (controllerIntegralTerm controllerProportionalGain controllerIntegralGain : I128)
    (millisecondsElapsed : U64) : Outcome ControllerOutput := do
  let error ← expect ((signed currentRedemptionPrice).checkedSub (signed marketPrice))
    "controller: error subtraction overflows I256"
  let proportionalProduct ← expect ((widenSigned controllerProportionalGain).checkedMul error)
    "controller: proportional term overflows I256"
  let proportionalTerm := proportionalProduct.truncDiv fixedPointOne.val
  let integralProduct ← expect ((widenSigned controllerIntegralGain).checkedMul error)
    "controller: integral delta overflows I256"
  let integralWindow ← expect (integralProduct.checkedMul (elapsedSigned millisecondsElapsed))
    "controller: integral delta overflows I256"
  let integralDelta := integralWindow.truncDiv fixedPointOne.val
  let integralSum ← expect ((widenSigned controllerIntegralTerm).checkedAdd integralDelta)
    "controller: integral term overflows I256"
  let newIntegralTerm := clampToMagnitude integralSum integralMagnitude
  let adjustmentSum ← expect (proportionalTerm.checkedAdd (widenSigned newIntegralTerm))
    "controller: rate adjustment overflows I256"
  let rateAdjustment := clampToMagnitude adjustmentSum rateDeltaMagnitude
  pure {
    redemptionRatePerMillisecond :=
      boundedRate currentRedemptionPrice (unboundedRate rateAdjustment)
    controllerIntegralTerm := newIntegralTerm }

@[simp] theorem rateDeltaClamp_val : rateDeltaClamp.val = 10000000000000000 := rfl
@[simp] theorem integralClamp_val : integralClamp.val = 10000000000000000 := rfl
@[simp] theorem minimumRedemptionPrice_val : minimumRedemptionPrice.val = 1000000000 := rfl
@[simp] theorem maximumRedemptionPrice_val : maximumRedemptionPrice.val = 2 ^ 127 - 1 := rfl
@[simp] theorem fixedPointOneSigned_val :
    fixedPointOneSigned.val = 1000000000000000000000000000 := rfl

theorem boundRedemptionPrice_bounds (p : U512) :
    minimumRedemptionPrice.val ≤ (boundRedemptionPrice p).val ∧
      (boundRedemptionPrice p).val ≤ maximumRedemptionPrice.val := by
  refine ⟨le_max_right _ _, max_le (min_le_right _ _) ?_⟩
  norm_num

theorem clampToMagnitude_bounds (value : I256) (magnitude : Magnitude) :
    -magnitude.bound.val ≤ (clampToMagnitude value magnitude).val ∧
      (clampToMagnitude value magnitude).val ≤ magnitude.bound.val := by
  have hm := magnitude.nonneg
  have hn : magnitude.negate.val = -magnitude.bound.val := rfl
  unfold clampToMagnitude
  split
  · omega
  · split
    · omega
    · show -magnitude.bound.val ≤ value.val ∧ value.val ≤ magnitude.bound.val
      omega

/-- The rate stays within the clamp of one on both sides. -/
theorem unboundedRate_bounds (adjustment : I128)
    (h : -rateDeltaClamp.val ≤ adjustment.val ∧ adjustment.val ≤ rateDeltaClamp.val) :
    fixedPointOne.val ≤ (unboundedRate adjustment).val + 10000000000000000 ∧
      (unboundedRate adjustment).val ≤ fixedPointOne.val + 10000000000000000 := by
  simp only [unboundedRate, Signed.saturatingAdd, fixedPointOneSigned_val, fixedPointOne_val,
    rateDeltaClamp_val] at h ⊢
  norm_num
  omega

theorem boundedRate_bounds (price rate : U128) (d : ℕ)
    (h : fixedPointOne.val ≤ rate.val + d ∧ rate.val ≤ fixedPointOne.val + d) :
    fixedPointOne.val ≤ (boundedRate price rate).val + d ∧
      (boundedRate price rate).val ≤ fixedPointOne.val + d := by
  unfold boundedRate
  split
  · rw [Unsigned.maximum_val]
    omega
  · split
    · rw [Unsigned.minimum_val]
      omega
    · exact h

/-- Whatever the inputs, the new rate and integral term are within their clamps. -/
theorem runControllerTick_bounds (price market : U128) (integral kp ki : I128) (elapsed : U64)
    (output : ControllerOutput)
    (h : runControllerTick price market integral kp ki elapsed = .ok output) :
    (fixedPointOne.val ≤ output.redemptionRatePerMillisecond.val + 10000000000000000 ∧
      output.redemptionRatePerMillisecond.val ≤ fixedPointOne.val + 10000000000000000) ∧
    (-integralClamp.val ≤ output.controllerIntegralTerm.val ∧
      output.controllerIntegralTerm.val ≤ integralClamp.val) := by
  simp only [runControllerTick, bind_eq_ok, pure_eq_ok] at h
  obtain ⟨_, -, _, -, _, -, _, -, _, -, _, -, rfl⟩ := h
  constructor
  · exact boundedRate_bounds _ _ _
      (unboundedRate_bounds _ (clampToMagnitude_bounds _ rateDeltaMagnitude))
  · exact clampToMagnitude_bounds _ integralMagnitude

def FitsI256 (n : ℤ) : Prop := -(2 ^ 255 : ℕ) ≤ n ∧ n < (2 ^ 255 : ℕ)

theorem fitsI256_of_natAbs (n : ℤ) (b : ℕ) (hn : n.natAbs ≤ b) (hb : b < 2 ^ 255) :
    FitsI256 n := by
  unfold FitsI256
  omega

theorem checkedMul_exists_iff (a b : I256) :
    (∃ r, a.checkedMul b = some r) ↔ FitsI256 (a.val * b.val) := by
  constructor
  · rintro ⟨r, hr⟩
    rw [Signed.checkedMul_eq_some] at hr
    rw [← hr]
    exact r.range
  · intro h
    exact ⟨_, Signed.tryFrom_of_mem 256 _ h⟩

theorem checkedAdd_exists (a b : I256) (h : FitsI256 (a.val + b.val)) :
    ∃ r, a.checkedAdd b = some r := ⟨_, Signed.tryFrom_of_mem 256 _ h⟩

theorem truncDiv_natAbs (a : I256) (n : ℕ) : (a.truncDiv n).val.natAbs = a.val.natAbs / n := by
  rw [Signed.truncDiv, Int.natAbs_tdiv]
  rfl

theorem I128_natAbs_le (a : I128) : a.val.natAbs ≤ 2 ^ 127 := by
  have := a.range
  norm_num at this ⊢
  omega

/-- The gains are in the bands that every setter enforces. -/
def GainsInBand (proportional integral : I128) : Prop :=
  (0 ≤ proportional.val ∧ proportional.val ≤ 1000000000000000000000000000 * 1000) ∧
    (0 ≤ integral.val ∧ integral.val ≤ 1000000000000000000000000000)

theorem error_natAbs_lt (price market : U128) :
    ((price.val : ℤ) - market.val).natAbs < 2 ^ 128 := by
  have := price.isLt
  have := market.isLt
  omega

theorem gain_product_fits (gain : I128) (bound : ℕ) (error : I256)
    (hg : gain.val.natAbs ≤ bound) (he : error.val.natAbs < 2 ^ 128) (hb : bound < 2 ^ 120) :
    (gain.val * error.val).natAbs < 2 ^ 248 := by
  rw [Int.natAbs_mul]
  calc gain.val.natAbs * error.val.natAbs ≤ bound * 2 ^ 128 := Nat.mul_le_mul hg he.le
    _ < 2 ^ 120 * 2 ^ 128 := Nat.mul_lt_mul_of_pos_right hb (by norm_num)
    _ = 2 ^ 248 := by norm_num

/-- With the gains in their bands, the product of the integral gain, the error and the
window is the only step of a tick that can leave 256 bits. -/
theorem runControllerTick_ok_iff (price market : U128) (integral kp ki : I128) (elapsed : U64)
    (hgains : GainsInBand kp ki) :
    (∃ output, runControllerTick price market integral kp ki elapsed = .ok output) ↔
      FitsI256 (ki.val * ((price.val : ℤ) - market.val) * elapsed.val) := by
  obtain ⟨⟨hkp0, hkp⟩, hki0, hki⟩ := hgains
  have hkpa : kp.val.natAbs ≤ 1000000000000000000000000000 * 1000 := by omega
  have hkia : ki.val.natAbs ≤ 1000000000000000000000000000 := by omega
  have herr := error_natAbs_lt price market
  have hfit : FitsI256 ((price.val : ℤ) - market.val) :=
    fitsI256_of_natAbs _ _ herr.le (by norm_num)
  constructor
  · rintro ⟨output, h⟩
    simp only [runControllerTick, bind_eq_ok, expect_eq_ok, Signed.checkedSub_eq_some,
      Signed.checkedMul_eq_some] at h
    obtain ⟨error, he, _, -, product, hp, window, hw, -⟩ := h
    have hrange := window.range
    rw [hw, hp, he] at hrange
    exact hrange
  · intro hwindow
    obtain ⟨error, he⟩ : ∃ r, (signed price).checkedSub (signed market) = some r :=
      ⟨_, Signed.tryFrom_of_mem 256 _ hfit⟩
    have hev : error.val = (price.val : ℤ) - market.val :=
      (Signed.checkedSub_eq_some _ _ _).mp he
    have hea : error.val.natAbs < 2 ^ 128 := by rw [hev]; exact herr
    have hprop := gain_product_fits kp _ error hkpa hea (by norm_num)
    have hint := gain_product_fits ki _ error hkia hea (by norm_num)
    obtain ⟨p, hp⟩ : ∃ r, (widenSigned kp).checkedMul error = some r :=
      (checkedMul_exists_iff _ _).mpr (fitsI256_of_natAbs _ _ hprop.le (by norm_num))
    obtain ⟨q, hq⟩ : ∃ r, (widenSigned ki).checkedMul error = some r :=
      (checkedMul_exists_iff _ _).mpr (fitsI256_of_natAbs _ _ hint.le (by norm_num))
    have hqv : q.val = ki.val * error.val := (Signed.checkedMul_eq_some _ _ _).mp hq
    obtain ⟨w, hw⟩ : ∃ r, q.checkedMul (elapsedSigned elapsed) = some r := by
      rw [checkedMul_exists_iff, hqv, hev]
      exact hwindow
    have hwa : w.val.natAbs ≤ 2 ^ 255 := by
      have := w.range
      norm_num at this ⊢
      omega
    have hdelta : (w.truncDiv fixedPointOne.val).val.natAbs ≤ 2 ^ 254 := by
      rw [truncDiv_natAbs]
      calc w.val.natAbs / fixedPointOne.val ≤ 2 ^ 255 / fixedPointOne.val :=
            Nat.div_le_div_right hwa
        _ ≤ 2 ^ 254 := by norm_num
    obtain ⟨i, hi⟩ := checkedAdd_exists (widenSigned integral) (w.truncDiv fixedPointOne.val)
      (fitsI256_of_natAbs _ (2 ^ 127 + 2 ^ 254) (le_trans (Int.natAbs_add_le _ _)
        (Nat.add_le_add (I128_natAbs_le integral) hdelta)) (by norm_num))
    have hpa : (p.truncDiv fixedPointOne.val).val.natAbs ≤ 2 ^ 248 := by
      rw [truncDiv_natAbs, (Signed.checkedMul_eq_some _ _ _).mp hp]
      exact le_trans (Nat.div_le_self _ _) hprop.le
    obtain ⟨a, ha⟩ := checkedAdd_exists (p.truncDiv fixedPointOne.val)
      (widenSigned (clampToMagnitude i integralMagnitude))
      (fitsI256_of_natAbs _ (2 ^ 248 + 2 ^ 127) (le_trans (Int.natAbs_add_le _ _)
        (Nat.add_le_add hpa (I128_natAbs_le _))) (by norm_num))
    exact ⟨_, by simp only [runControllerTick, he, hp, hq, hw, hi, ha, expect_some, ok_bind]; rfl⟩

end LezPrograms.Stablecoin.Controller
