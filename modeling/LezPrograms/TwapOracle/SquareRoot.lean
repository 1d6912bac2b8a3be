import LezPrograms.TwapOracle.Core
import Mathlib.Data.Nat.Sqrt

/-! # The integer square root

The root is found bit by bit. With `j` bits left, `m` is the part of the root found so
far, and the loop keeps it scaled by `4 ^ j` next to the rest of the argument. -/

set_option autoImplicit false

namespace LezPrograms.TwapOracle
open LezPrograms.Checked LezPrograms.Checked.Unsigned LezPrograms.Lee

theorem divNat_val {w : ℕ} (a : Unsigned w) (n : ℕ) : (a.divNat n).val = a.val / n := rfl

/-- The bit that is tried fits the word. -/
theorem bit_fits (j m : ℕ) (hj : j + 1 ≤ 128) (hm : m < 2 ^ (128 - (j + 1))) :
    (4 * m + 1) * 4 ^ j < 2 ^ 256 := by
  obtain ⟨k, hk⟩ : ∃ k, 128 = j + 1 + k := ⟨128 - (j + 1), by omega⟩
  have hk' : 128 - (j + 1) = k := by omega
  rw [hk'] at hm
  have hpow : 2 ^ k * 4 ^ (j + 1) ≤ 2 ^ 256 := by
    rw [show (4 : ℕ) = 2 ^ 2 from rfl, ← pow_mul, ← pow_add]
    exact Nat.pow_le_pow_right (by omega) (by omega)
  calc (4 * m + 1) * 4 ^ j < (4 * (m + 1)) * 4 ^ j :=
        Nat.mul_lt_mul_of_pos_right (by omega) (by positivity)
    _ = (m + 1) * 4 ^ (j + 1) := by ring
    _ ≤ 2 ^ k * 4 ^ (j + 1) := Nat.mul_le_mul_right _ hm
    _ ≤ 2 ^ 256 := hpow

theorem integerSqrtLoop_spec (rounds j m n : ℕ) (hrounds : j < rounds) (hj : j ≤ 128)
    (hm : m < 2 ^ (128 - j)) (d c x : U256) (hd : d.val = 4 ^ j / 4) (hc : c.val = m * 4 ^ j)
    (hx : x.val + m ^ 2 * 4 ^ j = n) (hn : n < (m + 1) ^ 2 * 4 ^ j) :
    ∃ root, integerSqrtLoop rounds d c x = .ok root ∧ root.val = n.sqrt := by
  induction rounds generalizing j m d c x with
  | zero => omega
  | succ rounds ih =>
    rw [integerSqrtLoop]
    cases j with
    | zero =>
      simp only [pow_zero, Nat.mul_one] at hc hx hn
      rw [if_pos (by rw [hd]; rfl)]
      exact ⟨c, rfl, by rw [hc, Nat.eq_sqrt']; exact ⟨by omega, hn⟩⟩
    | succ j =>
      have hpow : 4 ^ (j + 1) = 4 * 4 ^ j := by ring
      rw [hpow, Nat.mul_div_cancel_left _ (by omega)] at hd
      rw [hpow] at hc hx hn
      have hpos : 0 < 4 ^ j := by positivity
      have hfits : (4 * m + 1) * 4 ^ j < 2 ^ 256 := bit_fits j m hj hm
      generalize hs : 4 ^ j = s at *
      have hsum : c.val + d.val = (4 * m + 1) * s := by
        rw [hc, hd]
        ring
      have hroot : 2 ^ (128 - j) = 2 * 2 ^ (128 - (j + 1)) := by
        rw [← pow_succ']
        congr 1
        omega
      rw [if_neg (by omega), checkedAdd_of_lt c d (by omega)]
      simp only [expect_some, ok_bind]
      split
      · rename_i hle
        -- the bit belongs to the root
        have hhalf : c.val / 2 + d.val = (2 * m + 1) * s := by
          rw [hc, hd, show m * (4 * s) = 2 * (2 * m * s) by ring, Nat.mul_div_cancel_left _ (by omega)]
          ring
        rw [checkedSub_of_le _ _ hle, checkedAdd_of_lt _ _ (by rw [divNat_val]; nlinarith)]
        simp only [expect_some, ok_bind]
        refine ih j (2 * m + 1) (by omega) (by omega) (by omega) _ _ _ ?_ ?_ ?_ ?_
        · rw [hs, ← hd]
          rfl
        · rw [hs]
          exact hhalf
        · rw [hs]
          change x.val - (c.val + d.val) + _ = n
          change c.val + d.val ≤ x.val at hle
          nlinarith [Nat.sub_add_cancel hle]
        · rw [hs]
          nlinarith
      · rename_i hlt
        have hhalf : c.val / 2 = 2 * m * s := by
          rw [hc, show m * (4 * s) = 2 * (2 * m * s) by ring, Nat.mul_div_cancel_left _ (by omega)]
        refine ih j (2 * m) (by omega) (by omega) (by omega) _ _ _ ?_ ?_ ?_ ?_
        · rw [hs, ← hd]
          rfl
        · rw [hs]
          exact hhalf
        · rw [hs, ← hx]
          ring
        · rw [hs]
          change ¬c.val + d.val ≤ x.val at hlt
          nlinarith

theorem mostSignificantBit_of_ne_zero (n : U256) (h : n.val ≠ 0) :
    mostSignificantBit n = some n.val.log2 := by
  have hlog : n.val.log2 < 256 := (Nat.log2_lt h).mpr n.isLt
  have hbit : 255 - (255 - n.val.log2) = n.val.log2 := by omega
  rw [mostSignificantBit, leadingZeros, if_neg h, if_pos (by omega), hbit]

/-- The loop computes the integer square root of every argument. -/
theorem integerSqrt_spec (n : U256) : ∃ root, integerSqrt n = .ok root ∧ root.val = n.val.sqrt := by
  unfold integerSqrt
  split
  · rename_i hzero
    exact ⟨Unsigned.zero 256, rfl, by rw [hzero, Nat.sqrt_zero, zero_val]⟩
  · rename_i hne
    have hlog : n.val.log2 < 256 := (Nat.log2_lt hne).mpr n.isLt
    have hstart : 2 ^ (n.val.log2 / 2 * 2) < 2 ^ 256 := Nat.pow_lt_pow_right (by omega) (by omega)
    have hbit : 2 ^ (n.val.log2 / 2 * 2) = 4 ^ (n.val.log2 / 2) := by
      rw [Nat.mul_comm, pow_mul]
      norm_num
    rw [mostSignificantBit_of_ne_zero n hne]
    simp only [expect_some, ok_bind]
    rw [tryFrom_of_lt _ hstart]
    simp only [expect_some, ok_bind]
    refine integerSqrtLoop_spec 129 (n.val.log2 / 2 + 1) 0 n.val (by omega) (by omega)
      (by positivity) _ _ _ ?_ ?_ ?_ ?_
    · have hquarter : ∀ k, 4 ^ (k + 1) / 4 = 4 ^ k := fun k => by
        rw [pow_succ, Nat.mul_div_cancel _ (by omega)]
      exact hbit.trans (hquarter _).symm
    · rw [zero_val, Nat.zero_mul]
    · ring
    · have hlt : n.val < 2 ^ (n.val.log2 + 1) := Nat.lt_log2_self
      calc n.val < 2 ^ (n.val.log2 + 1) := hlt
        _ ≤ 2 ^ (2 * (n.val.log2 / 2 + 1)) := Nat.pow_le_pow_right (by omega) (by omega)
        _ = (0 + 1) ^ 2 * 4 ^ (n.val.log2 / 2 + 1) := by rw [pow_mul]; ring

/-- Every argument has a root, the greatest number whose square is at most the argument. -/
theorem integer_sqrt_exact (n : U256) :
    ∃ root, integerSqrt n = .ok root ∧ root.val * root.val ≤ n.val ∧
      n.val < (root.val + 1) * (root.val + 1) := by
  obtain ⟨root, hroot, hval⟩ := integerSqrt_spec n
  exact ⟨root, hroot, by rw [hval]; exact Nat.sqrt_le n.val, by rw [hval]; exact Nat.lt_succ_sqrt n.val⟩

/-- The square-root price of a price, at least the one of the lowest tick. -/
def sqrtPriceX96 (price : U128) : ℕ := max (price.val * 2 ^ 128).sqrt minSqrtRatio.val

theorem shifted_fits (price : U128) : price.val * 2 ^ 128 < 2 ^ 256 := by
  rw [show (2 : ℕ) ^ 256 = 2 ^ 128 * 2 ^ 128 from pow_add 2 128 128]
  exact Nat.mul_lt_mul_of_pos_right price.isLt (Nat.two_pow_pos 128)

theorem sqrtPriceX96_le (price : U128) : sqrtPriceX96 price ≤ 2 ^ 128 := by
  have hroot : (price.val * 2 ^ 128).sqrt < 2 ^ 128 := by
    rw [Nat.sqrt_lt, ← show (2 : ℕ) ^ 256 = 2 ^ 128 * 2 ^ 128 from pow_add 2 128 128]
    exact shifted_fits price
  have hleast : minSqrtRatio.val ≤ 2 ^ 128 := by
    simp only [minSqrtRatio]
    omega
  exact max_le hroot.le hleast

theorem priceToTick_eq_ok (tickMath : TickMath) (price : U128) (tick : I32) :
    priceToTick tickMath price = .ok tick ↔
      ∃ ratio : U256, ratio.val = sqrtPriceX96 price ∧
        tickMath.getTickAtSqrtRatio ratio = some tick := by
  obtain ⟨root, hroot, hval⟩ := integerSqrt_spec ⟨_, shifted_fits price⟩
  have hclamped : (root.maximum minSqrtRatio).val = max root.val minSqrtRatio.val := by
    unfold Unsigned.maximum
    split <;> omega
  rw [hval] at hclamped
  simp only [priceToTick, bind_eq_ok, expect_eq_ok, tryFrom_eq_some]
  constructor
  · rintro ⟨shifted, hshifted, root', hroot', h⟩
    have hsame : shifted = ⟨_, shifted_fits price⟩ := Fin.ext hshifted
    rw [hsame, hroot] at hroot'
    cases hroot'
    exact ⟨_, hclamped, h⟩
  · rintro ⟨ratio, hratio, h⟩
    refine ⟨⟨_, shifted_fits price⟩, rfl, root, hroot, ?_⟩
    rwa [show root.maximum minSqrtRatio = ratio from Fin.ext (hclamped.trans hratio.symm)]

/-- The tick-math library has a tick for every square-root price from the least one up to
`2 ^ 128`, far below the greatest. -/
def TickMath.Covers (tickMath : TickMath) : Prop :=
  ∀ ratio : U256, minSqrtRatio.val ≤ ratio.val → ratio.val ≤ 2 ^ 128 →
    ∃ tick, tickMath.getTickAtSqrtRatio ratio = some tick

/-- Every price has a tick. -/
theorem priceToTick_succeeds (tickMath : TickMath) (h : tickMath.Covers) (price : U128) :
    ∃ tick, priceToTick tickMath price = .ok tick := by
  have hfits : sqrtPriceX96 price < 2 ^ 256 := lt_of_le_of_lt (sqrtPriceX96_le price) (by decide)
  obtain ⟨tick, htick⟩ := h ⟨_, hfits⟩ (le_max_right _ _) (sqrtPriceX96_le price)
  exact ⟨tick, (priceToTick_eq_ok tickMath price tick).mpr ⟨_, rfl, htick⟩⟩

end LezPrograms.TwapOracle
