import LezPrograms.FlooredPower
import Mathlib.Algebra.Order.Field.Basic
import Mathlib.Algebra.Order.Ring.Pow
import Mathlib.Data.Nat.Cast.Order.Field
import Mathlib.Tactic.FieldSimp
import Mathlib.Tactic.LinearCombination
import Mathlib.Tactic.Positivity

/-! # The distance of a floored power from the exact one

Every multiplication floors once, so it loses less than one unit of the last
place. Where all factors are at least one the loss is relative, where they are
at most one it is absolute. Squaring doubles the losses collected so far and
adds one, so a base that stands for `2 ^ k` factors has lost less than `2 ^ k`
units and the losses of the whole power are bounded by the exponent. -/

set_option autoImplicit false

namespace LezPrograms.FlooredPower

/-- The base of the last iteration does not matter, so it may be squared as well. -/
theorem power_step (scale exponent result base : ℕ) (h : exponent ≠ 0) :
    power scale exponent result base = power scale (exponent / 2)
      (if exponent % 2 = 1 then scaledMul scale result base else result)
      (scaledMul scale base base) := by
  rw [power_pos _ _ _ _ h]
  rcases Nat.eq_zero_or_pos (exponent / 2) with h0 | h0 <;> simp [h0]

/-- The losses that `s` and `t` stand for, before an iteration and after it. -/
theorem losses_halve (n s t : ℕ) :
    s + n * (t + 1) = (if n % 2 = 1 then s + t + 1 else s) + n / 2 * (t + t + 1 + 1) := by
  conv_lhs => rw [← Nat.mod_add_div n 2]
  rcases Nat.mod_two_eq_zero_or_one n with h | h
  · rw [h, if_neg (by decide)]
    ring
  · rw [h, if_pos rfl]
    ring

section
variable {K : Type} [Field K] [LinearOrder K] [IsStrictOrderedRing K]

def ratio (K : Type) [Field K] (scale n : ℕ) : K := (n : K) / (scale : K)

/-- What one floor leaves of a number that is at least one. -/
def kept (K : Type) [Field K] (scale : ℕ) : K := 1 - 1 / (scale : K)

variable (scale : ℕ) (hs : 0 < scale)
include hs

theorem scale_pos : (0 : K) < scale := Nat.cast_pos.mpr hs

theorem ratio_nonneg (n : ℕ) : (0 : K) ≤ ratio K scale n :=
  div_nonneg (Nat.cast_nonneg n) (scale_pos scale hs).le

theorem ratio_scale : ratio K scale scale = 1 := div_self (scale_pos scale hs).ne'

theorem one_le_ratio (n : ℕ) (h : scale ≤ n) : (1 : K) ≤ ratio K scale n := by
  rw [ratio, one_le_div (scale_pos scale hs)]
  exact Nat.cast_le.mpr h

theorem ratio_le_one (n : ℕ) (h : n ≤ scale) : ratio K scale n ≤ 1 := by
  rw [ratio, div_le_one (scale_pos scale hs)]
  exact Nat.cast_le.mpr h

theorem kept_nonneg : (0 : K) ≤ kept K scale := by
  rw [kept, sub_nonneg, div_le_one (scale_pos scale hs)]
  exact Nat.one_le_cast.mpr hs

/-- A floored product is at most the product. -/
theorem scaledMul_ratio_le (a b : ℕ) :
    ratio K scale (scaledMul scale a b) ≤ ratio K scale a * ratio K scale b := by
  have hfloor : ((a * b / scale : ℕ) : K) ≤ (a * b : ℕ) / (scale : K) := Nat.cast_div_le
  rw [ratio, ratio, ratio, scaledMul, div_mul_div_comm, ← div_div]
  rw [Nat.cast_mul] at hfloor
  exact div_le_div_of_nonneg_right hfloor (scale_pos scale hs).le

/-- A floored product loses less than one unit. -/
theorem le_scaledMul_ratio (a b : ℕ) :
    ratio K scale a * ratio K scale b ≤ ratio K scale (scaledMul scale a b) + 1 / scale := by
  have hpos := scale_pos (K := K) scale hs
  have hlt : a * b ≤ (scaledMul scale a b + 1) * scale := by
    rw [scaledMul, Nat.mul_comm _ scale]
    exact (Nat.lt_mul_div_succ (a * b) hs).le
  have hcast : (a : K) * b ≤ ((scaledMul scale a b : ℕ) + 1 : K) * scale := by exact_mod_cast hlt
  rw [ratio, ratio, ratio, div_mul_div_comm, ← add_div, ← div_div]
  exact div_le_div_of_nonneg_right ((div_le_iff₀ hpos).mpr hcast) hpos.le

/-- Where the product is at least one the loss is relative. -/
theorem kept_le_scaledMul (a b : ℕ) (ha : scale ≤ a) (hb : scale ≤ b) :
    ratio K scale a * ratio K scale b * kept K scale ≤ ratio K scale (scaledMul scale a b) := by
  have hle := le_scaledMul_ratio (K := K) scale hs a b
  have hone : (1 : K) ≤ ratio K scale a * ratio K scale b :=
    one_le_mul_of_one_le_of_one_le (one_le_ratio scale hs a ha) (one_le_ratio scale hs b hb)
  have hunit := mul_le_mul_of_nonneg_right hone (one_div_pos.mpr (scale_pos (K := K) scale hs)).le
  rw [kept, mul_sub, mul_one]
  linarith

omit [LinearOrder K] [IsStrictOrderedRing K] hs in
theorem pow_halves (b : K) (n : ℕ) :
    b ^ n = (if n % 2 = 1 then b else 1) * (b * b) ^ (n / 2) := by
  conv_lhs => rw [← Nat.mod_add_div n 2]
  rw [pow_add, pow_mul, pow_two]
  rcases Nat.mod_two_eq_zero_or_one n with h | h <;> simp [h]

/-- A floored power is at most the exact one. -/
theorem power_ratio_le (exponent : ℕ) : ∀ (result base : ℕ) (R B : K),
    ratio K scale result ≤ R → ratio K scale base ≤ B →
      ratio K scale (power scale exponent result base) ≤ R * B ^ exponent := by
  induction exponent using Nat.strong_induction_on with
  | h exponent ih =>
    intro result base R B hr hb
    have hR := (ratio_nonneg scale hs result).trans hr
    have hB := (ratio_nonneg scale hs base).trans hb
    have hmul : ∀ n A, 0 ≤ A → ratio K scale n ≤ A →
        ratio K scale (scaledMul scale n base) ≤ A * B := by
      intro n A hA hn
      exact (scaledMul_ratio_le scale hs n base).trans
        (mul_le_mul hn hb (ratio_nonneg scale hs base) hA)
    by_cases h0 : exponent = 0
    · subst h0
      simpa using hr
    · rw [power_step _ _ _ _ h0, pow_halves B exponent, ← mul_assoc]
      apply ih _ (by omega)
      · split_ifs
        · exact hmul result R hR hr
        · rwa [mul_one]
      · exact hmul base B hB hb

/-- Of factors at least one, a floored power keeps as many `kept` as its exponent says. -/
theorem kept_le_power (exponent : ℕ) : ∀ (result base s t : ℕ) (R B : K),
    0 ≤ R → 0 ≤ B → scale ≤ result → scale ≤ base →
      R * kept K scale ^ s ≤ ratio K scale result → B * kept K scale ^ t ≤ ratio K scale base →
      R * B ^ exponent * kept K scale ^ (s + exponent * (t + 1))
        ≤ ratio K scale (power scale exponent result base) := by
  induction exponent using Nat.strong_induction_on with
  | h exponent ih =>
    intro result base s t R B hR hB hresult hbase hr hb
    have hk := kept_nonneg (K := K) scale hs
    have hmul : ∀ n A u, scale ≤ n → 0 ≤ A → A * kept K scale ^ u ≤ ratio K scale n →
        A * B * kept K scale ^ (u + t + 1) ≤ ratio K scale (scaledMul scale n base) := by
      intro n A u hn hA hu
      calc A * B * kept K scale ^ (u + t + 1)
          = A * kept K scale ^ u * (B * kept K scale ^ t) * kept K scale := by ring
        _ ≤ ratio K scale n * ratio K scale base * kept K scale :=
          mul_le_mul_of_nonneg_right (mul_le_mul hu hb (mul_nonneg hB (pow_nonneg hk t))
            (ratio_nonneg scale hs n)) hk
        _ ≤ _ := kept_le_scaledMul scale hs n base hn hbase
    by_cases h0 : exponent = 0
    · subst h0
      simpa using hr
    · rw [power_step _ _ _ _ h0, pow_halves B exponent, ← mul_assoc]
      have hsquare := hmul base B t hbase hB hb
      have hgrown := le_scaledMul scale base base scale hs hbase hbase
      rcases Nat.mod_two_eq_zero_or_one exponent with hm | hm
      · rw [losses_halve, hm, if_neg (by decide), if_neg (by decide), if_neg (by decide), mul_one]
        exact ih _ (by omega) result _ s (t + t + 1) R (B * B) hR (mul_nonneg hB hB) hresult
          hgrown hr hsquare
      · rw [losses_halve, hm, if_pos rfl, if_pos rfl, if_pos rfl]
        exact ih _ (by omega) _ _ (s + t + 1) (t + t + 1) (R * B) (B * B) (mul_nonneg hR hB)
          (mul_nonneg hB hB) (le_scaledMul scale result base scale hs hresult hbase) hgrown
          (hmul result R s hresult hR hr) hsquare

/-- Of factors at most one, a floored power loses at most as many units as its exponent says. -/
theorem le_power_ratio (exponent : ℕ) : ∀ (result base s t : ℕ) (R B : K),
    R ≤ 1 → B ≤ 1 → ratio K scale result ≤ R → ratio K scale base ≤ B →
      R ≤ ratio K scale result + s / scale → B ≤ ratio K scale base + t / scale →
      R * B ^ exponent
        ≤ ratio K scale (power scale exponent result base)
          + ((s + exponent * (t + 1) : ℕ) : K) / scale := by
  induction exponent using Nat.strong_induction_on with
  | h exponent ih =>
    intro result base s t R B hR hB hrR hbB hr hb
    have hb0 := ratio_nonneg (K := K) scale hs base
    have hle : ∀ n A, ratio K scale n ≤ A →
        ratio K scale (scaledMul scale n base) ≤ A * B := by
      intro n A hn
      exact (scaledMul_ratio_le scale hs n base).trans
        (mul_le_mul hn hbB hb0 ((ratio_nonneg scale hs n).trans hn))
    have hmul : ∀ (n u : ℕ) (A : K), ratio K scale n ≤ A → A ≤ 1 →
        A ≤ ratio K scale n + u / scale →
        A * B ≤ ratio K scale (scaledMul scale n base) + ((u + t + 1 : ℕ) : K) / scale := by
      intro n u A hn hA hu
      have hn0 := ratio_nonneg (K := K) scale hs n
      have hfloor := le_scaledMul_ratio (K := K) scale hs n base
      have hfirst : (A - ratio K scale n) * B ≤ u / scale := by
        refine (mul_le_of_le_one_right (sub_nonneg.mpr hn) hB).trans ?_
        linarith
      have hsecond : ratio K scale n * (B - ratio K scale base) ≤ t / scale := by
        refine (mul_le_of_le_one_left (sub_nonneg.mpr hbB) (hn.trans hA)).trans ?_
        linarith
      have hsplit : A * B = (A - ratio K scale n) * B
          + ratio K scale n * (B - ratio K scale base) + ratio K scale n * ratio K scale base := by
        ring
      rw [Nat.cast_add, Nat.cast_add, Nat.cast_one, add_div, add_div]
      linarith
    by_cases h0 : exponent = 0
    · subst h0
      simpa using hr
    · rw [power_step _ _ _ _ h0, pow_halves B exponent, ← mul_assoc]
      have hB0 := hb0.trans hbB
      have hsquare := hmul base t B hbB hB hb
      have hBB : B * B ≤ 1 := mul_le_one₀ hB hB0 hB
      rcases Nat.mod_two_eq_zero_or_one exponent with hm | hm
      · rw [losses_halve, hm, if_neg (by decide), if_neg (by decide), if_neg (by decide), mul_one]
        exact ih (exponent / 2) (by omega) result _ s (t + t + 1) R (B * B) hR hBB hrR (hle base B hbB) hr
          hsquare
      · have hRB : R * B ≤ 1 := mul_le_one₀ hR hB0 hB
        rw [losses_halve, hm, if_pos rfl, if_pos rfl, if_pos rfl]
        exact ih (exponent / 2) (by omega) _ _ (s + t + 1) (t + t + 1) (R * B) (B * B) hRB hBB
          (hle result R hrR) (hle base B hbB) (hmul result s R hrR hR hr) hsquare

end

end LezPrograms.FlooredPower
