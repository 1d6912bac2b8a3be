import Mathlib.Algebra.Order.Ring.Nat
import Mathlib.Tactic.Linarith
import Mathlib.Tactic.Ring

/-! # Powers by squaring with a floor after every multiplication

A fixed-point number with scale `scale` stands for `n / scale`. The product of
two such numbers is floored, so a power computed by squaring is not the power
of the represented rational. The bounds here hold for the computed value. They
follow the loop: a factor is described by its distance from `scale`, and the
distances of `result` and `base`, the latter weighted by the exponent left to
process, form a budget that no iteration increases. -/

set_option autoImplicit false

namespace LezPrograms.FlooredPower

def scaledMul (scale a b : ℕ) : ℕ := a * b / scale

def power (scale exponent result base : ℕ) : ℕ :=
  if exponent = 0 then result
  else power scale (exponent / 2)
    (if exponent % 2 = 1 then scaledMul scale result base else result)
    (if 0 < exponent / 2 then scaledMul scale base base else base)
termination_by exponent
decreasing_by omega

@[simp] theorem power_zero (scale result base : ℕ) : power scale 0 result base = result := by
  rw [power]
  simp

theorem power_pos (scale exponent result base : ℕ) (h : exponent ≠ 0) :
    power scale exponent result base = power scale (exponent / 2)
      (if exponent % 2 = 1 then scaledMul scale result base else result)
      (if 0 < exponent / 2 then scaledMul scale base base else base) := by
  rw [power]
  simp [h]

theorem scaledMul_le (scale a b c : ℕ) (ha : a ≤ c) (hb : b ≤ scale) :
    scaledMul scale a b ≤ c := by
  rw [scaledMul]
  apply Nat.div_le_of_le_mul
  calc a * b ≤ c * scale := Nat.mul_le_mul ha hb
    _ = scale * c := Nat.mul_comm _ _

theorem le_scaledMul (scale a b c : ℕ) (hs : 0 < scale) (ha : c ≤ a) (hb : scale ≤ b) :
    c ≤ scaledMul scale a b := by
  rw [scaledMul, Nat.le_div_iff_mul_le hs]
  exact Nat.mul_le_mul ha hb

theorem scaledMul_deficit (scale a b s t : ℕ) (hs : 0 < scale)
    (ha : scale ≤ a + s) (hb : scale ≤ b + t) : scale ≤ scaledMul scale a b + (s + t) := by
  by_cases h : scale ≤ s + t
  · omega
  · have hst : s + t < scale := by omega
    have hprod : scale * (scale - (s + t)) ≤ a * b := by
      obtain ⟨u, rfl⟩ : ∃ u, scale = s + t + u := ⟨scale - (s + t), by omega⟩
      have h1 : t + u ≤ a := by omega
      have h2 : s + u ≤ b := by omega
      have h3 : (t + u) * (s + u) ≤ a * b := Nat.mul_le_mul h1 h2
      have h4 : s + t + u - (s + t) = u := by omega
      rw [h4]
      nlinarith [Nat.zero_le (t * s)]
    have hdiv : scale - (s + t) ≤ a * b / scale := by
      rw [Nat.le_div_iff_mul_le hs]
      calc (scale - (s + t)) * scale = scale * (scale - (s + t)) := Nat.mul_comm _ _
        _ ≤ a * b := hprod
    rw [scaledMul]
    omega

/-- The floors lose nothing against the linear lower bound of the power. -/
theorem power_deficit (scale : ℕ) (hs : 0 < scale) (exponent : ℕ) :
    ∀ (result base s t : ℕ), scale ≤ result + s → scale ≤ base + t →
      scale ≤ power scale exponent result base + (s + exponent * t) := by
  induction exponent using Nat.strong_induction_on with
  | h exponent ih =>
    intro result base s t hr hb
    by_cases h0 : exponent = 0
    · subst h0
      simpa using hr
    · rw [power_pos _ _ _ _ h0]
      have hlt : exponent / 2 < exponent := by omega
      have hbase : scale ≤ (if 0 < exponent / 2 then scaledMul scale base base else base)
          + (if 0 < exponent / 2 then t + t else t) := by
        split
        · exact scaledMul_deficit scale base base t t hs hb hb
        · exact hb
      have hresult : scale ≤ (if exponent % 2 = 1 then scaledMul scale result base else result)
          + (if exponent % 2 = 1 then s + t else s) := by
        split
        · exact scaledMul_deficit scale result base s t hs hr hb
        · exact hr
      have hstep := ih _ hlt _ _ _ _ hresult hbase
      have hbudget : (if exponent % 2 = 1 then s + t else s)
          + exponent / 2 * (if 0 < exponent / 2 then t + t else t) ≤ s + exponent * t := by
        have hsplit : exponent = 2 * (exponent / 2) + exponent % 2 := by omega
        have hmul : exponent * t = exponent / 2 * (t + t) + exponent % 2 * t := by
          conv_lhs => rw [hsplit]
          ring
        rw [hmul]
        rcases Nat.mod_two_eq_zero_or_one exponent with hm | hm <;>
          by_cases hp : 0 < exponent / 2 <;> simp [hm, hp] <;> first | omega | nlinarith
      omega

theorem scaledMul_excess (scale a b s t : ℕ) (hs : 0 < scale) (hst : s + t ≤ scale)
    (ha : a * (scale - s) ≤ scale * scale) (hb : b * (scale - t) ≤ scale * scale) :
    scaledMul scale a b * (scale - (s + t)) ≤ scale * scale := by
  have hprod : scale * (scale - (s + t)) ≤ (scale - s) * (scale - t) := by
    obtain ⟨u, rfl⟩ : ∃ u, scale = s + t + u := ⟨scale - (s + t), by omega⟩
    have h1 : s + t + u - s = t + u := by omega
    have h2 : s + t + u - t = s + u := by omega
    have h3 : s + t + u - (s + t) = u := by omega
    rw [h1, h2, h3]
    nlinarith [Nat.zero_le (t * s)]
  have hfloor : scaledMul scale a b * scale ≤ a * b := Nat.div_mul_le_self _ _
  have hchain : scaledMul scale a b * (scale - (s + t)) * (scale * scale)
      ≤ scale * scale * (scale * scale) := by
    calc scaledMul scale a b * (scale - (s + t)) * (scale * scale)
        = scaledMul scale a b * scale * (scale * (scale - (s + t))) := by ring
      _ ≤ a * b * ((scale - s) * (scale - t)) := Nat.mul_le_mul hfloor hprod
      _ = a * (scale - s) * (b * (scale - t)) := by ring
      _ ≤ scale * scale * (scale * scale) := Nat.mul_le_mul ha hb
  exact Nat.le_of_mul_le_mul_right hchain (Nat.mul_pos hs hs)

/-- The value is within the excess that the linear budget allows. -/
theorem power_excess (scale : ℕ) (hs : 0 < scale) (exponent : ℕ) :
    ∀ (result base s t : ℕ), s + exponent * t ≤ scale →
      result * (scale - s) ≤ scale * scale → base * (scale - t) ≤ scale * scale →
      power scale exponent result base * (scale - (s + exponent * t)) ≤ scale * scale := by
  induction exponent using Nat.strong_induction_on with
  | h exponent ih =>
    intro result base s t hbudget hr hb
    by_cases h0 : exponent = 0
    · subst h0
      simpa using hr
    · rw [power_pos _ _ _ _ h0]
      have hsplit : exponent * t = exponent / 2 * (t + t) + exponent % 2 * t := by
        conv_lhs => rw [← Nat.div_add_mod exponent 2]
        ring
      have hlt : exponent / 2 < exponent := by omega
      rcases Nat.eq_zero_or_pos (exponent / 2) with hp | hp
      · have hm : exponent % 2 = 1 := by omega
        have he : exponent = 1 := by omega
        subst he
        simpa using scaledMul_excess scale result base s t hs (by omega) hr hb
      · have htt : t + t ≤ exponent / 2 * (t + t) := Nat.le_mul_of_pos_left _ hp
        have hbase := scaledMul_excess scale base base t t hs (by omega) hb hb
        rcases Nat.mod_two_eq_zero_or_one exponent with hm | hm
        · have := ih _ hlt result (scaledMul scale base base) s (t + t)
            (by rw [hm] at hsplit; omega) hr hbase
          rw [hm] at hsplit
          simpa [hm, hp, hsplit] using this
        · rw [hm] at hsplit
          have hres := scaledMul_excess scale result base s t hs (by omega) hr hb
          have := ih _ hlt _ (scaledMul scale base base) (s + t) (t + t) (by omega) hres hbase
          have hsum : s + t + exponent / 2 * (t + t) = s + exponent * t := by omega
          rw [hsum] at this
          simpa [hm, hp] using this

theorem power_le (scale exponent : ℕ) :
    ∀ (result base : ℕ), result ≤ scale → base ≤ scale →
      power scale exponent result base ≤ scale := by
  induction exponent using Nat.strong_induction_on with
  | h exponent ih =>
    intro result base hr hb
    by_cases h0 : exponent = 0
    · subst h0
      simpa using hr
    · rw [power_pos _ _ _ _ h0]
      apply ih _ (by omega)
      · split
        · exact scaledMul_le scale result base scale hr hb
        · exact hr
      · split
        · exact scaledMul_le scale base base scale hb hb
        · exact hb

theorem le_power (scale : ℕ) (hs : 0 < scale) (exponent : ℕ) :
    ∀ (result base : ℕ), scale ≤ base → result ≤ power scale exponent result base := by
  induction exponent using Nat.strong_induction_on with
  | h exponent ih =>
    intro result base hb
    by_cases h0 : exponent = 0
    · subst h0
      simp
    · rw [power_pos _ _ _ _ h0]
      refine le_trans ?_ (ih _ (by omega) _ _ ?_)
      · split
        · exact le_scaledMul scale result base result hs le_rfl hb
        · exact le_rfl
      · split
        · exact le_scaledMul scale base base scale hs hb hb
        · exact hb

end LezPrograms.FlooredPower
