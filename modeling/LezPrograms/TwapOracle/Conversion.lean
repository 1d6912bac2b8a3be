import Mathlib
import LezPrograms.TwapOracle.SquareRoot

/-! # Prices between ticks

A price is sent to the greatest tick whose square-root price is at most its own. The two
conversions round at different precisions, and both roundings stay on the side of the price
that they are on, so the oracle prices of the tick and of the next one enclose the price. -/

set_option autoImplicit false

namespace LezPrograms.TwapOracle
open LezPrograms.Checked LezPrograms.Checked.Unsigned LezPrograms.Lee

/-- `MAX_SQRT_RATIO` of the tick-math library. -/
def maxSqrtRatio : U256 := ⟨1461446703485210103287273052203988822378723970342, by norm_num⟩

def Tick (tick : I32) : Prop := minTick.val ≤ tick.val ∧ tick.val ≤ maxTick.val

instance (tick : I32) : Decidable (Tick tick) := inferInstanceAs (Decidable (_ ∧ _))

/-- The ticks have square-root prices that grow from the least to the greatest one, and a
square-root price below the greatest has the greatest tick whose own is at most it. -/
structure TickMath.Tabulated (tickMath : TickMath) : Prop where
  defined : ∀ tick, Tick tick → ∃ ratio, tickMath.getSqrtRatioAtTick tick = some ratio
  monotone : ∀ t t' r r', Tick t → Tick t' → t.val ≤ t'.val →
    tickMath.getSqrtRatioAtTick t = some r → tickMath.getSqrtRatioAtTick t' = some r' →
    r.val ≤ r'.val
  least : tickMath.getSqrtRatioAtTick minTick = some minSqrtRatio
  greatest : tickMath.getSqrtRatioAtTick maxTick = some maxSqrtRatio
  located : ∀ ratio : U256, minSqrtRatio.val ≤ ratio.val → ratio.val < maxSqrtRatio.val →
    ∃ tick, tickMath.getTickAtSqrtRatio ratio = some tick ∧ Tick tick ∧
      (∀ r, tickMath.getSqrtRatioAtTick tick = some r → r.val ≤ ratio.val) ∧
      ∀ later r, Tick later → tick.val < later.val →
        tickMath.getSqrtRatioAtTick later = some r → ratio.val < r.val

theorem sqrtPriceX96_mono (p q : U128) (h : p.val ≤ q.val) : sqrtPriceX96 p ≤ sqrtPriceX96 q := by
  have hroot := Nat.sqrt_le_sqrt (Nat.mul_le_mul_right (2 ^ 128) h)
  unfold sqrtPriceX96
  omega

/-- The oracle price of a tick is its squared square-root price, shifted and saturated. -/
theorem tickToOraclePrice_of_ratio (tickMath : TickMath) (tick : I32) (ratio : U256)
    (htick : Tick tick) (h : tickMath.getSqrtRatioAtTick tick = some ratio)
    (hmax : ratio.val ≤ maxSqrtRatio.val) :
    ∃ price, tickToOraclePrice tickMath tick = .ok price ∧
      price.val = min (ratio.val * ratio.val / 2 ^ 128) (2 ^ 128 - 1) := by
  have hmaxVal : maxSqrtRatio.val = 1461446703485210103287273052203988822378723970342 := rfl
  have hclamp : tick.clamp minTick maxTick = tick :=
    Signed.ext (by rw [Signed.clamp_val _ _ _ (by decide)]; have := htick.1; have := htick.2; omega)
  have hfits : ratio.val * ratio.val / 2 ^ 128 < 2 ^ 256 := by
    refine lt_of_le_of_lt (Nat.div_le_div_right (Nat.mul_le_mul hmax hmax)) ?_
    rw [hmaxVal]
    decide +kernel
  rw [tickToOraclePrice, hclamp, h, expect_some, ok_bind, tryFrom_of_lt _ hfits, expect_some, ok_bind]
  refine ⟨_, rfl, ?_⟩
  cases hnarrow : tryFrom 128 (ratio.val * ratio.val / 2 ^ 128) with
  | some price =>
    have hval := (tryFrom_eq_some _ price).mp hnarrow
    have hlt := price.isLt
    rw [Option.getD_some, hval, min_eq_left (by omega)]
  | none =>
    have hlarge := (tryFrom_eq_none _).mp hnarrow
    rw [Option.getD_none, min_eq_right (by omega)]
    rfl

theorem TickMath.Tabulated.ratio_le (tickMath : TickMath) (h : tickMath.Tabulated) (tick : I32)
    (ratio : U256) (htick : Tick tick) (hr : tickMath.getSqrtRatioAtTick tick = some ratio) :
    ratio.val ≤ maxSqrtRatio.val :=
  h.monotone tick maxTick ratio _ htick (by decide) htick.2 hr h.greatest

/-- The tick of a price: its square-root price is at most the one of the price, and those of
all later ticks are above. -/
theorem TickMath.Tabulated.locates (tickMath : TickMath) (h : tickMath.Tabulated) (price : U128) :
    ∃ tick, priceToTick tickMath price = .ok tick ∧ Tick tick ∧ tick.val < maxTick.val ∧
      (∀ r, tickMath.getSqrtRatioAtTick tick = some r → r.val ≤ sqrtPriceX96 price) ∧
      ∀ later r, Tick later → tick.val < later.val →
        tickMath.getSqrtRatioAtTick later = some r → sqrtPriceX96 price < r.val := by
  have hle := sqrtPriceX96_le price
  have hmaxVal : maxSqrtRatio.val = 1461446703485210103287273052203988822378723970342 := rfl
  have hfits : sqrtPriceX96 price < 2 ^ 256 := lt_of_le_of_lt hle (by decide)
  have hbelow : sqrtPriceX96 price < maxSqrtRatio.val := lt_of_le_of_lt hle (by rw [hmaxVal]; norm_num)
  obtain ⟨tick, hlocated, htick, hat, hlater⟩ := h.located ⟨_, hfits⟩ (le_max_right _ _) hbelow
  refine ⟨tick, (priceToTick_eq_ok _ _ _).mpr ⟨_, rfl, hlocated⟩, htick, ?_, hat, hlater⟩
  refine lt_of_le_of_ne htick.2 fun hlast => ?_
  have hsame : tick = maxTick := Signed.ext hlast
  have habove := hat maxSqrtRatio (hsame ▸ h.greatest)
  exact absurd habove (not_le.mpr hbelow)

/-- Squaring a square-root price at or below the clamped one does not pass the price. -/
theorem square_le_price (price : U128) (r : ℕ) (h : r ≤ sqrtPriceX96 price) :
    r * r / 2 ^ 128 ≤ price.val := by
  rw [sqrtPriceX96, le_max_iff] at h
  rcases h with hroot | hleast
  · have hsquare : r * r ≤ price.val * 2 ^ 128 := Nat.le_sqrt.mp hroot
    exact Nat.div_le_of_le_mul (hsquare.trans_eq (Nat.mul_comm _ _))
  · -- only the price zero is clamped, and the square of the clamp is shifted away
    have hvanishes : minSqrtRatio.val * minSqrtRatio.val / 2 ^ 128 = 0 := by decide +kernel
    exact (Nat.div_le_div_right (Nat.mul_le_mul hleast hleast)).trans
      (hvanishes.le.trans (Nat.zero_le _))

theorem price_le_square (price : U128) (r : ℕ) (h : sqrtPriceX96 price < r) :
    price.val ≤ r * r / 2 ^ 128 := by
  have hroot : (price.val * 2 ^ 128).sqrt < r := lt_of_le_of_lt (le_max_left _ _) h
  rw [Nat.le_div_iff_mul_le (Nat.two_pow_pos 128)]
  exact (Nat.sqrt_lt.mp hroot).le

/-- Every price has a tick, greater prices have no smaller ticks, and the oracle prices of the
tick and of the next one enclose the price. -/
theorem tick_prices_bracket (tickMath : TickMath) (h : tickMath.Tabulated) :
    (∀ price : U128, ∃ tick, priceToTick tickMath price = .ok tick ∧
      ∃ next : I32, next.val = tick.val + 1 ∧
      ∃ low high, tickToOraclePrice tickMath tick = .ok low ∧
        tickToOraclePrice tickMath next = .ok high ∧
        low.val ≤ price.val ∧ price.val ≤ high.val) ∧
    ∀ p q : U128, ∀ s t, p.val ≤ q.val → priceToTick tickMath p = .ok s →
      priceToTick tickMath q = .ok t → s.val ≤ t.val := by
  refine ⟨fun price => ?_, fun p q s t hle hs ht => ?_⟩
  · obtain ⟨tick, htick, hrange, hlast, hat, hlater⟩ := h.locates tickMath price
    have hmaxTick : maxTick.val = 887272 := rfl
    have hminTick : minTick.val = -887272 := rfl
    obtain ⟨hlow, hhigh⟩ := hrange
    let next : I32 := ⟨tick.val + 1, by omega, by omega⟩
    have hnext : Tick next := ⟨by change _ ≤ tick.val + 1; omega, hlast⟩
    obtain ⟨r, hr⟩ := h.defined tick ⟨hlow, hhigh⟩
    obtain ⟨r', hr'⟩ := h.defined next hnext
    obtain ⟨low, hlowOk, hlowVal⟩ := tickToOraclePrice_of_ratio tickMath tick r ⟨hlow, hhigh⟩ hr
      (h.ratio_le tickMath tick r ⟨hlow, hhigh⟩ hr)
    obtain ⟨high, hhighOk, hhighVal⟩ := tickToOraclePrice_of_ratio tickMath next r' hnext hr'
      (h.ratio_le tickMath next r' hnext hr')
    have hbelow := square_le_price price r.val (hat r hr)
    have habove := price_le_square price r'.val (hlater next r' hnext (Int.lt_succ _) hr')
    have hprice := price.isLt
    exact ⟨tick, htick, next, rfl, low, high, hlowOk, hhighOk, by omega, by omega⟩
  · obtain ⟨s', hs', hrange, -, hat, -⟩ := h.locates tickMath p
    obtain ⟨t', ht', -, -, -, hlater⟩ := h.locates tickMath q
    cases hs.symm.trans hs'
    cases ht.symm.trans ht'
    by_contra hlt
    obtain ⟨r, hr⟩ := h.defined s hrange
    have hp := hat r hr
    have hq := hlater s r hrange (not_le.mp hlt) hr
    have hmono := sqrtPriceX96_mono p q hle
    omega

/-- The square-root prices of the ticks -1, 0 and 1 and of the extremes, with nothing between
them. -/
def unitRatio (tick : ℤ) : U256 :=
  if tick < -1 then minSqrtRatio
  else if tick = -1 then ⟨79224201403219477170569942574, by norm_num⟩
  else if tick = 0 then ⟨2 ^ 96, two_pow_96_lt_u256⟩
  else if tick < maxTick.val then ⟨79232123823359799118286999568, by norm_num⟩
  else maxSqrtRatio

def unitTickMath : TickMath where
  getSqrtRatioAtTick tick := if Tick tick then some (unitRatio tick.val) else none
  getTickAtSqrtRatio ratio :=
    if ratio.val < minSqrtRatio.val ∨ maxSqrtRatio.val ≤ ratio.val then none
    else if ratio.val < 79224201403219477170569942574 then some ⟨-2, by norm_num⟩
    else if ratio.val < 2 ^ 96 then some ⟨-1, by norm_num⟩
    else if ratio.val < 79232123823359799118286999568 then some ⟨0, zero_mem_i32⟩
    else some ⟨887271, by norm_num⟩

theorem unitRatio_mono (s t : ℤ) (h : s ≤ t) : (unitRatio s).val ≤ (unitRatio t).val := by
  have hmaxTick : maxTick.val = 887272 := rfl
  unfold unitRatio minSqrtRatio maxSqrtRatio
  split_ifs <;> first | omega | decide

theorem unitTickMath_ratio (tick : I32) (r : U256)
    (h : unitTickMath.getSqrtRatioAtTick tick = some r) : r = unitRatio tick.val := by
  simp only [unitTickMath] at h
  split at h
  · exact (Option.some.inj h).symm
  · cases h

theorem unitTickMath_tabulated : unitTickMath.Tabulated where
  defined tick h := ⟨_, if_pos h⟩
  monotone := by
    intro t t' r r' _ _ hle hr hr'
    rw [unitTickMath_ratio t r hr, unitTickMath_ratio t' r' hr']
    exact unitRatio_mono _ _ hle
  least := by decide +kernel
  greatest := by decide +kernel
  located := by
    intro ratio hlow hhigh
    have hmaxTick : maxTick.val = 887272 := rfl
    have hlocate : ∀ (tick : I32) (low high : U256), Tick tick → unitRatio tick.val = low →
        unitRatio (tick.val + 1) = high → unitTickMath.getTickAtSqrtRatio ratio = some tick →
        low.val ≤ ratio.val → ratio.val < high.val →
        ∃ tick, unitTickMath.getTickAtSqrtRatio ratio = some tick ∧ Tick tick ∧
          (∀ r, unitTickMath.getSqrtRatioAtTick tick = some r → r.val ≤ ratio.val) ∧
          ∀ later r, Tick later → tick.val < later.val →
            unitTickMath.getSqrtRatioAtTick later = some r → ratio.val < r.val := by
      rintro tick _ _ htick rfl rfl hat hbelow habove
      refine ⟨tick, hat, htick, fun r hr => ?_, fun later r _ hlt hr => ?_⟩
      · rwa [unitTickMath_ratio tick r hr]
      · rw [unitTickMath_ratio later r hr]
        exact lt_of_lt_of_le habove (unitRatio_mono _ _ hlt)
    by_cases hminus : ratio.val < 79224201403219477170569942574
    · refine hlocate ⟨-2, by norm_num⟩ minSqrtRatio ⟨79224201403219477170569942574, by norm_num⟩
        (by decide) rfl rfl ?_ hlow hminus
      rw [unitTickMath]
      simp only [not_lt.mpr hlow, not_le.mpr hhigh, or_self, if_false, if_pos hminus]
    by_cases hone : ratio.val < 2 ^ 96
    · refine hlocate ⟨-1, by norm_num⟩ ⟨79224201403219477170569942574, by norm_num⟩ ⟨2 ^ 96, by norm_num⟩
        (by decide) rfl rfl ?_ (not_lt.mp hminus) hone
      rw [unitTickMath]
      simp only [not_lt.mpr hlow, not_le.mpr hhigh, or_self, if_false, if_neg hminus, if_pos hone]
    by_cases hplus : ratio.val < 79232123823359799118286999568
    · refine hlocate ⟨0, by norm_num⟩ ⟨2 ^ 96, by norm_num⟩ ⟨79232123823359799118286999568, by norm_num⟩
        (by decide) rfl rfl ?_ (not_lt.mp hone) hplus
      rw [unitTickMath]
      simp only [not_lt.mpr hlow, not_le.mpr hhigh, or_self, if_false, if_neg hminus, if_neg hone,
        if_pos hplus]
    · refine hlocate ⟨887271, by norm_num⟩ ⟨79232123823359799118286999568, by norm_num⟩ maxSqrtRatio
        (by decide) rfl rfl ?_ (not_lt.mp hplus) hhigh
      rw [unitTickMath]
      simp only [not_lt.mpr hlow, not_le.mpr hhigh, or_self, if_false, if_neg hminus, if_neg hone,
        if_neg hplus]

/-- The price one is at the tick zero. -/
theorem unit_price_bracketed :
    unitTickMath.Tabulated ∧ ∃ tick, priceToTick unitTickMath ⟨2 ^ 64, by norm_num⟩ = .ok tick ∧
      tick.val = 0 ∧ ∃ next : I32, next.val = tick.val + 1 ∧
      ∃ low high, tickToOraclePrice unitTickMath tick = .ok low ∧
        tickToOraclePrice unitTickMath next = .ok high ∧ low.val ≤ 2 ^ 64 ∧ 2 ^ 64 ≤ high.val := by
  obtain ⟨tick, htick, hrest⟩ :=
    (tick_prices_bracket unitTickMath unitTickMath_tabulated).1 ⟨2 ^ 64, by norm_num⟩
  have hzero : priceToTick unitTickMath ⟨2 ^ 64, by norm_num⟩ = .ok ⟨0, by norm_num⟩ := by
    decide +kernel
  cases hzero.symm.trans htick
  exact ⟨unitTickMath_tabulated, _, hzero, rfl, hrest⟩

end LezPrograms.TwapOracle
