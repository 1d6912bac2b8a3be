import LezPrograms.TwapOracle.SquareRoot

/-! # A table of ticks

The tick-math library is a parameter of the development. Concrete runs take the usual
computation: a square-root price is a product of tabulated powers, one for each bit of
the tick, and the tick of a square-root price is found bit by bit. -/

set_option autoImplicit false

namespace LezPrograms.TwapOracle
open LezPrograms.Checked LezPrograms.Checked.Unsigned

/-- The inverse square roots of `1.0001 ^ (2 ^ bit)`, with 128 fractional bits. -/
def tickPowers : List ℕ :=
  [340265354078544963557816517032075149313, 340248342086729790484326174814286782778,
    340214320654664324051920982716015181260, 340146287995602323631171512101879684304,
    340010263488231146823593991679159461444, 339738377640345403697157401104375502016,
    339195258003219555707034227454543997025, 338111622100601834656805679988414885971,
    335954724994790223023589805789778977700, 331682121138379247127172139078559817300,
    323299236684853023288211250268160618739, 307163716377032989948697243942600083929,
    277268403626896220162999269216087595045, 225923453940442621947126027127485391333,
    149997214084966997727330242082538205943, 66119101136024775622716233608466517926,
    12847376061809297530290974190478138313, 485053260817066172746253684029974020,
    691415978906521570653435304214168, 1404880482679654955896180642]

def powerProduct : List ℕ → ℕ → ℕ → ℕ
  | [], _, ratio => ratio
  | power :: powers, bits, ratio =>
    powerProduct powers (bits / 2) (if bits % 2 = 1 then ratio * power / 2 ^ 128 else ratio)

def tableRatio (tick : ℤ) : ℕ :=
  let inverse := powerProduct tickPowers tick.natAbs (2 ^ 128)
  ((if 0 < tick then (2 ^ 256 - 1) / inverse else inverse) + (2 ^ 32 - 1)) / 2 ^ 32

/-- The greatest tick from `tick` on, by less than `2 ^ bits`, whose ratio is at most `ratio`. -/
def tableTick (ratio : ℕ) : ℕ → ℤ → ℤ
  | 0, tick => tick
  | bits + 1, tick =>
    if tick + 2 ^ bits ≤ maxTick.val ∧ tableRatio (tick + 2 ^ bits) ≤ ratio then
      tableTick ratio bits (tick + 2 ^ bits)
    else tableTick ratio bits tick

def tableTickMath : TickMath where
  getTickAtSqrtRatio ratio :=
    if minSqrtRatio.val ≤ ratio.val ∧ ratio.val < tableRatio maxTick.val then
      Signed.tryFrom 32 (tableTick ratio.val 21 minTick.val)
    else none
  getSqrtRatioAtTick tick :=
    if minTick.val ≤ tick.val ∧ tick.val ≤ maxTick.val then tryFrom 256 (tableRatio tick.val)
    else none

theorem tableTick_range (ratio bits : ℕ) (tick : ℤ) (hmin : minTick.val ≤ tick)
    (hmax : tick ≤ maxTick.val) :
    minTick.val ≤ tableTick ratio bits tick ∧ tableTick ratio bits tick ≤ maxTick.val := by
  induction bits generalizing tick with
  | zero => exact ⟨hmin, hmax⟩
  | succ bits ih =>
    rw [tableTick]
    split
    · rename_i h
      have hstep : (0 : ℤ) ≤ 2 ^ bits := by positivity
      exact ih _ (by omega) h.1
    · exact ih _ hmin hmax

theorem tableTickMath_covers : tableTickMath.Covers := by
  intro ratio hleast hratio
  have hgreatest : 2 ^ 128 < tableRatio maxTick.val := by decide +kernel
  obtain ⟨hmin, hmax⟩ := tableTick_range ratio.val 21 minTick.val le_rfl (by decide)
  have hminTick : minTick.val = -887272 := rfl
  have hmaxTick : maxTick.val = 887272 := rfl
  obtain ⟨tick, htick⟩ := Signed.exists_tryFrom 32 (tableTick ratio.val 21 minTick.val)
    ⟨by norm_num; omega, by norm_num; omega⟩
  exact ⟨tick, (if_pos ⟨hleast, lt_of_le_of_lt hratio hgreatest⟩).trans htick⟩

/-- A quarter of the price one is 13864 ticks below it. -/
example : tableTickMath.getTickAtSqrtRatio ⟨2 ^ 95, by norm_num⟩ = some ⟨-13864, by norm_num⟩ := by
  decide +kernel

end LezPrograms.TwapOracle
