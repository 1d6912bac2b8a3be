import LezPrograms.Checked
import LezPrograms.Lee.Identifier

/-! # TWAP oracle data

The current tick follows the spot price that the price source reports; the
observations of a feed sample it into a ring buffer, from which the oracle
price is averaged. The conversions between ticks and square-root prices are
library functions of the source and stay parameters. -/

set_option autoImplicit false

namespace LezPrograms.TwapOracle
open LezPrograms.Checked LezPrograms.Lee

def maxTickDelta : I32 := ⟨9116, by norm_num⟩

def minTickDelta : I32 := ⟨-9116, by norm_num⟩

def observationsCapacity : ℕ := 2048

def maxTailIntervals : U64 := ⟨4, by norm_num⟩

structure ObservationEntry where
  timestamp : U64
  tickCumulative : I64
deriving DecidableEq

/-- `ObservationEntry::default()` -/
def ObservationEntry.zero : ObservationEntry := ⟨Unsigned.zero 64, ⟨0, by norm_num⟩⟩

structure PriceObservations where
  priceSourceId : AccountId
  writeIndex : U32
  totalEntries : U64
  lastRecordedTick : I32
  entries : List ObservationEntry
deriving DecidableEq

structure CurrentTickAccount where
  tick : I32
  lastUpdated : U64
deriving DecidableEq

structure OraclePriceAccount where
  baseAsset : AccountId
  quoteAsset : AccountId
  price : U128
  timestamp : U64
  sourceId : AccountId
  confidenceInterval : U128
deriving DecidableEq

inductive Instruction where
  | createPriceObservations (initialTick : I32) (windowDuration : U64)
  | createOraclePriceAccount (baseAsset quoteAsset : AccountId) (initialPrice : U128)
      (windowDuration : U64)
  | createCurrentTickAccount (initialPrice : U128)
  | updateCurrentTick (price : U128)
  | publishPrice (priceSourceId : AccountId) (windowDuration : U64)
  | recordTick (priceSourceId : AccountId) (windowDuration : U64)
deriving DecidableEq

def computePriceObservationsPdaSeed (priceSourceId : AccountId) (windowDuration : U64) : PdaSeed :=
  .account priceSourceId (.word windowDuration.val (.tag .priceObservations))

def computePriceObservationsPda (oracleProgramId priceSourceId : AccountId)
    (windowDuration : U64) : AccountId :=
  .forPublicPda oracleProgramId (computePriceObservationsPdaSeed priceSourceId windowDuration)

def computeOraclePriceAccountPdaSeed (priceSourceId : AccountId) (windowDuration : U64) :
    PdaSeed :=
  .account priceSourceId (.word windowDuration.val (.tag .oraclePriceAccount))

def computeOraclePriceAccountPda (oracleProgramId priceSourceId : AccountId)
    (windowDuration : U64) : AccountId :=
  .forPublicPda oracleProgramId (computeOraclePriceAccountPdaSeed priceSourceId windowDuration)

def computeCurrentTickAccountPdaSeed (priceSourceId : AccountId) : PdaSeed :=
  .account priceSourceId (.tag .currentTickAccount)

def computeCurrentTickAccountPda (oracleProgramId priceSourceId : AccountId) : AccountId :=
  .forPublicPda oracleProgramId (computeCurrentTickAccountPdaSeed priceSourceId)

structure TickMath where
  getTickAtSqrtRatio : U256 → Option I32
  getSqrtRatioAtTick : I32 → Option U256

/-- `MIN_TICK` of the tick-math library. -/
theorem minTick_mem_i32 :
    -(2 ^ (32 - 1) : ℕ) ≤ (-887272 : ℤ) ∧ (-887272 : ℤ) < (2 ^ (32 - 1) : ℕ) := by norm_num

def minTick : I32 := ⟨-887272, minTick_mem_i32⟩

/-- `MAX_TICK` of the tick-math library. -/
def maxTick : I32 := ⟨887272, by norm_num⟩

theorem minSqrtRatio_lt_u256 : 4295128739 < 2 ^ 256 := by norm_num

def minSqrtRatio : U256 := ⟨4295128739, minSqrtRatio_lt_u256⟩

/-- The `while` loop of the square root: the bit `d`, the root so far `c` and the rest `x`.
The rounds are counted, and a loop that outlasts them is an error of its own. -/
def integerSqrtLoop : ℕ → U256 → U256 → U256 → Outcome U256
  | 0, _, _, _ => .error "the square root does not terminate"
  | rounds + 1, d, c, x =>
    if d.val = 0 then .ok c
    else do
      let cd ← expect (c.checkedAdd d) "c + d stays below the root, no overflow"
      if cd.val ≤ x.val then do
        let x ← expect (x.checkedSub cd) "guarded by x >= cd"
        let c ← expect ((c.divNat 2).checkedAdd d) "c/2 + d stays below the root, no overflow"
        integerSqrtLoop rounds (d.divNat 4) c x
      else integerSqrtLoop rounds (d.divNat 4) (c.divNat 2) x

def leadingZeros (n : U256) : ℕ := if n.val = 0 then 256 else 255 - n.val.log2

/-- `255usize.checked_sub(n.leading_zeros())` -/
def mostSignificantBit (n : U256) : Option ℕ :=
  if leadingZeros n ≤ 255 then some (255 - leadingZeros n) else none

def integerSqrt (n : U256) : Outcome U256 :=
  if n.val = 0 then .ok (Unsigned.zero 256)
  else do
    let msb ← expect (mostSignificantBit n) "n is non-zero, so leading_zeros <= 255"
    let start := msb / 2 * 2
    let d ← expect (Unsigned.tryFrom 256 (2 ^ start)) "start < 256"
    integerSqrtLoop 129 d (Unsigned.zero 256) n

def priceToTick (tickMath : TickMath) (price : U128) : Outcome I32 := do
  let shifted ← expect (Unsigned.tryFrom 256 (price.val * 2 ^ 128))
    "price < 2^128, so price << 128 fits in U256"
  let root ← integerSqrt shifted
  expect (tickMath.getTickAtSqrtRatio (root.maximum minSqrtRatio))
    "sqrt_price_x96 is clamped into [MIN_SQRT_RATIO, MAX_SQRT_RATIO)"

def tickToOraclePrice (tickMath : TickMath) (tick : I32) : Outcome U128 := do
  let sqrtPriceX96 ← expect (tickMath.getSqrtRatioAtTick (tick.clamp minTick maxTick))
    "clamped tick is within [MIN_TICK, MAX_TICK]"
  let price ← expect (Unsigned.tryFrom 256 (sqrtPriceX96.val * sqrtPriceX96.val / 2 ^ 128))
    "1.0001^tick * 2^64 fits in U256 for any valid tick"
  pure ((Unsigned.tryFrom 128 price.val).getD (Unsigned.maxValue 128))

end LezPrograms.TwapOracle
