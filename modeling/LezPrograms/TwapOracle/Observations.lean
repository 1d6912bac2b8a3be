import LezPrograms.TwapOracle.Core

/-! # Recording and averaging observations

The arithmetic of `record_tick` and `publish_price` on the stored observations,
apart from the checks on accounts. -/

set_option autoImplicit false

namespace LezPrograms.TwapOracle
open LezPrograms.Checked LezPrograms.Lee

def lastIndex (observations : PriceObservations) : ℕ :=
  if observations.writeIndex.val = 0 then observationsCapacity - 1
  else observations.writeIndex.val - 1

/-- The slot of the oldest valid observation. -/
def windowStartIndex (observations : PriceObservations) : ℕ :=
  if observationsCapacity ≤ observations.totalEntries.val then observations.writeIndex.val else 0

def newestObservation (observations : PriceObservations) : Option ObservationEntry :=
  observations.entries[lastIndex observations]?

def windowStartObservation (observations : PriceObservations) : Option ObservationEntry :=
  observations.entries[windowStartIndex observations]?

def minInterval (windowDuration : U64) : U64 :=
  (windowDuration.divNat observationsCapacity).maximum ⟨1, by norm_num⟩

/-- `lastTick` moved toward `tick` by at most `MAX_TICK_DELTA`. -/
def clampedTick (lastTick tick : I32) : I32 :=
  lastTick.saturatingAdd ((tick.saturatingSub lastTick).clamp minTickDelta maxTickDelta)

def initialObservations (priceSourceId : AccountId) (initialTick : I32) (timestamp : U64) :
    PriceObservations :=
  { priceSourceId := priceSourceId
    writeIndex := ⟨1, by norm_num⟩
    totalEntries := ⟨1, by norm_num⟩
    lastRecordedTick := initialTick
    entries := (List.replicate observationsCapacity .zero).set 0 ⟨timestamp, ⟨0, zero_mem_i64⟩⟩ }

def nextObservation (last : ObservationEntry) (lastTick tick : I32) (now windowDuration : U64) :
    Outcome (Option ObservationEntry) := do
  let elapsedMs := now.saturatingSub last.timestamp
  if elapsedMs.val < (minInterval windowDuration).val then pure none
  else do
    let elapsed ← expect (Signed.tryFrom 64 elapsedMs.val) "elapsed_ms fits in i64"
    let cumulative ← expect
      ((((clampedTick lastTick tick).widen (by decide)).checkedMul elapsed).bind
        last.tickCumulative.checkedAdd) "tick_cumulative fits in i64"
    pure (some ⟨now, cumulative⟩)

/-- The observations after a call of `record_tick`; `none` when the guard skips the call. -/
def recordObservation (observations : PriceObservations) (tick : I32) (now windowDuration : U64) :
    Outcome (Option PriceObservations) := do
  let last ← expect (newestObservation observations) "last_index is within bounds"
  let next ← nextObservation last observations.lastRecordedTick tick now windowDuration
  match next with
  | none => pure none
  | some entry => do
    ensure (observations.writeIndex.val < observations.entries.length)
      "write_index is within bounds"
    let writeIndex ← expect
      (Unsigned.tryFrom 32 ((observations.writeIndex.val + 1) % observationsCapacity))
      "next write_index fits in u32"
    let totalEntries ← expect (observations.totalEntries.checkedAdd ⟨1, by norm_num⟩)
      "total_entries does not overflow"
    pure (some { observations with
      writeIndex := writeIndex
      totalEntries := totalEntries
      lastRecordedTick := clampedTick observations.lastRecordedTick tick
      entries := observations.entries.set observations.writeIndex.val entry })

/-- The tick that a publication at `now` averages from the observations and the current tick. -/
def twapTick (observations : PriceObservations) (current : CurrentTickAccount)
    (now windowDuration : U64) : Outcome I32 := do
  let t1 ← expect (windowStartObservation observations) "t1_index is within bounds"
  let t2 ← expect (newestObservation observations) "t2_index is within bounds"
  let maxTailMs := (minInterval windowDuration).saturatingMul maxTailIntervals
  ensure ((now.saturatingSub t2.timestamp).val ≤ maxTailMs.val)
    "PublishPrice: observations are stale; call RecordTick before publishing"
  let lastTick := observations.lastRecordedTick
  ensure (t2.timestamp.val ≤ now.val) "assertion failed: min <= max"
  let boundary := (current.lastUpdated.maximum t2.timestamp).minimum now
  let preMs ← expect (Signed.tryFrom 64 (boundary.saturatingSub t2.timestamp).val)
    "pre_ms fits in i64"
  let postMs ← expect (Signed.tryFrom 64 (now.saturatingSub boundary).val) "post_ms fits in i64"
  let preCumulative ← expect ((lastTick.widen (by decide)).checkedMul preMs)
    "pre-boundary tail cumulative fits in i64"
  let postCumulative ← expect
    (((clampedTick lastTick current.tick).widen (by decide)).checkedMul postMs)
    "post-boundary tail cumulative fits in i64"
  let cumulativeNow ← expect
    ((t2.tickCumulative.checkedAdd preCumulative).bind fun total =>
      total.checkedAdd postCumulative) "extrapolated tick_cumulative fits in i64"
  let elapsedMs ← expect (now.checkedSub t1.timestamp) "now >= t1.timestamp"
  let elapsed ← expect (Signed.tryFrom 64 elapsedMs.val) "elapsed_ms fits in i64"
  let difference ← expect (cumulativeNow.checkedSub t1.tickCumulative)
    "tick_cumulative difference fits in i64"
  let twap ← expect (difference.checkedDivEuclid elapsed) "elapsed_ms is non-zero"
  expect (Signed.tryFrom 32 twap.val) "TWAP tick fits in i32"

end LezPrograms.TwapOracle
