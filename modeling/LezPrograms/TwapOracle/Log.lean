import LezPrograms.RingBuffer
import Mathlib.Data.List.Chain
import LezPrograms.TwapOracle.Observations

/-! # The log behind the observations

A feed without a capacity would append every observation to a log. The stored
observations are the ring buffer of that log: a call of `record_tick` appends to
both alike, and what a publication reads is what the log would give it. -/

set_option autoImplicit false

namespace LezPrograms.TwapOracle
open LezPrograms.Checked LezPrograms.Lee

structure Recorded where
  entry : ObservationEntry
  tick : I32

structure Reading where
  now : U64
  tick : I32

structure History where
  initialTick : I32
  createdAt : U64
  readings : List Reading

def History.first (h : History) : Recorded := ⟨⟨h.createdAt, ⟨0, zero_mem_i64⟩⟩, h.initialTick⟩

def appendReading (windowDuration : U64) (log : List Recorded) (reading : Reading) :
    Outcome (List Recorded) := do
  let last ← expect log.getLast? "the log starts with the first observation"
  let next ← nextObservation last.entry last.tick reading.tick reading.now windowDuration
  match next with
  | none => pure log
  | some entry => pure (log ++ [⟨entry, clampedTick last.tick reading.tick⟩])

def History.log (windowDuration : U64) (h : History) : Outcome (List Recorded) :=
  h.readings.foldlM (appendReading windowDuration) [h.first]

theorem minTickDelta_le : minTickDelta.val ≤ maxTickDelta.val := by decide

theorem clampedTick_val (lastTick tick : I32) :
    (clampedTick lastTick tick).val
      = max (lastTick.val - 9116) (min (lastTick.val + 9116) tick.val) := by
  have h1 := lastTick.range
  have h2 := tick.range
  have hmin : minTickDelta.val = -9116 := rfl
  have hmax : maxTickDelta.val = 9116 := rfl
  have hclamp := Signed.clamp_val (tick.saturatingSub lastTick) _ _ minTickDelta_le
  simp only [Signed.saturatingSub] at hclamp
  simp only [clampedTick, Signed.saturatingAdd, Signed.saturatingSub]
  omega

structure Follows (windowDuration : U64) (a b : Recorded) : Prop where
  spaced : a.entry.timestamp.val + (minInterval windowDuration).val ≤ b.entry.timestamp.val
  cumulative : b.entry.tickCumulative.val = a.entry.tickCumulative.val
    + b.tick.val * (b.entry.timestamp.val - a.entry.timestamp.val)
  near : a.tick.val - 9116 ≤ b.tick.val ∧ b.tick.val ≤ a.tick.val + 9116

theorem minInterval_val (windowDuration : U64) :
    (minInterval windowDuration).val = max (windowDuration.val / observationsCapacity) 1 := by
  rw [minInterval, Unsigned.maximum_val, Unsigned.divNat_val]

theorem minInterval_pos (windowDuration : U64) : 0 < (minInterval windowDuration).val := by
  rw [minInterval_val]
  omega

theorem nextObservation_eq_none (last : ObservationEntry) (lastTick tick : I32)
    (now windowDuration : U64) :
    nextObservation last lastTick tick now windowDuration = .ok none ↔
      now.val - last.timestamp.val < (minInterval windowDuration).val := by
  simp only [nextObservation, ite_eq_ok, pure_eq_ok, bind_eq_ok]
  simp only [Unsigned.saturatingSub_val]
  constructor
  · rintro (⟨h, -⟩ | ⟨-, _, -, _, -, h⟩)
    · exact h
    · cases h
  · intro h
    exact Or.inl ⟨h, trivial⟩

/-- An appended observation follows the last one. -/
theorem nextObservation_follows (last : Recorded) (entry : ObservationEntry) (tick : I32)
    (now windowDuration : U64)
    (h : nextObservation last.entry last.tick tick now windowDuration = .ok (some entry)) :
    entry.timestamp = now ∧
      Follows windowDuration last ⟨entry, clampedTick last.tick tick⟩ := by
  have hinterval := minInterval_pos windowDuration
  simp only [nextObservation, ite_eq_ok, pure_eq_ok, bind_eq_ok, expect_eq_ok,
    Signed.tryFrom_eq_some, Option.bind_eq_some_iff, Signed.checkedMul_eq_some,
    Signed.checkedAdd_eq_some, Signed.widen_val, Option.some.injEq] at h
  simp only [Unsigned.saturatingSub_val] at h
  rcases h with ⟨-, h⟩ | ⟨hlate, elapsed, helapsed, cumulative, ⟨product, hproduct, hsum⟩, rfl⟩
  · cases h
  · have hspan : elapsed.val = now.val - last.entry.timestamp.val := by omega
    refine ⟨rfl, by simp only; omega, ?_, ?_⟩
    · rw [hsum, hproduct, hspan]
    · have := clampedTick_val last.tick tick
      simp only
      omega

section
variable (windowDuration : U64) (log log' : List Recorded) (reading : Reading)

/-- A reading leaves the log alone or appends an observation that follows the last one. -/
theorem appendReading_cases (h : appendReading windowDuration log reading = .ok log') :
    ∃ last, log.getLast? = some last ∧
      ((log' = log ∧ reading.now.val - last.entry.timestamp.val
          < (minInterval windowDuration).val) ∨
        ∃ next : Recorded, log' = log ++ [next] ∧ next.entry.timestamp = reading.now ∧
          next.tick = clampedTick last.tick reading.tick ∧ Follows windowDuration last next) := by
  simp only [appendReading, bind_eq_ok, expect_eq_ok] at h
  obtain ⟨last, hlast, entry, hentry, h⟩ := h
  refine ⟨last, hlast, ?_⟩
  cases entry with
  | none =>
    rw [pure_eq_ok] at h
    exact Or.inl ⟨h.symm, (nextObservation_eq_none _ _ _ _ _).mp hentry⟩
  | some entry =>
    rw [pure_eq_ok] at h
    obtain ⟨hnow, hfollows⟩ := nextObservation_follows _ _ _ _ _ hentry
    exact Or.inr ⟨_, h.symm, hnow, rfl, hfollows⟩

/-- Readings only append. -/
theorem readings_isPrefix (readings : List Reading)
    (h : readings.foldlM (appendReading windowDuration) log = .ok log') : log <+: log' := by
  refine foldlM_preserves _ (fun later => log <+: later) _ ?_ _ _ (List.prefix_refl log) h
  intro later reading later' _ hheading hread
  obtain ⟨-, -, ⟨rfl, -⟩ | ⟨next, rfl, -⟩⟩ :=
    appendReading_cases windowDuration later later' reading hread
  · exact hheading
  · exact hheading.trans (List.prefix_append later [next])

structure Chained (first : Recorded) : Prop where
  chain : log.IsChain (Follows windowDuration)
  head : log.head? = some first

theorem Chained.append (first : Recorded) (hc : Chained windowDuration log first)
    (h : appendReading windowDuration log reading = .ok log') :
    Chained windowDuration log' first := by
  obtain ⟨last, hlast, ⟨rfl, -⟩ | ⟨next, rfl, -, -, hfollows⟩⟩ :=
    appendReading_cases windowDuration log log' reading h
  · exact hc
  · refine ⟨hc.chain.append (List.isChain_singleton _) ?_, ?_⟩
    · intro x hx y hy
      rw [hlast, Option.mem_some_iff] at hx
      rw [List.head?_cons, Option.mem_some_iff] at hy
      rw [← hx, ← hy]
      exact hfollows
    · rw [List.head?_append, hc.head, Option.some_or]

theorem History.log_chained (h : History) (hlog : h.log windowDuration = .ok log) :
    Chained windowDuration log h.first :=
  foldlM_preserves _ (fun log => Chained windowDuration log h.first) _
    (fun log reading log' _ hc h => hc.append windowDuration log log' reading _ h) _ _
    ⟨List.isChain_singleton _, rfl⟩ hlog

end

theorem clampedTick_between (lo hi : ℤ) (lastTick tick : I32)
    (hlast : lo ≤ lastTick.val ∧ lastTick.val ≤ hi) (htick : lo ≤ tick.val ∧ tick.val ≤ hi) :
    lo ≤ (clampedTick lastTick tick).val ∧ (clampedTick lastTick tick).val ≤ hi := by
  rw [clampedTick_val]
  omega

/-- Recorded ticks stay among the reported ones. -/
theorem History.log_ticks (windowDuration : U64) (log : List Recorded) (h : History) (lo hi : ℤ)
    (hinitial : lo ≤ h.initialTick.val ∧ h.initialTick.val ≤ hi)
    (hreadings : ∀ reading ∈ h.readings, lo ≤ reading.tick.val ∧ reading.tick.val ≤ hi)
    (hlog : h.log windowDuration = .ok log) :
    ∀ recorded ∈ log, lo ≤ recorded.tick.val ∧ recorded.tick.val ≤ hi := by
  refine foldlM_preserves _
    (fun log => ∀ recorded ∈ log, lo ≤ recorded.tick.val ∧ recorded.tick.val ≤ hi) _ ?_ _ _ ?_ hlog
  · intro log reading log' hr hticks h
    obtain ⟨last, hlast, ⟨rfl, -⟩ | ⟨next, rfl, -, htick, -⟩⟩ :=
      appendReading_cases windowDuration log log' reading h
    · exact hticks
    · intro x hx
      rcases List.mem_append.mp hx with hx | hx
      · exact hticks x hx
      · rw [List.mem_singleton.mp hx, htick]
        exact clampedTick_between lo hi _ _ (hticks last (List.mem_of_getLast? hlast))
          (hreadings reading hr)
  · intro x hx
    rw [List.mem_singleton.mp hx]
    exact hinitial

structure Stores (observations : PriceObservations) (log : List Recorded) : Prop where
  nonempty : log ≠ []
  totalEntries : observations.totalEntries.val = log.length
  writeIndex : observations.writeIndex.val = log.length % observationsCapacity
  lastTick : ∀ last ∈ log.getLast?, last.tick = observations.lastRecordedTick
  ring : RingBuffer.Holds observationsCapacity observations.entries (log.map Recorded.entry)

theorem capacity_pos : 0 < observationsCapacity := by decide

theorem stores_initial (priceSourceId : AccountId) (h : History) :
    Stores (initialObservations priceSourceId h.initialTick h.createdAt) [h.first] where
  nonempty := List.cons_ne_nil _ _
  totalEntries := rfl
  writeIndex := rfl
  lastTick := by
    rintro last hlast
    rw [List.getLast?_singleton, Option.mem_some_iff] at hlast
    exact hlast ▸ rfl
  ring := RingBuffer.holds_single _ _ _ capacity_pos

section
variable (observations : PriceObservations) (log : List Recorded) (s : Stores observations log)
include s

/-- A reader's newest observation is the last one of the log. -/
theorem Stores.newest :
    newestObservation observations = (log.map Recorded.entry).getLast? := by
  have hpos := List.length_pos_iff.mpr s.nonempty
  have hindex : lastIndex observations = (log.length - 1) % observationsCapacity := by
    rw [lastIndex, s.writeIndex]
    exact RingBuffer.previous_slot _ _ capacity_pos hpos
  have hring := s.ring.newest _ _ _ capacity_pos (by simpa using s.nonempty)
  rwa [List.length_map, ← hindex] at hring

/-- A reader's window starts with the oldest observation that the buffer still holds. -/
theorem Stores.windowStart : windowStartObservation observations
    = (RingBuffer.latest observationsCapacity (log.map Recorded.entry)).head? := by
  have hring := s.ring.oldest _ _ _ capacity_pos (by simpa using s.nonempty)
  rw [List.length_map] at hring
  rw [windowStartObservation, windowStartIndex, s.totalEntries, s.writeIndex]
  exact hring

theorem Stores.last : ∃ last, log.getLast? = some last ∧
    newestObservation observations = some last.entry ∧
    last.tick = observations.lastRecordedTick := by
  have hlast := List.getLast?_eq_some_getLast s.nonempty
  refine ⟨_, hlast, ?_, s.lastTick _ hlast⟩
  rw [s.newest, List.getLast?_map, hlast, Option.map_some]

/-- A call of `record_tick` appends to the ring buffer what it appends to the log. -/
theorem Stores.record (tick : I32) (now windowDuration : U64) (next : Option PriceObservations)
    (h : recordObservation observations tick now windowDuration = .ok next) :
    ∃ log', appendReading windowDuration log ⟨now, tick⟩ = .ok log' ∧
      Stores (next.getD observations) log' := by
  obtain ⟨last, hlast, hnewest, htick⟩ := s.last
  simp only [recordObservation, hnewest, expect_some, ok_bind, ← htick, bind_eq_ok] at h
  obtain ⟨entry, hentry, h⟩ := h
  simp only [appendReading, hlast, expect_some, ok_bind, hentry]
  cases entry with
  | none =>
    rw [pure_eq_ok] at h
    exact ⟨log, rfl, by rw [← h]; exact s⟩
  | some entry =>
    simp only [bind_eq_ok, ensure_eq_ok, exists_const, expect_eq_ok, Unsigned.tryFrom_eq_some,
      Unsigned.checkedAdd_eq_some, pure_eq_ok] at h
    obtain ⟨-, index, hindex, total, htotal, rfl⟩ := h
    refine ⟨_, rfl, ?_⟩
    have hlength : (log ++ [(⟨entry, clampedTick last.tick tick⟩ : Recorded)]).length
        = log.length + 1 := by
      rw [List.length_append, List.length_singleton]
    refine ⟨by simp, ?_, ?_, ?_, ?_⟩
    · rw [Option.getD_some, hlength, htotal, s.totalEntries]
    · rw [Option.getD_some, hlength, hindex, s.writeIndex, Nat.mod_add_mod]
    · intro x hx
      rw [List.getLast?_concat, Option.mem_some_iff] at hx
      rw [← hx]
      rfl
    · have hpush := s.ring.push _ _ _ entry capacity_pos
      rw [List.length_map, ← s.writeIndex] at hpush
      rwa [List.map_append]

end

end LezPrograms.TwapOracle
