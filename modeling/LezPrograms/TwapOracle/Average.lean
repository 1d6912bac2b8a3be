import LezPrograms.StepFunction
import LezPrograms.TwapOracle.Log

/-! # The published average

A publication averages the recorded ticks from the start of the window on, then
the last recorded tick up to the last report, then the reported tick, clamped
like a recorded one, up to now. Below 2^43 milliseconds nothing overflows. -/

set_option autoImplicit false

namespace LezPrograms.TwapOracle
open LezPrograms.Checked LezPrograms.Lee LezPrograms.StepFunction

/-- Each observation holds its tick since the one before it. -/
def recordedSteps : List Recorded → List (ℕ × ℤ)
  | a :: b :: rest =>
    (b.entry.timestamp.val - a.entry.timestamp.val, b.tick.val) :: recordedSteps (b :: rest)
  | _ => []

/-- When the current tick was reported, as far as the unobserved tail is concerned. -/
def reportedAt (last : Recorded) (current : CurrentTickAccount) (now : U64) : ℕ :=
  min (max current.lastUpdated.val last.entry.timestamp.val) now.val

def tailSteps (last : Recorded) (current : CurrentTickAccount) (now : U64) : List (ℕ × ℤ) :=
  [(reportedAt last current now - last.entry.timestamp.val, last.tick.val),
    (now.val - reportedAt last current now, (clampedTick last.tick current.tick).val)]

def publishedSteps (log : List Recorded) (current : CurrentTickAccount) (now : U64) :
    List (ℕ × ℤ) :=
  recordedSteps (RingBuffer.latest observationsCapacity log) ++
    log.getLast?.elim [] fun last => tailSteps last current now

section
variable (windowDuration : U64)

theorem recordedSteps_chain (rest : List Recorded) (first : Recorded)
    (h : (first :: rest).IsChain (Follows windowDuration)) :
    ∃ last, (first :: rest).getLast? = some last ∧
      first.entry.timestamp.val + span (recordedSteps (first :: rest)) = last.entry.timestamp.val ∧
      first.entry.tickCumulative.val + area (recordedSteps (first :: rest))
        = last.entry.tickCumulative.val := by
  induction rest generalizing first with
  | nil => exact ⟨first, rfl, rfl, Int.add_zero _⟩
  | cons next rest ih =>
    obtain ⟨hfollows, hrest⟩ := List.isChain_cons_cons.mp h
    obtain ⟨last, hlast, hspan, harea⟩ := ih next hrest
    have hspaced := hfollows.spaced
    refine ⟨last, by rw [List.getLast?_cons_cons]; exact hlast, ?_, ?_⟩
    · rw [recordedSteps, span_cons]
      omega
    · rw [recordedSteps, area_cons, ← harea, hfollows.cumulative, Int.ofNat_sub (by omega)]
      ring

theorem reportedAt_val (last : Recorded) (current : CurrentTickAccount) (now : U64) :
    ((Unsigned.maximum current.lastUpdated last.entry.timestamp).minimum now).val
      = reportedAt last current now := by
  rw [reportedAt, Unsigned.minimum_val, Unsigned.maximum_val]

theorem tailSteps_total (last : Recorded) (current : CurrentTickAccount) (now : U64)
    (h : last.entry.timestamp.val ≤ now.val) :
    last.entry.timestamp.val + span (tailSteps last current now) = now.val := by
  simp only [tailSteps, span_cons, span_nil, reportedAt]
  omega

theorem recordedSteps_between (lo hi : ℤ) (log : List Recorded)
    (h : ∀ recorded ∈ log, lo ≤ recorded.tick.val ∧ recorded.tick.val ≤ hi) :
    Between (recordedSteps log) lo hi := by
  induction log with
  | nil => exact fun step hstep => absurd hstep (List.not_mem_nil)
  | cons a rest ih =>
    cases rest with
    | nil => exact fun step hstep => absurd hstep (List.not_mem_nil)
    | cons b rest =>
      have hrest := ih fun r hr => h r (List.mem_cons_of_mem _ hr)
      intro step hstep hpos
      rcases List.mem_cons.mp hstep with rfl | hstep
      · exact h b (List.mem_cons_of_mem _ (List.mem_cons_self ..))
      · exact hrest step hstep hpos

structure Window (observations : PriceObservations) (log : List Recorded) (start last : Recorded) :
    Prop where
  starts : windowStartObservation observations = some start.entry
  ends : log.getLast? = some last
  newest : newestObservation observations = some last.entry
  lastTick : last.tick = observations.lastRecordedTick
  oldest : (RingBuffer.latest observationsCapacity log).head? = some start
  span_eq : start.entry.timestamp.val
    + span (recordedSteps (RingBuffer.latest observationsCapacity log)) = last.entry.timestamp.val
  area_eq : start.entry.tickCumulative.val
    + area (recordedSteps (RingBuffer.latest observationsCapacity log))
      = last.entry.tickCumulative.val

theorem Stores.window (observations : PriceObservations) (log : List Recorded) (first : Recorded)
    (s : Stores observations log) (hc : Chained windowDuration log first) :
    ∃ start last, Window observations log start last := by
  obtain ⟨last, hlast, hnewest, htick⟩ := s.last
  have hpos := List.length_pos_iff.mpr s.nonempty
  have hcapacity := capacity_pos
  have hsize : (RingBuffer.latest observationsCapacity log).length ≠ 0 := by
    rw [RingBuffer.latest, List.length_drop]
    omega
  obtain ⟨start, rest, hlatest⟩ : ∃ start rest,
      RingBuffer.latest observationsCapacity log = start :: rest :=
    List.exists_cons_of_ne_nil (List.ne_nil_of_length_pos (Nat.pos_of_ne_zero hsize))
  have hchain : (start :: rest).IsChain (Follows windowDuration) := by
    rw [← hlatest]
    exact hc.chain.drop _
  obtain ⟨last', hlast', hspan, harea⟩ := recordedSteps_chain windowDuration rest start hchain
  have hsame : last' = last := by
    rw [← hlatest, RingBuffer.latest, List.getLast?_drop, if_neg (by omega), hlast,
      Option.some.injEq] at hlast'
    exact hlast'.symm
  subst hsame
  refine ⟨start, last', ?_, hlast, hnewest, htick, by rw [hlatest]; rfl, by rwa [hlatest],
    by rwa [hlatest]⟩
  have hmap : RingBuffer.latest observationsCapacity (log.map Recorded.entry)
      = (RingBuffer.latest observationsCapacity log).map Recorded.entry := by
    rw [RingBuffer.latest, RingBuffer.latest, List.map_drop, List.length_map]
  rw [s.windowStart, hmap, hlatest]
  rfl

section
variable (observations : PriceObservations) (log : List Recorded) (start last : Recorded)
  (h : Window observations log start last) (current : CurrentTickAccount) (now : U64)
include h

theorem Window.publishedSteps_eq : publishedSteps log current now
    = recordedSteps (RingBuffer.latest observationsCapacity log) ++ tailSteps last current now := by
  rw [publishedSteps, h.ends, Option.elim_some]

theorem Window.span_published (hnow : last.entry.timestamp.val ≤ now.val) :
    start.entry.timestamp.val + span (publishedSteps log current now) = now.val := by
  have htail := tailSteps_total last current now hnow
  have hspan := h.span_eq
  rw [h.publishedSteps_eq, span_append]
  omega

/-- Two observations span some time. -/
theorem Window.span_pos (first : Recorded) (hc : Chained windowDuration log first)
    (htwo : 2 ≤ log.length) (hnow : last.entry.timestamp.val ≤ now.val) :
    0 < span (publishedSteps log current now) := by
  have hsize : 2 ≤ (RingBuffer.latest observationsCapacity log).length := by
    have hcapacity : 2 ≤ observationsCapacity := by decide
    rw [RingBuffer.latest, List.length_drop]
    omega
  have hchain : (RingBuffer.latest observationsCapacity log).IsChain (Follows windowDuration) :=
    hc.chain.drop _
  have hspan := h.span_published observations log start last current now hnow
  have hlast := h.span_eq
  rcases hlatest : RingBuffer.latest observationsCapacity log with _ | ⟨a, _ | ⟨b, rest⟩⟩
  · rw [hlatest] at hsize
    cases hsize
  · rw [hlatest, List.length_singleton] at hsize
    omega
  · rw [hlatest] at hchain hlast
    have hspaced := (List.isChain_cons_cons.mp hchain).1.spaced
    have hinterval := minInterval_pos windowDuration
    rw [recordedSteps, span_cons] at hlast
    omega

theorem Window.area_published : start.entry.tickCumulative.val
    + area (publishedSteps log current now)
      = last.entry.tickCumulative.val + area (tailSteps last current now) := by
  rw [h.publishedSteps_eq, area_append, ← Int.add_assoc, h.area_eq]

/-- Bounds on the recorded ticks and on the current one bound the averaged ones. -/
theorem Window.published_between (lo hi : ℤ)
    (hticks : ∀ recorded ∈ log, lo ≤ recorded.tick.val ∧ recorded.tick.val ≤ hi)
    (hcurrent : lo ≤ current.tick.val ∧ current.tick.val ≤ hi) :
    Between (publishedSteps log current now) lo hi := by
  have hlast := hticks last (List.mem_of_getLast? h.ends)
  rw [h.publishedSteps_eq]
  intro step hstep hpos
  rcases List.mem_append.mp hstep with hstep | hstep
  · exact recordedSteps_between lo hi _ (fun r hr => hticks r (List.mem_of_mem_drop hr)) step hstep
      hpos
  · simp only [tailSteps, List.mem_cons, List.not_mem_nil, or_false] at hstep
    rcases hstep with rfl | rfl
    · exact hlast
    · exact clampedTick_between lo hi _ _ hlast hcurrent

/-- The published tick is the floor of the average. -/
theorem Window.twapTick_eq (tick : I32)
    (ht : twapTick observations current now windowDuration = .ok tick) :
    last.entry.timestamp.val ≤ now.val ∧ 0 < span (publishedSteps log current now) ∧
      tick.val = ⌊average (publishedSteps log current now)⌋ := by
  simp only [twapTick, h.starts, h.newest, ← h.lastTick, expect_some, ok_bind, bind_eq_ok,
    ensure_eq_ok, exists_const, expect_eq_ok, Signed.tryFrom_eq_some, Signed.checkedMul_eq_some,
    Option.bind_eq_some_iff, Signed.checkedAdd_eq_some, Signed.checkedSub_eq_some,
    Signed.checkedDivEuclid_eq_some, Unsigned.checkedSub_eq_some, Signed.widen_val] at ht
  obtain ⟨-, hnow, pre, hpre, post, hpost, preArea, hpreArea, postArea, hpostArea, total,
    ⟨partialArea, hpartial, htotal⟩, elapsed, helapsed, divisor, hdivisor, difference, hdifference, twap,
    ⟨hne, htwap⟩, htick⟩ := ht
  rw [Unsigned.saturatingSub_val, reportedAt_val] at hpre hpost
  have hspan := h.span_published observations log start last current now hnow
  have harea := h.area_published observations log start last current now
  have htail : area (tailSteps last current now) = preArea.val + postArea.val := by
    simp only [tailSteps, area_cons, area_nil, hpreArea, hpostArea, hpre, hpost]
    ring
  have hd : divisor.val = span (publishedSteps log current now) := by omega
  have hn : difference.val = area (publishedSteps log current now) := by omega
  refine ⟨hnow, by omega, ?_⟩
  rw [floor_average, htick, htwap, hn, hd]

end

end

/-- Observations are at least a millisecond apart. -/
theorem chain_length (windowDuration : U64) (rest : List Recorded) (first last : Recorded)
    (h : (first :: rest).IsChain (Follows windowDuration))
    (hlast : (first :: rest).getLast? = some last) :
    first.entry.timestamp.val + rest.length ≤ last.entry.timestamp.val := by
  induction rest generalizing first with
  | nil =>
    rw [List.getLast?_singleton, Option.some.injEq] at hlast
    exact (congrArg (fun r => r.entry.timestamp.val) hlast).le
  | cons next rest ih =>
    obtain ⟨hfollows, hrest⟩ := List.isChain_cons_cons.mp h
    have hlater := ih next hrest (by rwa [List.getLast?_cons_cons] at hlast)
    have hspaced := hfollows.spaced
    have hinterval := minInterval_pos windowDuration
    rw [List.length_cons]
    omega

section
variable (windowDuration : U64) (log : List Recorded) (first last : Recorded)
  (hc : Chained windowDuration log first) (hlast : log.getLast? = some last)
include hc hlast

theorem Chained.length_le : log.length ≤ last.entry.timestamp.val + 1 := by
  obtain ⟨chain, -⟩ := hc
  cases log with
  | nil => cases hlast
  | cons a rest =>
    have := chain_length windowDuration rest a last chain hlast
    rw [List.length_cons]
    omega

end

theorem reportedAt_between (last : Recorded) (current : CurrentTickAccount) (now : U64)
    (h : last.entry.timestamp.val ≤ now.val) :
    last.entry.timestamp.val ≤ reportedAt last current now ∧
      reportedAt last current now ≤ now.val := by
  rw [reportedAt]
  omega

section
variable (windowDuration : U64) (observations : PriceObservations) (log : List Recorded)
  (first last : Recorded) (s : Stores observations log) (hc : Chained windowDuration log first)
  (hfirst : first.entry.tickCumulative.val = 0) (hlast : log.getLast? = some last) (now : U64)
  (hnow : last.entry.timestamp.val ≤ now.val)
include s hc hfirst hlast hnow

end

end LezPrograms.TwapOracle
