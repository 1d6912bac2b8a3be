import LezPrograms.TwapOracle.Average
import Mathlib.Algebra.BigOperators.Intervals
import Mathlib.Algebra.Order.BigOperators.Group.Finset

/-! # How far reported ticks move the average

Two feeds that agree up to some observation and read the same clock afterwards
differ in the last tick by twice the clamp for each observation since, and their
averages by the area between the two. -/

set_option autoImplicit false

namespace LezPrograms.TwapOracle
open LezPrograms.Checked LezPrograms.Lee LezPrograms.StepFunction

def timeAt (log : List Recorded) (i : ℕ) : ℕ := (log[i]?).elim 0 fun r => r.entry.timestamp.val

def gapAt (log : List Recorded) (i : ℕ) : ℕ := timeAt log i - timeAt log (i - 1)

/-- The area that the observations after the first `k` can add between two feeds: the `i`-th of
them differs by at most `2 * i` clamps. -/
def driftArea (log : List Recorded) (k : ℕ) : ℕ :=
  ∑ i ∈ Finset.range (log.length - k), 2 * (i + 1) * 9116 * gapAt log (k + i)

/-- Two logs that share their first `k` observations and all their times. -/
structure Diverging (k : ℕ) (a b : List Recorded) : Prop where
  shared : a.take k = b.take k
  length : b.length = a.length
  start : 0 < k
  long : k ≤ a.length
  times : ∀ i, timeAt b i = timeAt a i
  ticks : ∀ x ∈ a.getLast?, ∀ y ∈ b.getLast?,
    |x.tick.val - y.tick.val| ≤ 2 * ((a.length - k : ℕ) : ℤ) * 9116
  areas : ∀ x ∈ a.getLast?, ∀ y ∈ b.getLast?,
    |x.entry.tickCumulative.val - y.entry.tickCumulative.val| ≤ driftArea a k

theorem Diverging.refl (log : List Recorded) (h : log ≠ []) : Diverging log.length log log where
  shared := rfl
  length := rfl
  start := List.length_pos_iff.mpr h
  long := le_rfl
  times := fun _ => rfl
  ticks := by
    intro x hx y hy
    have hxy : x = y := Option.some.inj (hx.symm.trans hy)
    simp [hxy]
  areas := by
    intro x hx y hy
    have hxy : x = y := Option.some.inj (hx.symm.trans hy)
    simp [hxy, driftArea]

theorem timeAt_append (log : List Recorded) (next : Recorded) (i : ℕ) :
    timeAt (log ++ [next]) i = if i < log.length then timeAt log i
      else if i = log.length then next.entry.timestamp.val else 0 := by
  rw [timeAt]
  split
  · rename_i hlt
    rw [List.getElem?_append_left hlt, timeAt]
  · rename_i hge
    rw [List.getElem?_append_right (by omega)]
    split
    · rename_i he
      rw [he, Nat.sub_self]
      rfl
    · rw [List.getElem?_eq_none (by rw [List.length_singleton]; omega), Option.elim_none]

theorem timeAt_prefix (log later : List Recorded) (h : log <+: later) (i : ℕ)
    (hi : i < log.length) : timeAt later i = timeAt log i := by
  obtain ⟨rest, rfl⟩ := h
  rw [timeAt, timeAt, List.getElem?_append_left hi]

theorem timeAt_last (log : List Recorded) (last : Recorded) (h : log.getLast? = some last) :
    timeAt log (log.length - 1) = last.entry.timestamp.val := by
  rw [timeAt, ← List.getLast?_eq_getElem?, h, Option.elim_some]

theorem driftArea_append (log : List Recorded) (last next : Recorded) (k : ℕ) (hk : 0 < k)
    (hlong : k ≤ log.length) (hlast : log.getLast? = some last) :
    driftArea (log ++ [next]) k = driftArea log k + 2 * (log.length - k + 1) * 9116
      * (next.entry.timestamp.val - last.entry.timestamp.val) := by
  have hlength : (log ++ [next]).length - k = log.length - k + 1 := by
    rw [List.length_append, List.length_singleton]
    omega
  have hindex : k + (log.length - k) = log.length := by omega
  rw [driftArea, hlength, Finset.sum_range_succ, hindex, driftArea]
  congr 1
  · apply Finset.sum_congr rfl
    intro i hi
    rw [Finset.mem_range] at hi
    rw [gapAt, gapAt, timeAt_append, timeAt_append, if_pos (by omega), if_pos (by omega)]
  · rw [gapAt, timeAt_append, timeAt_append, if_neg (by omega), if_pos rfl, if_pos (by omega),
      timeAt_last log last hlast]

theorem abs_area_le (a b c d : ℤ) (gap j m : ℕ) (harea : |a - b| ≤ m) (htick : |c - d| ≤ j) :
    |(a + c * gap) - (b + d * gap)| ≤ ((m + j * gap : ℕ) : ℤ) := by
  have hsplit : (a + c * gap) - (b + d * gap) = (a - b) + (c - d) * gap := by ring
  have hproduct : |(c - d) * gap| ≤ j * gap := by
    rw [abs_mul, Nat.abs_cast]
    exact Int.mul_le_mul_of_nonneg_right htick (Int.natCast_nonneg _)
  rw [hsplit]
  push_cast
  exact (abs_add_le _ _).trans (add_le_add harea hproduct)

section
variable (windowDuration : U64) (k : ℕ) (a b a' b' : List Recorded)

/-- Readings at the same time keep the logs as close as stated. -/
theorem Diverging.append (x y : Reading) (hd : Diverging k a b) (hnow : x.now = y.now)
    (ha : appendReading windowDuration a x = .ok a')
    (hb : appendReading windowDuration b y = .ok b') : Diverging k a' b' := by
  obtain ⟨lastA, hlastA, hcasesA⟩ := appendReading_cases windowDuration a a' x ha
  obtain ⟨lastB, hlastB, hcasesB⟩ := appendReading_cases windowDuration b b' y hb
  have htime : lastA.entry.timestamp.val = lastB.entry.timestamp.val := by
    rw [← timeAt_last a lastA hlastA, ← timeAt_last b lastB hlastB, hd.times, hd.length]
  rw [← hnow] at hcasesB
  rcases hcasesA with ⟨rfl, hearlyA⟩ | ⟨nextA, rfl, hnextA, -, hfollowsA⟩ <;>
    rcases hcasesB with ⟨rfl, hearlyB⟩ | ⟨nextB, rfl, hnextB, -, hfollowsB⟩
  · exact hd
  · have := hfollowsB.spaced
    rw [hnextB] at this
    omega
  · have := hfollowsA.spaced
    rw [hnextA] at this
    omega
  · have hlength := hd.length
    have hlong := hd.long
    have hnear : |nextA.tick.val - nextB.tick.val|
        ≤ ((2 * (a.length - k + 1) * 9116 : ℕ) : ℤ) := by
      have hticks := abs_le.mp (hd.ticks lastA hlastA lastB hlastB)
      have hnearA := hfollowsA.near
      have hnearB := hfollowsB.near
      rw [abs_le]
      push_cast
      omega
    refine ⟨?_, ?_, hd.start, ?_, ?_, ?_, ?_⟩
    · rw [List.take_append_of_le_length hlong, List.take_append_of_le_length (by omega), hd.shared]
    · rw [List.length_append, List.length_append, hlength]
      rfl
    · rw [List.length_append]
      omega
    · intro i
      rw [timeAt_append, timeAt_append, hlength, hd.times, hnextA, hnextB]
    · intro p hp q hq
      rw [List.getLast?_concat, Option.mem_some_iff] at hp hq
      rw [← hp, ← hq, List.length_append, List.length_singleton]
      refine hnear.trans (le_of_eq ?_)
      push_cast
      omega
    · intro p hp q hq
      rw [List.getLast?_concat, Option.mem_some_iff] at hp hq
      have hareas := hd.areas lastA hlastA lastB hlastB
      have hcumulative : nextB.entry.tickCumulative.val = lastB.entry.tickCumulative.val
          + nextB.tick.val
            * ((nextA.entry.timestamp.val - lastA.entry.timestamp.val : ℕ) : ℤ) := by
        have hspacedA := hfollowsA.spaced
        rw [hfollowsB.cumulative, hnextB, ← hnextA, ← htime, Int.ofNat_sub (by omega)]
      have hcumulativeA : nextA.entry.tickCumulative.val = lastA.entry.tickCumulative.val
          + nextA.tick.val
            * ((nextA.entry.timestamp.val - lastA.entry.timestamp.val : ℕ) : ℤ) := by
        have hspacedA := hfollowsA.spaced
        rw [hfollowsA.cumulative, Int.ofNat_sub (by omega)]
      rw [← hp, ← hq, driftArea_append a lastA nextA k hd.start hlong hlastA, hcumulative,
        hcumulativeA]
      exact abs_area_le _ _ _ _ _ _ _ hareas hnear

/-- Two runs of readings at the same times. -/
theorem Diverging.readings (xs ys : List Reading) (hd : Diverging k a b)
    (htimes : xs.map Reading.now = ys.map Reading.now)
    (ha : xs.foldlM (appendReading windowDuration) a = .ok a')
    (hb : ys.foldlM (appendReading windowDuration) b = .ok b') : Diverging k a' b' := by
  induction xs generalizing ys a b with
  | nil =>
    rw [List.map_nil, eq_comm, List.map_eq_nil_iff] at htimes
    subst htimes
    rw [List.foldlM_nil, pure_eq_ok] at ha hb
    exact ha ▸ hb ▸ hd
  | cons x xs ih =>
    cases ys with
    | nil => cases htimes
    | cons y ys =>
      rw [List.map_cons, List.map_cons, List.cons.injEq] at htimes
      rw [List.foldlM_cons, bind_eq_ok] at ha hb
      obtain ⟨a1, ha1, ha⟩ := ha
      obtain ⟨b1, hb1, hb⟩ := hb
      exact ih a1 b1 ys (hd.append windowDuration k a b a1 b1 x y htimes.1 ha1 hb1) htimes.2 ha hb

theorem Chained.timeAt_lt (first : Recorded) (hc : Chained windowDuration a first) (i j : ℕ)
    (hij : i < j) (hj : j < a.length) : timeAt a i < timeAt a j := by
  induction j with
  | zero => omega
  | succ j ih =>
    have hstep : timeAt a j < timeAt a (j + 1) := by
      have hspaced := (List.isChain_iff_getElem.mp hc.chain j (by omega)).spaced
      have hinterval := minInterval_pos windowDuration
      rw [timeAt, timeAt, List.getElem?_eq_getElem (by omega), List.getElem?_eq_getElem hj,
        Option.elim_some, Option.elim_some]
      omega
    rcases Nat.lt_succ_iff_lt_or_eq.mp hij with hlt | rfl
    · exact (ih hlt (by omega)).trans hstep
    · exact hstep

/-- A tail stays within one clamp of the last recorded tick. -/
theorem tailSteps_near (last : Recorded) (current : CurrentTickAccount) (now : U64) :
    Between (tailSteps last current now) (last.tick.val - 9116) (last.tick.val + 9116) := by
  have hclamped := clampedTick_val last.tick current.tick
  intro step hstep _
  simp only [tailSteps, List.mem_cons, List.not_mem_nil, or_false] at hstep
  rcases hstep with rfl | rfl
  · simp only
    omega
  · simp only
    omega

/-- Tails of the same length differ in area by the ticks they start from and a clamp each. -/
theorem tail_areas_near (x y : Recorded) (current current' : CurrentTickAccount) (now : U64)
    (j tail : ℕ) (hx : span (tailSteps x current now) = tail)
    (hy : span (tailSteps y current' now) = tail)
    (hticks : |x.tick.val - y.tick.val| ≤ 2 * (j : ℤ) * 9116) :
    |area (tailSteps x current now) - area (tailSteps y current' now)|
      ≤ ((2 * (j + 1) * 9116 * tail : ℕ) : ℤ) := by
  obtain ⟨hx1, hx2⟩ := area_between _ _ _ (tailSteps_near x current now)
  obtain ⟨hy1, hy2⟩ := area_between _ _ _ (tailSteps_near y current' now)
  rw [hx] at hx1 hx2
  rw [hy] at hy1 hy2
  have htail : (0 : ℤ) ≤ tail := Int.natCast_nonneg _
  obtain ⟨h1, h2⟩ := abs_le.mp hticks
  rw [abs_le]
  push_cast
  constructor
  · have hdiff := Int.mul_le_mul_of_nonneg_right h1 htail
    linarith [hdiff]
  · have hdiff := Int.mul_le_mul_of_nonneg_right h2 htail
    linarith [hdiff]

/-- A window that starts before the logs diverge starts with the same observation. -/
theorem Diverging.oldest_eq (first : Recorded) (hd : Diverging k a b)
    (hc : Chained windowDuration a first) (start start' : Recorded)
    (ha : (RingBuffer.latest observationsCapacity a).head? = some start)
    (hb : (RingBuffer.latest observationsCapacity b).head? = some start')
    (hearly : start.entry.timestamp.val ≤ timeAt a (k - 1)) : start' = start := by
  rw [RingBuffer.latest, List.head?_drop] at ha hb
  have hlength := hd.length
  have hlong := hd.long
  have hstart := hd.start
  rw [hlength] at hb
  have htime : timeAt a (a.length - observationsCapacity) = start.entry.timestamp.val := by
    rw [timeAt, ha, Option.elim_some]
  have hindex : a.length - observationsCapacity < k := by
    by_contra hge
    have hbound : a.length - observationsCapacity < a.length := by
      obtain ⟨h, -⟩ := List.getElem?_eq_some_iff.mp ha
      exact h
    have hlt := hc.timeAt_lt windowDuration a first (k - 1) (a.length - observationsCapacity)
      (by omega) hbound
    omega
  rw [← List.getElem?_take_of_lt hindex, ← hd.shared, List.getElem?_take_of_lt hindex, ha] at hb
  exact (Option.some.inj hb).symm

/-- Publications at the same time over a window that starts before the logs diverge. -/
theorem Diverging.published_near (hd : Diverging k a b) (first first' : Recorded)
    (observations observations' : PriceObservations) (hs : Stores observations a)
    (hs' : Stores observations' b) (hc : Chained windowDuration a first)
    (hc' : Chained windowDuration b first') (current current' : CurrentTickAccount) (now : U64)
    (tick tick' : I32)
    (ht : twapTick observations current now windowDuration = .ok tick)
    (ht' : twapTick observations' current' now windowDuration = .ok tick')
    (t1 t2 : ObservationEntry) (h1 : windowStartObservation observations = some t1)
    (h2 : newestObservation observations = some t2)
    (hearly : t1.timestamp.val ≤ timeAt a (k - 1)) :
    ((|tick.val - tick'.val| : ℤ) : ℚ)
      ≤ ((driftArea a k + 2 * (a.length - k + 1) * 9116 * (now.val - t2.timestamp.val) : ℕ) : ℚ)
        / ((now.val - t1.timestamp.val : ℕ) : ℚ) + 1 := by
  obtain ⟨start, last, w⟩ := hs.window windowDuration observations a first hc
  obtain ⟨start', last', w'⟩ := hs'.window windowDuration observations' b first' hc'
  obtain ⟨hnow, -, htick⟩ := w.twapTick_eq windowDuration observations a start last current now
    tick ht
  obtain ⟨hnow', -, htick'⟩ := w'.twapTick_eq windowDuration observations' b start' last' current'
    now tick' ht'
  have hstart : start.entry = t1 := Option.some.inj (w.starts.symm.trans h1)
  have hlast : last.entry = t2 := Option.some.inj (w.newest.symm.trans h2)
  have hsame : start' = start := hd.oldest_eq windowDuration k a b first hc start start' w.oldest
    w'.oldest (by rw [hstart]; exact hearly)
  have htimes : last'.entry.timestamp.val = last.entry.timestamp.val := by
    rw [← timeAt_last a last w.ends, ← timeAt_last b last' w'.ends, hd.times, hd.length]
  have hspan := w.span_published observations a start last current now hnow
  have hspan' := w'.span_published observations' b start' last' current' now hnow'
  have htail := tailSteps_total last current now hnow
  have htail' := tailSteps_total last' current' now hnow'
  rw [hsame] at hspan'
  have hareas := hd.areas last w.ends last' w'.ends
  have htails := tail_areas_near last last' current current' now (a.length - k)
    (now.val - last.entry.timestamp.val) (by omega) (by omega) (hd.ticks last w.ends last' w'.ends)
  have harea := w.area_published observations a start last current now
  have harea' := w'.area_published observations' b start' last' current' now
  rw [hsame] at harea'
  have hdistance : |area (publishedSteps a current now) - area (publishedSteps b current' now)|
      ≤ ((driftArea a k + 2 * (a.length - k + 1) * 9116
        * (now.val - last.entry.timestamp.val) : ℕ) : ℤ) := by
    have hsplit : area (publishedSteps a current now) - area (publishedSteps b current' now)
        = (last.entry.tickCumulative.val - last'.entry.tickCumulative.val)
          + (area (tailSteps last current now) - area (tailSteps last' current' now)) := by
      omega
    rw [hsplit, Int.natCast_add]
    exact (abs_add_le _ _).trans (add_le_add hareas htails)
  have hfloor := floor_average_sub_le (publishedSteps a current now)
    (publishedSteps b current' now) _ (by omega) hdistance
  have helapsed : span (publishedSteps a current now) = now.val - t1.timestamp.val := by
    rw [← hstart]
    omega
  rw [htick, htick', ← hlast, ← helapsed]
  exact hfloor

end

end LezPrograms.TwapOracle
