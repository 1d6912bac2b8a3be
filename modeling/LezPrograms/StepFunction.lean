import Mathlib.Data.Rat.Floor
import Mathlib.Tactic.Linarith

/-! # Time averages of step functions

A step function is a list of durations with the value held for each. Its
average over time lies between the values that are held for a positive time, and
so does its floor. -/

set_option autoImplicit false

namespace LezPrograms.StepFunction

variable (steps more : List (ℕ × ℤ))

def span : ℕ := (steps.map Prod.fst).sum

def area : ℤ := (steps.map fun step => (step.1 : ℤ) * step.2).sum

def average : ℚ := (area steps : ℚ) / (span steps : ℚ)

@[simp] theorem span_append : span (steps ++ more) = span steps + span more := by
  simp [span]

@[simp] theorem area_append : area (steps ++ more) = area steps + area more := by
  simp [area]

@[simp] theorem span_cons (step : ℕ × ℤ) : span (step :: steps) = step.1 + span steps := rfl

@[simp] theorem area_cons (step : ℕ × ℤ) :
    area (step :: steps) = step.1 * step.2 + area steps := rfl

@[simp] theorem span_nil : span [] = 0 := rfl

@[simp] theorem area_nil : area [] = 0 := rfl

theorem floor_average : ⌊average steps⌋ = area steps / span steps :=
  Rat.floor_intCast_div_natCast (area steps) (span steps)

/-- Only the values held for a positive time count. -/
def Between (lo hi : ℤ) : Prop := ∀ step ∈ steps, 0 < step.1 → lo ≤ step.2 ∧ step.2 ≤ hi

variable (lo hi : ℤ)

theorem area_between (h : Between steps lo hi) :
    lo * span steps ≤ area steps ∧ area steps ≤ hi * span steps := by
  induction steps with
  | nil => simp
  | cons step steps ih =>
    obtain ⟨hlo, hhi⟩ := ih fun s hs => h s (List.mem_cons_of_mem _ hs)
    have hstep : lo * step.1 ≤ step.1 * step.2 ∧ step.1 * step.2 ≤ hi * (step.1 : ℤ) := by
      rcases Nat.eq_zero_or_pos step.1 with hz | hpos
      · simp [hz]
      · obtain ⟨h1, h2⟩ := h step (List.mem_cons_self ..) hpos
        have hd : (0 : ℤ) ≤ step.1 := Int.natCast_nonneg _
        constructor
        · rw [Int.mul_comm]
          exact Int.mul_le_mul_of_nonneg_left h1 hd
        · rw [Int.mul_comm hi]
          exact Int.mul_le_mul_of_nonneg_left h2 hd
    rw [span_cons, area_cons]
    push_cast
    constructor
    · linarith [Int.mul_add lo (step.1 : ℤ) (span steps)]
    · linarith [Int.mul_add hi (step.1 : ℤ) (span steps)]

/-- The floor of the average lies between the values. -/
theorem floor_average_between (h : Between steps lo hi) (hspan : 0 < span steps) :
    lo ≤ ⌊average steps⌋ ∧ ⌊average steps⌋ ≤ hi := by
  obtain ⟨h1, h2⟩ := area_between steps lo hi h
  have hpos : (0 : ℤ) < span steps := by exact_mod_cast hspan
  rw [floor_average]
  refine ⟨(Int.le_ediv_iff_mul_le hpos).mpr h1, ?_⟩
  exact Int.le_of_lt_add_one ((Int.ediv_lt_iff_lt_mul hpos).mpr (by linarith))

theorem floor_sub_le (x y : ℚ) : ((⌊x⌋ - ⌊y⌋ : ℤ) : ℚ) ≤ |x - y| + 1 := by
  have h1 := Int.floor_le x
  have h2 := Int.lt_floor_add_one y
  have h3 := le_abs_self (x - y)
  push_cast
  linarith

/-- Averages over the same time differ by the area between the functions. -/
theorem floor_average_sub_le (distance : ℕ) (hspan : span steps = span more)
    (harea : |area steps - area more| ≤ distance) :
    ((|⌊average steps⌋ - ⌊average more⌋| : ℤ) : ℚ) ≤ distance / span steps + 1 := by
  have hclose : |average steps - average more| ≤ distance / span steps := by
    rw [average, average, ← hspan, ← sub_div, abs_div, Nat.abs_cast]
    apply div_le_div_of_nonneg_right _ (Nat.cast_nonneg _)
    exact_mod_cast harea
  rw [Int.cast_abs, abs_le']
  constructor
  · exact (floor_sub_le _ _).trans (by linarith)
  · have hswap := floor_sub_le (average more) (average steps)
    rw [abs_sub_comm] at hswap
    push_cast at hswap ⊢
    linarith

end LezPrograms.StepFunction
