import Mathlib.Data.List.Basic
import Mathlib.Tactic.Common

/-! # Lists of times that keep a distance

Times that are at least `gap` apart, one after the other, are few in any window. -/

set_option autoImplicit false

namespace LezPrograms

def Spaced (gap : ℕ) (times : List ℕ) : Prop := times.Pairwise fun s t => s + gap ≤ t

theorem Spaced.concat (gap : ℕ) (times : List ℕ) (t : ℕ) (h : Spaced gap times)
    (hlast : ∀ s ∈ times.getLast?, s + gap ≤ t) : Spaced gap (times ++ [t]) := by
  refine List.pairwise_append.mpr ⟨h, List.pairwise_singleton _ _, fun s hs u hu => ?_⟩
  rw [List.mem_singleton.mp hu]
  rcases List.eq_nil_or_concat times with rfl | ⟨rest, last, rfl⟩
  · exact absurd hs List.not_mem_nil
  · rw [List.concat_eq_append] at h hs hlast
    have hl := hlast last (by simp)
    rcases List.mem_append.mp hs with hs | hs
    · have := (List.pairwise_append.mp h).2.2 s hs last (List.mem_singleton_self last)
      omega
    · rwa [List.mem_singleton.mp hs]

theorem Spaced.increasing (gap : ℕ) (hgap : 0 < gap) (times : List ℕ) (h : Spaced gap times) :
    times.Pairwise (· < ·) :=
  h.imp fun hst => by omega

theorem Spaced.length_le (gap : ℕ) (hgap : 0 < gap) (times : List ℕ) (h : Spaced gap times)
    (first last : ℕ) (hw : ∀ t ∈ times, first ≤ t ∧ t ≤ last) :
    times.length ≤ 1 + (last - first) / gap := by
  induction times generalizing first with
  | nil => exact Nat.zero_le _
  | cons t times ih =>
    obtain ⟨hfirst, hrest⟩ := List.pairwise_cons.mp h
    cases times with
    | nil => simp
    | cons u times =>
      have ht := (hw t (List.mem_cons_self ..)).1
      have hu := hfirst u (List.mem_cons_self ..)
      have hlast := (hw u (List.mem_cons_of_mem _ (List.mem_cons_self ..))).2
      have hlater := ih hrest (first + gap) fun v hv => by
        have := hfirst v hv
        have := hw v (List.mem_cons_of_mem _ hv)
        omega
      -- the window of the later times is shorter by one gap
      rw [Nat.div_eq_sub_div hgap (by omega : gap ≤ last - first), Nat.sub_sub]
      simp only [List.length_cons] at hlater ⊢
      omega

/-- In any window there are at most one more than there are gaps. -/
theorem Spaced.window (gap : ℕ) (hgap : 0 < gap) (times : List ℕ) (h : Spaced gap times)
    (first last : ℕ) :
    (times.filter fun t => first ≤ t ∧ t ≤ last).length ≤ 1 + (last - first) / gap := by
  refine Spaced.length_le gap hgap _ (List.Pairwise.filter _ h) first last fun t ht => ?_
  exact of_decide_eq_true (List.mem_filter.mp ht).2

end LezPrograms
