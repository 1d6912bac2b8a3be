import Mathlib.Data.Nat.ModEq
import Mathlib.Tactic.Common

/-! # Ring buffers

A ring buffer with a fixed number of slots stands for a log that only grows: the
entry with index `i` is written to slot `i % capacity`. The buffer then holds
the latest entries of the log, and its reader can find the oldest and the newest
of them from the number of writes alone. -/

set_option autoImplicit false

namespace LezPrograms.RingBuffer

variable {α : Type} (capacity : ℕ) (ring log : List α)

/-- The buffer holds every entry of the log that a later one has not overwritten. -/
structure Holds : Prop where
  slots : ring.length = capacity
  entry : ∀ i, i < log.length → log.length ≤ i + capacity → ring[i % capacity]? = log[i]?

def latest : List α := log.drop (log.length - capacity)

def contents (written : ℕ) : List (Option α) :=
  (List.range (min written capacity)).map fun k =>
    ring[(written - min written capacity + k) % capacity]?

theorem mod_ne_of_lt (i n : ℕ) (h : i < n) (hn : n < i + capacity) :
    i % capacity ≠ n % capacity := by
  intro he
  have hd : capacity ∣ n - i := (Nat.modEq_iff_dvd' h.le).mp he
  have := Nat.le_of_dvd (by omega) hd
  omega

/-- The slot before the next one to write, as a reader computes it. -/
theorem previous_slot (n : ℕ) (hc : 0 < capacity) (hn : 0 < n) :
    (if n % capacity = 0 then capacity - 1 else n % capacity - 1) = (n - 1) % capacity := by
  obtain ⟨m, rfl⟩ : ∃ m, n = m + 1 := ⟨n - 1, by omega⟩
  have hlt := Nat.mod_lt m hc
  rw [Nat.add_sub_cancel, ← Nat.mod_add_mod m capacity 1]
  by_cases hlast : m % capacity + 1 = capacity
  · rw [hlast, Nat.mod_self, if_pos rfl]
    omega
  · rw [Nat.mod_eq_of_lt (by omega), if_neg (by omega)]
    omega

variable (h : Holds capacity ring log)

theorem holds_single (x z : α) (hc : 0 < capacity) :
    Holds capacity ((List.replicate capacity z).set 0 x) [x] := by
  refine ⟨by simp, ?_⟩
  intro i hi _
  have hz : i = 0 := by simpa using hi
  subst hz
  simp [hc]

include h

theorem Holds.push (x : α) (hc : 0 < capacity) :
    Holds capacity (ring.set (log.length % capacity) x) (log ++ [x]) := by
  refine ⟨by rw [List.length_set, h.slots], ?_⟩
  intro i hi hlast
  rw [List.length_append, List.length_singleton] at hi hlast
  rcases Nat.lt_or_ge i log.length with hlt | hge
  · have hne := mod_ne_of_lt capacity i log.length hlt (by omega)
    rw [List.getElem?_set_ne hne.symm, h.entry i hlt (by omega), List.getElem?_append_left hlt]
  · have hi : i = log.length := by omega
    subst hi
    have hslot : log.length % capacity < ring.length := h.slots.symm ▸ Nat.mod_lt _ hc
    rw [List.getElem?_set_self hslot, List.getElem?_append_right le_rfl, Nat.sub_self]
    rfl

theorem Holds.newest (hc : 0 < capacity) (hlog : log ≠ []) :
    ring[(log.length - 1) % capacity]? = log.getLast? := by
  have hpos := List.length_pos_iff.mpr hlog
  rw [h.entry _ (by omega) (by omega), List.getLast?_eq_getElem?]

theorem Holds.oldest (hc : 0 < capacity) (hlog : log ≠ []) :
    ring[if capacity ≤ log.length then log.length % capacity else 0]?
      = (latest capacity log).head? := by
  have hpos := List.length_pos_iff.mpr hlog
  rw [latest, List.head?_drop]
  split
  · rename_i hfull
    have hsame : log.length % capacity = (log.length - capacity) % capacity :=
      Nat.mod_eq_sub_mod hfull
    rw [hsame]
    exact h.entry _ (by omega) (by omega)
  · rename_i hyoung
    have hzero : log.length - capacity = 0 := by omega
    rw [hzero]
    have := h.entry 0 hpos (by omega)
    rwa [Nat.zero_mod] at this

theorem Holds.contents_eq :
    contents capacity ring log.length = (latest capacity log).map some := by
  apply List.ext_getElem?
  intro k
  rw [contents, latest, List.getElem?_map, List.getElem?_map, List.getElem?_drop]
  have hmin : log.length - min log.length capacity = log.length - capacity := by omega
  rw [hmin]
  rcases Nat.lt_or_ge k (min log.length capacity) with hk | hk
  · rw [List.getElem?_range hk, Option.map_some,
      h.entry _ (by omega) (by omega), List.getElem?_eq_getElem (by omega), Option.map_some]
  · rw [List.getElem?_eq_none (by rw [List.length_range]; exact hk),
      List.getElem?_eq_none (by omega), Option.map_none, Option.map_none]

end LezPrograms.RingBuffer
