import Mathlib.Data.List.Perm.Basic
import Mathlib.Data.Set.Basic

/-! # Actions on part of a store

An action uses the values at some keys: it changes no other value, and what it makes of
these depends on these only. Actions of which none changes what another one uses may be
carried out in any order, and each has the effect that it would have alone. -/

set_option autoImplicit false

namespace LezPrograms.Locality

variable {Key Value : Type}

structure Action (Key Value : Type) where
  uses : Set Key
  act : (Key → Value) → Key → Value
  frame : ∀ w key, key ∉ uses → act w key = w key
  reads : ∀ w u, (∀ key ∈ uses, u key = w key) → ∀ key ∈ uses, act u key = act w key

structure Independent (w : Key → Value) (a b : Action Key Value) : Prop where
  spares : ∀ key ∈ b.uses, a.act w key = w key
  spared : ∀ key ∈ a.uses, b.act w key = w key

theorem Independent.symm (w : Key → Value) (a b : Action Key Value) (h : Independent w a b) :
    Independent w b a := ⟨h.spared, h.spares⟩

def perform (w : Key → Value) (actions : List (Action Key Value)) : Key → Value :=
  actions.foldl (fun w a => a.act w) w

theorem perform_cons (w : Key → Value) (a : Action Key Value) (actions : List (Action Key Value)) :
    perform w (a :: actions) = perform (a.act w) actions := rfl

/-- After an action that it is independent of, an action changes what it would have changed. -/
theorem Independent.after (w : Key → Value) (a b : Action Key Value) (h : Independent w a b)
    (key : Key) : (b.act w key ≠ w key → b.act (a.act w) key = b.act w key) ∧
      (b.act w key = w key → b.act (a.act w) key = a.act w key) := by
  by_cases hkey : key ∈ b.uses
  · have hsame : b.act (a.act w) key = b.act w key := b.reads w (a.act w) h.spares key hkey
    exact ⟨fun _ => hsame, fun he => by rw [hsame, he, h.spares key hkey]⟩
  · have hframe := b.frame w key hkey
    exact ⟨fun hne => absurd hframe hne, fun _ => b.frame (a.act w) key hkey⟩

/-- Actions that an action is independent of stay independent of each other after it. -/
theorem Independent.kept (w : Key → Value) (a b c : Action Key Value) (hb : Independent w a b)
    (hc : Independent w a c) (h : Independent w b c) : Independent (a.act w) b c := by
  constructor
  · intro key hkey
    exact (hb.after w a b key).2 (h.spares key hkey)
  · intro key hkey
    exact (hc.after w a c key).2 (h.spared key hkey)

/-- Pairwise independent actions leave what they leave alone, and change the rest as each of them
would have changed it alone. -/
theorem perform_independent (actions : List (Action Key Value)) :
    ∀ w : Key → Value, actions.Pairwise (Independent w) → ∀ key,
      (∀ a ∈ actions, a.act w key ≠ w key → perform w actions key = a.act w key) ∧
      ((∀ a ∈ actions, a.act w key = w key) → perform w actions key = w key) := by
  induction actions with
  | nil => exact fun w _ key => ⟨fun a ha => absurd ha List.not_mem_nil, fun _ => rfl⟩
  | cons a actions ih =>
    intro w h key
    obtain ⟨ha, hrest⟩ := List.pairwise_cons.mp h
    have hlater : actions.Pairwise (Independent (a.act w)) :=
      hrest.imp_of_mem fun hb hc hbc => (ha _ hb).kept w a _ _ (ha _ hc) hbc
    obtain ⟨hchanged, hleft⟩ := ih (a.act w) hlater key
    rw [perform_cons]
    -- whoever changes the key first changes it alone: the others use it or leave it
    have hfirst : a.act w key ≠ w key → perform (a.act w) actions key = a.act w key := by
      intro hne
      refine hleft fun b hb => ((ha b hb).after w a b key).2 ?_
      by_contra hbne
      have hkey : key ∈ b.uses := by
        by_contra hkey
        exact hbne (b.frame w key hkey)
      exact hne ((ha b hb).spares key hkey)
    refine ⟨fun b hb hne => ?_, fun hall => ?_⟩
    · rcases List.mem_cons.mp hb with rfl | hb
      · exact hfirst hne
      · have hafter := ((ha b hb).after w a b key).1 hne
        rw [← hafter]
        refine hchanged b hb ?_
        rw [hafter]
        have hkey : key ∈ b.uses := by
          by_contra hkey
          exact hne (b.frame w key hkey)
        rwa [(ha b hb).spares key hkey]
    · have hhead := hall a (List.mem_cons_self ..)
      rw [hleft fun b hb => ((ha b hb).after w a b key).2 (hall b (List.mem_cons_of_mem _ hb)),
        hhead]

/-- The order of pairwise independent actions does not matter. -/
theorem perform_perm (w : Key → Value) (actions actions' : List (Action Key Value))
    (hp : actions.Perm actions') (h : actions.Pairwise (Independent w)) :
    perform w actions = perform w actions' := by
  have h' : actions'.Pairwise (Independent w) :=
    hp.pairwise h fun hab => hab.symm w _ _
  funext key
  by_cases hall : ∀ a ∈ actions, a.act w key = w key
  · rw [(perform_independent actions w h key).2 hall,
      (perform_independent actions' w h' key).2 fun a ha => hall a (hp.mem_iff.mpr ha)]
  · obtain ⟨a, ha, hne⟩ : ∃ a ∈ actions, a.act w key ≠ w key := by simpa using hall
    rw [(perform_independent actions w h key).1 a ha hne,
      (perform_independent actions' w h' key).1 a (hp.mem_iff.mp ha) hne]

/-- What an action uses is left to it by the actions that it is independent of. -/
theorem perform_spares (w : Key → Value) (a : Action Key Value) (actions : List (Action Key Value))
    (h : (a :: actions).Pairwise (Independent w)) (key : Key) (hkey : key ∈ a.uses) :
    perform w actions key = w key := by
  obtain ⟨ha, hrest⟩ := List.pairwise_cons.mp h
  exact (perform_independent actions w hrest key).2 fun b hb => (ha b hb).spared key hkey

end LezPrograms.Locality
