import LezPrograms.TwapOracle.Step

/-! # Reports of the price source

Only the price source reports a price, and a report leaves its tick in the current
tick account of the source. -/

set_option autoImplicit false

namespace LezPrograms.TwapOracle
open LezPrograms.Checked LezPrograms.Lee

inductive Reporting (price : U128) : Instruction → Prop
  | update : Reporting price (.updateCurrentTick price)
  | create : Reporting price (.createCurrentTickAccount price)

section
variable (tickMath : TickMath) (self : AccountId) (authority : List AccountId) (w w' : Accounts)
  (ids : List AccountId) (instruction : Instruction) (diffs : List StateDiff)
  (h : main tickMath self (ids.map (view w authority)) instruction = .ok diffs)
  (ha : applyDiffs self w diffs = .ok w')
include h ha

theorem reported (price : U128) (hi : Reporting price instruction) :
    ∃ s tick now, ids = [computeCurrentTickAccountPda self s, s, clock01ProgramAccountId] ∧
      s ∈ authority ∧ priceToTick tickMath price = .ok tick ∧
      (instruction = .createCurrentTickAccount price →
        w (computeCurrentTickAccountPda self s) = default) ∧
      MayWrite self (w (computeCurrentTickAccountPda self s)) (.currentTick ⟨tick, now⟩) ∧
      w' = put self w (computeCurrentTickAccountPda self s) (.currentTick ⟨tick, now⟩) := by
  rcases ids with _ | ⟨t, _ | ⟨s, _ | ⟨c, _ | ⟨x, ids⟩⟩⟩⟩
  · cases hi <;> exact absurd h (error_ne_ok _ _)
  · cases hi <;> exact absurd h (error_ne_ok _ _)
  · cases hi <;> exact absurd h (error_ne_ok _ _)
  · cases hi with
    | update =>
      simp only [main, List.map_cons, List.map_nil, updateCurrentTick, bind_eq_ok, ensure_eq_ok,
        exists_const, pure_eq_ok] at h
      simp only [view_isAuthorized, view_accountId] at h
      obtain ⟨rfl, hauth, rfl, stored, -, now, -, tick, htick, rfl⟩ := h
      simp only [applyDiffs_new, applyDiffs_unchanged, view_accountId, applyDiffs_nil,
        Except.ok.injEq] at ha
      exact ⟨s, tick, now, rfl, hauth, htick, fun he => (by cases he), ha.1, ha.2.symm⟩
    | create =>
      simp only [main, List.map_cons, List.map_nil, createCurrentTickAccount, bind_eq_ok,
        ensure_eq_ok, exists_const, pure_eq_ok] at h
      simp only [view_account, view_isAuthorized, view_accountId] at h
      obtain ⟨rfl, hfresh, hauth, rfl, now, -, tick, htick, rfl⟩ := h
      simp only [applyDiffs_new, applyDiffs_unchanged, view_accountId, applyDiffs_nil,
        Except.ok.injEq] at ha
      exact ⟨s, tick, now, rfl, hauth, htick, fun _ => hfresh, ha.1, ha.2.symm⟩
  · cases hi <;> exact absurd h (error_ne_ok _ _)

/-- Without the authority of its source a current tick stays. -/
theorem currentTick_kept (s : AccountId) (hs : s ∉ authority) :
    w' (computeCurrentTickAccountPda self s) = w (computeCurrentTickAccountPda self s) := by
  by_cases hi : ∃ price, Reporting price instruction
  · obtain ⟨price, hi⟩ := hi
    obtain ⟨s', tick, now, -, hauth, -, -, -, rfl⟩ :=
      reported tickMath self authority w w' ids instruction diffs h ha price hi
    refine put_other _ _ _ _ _ fun he => hs ?_
    cases he
    exact hauth
  · have hstep := step_of_main tickMath self authority w w' diffs ids instruction h ha
    cases hstep with
    | createPriceObservations => exact put_other _ _ _ _ _ (by rintro ⟨⟩)
    | createOraclePriceAccount => exact put_other _ _ _ _ _ (by rintro ⟨⟩)
    | currentTick _ _ _ _ reports _ =>
      rcases reports with ⟨price, rfl⟩ | ⟨price, rfl⟩
      · exact absurd ⟨price, .update⟩ hi
      · exact absurd ⟨price, .create⟩ hi
    | publishIdle => rfl
    | publishPrice => exact put_other _ _ _ _ _ (by rintro ⟨⟩)
    | recordIdle => rfl
    | recordTick => exact put_other _ _ _ _ _ (by rintro ⟨⟩)

end

end LezPrograms.TwapOracle
