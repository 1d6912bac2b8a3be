import LezPrograms.Stablecoin.Reachable

/-! # The total of the normalized debts

The total and the debts of the positions live in different accounts. In every
reachable world the one is the sum of the others. -/

set_option autoImplicit false

namespace LezPrograms.Stablecoin
open LezPrograms.Checked LezPrograms.Lee LezPrograms.Token LezPrograms.Stablecoin.Math

abbrev totalUnderflow : String := "Total normalized debt underflow"

section
variable (w : Accounts) (authority : List AccountId) (self : AccountId)

/-- The computations of a repayment before the total is reduced do not blame the total. -/
theorem mulDiv_blames (a b c : U128) : mulDiv a b c ≠ .error totalUnderflow := by
  simp [mulDiv, floorMulDiv, bind_eq_error, ensure_eq_error, expect_eq_error, totalUnderflow]

theorem compoundLoop_blames (exponent : ℕ) (result base : U128) :
    compoundLoop exponent result base ≠ .error totalUnderflow := by
  fun_induction compoundLoop exponent result base with
  | case1 => simp
  | case2 exponent result base hne ih =>
    intro h
    simp only [bind_eq_error] at h
    rcases h with h | ⟨r, -, h | ⟨b, -, h⟩⟩
    · split at h
      · exact mulDiv_blames _ _ _ h
      · simp only [pure_eq_error] at h
    · split at h
      · exact mulDiv_blames _ _ _ h
      · simp only [pure_eq_error] at h
    · exact ih _ _ h

theorem accrueFees_blames (params : ProtocolParameters) (accumulator : StabilityFeeAccumulator)
    (now : U64) : accrueFees params accumulator now ≠ .error totalUnderflow := by
  have hrate (rate : U128) (elapsed : U64) :
      compoundRate rate elapsed ≠ .error totalUnderflow := by
    unfold compoundRate
    split
    · simp
    · split
      · simp
      · exact compoundLoop_blames _ _ _
  simp only [accrueFees, computeCurrentAccumulatedRate, bind_eq_error, expect_eq_error,
    pure_eq_error, hrate, mulDiv_blames, totalUnderflow, String.reduceEq, and_false, exists_false,
    or_self, ne_eq, not_false_eq_true]

theorem decodeGlobal_blames (account : InputAccount) (id : AccountId) :
    decodeGlobal account id self "ProtocolParameters" ≠ .error totalUnderflow ∧
      decodeGlobal account id self "StabilityFeeAccumulator" ≠ .error totalUnderflow := by
  constructor <;> simp only [decodeGlobal, bind_eq_error, ensure_eq_error, pure_eq_error,
    totalUnderflow, String.reduceAppend, String.reduceEq, and_false, exists_false, or_self, ne_eq,
    not_false_eq_true]

theorem readClock_blames (account : InputAccount) :
    readClock account ≠ .error totalUnderflow := by
  have hclock (data : Data) : clockTimestamp data ≠ .error totalUnderflow := by
    cases data <;> simp [clockTimestamp, totalUnderflow, pure_eq_error]
  simp only [readClock, bind_eq_error, ensure_eq_error, hclock, totalUnderflow,
    String.reduceEq, and_false, exists_false, or_self, ne_eq, not_false_eq_true]

theorem surplusMintCall_blames (definition holding : InputAccount) (params : ProtocolParameters)
    (fees : U128) : surplusMintCall definition holding params self fees ≠ .error totalUnderflow := by
  simp only [surplusMintCall, bind_eq_error, ensure_eq_error, pure_eq_error, totalUnderflow,
    String.reduceEq, and_false, exists_false, or_self, ne_eq, not_false_eq_true]

theorem decodePosition_blames (position owner : InputAccount) :
    decodePosition position owner self ≠ .error totalUnderflow := by
  simp only [decodePosition, verifyPositionAndGetSeed, bind_eq_error, ensure_eq_error,
    expect_eq_error, pure_eq_error, totalUnderflow, String.reduceEq, and_false, exists_false,
    or_self, ne_eq, not_false_eq_true]

theorem decodeGlobals_blame (account : InputAccount) :
    decodeProtocolParameters account self ≠ .error totalUnderflow ∧
      decodeStabilityFeeAccumulator account self ≠ .error totalUnderflow := by
  constructor <;>
  simp only [decodeProtocolParameters, decodeStabilityFeeAccumulator, bind_eq_error,
    expect_eq_error, decodeGlobal_blames, totalUnderflow, String.reduceEq, and_false,
    exists_false, or_self, ne_eq, not_false_eq_true]

/-- A repayment that blames the total could reduce the debt of the position. -/
theorem repayDebt_blames (o x d u m a p c : AccountId) (amount : U128)
    (h : repayDebt (view w authority o) (view w authority x) (view w authority d)
      (view w authority u) (view w authority m) (view w authority a) (view w authority p)
      (view w authority c) self amount = .error totalUnderflow) :
    ∃ data accumulator delta newDebt, Holds self (w x) (.position data) ∧
      Holds self (w (computeStabilityFeeAccumulatorPda self))
        (.stabilityFeeAccumulator accumulator) ∧
      data.normalizedDebtAmount.checkedSub delta = some newDebt ∧
      accumulator.totalNormalizedDebt.checkedSub delta = none := by
  simp only [repayDebt, bind_eq_error, ensure_eq_error, expect_eq_error, pure_eq_error,
    decodePosition_blames, decodeGlobals_blame, readClock_blames, accrueFees_blames,
    surplusMintCall_blames, mulDiv_blames, totalUnderflow, String.reduceEq, and_false, false_or,
    or_false, and_true, exists_false, exists_const, ensure_eq_ok, expect_eq_ok,
    decodePosition_eq_ok, decodeProtocolParameters_eq_ok, decodeStabilityFeeAccumulator_eq_ok] at h
  simp only [view_account] at h
  obtain ⟨-, data, ⟨-, hx, -, -⟩, -, params, -, -, -, -, -, _, -, -, accumulator, ⟨-, rfl, ha⟩,
    _, -, accrual, haccrue, _, -, delta, -, newDebt, hdebt, htotal⟩ := h
  rw [(accrueFees_spec _ _ _ _ haccrue).2.1] at htotal
  exact ⟨data, accumulator, delta, newDebt, hx, ha, hdebt, htotal⟩

end

theorem sound_balanced (w : Accounts) (h : Sound w) :
    ∃ live : Finset AccountId, (∀ id, id ∈ live ↔ (positionAt w id).isSome = true) ∧
      totalNormalizedDebt w = ∑ id ∈ live, debtAt w id := by
  rcases h with hu | ⟨s, hr, -, hbal, -⟩
  · refine ⟨∅, ?_, by rw [(hu.views w).2.2.2.1, Finset.sum_empty]⟩
    intro id
    rw [hu.positionAt]
    simp only [Finset.notMem_empty, Option.isSome_none, Bool.false_eq_true]
  · refine ⟨s.ledger.live, hr.live_iff w s, ?_⟩
    rw [hr.totalNormalizedDebt, hbal]
    exact Finset.sum_congr rfl fun id hid => (hr.debtAt w s id hid).symm

/-- What the debt of a position admits, the total admits. -/
theorem sound_subtracts (w : Accounts) (h : Sound w) (id : AccountId) (data : Position)
    (accumulator : StabilityFeeAccumulator) (delta newDebt : U128)
    (hx : Holds stablecoinProgramId (w id) (.position data))
    (ha : Holds stablecoinProgramId (w accumulatorId) (.stabilityFeeAccumulator accumulator))
    (hd : data.normalizedDebtAmount.checkedSub delta = some newDebt) :
    accumulator.totalNormalizedDebt.checkedSub delta ≠ none := by
  rcases h with hu | ⟨s, hr, -, hbal, -⟩
  · exact (hu.not_holds w _ _ hx).elim
  · obtain rfl := hr.reads_accumulator w s accumulator ha
    have hx' := Holds.owned_eq _ _ _ _ hx
    have hle := hbal.debt_le _ id ((hr.records.live id).mpr ⟨data, hx'⟩)
    rw [(hr.records.amounts id data hx').1, hr.records.total] at hle
    rw [Unsigned.checkedSub_eq_some] at hd
    rw [ne_eq, Unsigned.checkedSub_eq_none]
    omega

theorem closePosition_keeps_accumulator (w w' : Accounts) (h : Sound w) (platform : Platform)
    (authority : List AccountId) (call : ChainedCall)
    (hi : call.instruction = .stablecoin .closePosition)
    (ht : transact platform w authority call = .ok w') :
    storedAccumulator w' = storedAccumulator w := by
  obtain ⟨v, calls, -, -, -, hstep, hinv⟩ := transacted_of_ok platform w w' authority call _ hi ht
  have hstored := hinv.stored_eq
  generalize call.accountIds = ids at hstep
  cases hstep with
  | setParameters _ _ _ _ _ hsetter => cases hsetter
  | closePosition owner position token data balance reads =>
    rcases h with hu | ⟨s, hr, -⟩
    · exact (hu.not_holds w _ _ reads.stored).elim
    · have hx := Holds.owned_eq _ _ _ _ reads.stored
      have hne : accumulatorId ≠ position := by
        rintro rfl
        rw [hr.records.accumulator] at hx
        cases hx
      rw [storedAccumulator, hstored, owned_put_same _ _ _ _ hx, Function.update_of_ne hne,
        storedAccumulator]

/-- After every run the total is the sum of the debts of the live positions, no repayment fails
because the total is too small, and closing a position takes nothing from the total. -/
theorem total_is_sum_of_debts (platform : Platform) (genesis : Genesis) (events : List Event) :
    (∃ live : Finset AccountId,
        (∀ id, id ∈ live ↔ (positionAt (run platform genesis.world events) id).isSome = true) ∧
        totalNormalizedDebt (run platform genesis.world events)
          = ∑ id ∈ live, debtAt (run platform genesis.world events) id) ∧
      (∀ (authority : List AccountId) (o x d u m a p c : AccountId) (amount : U128),
        main stablecoinProgramId
          ([o, x, d, u, m, a, p, c].map (view (run platform genesis.world events) authority))
          (.repayDebt amount) ≠ .error totalUnderflow) ∧
      ∀ (authority : List AccountId) (call : ChainedCall) (w' : Accounts),
        call.instruction = .stablecoin .closePosition →
        transact platform (run platform genesis.world events) authority call = .ok w' →
        totalNormalizedDebt w' = totalNormalizedDebt (run platform genesis.world events) := by
  have hs := run_sound platform genesis events
  refine ⟨sound_balanced _ hs, ?_, ?_⟩
  · intro authority o x d u m a p c amount h
    obtain ⟨data, accumulator, delta, newDebt, hx, ha, hdebt, htotal⟩ :=
      repayDebt_blames _ authority stablecoinProgramId o x d u m a p c amount h
    exact sound_subtracts _ hs x data accumulator delta newDebt hx ha hdebt htotal
  · intro authority call w' hi ht
    rw [totalNormalizedDebt, totalNormalizedDebt,
      closePosition_keeps_accumulator _ w' hs platform authority call hi ht]

end LezPrograms.Stablecoin
