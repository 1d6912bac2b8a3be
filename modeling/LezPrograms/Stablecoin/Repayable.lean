import LezPrograms.Stablecoin.Collateralization
import LezPrograms.Stablecoin.Projections
import LezPrograms.Stablecoin.Transactions
import Mathlib.Algebra.Order.Floor.Div

/-! # What a position owes, and what clears it

Generating debt rounds the normalized debt up, repaying rounds it down. The
nominal obligation of a position is the ceiling of its normalized debt times
the accumulated rate. The two roundings are adjoint, so an amount clears a
position if and only if it reaches the nominal obligation. -/

set_option autoImplicit false

namespace LezPrograms.Stablecoin
open LezPrograms.Checked LezPrograms.Checked.Unsigned LezPrograms.Lee
open LezPrograms.Stablecoin.Math LezPrograms.Stablecoin.Compounding

def nominalDebt (normalized rate : ℕ) : ℕ := normalized * rate ⌈/⌉ fixedPointOne.val

theorem nominalDebt_le_iff (n rate amount : ℕ) :
    nominalDebt n rate ≤ amount ↔ n * rate ≤ amount * fixedPointOne.val := by
  rw [nominalDebt, ceilDiv_le_iff_le_mul fixedPointOne_pos, Nat.mul_comm fixedPointOne.val]

theorem lt_nominalDebt_iff (n rate amount : ℕ) :
    amount < nominalDebt n rate ↔ amount * fixedPointOne.val < n * rate := by
  rw [← Nat.not_le, nominalDebt_le_iff, Nat.not_le]

/-- What repays an amount is adjoint to what the debt amounts to. -/
theorem nominalDebt_le_iff_le_div (n rate amount : ℕ) (hrate : 0 < rate) :
    nominalDebt n rate ≤ amount ↔ n ≤ amount * fixedPointOne.val / rate := by
  rw [nominalDebt_le_iff, Nat.le_div_iff_mul_le hrate]

theorem nominalDebt_clears (n rate : ℕ) (hrate : fixedPointOne.val ≤ rate) :
    nominalDebt n rate * fixedPointOne.val / rate = n := by
  have hpos : 0 < rate := fixedPointOne_pos.trans_le hrate
  apply le_antisymm
  · rw [← Nat.lt_succ_iff, Nat.div_lt_iff_lt_mul hpos]
    have hlt : nominalDebt n rate - 1 < nominalDebt n rate ∨ nominalDebt n rate = 0 := by omega
    rcases hlt with hlt | h0
    · have hmul := (lt_nominalDebt_iff n rate _).mp hlt
      rw [Nat.sub_mul, Nat.one_mul] at hmul
      rw [Nat.succ_mul]
      omega
    · rw [h0, Nat.zero_mul]
      exact Nat.mul_pos (Nat.succ_pos n) hpos
  · exact (nominalDebt_le_iff_le_div n rate _ hpos).mp le_rfl

theorem nominalDebt_add (n delta rate amount : ℕ) (h : amount * fixedPointOne.val ≤ delta * rate) :
    nominalDebt n rate + amount ≤ nominalDebt (n + delta) rate := by
  by_contra hlt
  rw [Nat.not_le] at hlt
  have hcover := (nominalDebt_le_iff (n + delta) rate (nominalDebt (n + delta) rate)).mp le_rfl
  rw [Nat.add_mul] at hcover
  have hrest : nominalDebt n rate ≤ nominalDebt (n + delta) rate - amount := by
    rw [nominalDebt_le_iff, Nat.sub_mul]
    omega
  have hamount : amount ≤ nominalDebt (n + delta) rate := by
    apply Nat.le_of_mul_le_mul_right _ fixedPointOne_pos
    omega
  omega

theorem nominalDebt_sub (n delta rate amount : ℕ) (h : delta * rate ≤ amount * fixedPointOne.val) :
    nominalDebt (n + delta) rate ≤ nominalDebt n rate + amount := by
  have hcover := (nominalDebt_le_iff n rate (nominalDebt n rate)).mp le_rfl
  rw [nominalDebt_le_iff, Nat.add_mul, Nat.add_mul]
  omega

/-- The ceiling division of the code computes the nominal obligation whenever that fits. -/
theorem mulDivCeil_nominal (n rate amount : U128) (h : amount.val = nominalDebt n.val rate.val) :
    mulDivCeil n rate fixedPointOne = .ok amount := by
  have hcover := (nominalDebt_le_iff n.val rate.val _).mp le_rfl
  have hpos := fixedPointOne_pos
  rw [mulDivCeil_eq_ok, h]
  refine ⟨hpos.ne', hcover, ?_⟩
  rcases Nat.eq_zero_or_pos (nominalDebt n.val rate.val) with h0 | h0
  · rw [h0, Nat.zero_mul]
    omega
  · have hlt := (lt_nominalDebt_iff n.val rate.val (nominalDebt n.val rate.val - 1)).mp (by omega)
    rw [Nat.sub_mul, Nat.one_mul] at hlt
    omega

theorem mulDiv_nominal (n rate amount : U128) (hrate : fixedPointOne.val ≤ rate.val)
    (h : amount.val = nominalDebt n.val rate.val) :
    mulDiv amount fixedPointOne rate = .ok n := by
  rw [mulDiv_eq_ok, h, nominalDebt_clears _ _ hrate]
  exact ⟨(fixedPointOne_pos.trans_le hrate).ne', rfl⟩

/-- The division of a repayment always has a result, below `n` exactly for the amounts below the
nominal obligation of `n`. -/
theorem mulDiv_repaid (rate amount : U128) (hrate : fixedPointOne.val ≤ rate.val) :
    ∃ delta, mulDiv amount fixedPointOne rate = .ok delta ∧
      ∀ n : ℕ, amount.val < nominalDebt n rate.val ↔ delta.val < n := by
  have hpos : 0 < rate.val := fixedPointOne_pos.trans_le hrate
  have hle : amount.val * fixedPointOne.val / rate.val ≤ amount.val := by
    apply Nat.div_le_of_le_mul
    rw [Nat.mul_comm]
    exact Nat.mul_le_mul_right _ hrate
  refine ⟨⟨_, lt_of_le_of_lt hle amount.isLt⟩, (mulDiv_eq_ok _ _ _ _).mpr ⟨hpos.ne', rfl⟩, ?_⟩
  intro n
  rw [← Nat.not_le, nominalDebt_le_iff_le_div _ _ _ hpos, Nat.not_le]

def obligation (w : Accounts) (x : Position) : ℕ :=
  nominalDebt x.normalizedDebtAmount.val (accumulatedRate w)

section
variable (w : Accounts)

/-- What an instruction shows that converts between tokens and normalized debt. -/
theorem converted (platform : Platform) (w' v : Accounts) (authority : List AccountId)
    (call : ChainedCall) (calls : List ChainedCall) (instruction : Instruction)
    (ht : Transacted platform w authority call instruction v calls w') (owner position : AccountId)
    (data data' : Position) (accumulator accumulator' : StabilityFeeAccumulator)
    (reads : PositionReads stablecoinProgramId w authority owner position data)
    (stored : Holds stablecoinProgramId (w accumulatorId) (.stabilityFeeAccumulator accumulator))
    (hv : v = put stablecoinProgramId (put stablecoinProgramId w position (.position data'))
      accumulatorId (.stabilityFeeAccumulator accumulator')) :
    positionAt w position = some data ∧ positionAt w' position = some data' ∧
      accumulatedRate w' = accumulator'.accumulatedRateAtLastAccrual.val := by
  have hne : accumulatorId ≠ position := by
    rw [reads.derived]
    exact fun he => by cases (AccountId.pda.inj he).2
  have howned : owned stablecoinProgramId w' = Function.update (Function.update
      (owned stablecoinProgramId w) position (some (.position data'))) accumulatorId
      (some (.stabilityFeeAccumulator accumulator')) := by
    rw [ht.invoked.stored_eq, hv, owned_put _ _ _ _ (Or.inl (by
      rw [put_other _ _ _ _ _ hne]
      exact stored.1)), owned_put _ _ _ _ (Or.inl reads.stored.1)]
  refine ⟨?_, ?_, ?_⟩
  · rw [positionAt_eq_some]
    exact Holds.owned_eq _ _ _ _ reads.stored
  · rw [positionAt_eq_some, howned, Function.update_of_ne hne.symm, Function.update_self]
  · rw [accumulatedRate, storedAccumulator, howned, Function.update_self]
    rfl

/-- The rate at which an instruction of a reachable world converts is at least one. -/
theorem accrual_rate (h : Sound w) (params : ProtocolParameters)
    (accumulator : StabilityFeeAccumulator) (now : U64) (accrual : FeeAccrual) (d : AccountId)
    (accrues : AccrualReads stablecoinProgramId w parametersId d params accumulator now accrual) :
    fixedPointOne.val ≤ accrual.accumulator.accumulatedRateAtLastAccrual.val := by
  have hone := sound_accumulated w h accumulator
    (Holds.storedAccumulator w accumulator accrues.accumulates)
  exact hone.trans (accrueFees_spec _ _ _ _ accrues.computed).1

variable (platform : Platform) (w' : Accounts) (authority : List AccountId)
  (call : ChainedCall) (amount : U128) (ht : transact platform w authority call = .ok w')
  (id : AccountId) (hid : call.accountIds[1]? = some id) (x x' : Position)
  (hx : positionAt w id = some x) (hx' : positionAt w' id = some x')
include ht hid hx hx'

theorem generate_raises (hi : call.instruction = .stablecoin (.generateDebt amount)) :
    obligation w' x + amount.val ≤ obligation w' x' := by
  obtain ⟨v, calls, ht⟩ := transacted_of_ok platform w w' authority call _ hi ht
  have hstep := ht.step
  generalize call.accountIds = ids at hstep hid
  cases hstep with
  | setParameters _ _ _ _ _ hsetter => cases hsetter
  | generateDebt owner position d user _ data params accumulator redemption now accrual debtDelta
      newDebt newTotal reads accrues _ _ delta debt =>
    obtain rfl : position = id := by simpa using hid
    obtain ⟨hdata, hdata', hrate⟩ := converted w platform w' _ authority call _ _ ht owner
      position data _ accumulator _ reads accrues.accumulates rfl
    cases hdata.symm.trans hx
    cases hdata'.symm.trans hx'
    rw [obligation, obligation, hrate, debt]
    exact nominalDebt_add _ _ _ _ (mulDivCeil_bounds _ _ _ _ delta).2.1

theorem repay_lowers (h : Sound w) (hi : call.instruction = .stablecoin (.repayDebt amount)) :
    obligation w' x ≤ obligation w' x' + amount.val ∧
      (amount.val = obligation w' x → x'.normalizedDebtAmount.val = 0) ∧
      (amount.val < obligation w' x → x'.normalizedDebtAmount.val ≠ 0) := by
  obtain ⟨v, calls, ht⟩ := transacted_of_ok platform w w' authority call _ hi ht
  have hstep := ht.step
  generalize call.accountIds = ids at hstep hid
  cases hstep with
  | setParameters _ _ _ _ _ hsetter => cases hsetter
  | repayDebt owner position d user _ data params accumulator now accrual debtDelta newDebt newTotal
      reads _ accrues _ delta debt =>
    obtain rfl : position = id := by simpa using hid
    obtain ⟨hdata, hdata', hrate⟩ := converted w platform w' _ authority call _ _ ht owner
      position data _ accumulator _ reads accrues.accumulates rfl
    cases hdata.symm.trans hx
    cases hdata'.symm.trans hx'
    have hone := accrual_rate w h params accumulator now accrual d accrues
    rw [obligation, obligation, hrate, ← debt]
    refine ⟨nominalDebt_sub _ _ _ _ (mulDiv_bounds _ _ _ _ delta).1, ?_, ?_⟩
    · intro hfull
      rw [debt] at hfull
      have hn := mulDiv_nominal _ _ amount hone hfull
      rw [delta, Except.ok.injEq] at hn
      rw [hn] at debt
      simpa using debt
    · intro hpart
      obtain ⟨delta', hdelta', hiff⟩ := mulDiv_repaid _ amount hone
      rw [delta, Except.ok.injEq] at hdelta'
      have := (hiff _).mp hpart
      rw [← hdelta'] at this
      simp only
      omega

end

def CurrentRate (w : Accounts) (rate : U128) : Prop :=
  ∃ p a now, storedParameters w = some p ∧ storedAccumulator w = some a ∧
    (w clock01ProgramAccountId).data = .clock now ∧
    computeCurrentAccumulatedRate a.accumulatedRateAtLastAccrual p.stabilityFeePerMillisecond
      a.lastAccruedAt now = .ok rate

theorem AccrualReads.current (w : Accounts) (d : AccountId) (params : ProtocolParameters)
    (accumulator : StabilityFeeAccumulator) (now : U64) (accrual : FeeAccrual)
    (h : AccrualReads stablecoinProgramId w parametersId d params accumulator now accrual) :
    CurrentRate w accrual.accumulator.accumulatedRateAtLastAccrual := by
  refine ⟨params, accumulator, now, Holds.storedParameters w _ h.parameters,
    Holds.storedAccumulator w _ h.accumulates, h.clock, ?_⟩
  have hc := h.computed
  simp only [accrueFees, bind_eq_ok, pure_eq_ok] at hc
  obtain ⟨current, hcurrent, -, -, -, -, rfl⟩ := hc
  exact hcurrent

/-- Where some repayment passes the program, so does the repayment of the nominal obligation. -/
theorem repay_in_full (w v : Accounts) (h : Sound w) (authority ids : List AccountId)
    (calls : List ChainedCall) (part : U128)
    (hp : Performs w authority ids (.repayDebt part) v calls) :
    ∃ (x : Position) (rate : U128), (∃ id, ids[1]? = some id ∧ positionAt w id = some x) ∧
      CurrentRate w rate ∧ fixedPointOne.val ≤ rate.val ∧
      ∀ full : U128, full.val = nominalDebt x.normalizedDebtAmount.val rate.val →
        ∃ v' calls', Performs w authority ids (.repayDebt full) v' calls' := by
  have hstep := hp.step
  cases hstep with
  | setParameters _ _ _ _ _ hsetter => cases hsetter
  | repayDebt o x d u _ _ _ _ _ _ _ _ _ _ =>
    obtain ⟨hn, hids, huser, data, params, accumulator, now, accrual, delta, newDebt, newTotal, reads,
      hdelta, hdebt, htotal, -, -⟩ := (performs_repay w _ authority _ o x d u _ _ _ _ part).mp hp
    have hone := accrual_rate w h params accumulator now accrual d reads.accrues
    have hx := Holds.owned_eq _ _ _ _ reads.position.stored
    refine ⟨data, accrual.accumulator.accumulatedRateAtLastAccrual,
      ⟨x, rfl, (positionAt_eq_some w x data).mpr hx⟩, reads.accrues.current, hone, fun full hfull => ?_⟩
    have hle : data.normalizedDebtAmount.val ≤ accrual.accumulator.totalNormalizedDebt.val := by
      rw [(accrueFees_spec _ _ _ _ reads.accrues.computed).2.1]
      rcases h with hu | ⟨s, hs, -, hbal, -⟩
      · exact (hu.not_holds w _ _ reads.position.stored).elim
      · obtain rfl := hs.reads_accumulator w s accumulator reads.accrues.accumulates
        have hdebt := hbal.debt_le _ x ((hs.records.live x).mpr ⟨data, hx⟩)
        rwa [(hs.records.amounts x data hx).1, hs.records.total] at hdebt
    have hrest : accrual.accumulator.totalNormalizedDebt.val - data.normalizedDebtAmount.val
        < 2 ^ 128 := lt_of_le_of_lt (Nat.sub_le _ _) (Fin.isLt _)
    exact ⟨_, _, (performs_repay w _ authority _ o x d u _ _ _ _ full).mpr ⟨hn, hids, huser, data,
      params, accumulator, now, accrual, data.normalizedDebtAmount, ⟨0, by norm_num⟩, ⟨_, hrest⟩,
      reads, mulDiv_nominal _ _ full hone hfull, Nat.zero_add _, Nat.sub_add_cancel hle, rfl, rfl⟩⟩

/-- An amount repays debt exactly if it is the ceiling of what the debt amounts to, and less than
that never does. In every reachable world generating debt raises the nominal obligation by at least
the amount minted, repaying lowers it by at most the amount burned, the repayment of the whole
obligation clears the position and a smaller one leaves debt. -/
theorem debt_is_exactly_repayable (platform : Platform) (genesis : Genesis)
    (events : List Event) :
    (∀ acc n a : U128, fixedPointOne.val ≤ acc.val → a.val = nominalDebt n.val acc.val →
      mulDivCeil n acc fixedPointOne = .ok a ∧ mulDiv a fixedPointOne acc = .ok n ∧
        ∀ b : U128, b.val < a.val →
          ∃ delta, mulDiv b fixedPointOne acc = .ok delta ∧ delta.val < n.val) ∧
      (∀ authority ids part v calls,
        Performs (run platform genesis.world events) authority ids (.repayDebt part) v calls →
        ∃ (x : Position) (rate : U128), (∃ id, ids[1]? = some id ∧
            positionAt (run platform genesis.world events) id = some x) ∧
          CurrentRate (run platform genesis.world events) rate ∧ fixedPointOne.val ≤ rate.val ∧
          ∀ full : U128, full.val = nominalDebt x.normalizedDebtAmount.val rate.val →
            ∃ v' calls', Performs (run platform genesis.world events) authority ids
              (.repayDebt full) v' calls') ∧
      ∀ authority call w' id x x' amount,
        transact platform (run platform genesis.world events) authority call = .ok w' →
        call.accountIds[1]? = some id → positionAt (run platform genesis.world events) id = some x →
        positionAt w' id = some x' →
        (call.instruction = .stablecoin (.generateDebt amount) →
          obligation w' x + amount.val ≤ obligation w' x') ∧
        (call.instruction = .stablecoin (.repayDebt amount) →
          obligation w' x ≤ obligation w' x' + amount.val ∧
          (amount.val = obligation w' x → x'.normalizedDebtAmount.val = 0) ∧
          (amount.val < obligation w' x → x'.normalizedDebtAmount.val ≠ 0)) := by
  have hs := run_sound platform genesis events
  refine ⟨?_, ?_, ?_⟩
  · intro acc n a hacc ha
    refine ⟨mulDivCeil_nominal n acc a ha, mulDiv_nominal n acc a hacc ha, fun b hb => ?_⟩
    obtain ⟨delta, hdelta, hiff⟩ := mulDiv_repaid acc b hacc
    exact ⟨delta, hdelta, (hiff n.val).mp (ha ▸ hb)⟩
  · intro authority ids part v calls hp
    exact repay_in_full _ v hs authority ids calls part hp
  · intro authority call w' id x x' amount ht hid hx hx'
    exact ⟨generate_raises _ platform w' authority call amount ht id hid x x' hx hx',
      repay_lowers _ platform w' authority call amount ht id hid x x' hx hx' hs⟩

end LezPrograms.Stablecoin
