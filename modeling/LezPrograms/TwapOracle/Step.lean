import LezPrograms.TwapOracle.Program

/-! # What one oracle instruction does to the world

`Step` lists the successful executions of the oracle with what they checked and
wrote. Each writes one derived account at most. -/

set_option autoImplicit false
set_option linter.unusedSectionVars false

namespace LezPrograms.TwapOracle
open LezPrograms.Checked LezPrograms.Lee

section
variable (tickMath : TickMath) (self : AccountId) (authority : List AccountId) (w : Accounts)

inductive Step : List AccountId → Instruction → Accounts → Prop
  | createPriceObservations (s : AccountId) (initialTick : I32) (windowDuration now : U64)
      (fresh : w (computePriceObservationsPda self s windowDuration) = default)
      (authorized : s ∈ authority)
      (wide : observationsCapacity ≤ windowDuration.val)
      (clock : (w clock01ProgramAccountId).data = .clock now) :
      Step [computePriceObservationsPda self s windowDuration, s, clock01ProgramAccountId]
        (.createPriceObservations initialTick windowDuration)
        (put self w (computePriceObservationsPda self s windowDuration)
          (.priceObservations (initialObservations s initialTick now)))
  | createOraclePriceAccount (s baseAsset quoteAsset : AccountId) (initialPrice : U128)
      (windowDuration : U64) (account : OraclePriceAccount)
      (fresh : w (computeOraclePriceAccountPda self s windowDuration) = default)
      (priced : account.price.val ≠ 0) (timed : account.timestamp.val ≠ 0) :
      Step [computeOraclePriceAccountPda self s windowDuration, s, clock01ProgramAccountId]
        (.createOraclePriceAccount baseAsset quoteAsset initialPrice windowDuration)
        (put self w (computeOraclePriceAccountPda self s windowDuration) (.oraclePrice account))
  | currentTick (s : AccountId) (ids : List AccountId) (instruction : Instruction)
      (current : CurrentTickAccount) (reports : (∃ price, instruction = .updateCurrentTick price) ∨
        ∃ price, instruction = .createCurrentTickAccount price)
      (write : MayWrite self (w (computeCurrentTickAccountPda self s)) (.currentTick current)) :
      Step ids instruction (put self w (computeCurrentTickAccountPda self s) (.currentTick current))
  | publishIdle (s : AccountId) (windowDuration now : U64) (observations : PriceObservations)
      (stored : Holds self (w (computePriceObservationsPda self s windowDuration))
        (.priceObservations observations))
      (clock : (w clock01ProgramAccountId).data = .clock now)
      (few : observations.totalEntries.val < 2) :
      Step [computePriceObservationsPda self s windowDuration,
          computeOraclePriceAccountPda self s windowDuration, computeCurrentTickAccountPda self s,
          clock01ProgramAccountId] (.publishPrice s windowDuration) w
  | publishPrice (s : AccountId) (windowDuration now : U64) (observations : PriceObservations)
      (account : OraclePriceAccount) (current : CurrentTickAccount) (tick : I32) (price : U128)
      (stored : Holds self (w (computePriceObservationsPda self s windowDuration))
        (.priceObservations observations))
      (readCurrent : Holds self (w (computeCurrentTickAccountPda self s)) (.currentTick current))
      (readPrice : (w (computeOraclePriceAccountPda self s windowDuration)).data
        = .oraclePrice account)
      (clock : (w clock01ProgramAccountId).data = .clock now)
      (many : 2 ≤ observations.totalEntries.val)
      (averaged : twapTick observations current now windowDuration = .ok tick)
      (converted : tickToOraclePrice tickMath tick = .ok price)
      (write : MayWrite self (w (computeOraclePriceAccountPda self s windowDuration))
        (.oraclePrice { account with price := price, timestamp := now })) :
      Step [computePriceObservationsPda self s windowDuration,
          computeOraclePriceAccountPda self s windowDuration, computeCurrentTickAccountPda self s,
          clock01ProgramAccountId] (.publishPrice s windowDuration)
        (put self w (computeOraclePriceAccountPda self s windowDuration)
          (.oraclePrice { account with price := price, timestamp := now }))
  | recordIdle (s : AccountId) (windowDuration now : U64) (observations : PriceObservations)
      (current : CurrentTickAccount)
      (read : (w (computePriceObservationsPda self s windowDuration)).data
        = .priceObservations observations)
      (readCurrent : Holds self (w (computeCurrentTickAccountPda self s)) (.currentTick current))
      (clock : (w clock01ProgramAccountId).data = .clock now)
      (recorded : recordObservation observations current.tick now windowDuration = .ok none) :
      Step [computePriceObservationsPda self s windowDuration, computeCurrentTickAccountPda self s,
        clock01ProgramAccountId] (.recordTick s windowDuration) w
  | recordTick (s : AccountId) (windowDuration now : U64)
      (observations observations' : PriceObservations) (current : CurrentTickAccount)
      (read : (w (computePriceObservationsPda self s windowDuration)).data
        = .priceObservations observations)
      (readCurrent : Holds self (w (computeCurrentTickAccountPda self s)) (.currentTick current))
      (clock : (w clock01ProgramAccountId).data = .clock now)
      (recorded : recordObservation observations current.tick now windowDuration
        = .ok (some observations'))
      (write : MayWrite self (w (computePriceObservationsPda self s windowDuration))
        (.priceObservations observations')) :
      Step [computePriceObservationsPda self s windowDuration, computeCurrentTickAccountPda self s,
          clock01ProgramAccountId] (.recordTick s windowDuration)
        (put self w (computePriceObservationsPda self s windowDuration)
          (.priceObservations observations'))

variable (w' : Accounts) (diffs : List StateDiff)

theorem createPriceObservations_step (o s c : AccountId) (initialTick : I32)
    (windowDuration : U64)
    (h : createPriceObservations (view w authority o) (view w authority s) (view w authority c)
      initialTick windowDuration self = .ok diffs)
    (ha : applyDiffs self w diffs = .ok w') :
    Step tickMath self authority w [o, s, c] (.createPriceObservations initialTick windowDuration)
      w' := by
  simp only [createPriceObservations, bind_eq_ok, ensure_eq_ok, exists_const, pure_eq_ok,
    clockTimestamp_eq_ok] at h
  simp only [view_account, view_isAuthorized, view_accountId] at h
  obtain ⟨rfl, hfresh, hauth, rfl, hwide, now, hclock, rfl⟩ := h
  simp only [applyDiffs_new, applyDiffs_unchanged, view_accountId, applyDiffs_nil,
    Except.ok.injEq] at ha
  obtain ⟨-, rfl⟩ := ha
  exact .createPriceObservations s initialTick windowDuration now hfresh hauth hwide hclock

theorem createOraclePriceAccount_step (p s c baseAsset quoteAsset : AccountId)
    (initialPrice : U128) (windowDuration : U64)
    (h : createOraclePriceAccount (view w authority p) (view w authority s) (view w authority c)
      baseAsset quoteAsset initialPrice windowDuration self = .ok diffs)
    (ha : applyDiffs self w diffs = .ok w') :
    Step tickMath self authority w [p, s, c]
      (.createOraclePriceAccount baseAsset quoteAsset initialPrice windowDuration) w' := by
  simp only [createOraclePriceAccount, bind_eq_ok, ensure_eq_ok, exists_const, pure_eq_ok,
    clockTimestamp_eq_ok] at h
  simp only [view_account, view_isAuthorized, view_accountId] at h
  obtain ⟨rfl, hfresh, -, rfl, -, now, -, hprice, htime, rfl⟩ := h
  simp only [applyDiffs_new, applyDiffs_unchanged, view_accountId, applyDiffs_nil,
    Except.ok.injEq] at ha
  obtain ⟨-, rfl⟩ := ha
  exact .createOraclePriceAccount s baseAsset quoteAsset initialPrice windowDuration _ hfresh hprice
    htime

theorem createCurrentTickAccount_step (t s c : AccountId) (initialPrice : U128)
    (h : createCurrentTickAccount tickMath (view w authority t) (view w authority s)
      (view w authority c) initialPrice self = .ok diffs)
    (ha : applyDiffs self w diffs = .ok w') :
    Step tickMath self authority w [t, s, c] (.createCurrentTickAccount initialPrice) w' := by
  simp only [createCurrentTickAccount, bind_eq_ok, ensure_eq_ok, exists_const, pure_eq_ok] at h
  simp only [view_accountId] at h
  obtain ⟨rfl, -, -, -, now, -, tick, -, rfl⟩ := h
  simp only [applyDiffs_new, applyDiffs_unchanged, view_accountId, applyDiffs_nil,
    Except.ok.injEq] at ha
  obtain ⟨hwrite, rfl⟩ := ha
  exact .currentTick s _ _ _ (Or.inr ⟨_, rfl⟩) hwrite

theorem updateCurrentTick_step (t s c : AccountId) (price : U128)
    (h : updateCurrentTick tickMath (view w authority t) (view w authority s)
      (view w authority c) price self = .ok diffs)
    (ha : applyDiffs self w diffs = .ok w') :
    Step tickMath self authority w [t, s, c] (.updateCurrentTick price) w' := by
  simp only [updateCurrentTick, bind_eq_ok, ensure_eq_ok, exists_const, pure_eq_ok] at h
  simp only [view_accountId] at h
  obtain ⟨rfl, -, -, stored, -, now, -, tick, -, rfl⟩ := h
  simp only [applyDiffs_new, applyDiffs_unchanged, view_accountId, applyDiffs_nil,
    Except.ok.injEq] at ha
  obtain ⟨hwrite, rfl⟩ := ha
  exact .currentTick s _ _ _ (Or.inl ⟨_, rfl⟩) hwrite

theorem publishPrice_step (o p t c s : AccountId) (windowDuration : U64)
    (h : publishPrice tickMath (view w authority o) (view w authority p) (view w authority t)
      (view w authority c) s windowDuration self = .ok diffs)
    (ha : applyDiffs self w diffs = .ok w') :
    Step tickMath self authority w [o, p, t, c] (.publishPrice s windowDuration) w' := by
  simp only [publishPrice, bind_eq_ok, ensure_eq_ok, exists_const, expect_eq_ok,
    clockTimestamp_eq_ok, tryFrom_priceObservations, tryFrom_oraclePrice, tryFrom_currentTick] at h
  simp only [view_account, view_accountId] at h
  obtain ⟨rfl, rfl, rfl, hown, hown', rfl, now, hclock, observations, hread, account, hprice,
    current, hcurrent, h⟩ := h
  split at h
  · rename_i hfew
    rw [pure_eq_ok] at h
    subst h
    simp only [applyDiffs_unchanged, applyDiffs_nil, Except.ok.injEq] at ha
    exact ha ▸ .publishIdle s windowDuration now observations ⟨hown, hread⟩ hclock hfew
  · rename_i hmany
    simp only [bind_eq_ok, pure_eq_ok] at h
    obtain ⟨tick, htick, price, hconverted, rfl⟩ := h
    simp only [applyDiffs_new, applyDiffs_unchanged, view_accountId, applyDiffs_nil,
      Except.ok.injEq] at ha
    obtain ⟨hwrite, rfl⟩ := ha
    exact .publishPrice s windowDuration now observations account current tick price
      ⟨hown, hread⟩ ⟨hown', hcurrent⟩ hprice hclock (Nat.le_of_not_lt hmany) htick hconverted hwrite

theorem recordTick_step (o t c s : AccountId) (windowDuration : U64)
    (h : recordTick (view w authority o) (view w authority t) (view w authority c) s
      windowDuration self = .ok diffs)
    (ha : applyDiffs self w diffs = .ok w') :
    Step tickMath self authority w [o, t, c] (.recordTick s windowDuration) w' := by
  simp only [recordTick, bind_eq_ok, ensure_eq_ok, exists_const, expect_eq_ok,
    clockTimestamp_eq_ok, tryFrom_priceObservations, tryFrom_currentTick] at h
  simp only [view_account, view_accountId] at h
  obtain ⟨rfl, rfl, hown, rfl, now, hclock, current, hcurrent, observations, hread, recorded,
    hrecorded, h⟩ := h
  cases recorded with
  | none =>
    rw [pure_eq_ok] at h
    subst h
    simp only [applyDiffs_unchanged, applyDiffs_nil, Except.ok.injEq] at ha
    exact ha ▸ .recordIdle s windowDuration now observations current hread ⟨hown, hcurrent⟩ hclock
      hrecorded
  | some observations' =>
    rw [pure_eq_ok] at h
    subst h
    simp only [applyDiffs_new, applyDiffs_unchanged, view_accountId, applyDiffs_nil,
      Except.ok.injEq] at ha
    obtain ⟨hwrite, rfl⟩ := ha
    exact .recordTick s windowDuration now observations observations' current hread
      ⟨hown, hcurrent⟩ hclock hrecorded hwrite

/-- Every successful execution of the oracle is one of the listed steps. -/
theorem step_of_main (ids : List AccountId) (instruction : Instruction)
    (h : main tickMath self (ids.map (view w authority)) instruction = .ok diffs)
    (ha : applyDiffs self w diffs = .ok w') :
    Step tickMath self authority w ids instruction w' := by
  rcases ids with _ | ⟨i, _ | ⟨j, _ | ⟨k, _ | ⟨l, _ | ⟨m, ids⟩⟩⟩⟩⟩
  · cases instruction <;> exact absurd h (error_ne_ok _ _)
  · cases instruction <;> exact absurd h (error_ne_ok _ _)
  · cases instruction <;> exact absurd h (error_ne_ok _ _)
  · cases instruction with
    | createPriceObservations initialTick windowDuration =>
      exact createPriceObservations_step tickMath self authority w w' diffs i j k _ _ h ha
    | createOraclePriceAccount baseAsset quoteAsset initialPrice windowDuration =>
      exact createOraclePriceAccount_step tickMath self authority w w' diffs i j k _ _ _ _ h ha
    | createCurrentTickAccount initialPrice =>
      exact createCurrentTickAccount_step tickMath self authority w w' diffs i j k _ h ha
    | updateCurrentTick price =>
      exact updateCurrentTick_step tickMath self authority w w' diffs i j k _ h ha
    | recordTick s windowDuration =>
      exact recordTick_step tickMath self authority w w' diffs i j k s windowDuration h ha
    | publishPrice s windowDuration => exact absurd h (error_ne_ok _ _)
  · cases instruction with
    | publishPrice s windowDuration =>
      exact publishPrice_step tickMath self authority w w' diffs i j k l s windowDuration h ha
    | _ => exact absurd h (error_ne_ok _ _)
  · cases instruction <;> exact absurd h (error_ne_ok _ _)

end

end LezPrograms.TwapOracle
