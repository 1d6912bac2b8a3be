import LezPrograms.Amm.Reachable
import LezPrograms.TwapOracle.Reports

/-! # The current tick of a pool

An instruction that stores a pool ends with a report of the spot price of the stored
reserves, and nobody else can report for the pool. So the current tick is the tick of
the reserves, as long as the accounts of the oracle are written by the oracle only. -/

set_option autoImplicit false

namespace LezPrograms.Amm
open LezPrograms.Checked LezPrograms.Lee LezPrograms.TwapOracle

def TickAt (platform : Platform) (w : Accounts) (x : AccountId) (q : PoolDefinition) : Prop :=
  ∃ current price, owned twapOracleProgramId w (computeCurrentTickAccountPda twapOracleProgramId x)
      = some (.currentTick current) ∧
    spotPriceQ6464 q.reserveA q.reserveB = .ok price ∧
    priceToTick platform.tickMath price = .ok current.tick

def Ticks (platform : Platform) (w : Accounts) : Prop :=
  ∀ x q, PoolAt w x q → TickAt platform w x q

structure Report (x : AccountId) (price : U128) (call : ChainedCall) : Prop where
  reporting : ∃ i, call.instruction = .twapOracle i ∧ Reporting price i
  accounts : call.accountIds = [computeCurrentTickAccountPda call.programId x, x,
    clock01ProgramAccountId]

/-- What an instruction on the pool at `x` stores and chains: transfers, and at last a report of
the price of the stored reserves. -/
structure Reports (w v : Accounts) (x : AccountId) (q : PoolDefinition) (earlier : List ChainedCall)
    (last : ChainedCall) (price : U128) : Prop where
  stored : v = put ammProgramId w x (.poolDefinition q)
  transfers : ∀ call ∈ earlier, ∃ i, call.instruction = .token i
  report : Report x price last
  spot : spotPriceQ6464 q.reserveA q.reserveB = .ok price
  known : (∃ q', (w x).data = .poolDefinition q') ∨
    last.instruction = .twapOracle (.createCurrentTickAccount price)

theorem swapCalls_token (tokenProgramId c x i o vaultIn vaultOut feeHolding tokenIn tokenOut :
    AccountId) (amounts : SwapAmounts) (protocolFee : U128) :
    ∀ call ∈ swapCalls tokenProgramId c x i o vaultIn vaultOut feeHolding tokenIn tokenOut amounts
      protocolFee, ∃ i, call.instruction = .token i := by
  unfold swapCalls
  split <;> simp [transferCall, ChainedCall.new, ChainedCall.withPdaSeeds]

/-- An instruction stores no pool, or it reports the price of what it stores. -/
theorem Step.reports (w v : Accounts) (authority ids : List AccountId) (instruction : Instruction)
    (calls : List ChainedCall) (h : Step ammProgramId w authority ids instruction v calls) :
    ((∀ y q, (v y).data = .poolDefinition q → v y = w y) ∧
        ∀ call ∈ calls, ∃ i, call.instruction = .token i) ∨
      ∃ x q earlier last price, calls = earlier ++ [last] ∧
        Reports w v x q earlier last price := by
  cases h with
  | initializeConfig owner nonce cfg authorized fresh swapFee protocolFee =>
    refine Or.inl ⟨fun y q hq => ?_, fun call hc => absurd hc List.not_mem_nil⟩
    by_cases hy : y = computeConfigPda ammProgramId owner nonce
    · subst hy
      rw [put_same, writeData_data] at hq
      cases hq
    · exact put_other _ _ _ _ _ hy
  | updateConfig c a new cfg config entitled authorized =>
    refine Or.inl ⟨fun y q hq => ?_, fun call hc => absurd hc List.not_mem_nil⟩
    by_cases hy : y = c
    · subst hy
      rw [put_same, writeData_data] at hq
      cases hq
    · exact put_other _ _ _ _ _ hy
  | withdrawProtocolFees => exact Or.inl ⟨fun _ _ _ => rfl, List.forall_mem_singleton.mpr ⟨_, rfl⟩⟩
  | newDefinition c x ua ub ul a b deadline cfg holdingA holdingB initialLp userLp price seed config
      dataA dataB distinct derived fresh positiveA positiveB root above rest spot seeded =>
    refine Or.inr ⟨x, _, [_, _, _, _], _, price, rfl, rfl, ?_, ⟨⟨_, rfl, .create⟩, rfl⟩, spot,
      Or.inr rfl⟩
    simp [lpLockCall, lpMintCall, transferCall, ChainedCall.new, ChainedCall.withPdaSeeds]
  | addLiquidity c x ua ub ul minLp maxA maxB deadline cfg q q' token balance amountA amountB deltaLp
      price seed reads vaults amounts updated written spot seeded =>
    refine Or.inr ⟨x, _, [_, _, _], _, price, rfl, rfl, ?_, ⟨⟨_, rfl, .update⟩, rfl⟩, spot,
      Or.inl ⟨q, reads.stored⟩⟩
    simp [lpMintCall, transferCall, ChainedCall.new, ChainedCall.withPdaSeeds]
  | removeLiquidity c x ua ub ul amount minA minB deadline cfg q q' lpBalance amountA amountB price
      seed reads positive lpData positiveA positiveB amounts updated written spot seeded =>
    refine Or.inr ⟨x, _, [_, _, _], _, price, rfl, rfl, ?_, ⟨⟨_, rfl, .update⟩, rfl⟩, spot,
      Or.inl ⟨q, reads.stored⟩⟩
    simp [lpBurnCall, transferCall, ChainedCall.new, ChainedCall.withPdaSeeds]
  | syncReserves c x cfg q token balance price seed reads owned vaults spot seeded =>
    exact Or.inr ⟨x, _, [], _, price, rfl, rfl, fun call hc => absurd hc List.not_mem_nil,
      ⟨⟨_, rfl, .update⟩, rfl⟩, spot, Or.inl ⟨q, reads.stored⟩⟩
  | swap instruction side c x i o cfg q q' token balance holding amounts swapFee protocolFee net price
      seed reads vaults input inputToken priced fee share rest updated written spot seeded =>
    exact Or.inr ⟨x, _, _, _, price, rfl, rfl, swapCalls_token _ _ _ _ _ _ _ _ _ _ _ _,
      ⟨⟨_, rfl, .update⟩, rfl⟩, spot, Or.inl ⟨q, reads.stored⟩⟩

/-- What a call of the oracle does. -/
theorem oracle_invoked (tickMath : TickMath) (depth : ℕ) (w w' : Accounts)
    (authority : List AccountId) (call : ChainedCall) (instruction : TwapOracle.Instruction)
    (hi : call.instruction = .twapOracle instruction)
    (h : invoke tickMath depth w authority call = .ok w') :
    call.programId = twapOracleProgramId ∧ ∃ diffs,
      TwapOracle.main tickMath twapOracleProgramId (call.accountIds.map (view w authority)) instruction
        = .ok diffs ∧ applyDiffs twapOracleProgramId w diffs = .ok w' := by
  cases depth with
  | zero => exact absurd h (error_ne_ok _ _)
  | succ depth =>
    simp only [invoke, bind_eq_ok, Prod.exists, execute_eq_ok, dispatch, hi, ensure_eq_ok,
      exists_const, pure_eq_ok, Prod.mk.injEq] at h
    obtain ⟨v, calls, ⟨-, diffs, ⟨hp, diffs', hmain, rfl, rfl⟩, ha⟩, h⟩ := h
    rw [List.foldlM_nil, pure_eq_ok] at h
    rw [hp] at hmain ha
    exact ⟨hp, diffs', hmain, h ▸ ha⟩

/-- A report leaves the tick of its price, and the other ticks alone. -/
theorem Report.invoked (tickMath : TickMath) (depth : ℕ) (w w' : Accounts)
    (authority : List AccountId) (x : AccountId) (price : U128) (call : ChainedCall)
    (hr : Report x price call) (h : invoke tickMath depth w authority call = .ok w') :
    (∀ y, y ≠ x → w' (computeCurrentTickAccountPda twapOracleProgramId y)
        = w (computeCurrentTickAccountPda twapOracleProgramId y)) ∧
      ((∃ current, owned twapOracleProgramId w
          (computeCurrentTickAccountPda twapOracleProgramId x) = some (.currentTick current)) ∨
        call.instruction = .twapOracle (.createCurrentTickAccount price) →
      ∃ current, priceToTick tickMath price = .ok current.tick ∧
        owned twapOracleProgramId w' (computeCurrentTickAccountPda twapOracleProgramId x)
          = some (.currentTick current)) := by
  obtain ⟨i, hi, hreporting⟩ := hr.reporting
  obtain ⟨hp, diffs, hmain, ha⟩ := oracle_invoked tickMath depth w w' authority call i hi h
  obtain ⟨s, tick, now, hids, -, htick, hfresh, hwrite, rfl⟩ :=
    reported tickMath _ authority w w' _ i diffs hmain ha price hreporting
  rw [hr.accounts, hp, List.cons.injEq, List.cons.injEq] at hids
  obtain ⟨-, rfl, -⟩ := hids
  refine ⟨fun y hy => put_other _ _ _ _ _ fun he => hy ?_, fun hknown => ⟨⟨tick, now⟩, htick, ?_⟩⟩
  · cases he
    rfl
  · rw [owned_put, Function.update_self]
    rcases hknown with ⟨current, hcurrent⟩ | hcreate
    · exact Or.inl ((owned_eq_some _ _ _ _).mp hcurrent).1
    · rw [hi, Lee.Instruction.twapOracle.injEq] at hcreate
      rw [hfresh hcreate]
      exact Or.inr Data.noConfusion

theorem TickAt.congr (platform : Platform) (w w' : Accounts) (x : AccountId) (q : PoolDefinition)
    (h : TickAt platform w x q)
    (he : owned twapOracleProgramId w' (computeCurrentTickAccountPda twapOracleProgramId x)
      = owned twapOracleProgramId w (computeCurrentTickAccountPda twapOracleProgramId x)) :
    TickAt platform w' x q := by
  obtain ⟨current, price, hcurrent, hrest⟩ := h
  exact ⟨current, price, he.trans hcurrent, hrest⟩

/-- Where the AMM keeps a pool it kept one before, if there was one. -/
theorem poolAt_before (w v : Accounts) (hbare : Bare w) (hf : Frame ammProgramId w v)
    (x : AccountId) (q p : PoolDefinition) (h : PoolAt v x q)
    (stored : (w x).data = .poolDefinition p) : PoolAt w x p := by
  refine (owned_eq_some _ _ _ _).mpr ⟨?_, stored⟩
  rcases hf x with he | ⟨ho | ho, -⟩
  · rw [← he]
    exact ((owned_eq_some _ _ _ _).mp h).1
  · exact ho
  · have hdata := hbare x ho
    rw [stored] at hdata
    cases hdata

section
variable (platform : Platform) (w w' : Accounts) (hbare : Bare w) (ht : Ticks platform w)
  (authority : List AccountId) (call : ChainedCall)
include hbare ht

theorem ticks_amm (instruction : Instruction) (hi : call.instruction = .amm instruction)
    (h : transact platform w authority call = .ok w') : Ticks platform w' := by
  obtain ⟨v, calls, depth, hv, hsettle⟩ :=
    transacted_invoked platform w w' authority call instruction hi h
  have hown := hv.settled.owned_eq _ _ ammProgramId (by decide) (by decide)
  have horacle := owned_frame twapOracleProgramId _ _ _ hv.frame (by decide) (by decide)
  intro y q hq
  rw [PoolAt, hown] at hq
  rcases hv.step.reports with ⟨hpools, htokens⟩ | ⟨x, p, earlier, last, price, rfl, hr⟩
  · have hkept := hv.settled.owned_kept twapOracleProgramId _ (by decide) (by decide) _ _ _ _ htokens
    rw [owned_congr _ _ _ _ (hpools y q (PoolAt.data _ _ _ hq))] at hq
    exact (ht y q hq).congr _ _ _ _ _ (congrFun (hkept.trans horacle) _)
  · simp only [List.foldlM_append, List.foldlM_cons, List.foldlM_nil, bind_eq_ok, pure_eq_ok] at hsettle
    obtain ⟨u, hu, _, hlast, rfl⟩ := hsettle
    have hsettled := settled_of_foldlM _ _ _ _ earlier
      (fun call hc => Or.inl (hr.transfers call hc)) v u hu
    have hkept := hsettled.owned_kept twapOracleProgramId _ (by decide) (by decide) _ _ _ _ hr.transfers
    obtain ⟨hothers, hreport⟩ := hr.report.invoked _ _ _ _ _ _ _ _ hlast
    by_cases hy : y = x
    · subst hy
      obtain ⟨current, htick, hcurrent⟩ := hreport <| hr.known.imp_left fun hknown => by
        obtain ⟨p', hp'⟩ := hknown
        obtain ⟨current, _, hcurrent, -⟩ := ht y p' (poolAt_before w v hbare hv.frame y q p' hq hp')
        exact ⟨current, by rwa [hkept, horacle]⟩
      have hp : p = q := by
        have hdata := PoolAt.data _ _ _ hq
        rw [hr.stored, put_same, writeData_data, Data.poolDefinition.injEq] at hdata
        exact hdata
      exact ⟨current, price, hcurrent, hp ▸ hr.spot, htick⟩
    · have hw : owned ammProgramId w y = some (.poolDefinition q) := by
        rw [← hq, hr.stored, owned_congr _ _ _ _ (put_other _ _ _ _ _ hy)]
      exact (ht y q hw).congr _ _ _ _ _
        ((owned_congr _ _ _ _ (hothers y hy)).trans (congrFun (hkept.trans horacle) _))

/-- What everybody but the AMM calls leaves pools and ticks alone. -/
theorem ticks_transaction (hw : Sound w) (h : transact platform w authority call = .ok w') :
    Ticks platform w' := by
  cases hi : call.instruction with
  | amm instruction => exact ticks_amm platform w w' hbare ht authority call instruction hi h
  | token instruction =>
    obtain ⟨v, calls, depth, hv, hsettle, -⟩ := Token.transact_calls platform w w' authority call h
    obtain ⟨-, rfl, htransition⟩ := execute_token _ _ _ _ _ _ _ instruction hi hv
    rw [List.foldlM_nil, pure_eq_ok] at hsettle
    subst hsettle
    intro y q hq
    rw [PoolAt, owned_frame _ _ _ _ htransition.frame (by decide) (by decide)] at hq
    exact (ht y q hq).congr _ _ _ _ _
      (congrFun (owned_frame _ _ _ _ htransition.frame (by decide) (by decide)) _)
  | stablecoin instruction =>
    obtain ⟨v, calls, depth, hv, hsettle, -⟩ := Token.transact_calls platform w w' authority call h
    obtain ⟨-, -, hstep, hf⟩ := execute_stablecoin _ _ _ _ _ _ _ instruction hi hv
    have htokens := stablecoin_token _ _ _ _ _ _ _ hstep
    have hsettled := settled_of_foldlM _ _ _ _ calls (fun c hc => Or.inl (htokens c hc)) v w' hsettle
    intro y q hq
    rw [PoolAt, hsettled.owned_kept _ _ (by decide) (by decide) _ _ _ _ htokens,
      owned_frame _ _ _ _ hf (by decide) (by decide)] at hq
    refine (ht y q hq).congr _ _ _ _ _ (congrFun ?_ _)
    rw [hsettled.owned_kept _ _ (by decide) (by decide) _ _ _ _ htokens,
      owned_frame _ _ _ _ hf (by decide) (by decide)]
  | twapOracle instruction =>
    obtain ⟨ho, -⟩ := transact_performed platform w w' authority call h
    simp only [transact, bind_eq_ok, ensure_eq_ok, exists_const] at h
    obtain ⟨hp, diffs, hmain, ha⟩ := oracle_invoked _ _ _ _ _ _ _ hi h.2
    have hf := applyDiffs_frame _ _ _ _ ha
    intro y q hq
    rw [PoolAt, owned_frame _ _ _ _ hf (by decide) (by decide)] at hq
    obtain ⟨c, cfg, -, hof⟩ := (hw.pools y q hq).configured
    obtain ⟨seed, -, rfl⟩ := (computePoolPda_eq_ok _ _ _ _ _).mp hof
    exact (ht _ q hq).congr _ _ _ _ _ (owned_congr _ _ _ _
      (currentTick_kept _ _ authority w w' _ _ diffs hmain ha _
        ((ho ammProgramId (by decide)).not_mem _ _ _)))

end

/-- The worlds that are reached while nobody else writes to the accounts of the oracle. -/
inductive Reached (platform : Platform) (genesis : Genesis) : Accounts → Prop
  | start : Reached platform genesis genesis.world
  | transaction (w : Accounts) (reached : Reached platform genesis w) (authority : List AccountId)
      (call : ChainedCall) :
      Reached platform genesis (Event.apply platform w (.transaction authority call))
  | environment (w : Accounts) (reached : Reached platform genesis w) (change : Accounts)
      (kept : owned twapOracleProgramId (Event.apply platform w (.environment change))
        = owned twapOracleProgramId w) :
      Reached platform genesis (Event.apply platform w (.environment change))

theorem Reached.run (platform : Platform) (genesis : Genesis) (w : Accounts)
    (h : Reached platform genesis w) : ∃ events, w = Lee.run platform genesis.world events := by
  induction h with
  | start => exact ⟨[], rfl⟩
  | transaction w _ authority call ih =>
    obtain ⟨events, rfl⟩ := ih
    exact ⟨events ++ [.transaction authority call], (run_concat _ _ _ _).symm⟩
  | environment w _ change _ ih =>
    obtain ⟨events, rfl⟩ := ih
    exact ⟨events ++ [.environment change], (run_concat _ _ _ _).symm⟩

theorem Reached.sound (platform : Platform) (genesis : Genesis) (w : Accounts)
    (h : Reached platform genesis w) : Bare w ∧ Sound w := by
  obtain ⟨events, rfl⟩ := h.run platform genesis w
  exact run_sound platform genesis events

theorem Reached.ticks (platform : Platform) (genesis : Genesis) (w : Accounts)
    (h : Reached platform genesis w) : Ticks platform w := by
  induction h with
  | start =>
    intro x q hq
    exact absurd ((owned_eq_some _ _ _ _).mp hq).1 fun ho =>
      genesis.unowned x (by rw [ho]; decide)
  | transaction w reached authority call ih =>
    obtain ⟨hbare, hsound⟩ := reached.sound platform genesis w
    rw [Event.apply]
    split
    · rename_i w' h
      exact ticks_transaction platform w w' hbare ih authority call hsound h
    · exact ih
  | environment w reached change kept ih =>
    intro x q hq
    rw [PoolAt, Event.apply, owned_environment _ _ _ (by decide)] at hq
    exact (ih x q hq).congr _ _ _ _ _ (congrFun kept _)

/-- Every pool has a current tick, the one of the spot price of its stored reserves. -/
theorem current_tick_reflects_reserves (platform : Platform) (genesis : Genesis) (w : Accounts)
    (h : Reached platform genesis w) (x : AccountId) (q : PoolDefinition) (hq : PoolAt w x q) :
    TickAt platform w x q := h.ticks platform genesis w x q hq

theorem first_pool_reached : Reached tablePlatform (clockedGenesis 0) firstPoolWorld :=
  .transaction _ (.transaction _ (.transaction _ (.transaction _ .start _ _) _ _) _ _) _ _

theorem first_pool_ticks : TickAt tablePlatform firstPoolWorld firstPoolId firstPool :=
  current_tick_reflects_reserves tablePlatform (clockedGenesis 0) firstPoolWorld first_pool_reached
    firstPoolId firstPool (by unfold PoolAt; decide +kernel)

end LezPrograms.Amm
