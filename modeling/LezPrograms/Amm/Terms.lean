import LezPrograms.Amm.Contributions
import LezPrograms.Amm.Exchange
import LezPrograms.Amm.Solvency

/-! # What a user agrees to

An instruction with a deadline states what its user pays at most and receives at
least. The chained transfers move exactly that: what leaves the holdings of the user is
within the stated amounts, what arrives is at least the stated minimum, and no other
holding changes. -/

set_option autoImplicit false

namespace LezPrograms.Amm
open LezPrograms.Checked LezPrograms.Checked.Unsigned LezPrograms.Lee LezPrograms.Token

def Spends (w w' : Accounts) (holding : AccountId) (n : ℕ) : Prop :=
  unitsAt w holding = unitsAt w' holding + n

def Receives (w w' : Accounts) (holding : AccountId) (n : ℕ) : Prop := Spends w' w holding n

def OnlyMoves (w w' : Accounts) (holdings : List AccountId) : Prop :=
  ∀ id, id ∉ holdings → unitsAt w' id = unitsAt w id

inductive Honored (w w' : Accounts) : Instruction → List AccountId → Prop
  | newDefinition (a b : U128) (deadline : U64) (shares : ℕ)
      (c x vaultA vaultB lp lock ua ub ul t k : AccountId)
      (root : shares + 1000 = (a.val * b.val).sqrt) (some : 0 < shares)
      (paidA : Spends w w' ua a.val) (paidB : Spends w w' ub b.val)
      (received : Receives w w' ul shares)
      (others : OnlyMoves w w' [vaultA, vaultB, lp, lock, ua, ub, ul]) :
      Honored w w' (.newDefinition a b deadline)
        [c, x, vaultA, vaultB, lp, lock, ua, ub, ul, t, k]
  | addLiquidity (minLp maxA maxB : U128) (deadline : U64) (amountA amountB shares : ℕ)
      (c x vaultA vaultB lp ua ub ul t k : AccountId)
      (limitA : amountA ≤ maxA.val) (limitB : amountB ≤ maxB.val) (enough : minLp.val ≤ shares)
      (paidA : Spends w w' ua amountA) (paidB : Spends w w' ub amountB)
      (received : Receives w w' ul shares)
      (others : OnlyMoves w w' [vaultA, vaultB, ua, ub, ul]) :
      Honored w w' (.addLiquidity minLp maxA maxB deadline)
        [c, x, vaultA, vaultB, lp, ua, ub, ul, t, k]
  | removeLiquidity (shares minA minB : U128) (deadline : U64) (amountA amountB : ℕ)
      (c x vaultA vaultB lp ua ub ul t k : AccountId)
      (enoughA : minA.val ≤ amountA) (enoughB : minB.val ≤ amountB)
      (burned : Spends w w' ul shares.val)
      (receivedA : Receives w w' ua amountA) (receivedB : Receives w w' ub amountB)
      (others : OnlyMoves w w' [vaultA, vaultB, ua, ub, ul]) :
      Honored w w' (.removeLiquidity shares minA minB deadline)
        [c, x, vaultA, vaultB, lp, ua, ub, ul, t, k]
  | swapExactInput (input minOut : U128) (deadline : U64) (output : ℕ)
      (c x vaultA vaultB i o t k fees : AccountId) (enough : minOut.val ≤ output)
      (some : 0 < output) (paid : Spends w w' i input.val) (received : Receives w w' o output)
      (others : OnlyMoves w w' [vaultA, vaultB, i, o, fees]) :
      Honored w w' (.swapExactInput input minOut deadline)
        [c, x, vaultA, vaultB, i, o, t, k, fees]
  | swapExactOutput (output maxIn : U128) (deadline : U64) (input : ℕ)
      (c x vaultA vaultB i o t k fees : AccountId) (limit : input ≤ maxIn.val)
      (paid : Spends w w' i input) (received : Receives w w' o output.val)
      (others : OnlyMoves w w' [vaultA, vaultB, i, o, fees]) :
      Honored w w' (.swapExactOutput output maxIn deadline)
        [c, x, vaultA, vaultB, i, o, t, k, fees]

theorem liquidityToAdd_limits (q : PoolDefinition) (minLp maxA maxB amountA amountB shares : U128)
    (h : liquidityToAdd q minLp maxA maxB = .ok (amountA, amountB, shares)) :
    amountA.val ≤ maxA.val ∧ amountB.val ≤ maxB.val ∧ minLp.val ≤ shares.val := by
  simp only [liquidityToAdd, bind_eq_ok, ensure_eq_ok, exists_const, pure_eq_ok,
    Prod.mk.injEq] at h
  obtain ⟨-, -, idealA, -, idealB, -, hA, hB, -, -, shareA, -, shareB, -, -, henough, rfl, rfl,
    rfl⟩ := h
  exact ⟨hA, hB, henough⟩

theorem liquidityToRemove_limits (q : PoolDefinition)
    (balance shares minA minB amountA amountB : U128)
    (h : liquidityToRemove q balance shares minA minB = .ok (amountA, amountB)) :
    minA.val ≤ amountA.val ∧ minB.val ≤ amountB.val := by
  simp only [liquidityToRemove, bind_eq_ok, ensure_eq_ok, exists_const, pure_eq_ok,
    Prod.mk.injEq] at h
  obtain ⟨-, -, unlocked, -, -, a, -, b, -, hA, hB, rfl, rfl⟩ := h
  exact ⟨hA, hB⟩

theorem exactInputAmounts_limits (n minOut reserveIn reserveOut feeBps : U128)
    (amounts : SwapAmounts)
    (h : exactInputAmounts n minOut reserveIn reserveOut feeBps = .ok amounts) :
    amounts.amountIn = n ∧ minOut.val ≤ amounts.amountOut.val ∧ amounts.amountOut.val ≠ 0 := by
  simp only [exactInputAmounts, bind_eq_ok, ensure_eq_ok, exists_const, Prod.exists,
    pure_eq_ok] at h
  obtain ⟨effective, out, -, -, hmin, hne, rfl⟩ := h
  exact ⟨rfl, hmin, hne⟩

theorem exactOutputAmounts_limits (n maxIn reserveIn reserveOut feeBps : U128)
    (amounts : SwapAmounts)
    (h : exactOutputAmounts n maxIn reserveIn reserveOut feeBps = .ok amounts) :
    amounts.amountOut = n ∧ amounts.amountIn.val ≤ maxIn.val := by
  simp only [exactOutputAmounts, bind_eq_ok, ensure_eq_ok, exists_const, Prod.exists,
    pure_eq_ok] at h
  obtain ⟨-, -, priced, -, effective, input, -, hmax, rfl⟩ := h
  exact ⟨rfl, hmax⟩

theorem isqrtProduct_val (a b r : U128) (h : isqrtProduct a b = .ok r) :
    r.val = (a.val * b.val).sqrt := by
  simp only [isqrtProduct, bind_eq_ok, expect_eq_ok, checkedMul_eq_some, widen_val,
    Unsigned.tryFrom_eq_some] at h
  obtain ⟨product, hp, hr⟩ := h
  rw [hr, ← hp]

theorem OnlyMoves.symm (w w' : Accounts) (holdings : List AccountId)
    (h : OnlyMoves w w' holdings) : OnlyMoves w' w holdings := fun id hid => (h id hid).symm

/-- Two holdings pay into two vaults and a third one receives shares, wherever the balances follow
the calls. -/
theorem payments (w w' : Accounts) (vaultA vaultB ua ub ul : AccountId) (a b shares : ℕ)
    (others : List AccountId) (hn : [vaultA, vaultB, ua, ub, ul].Nodup)
    (hothers : ∀ id ∈ [ua, ub, ul], id ∉ others)
    (hflow : ∀ id, id ∉ others →
      unitsAt w' id + ((if id = ub then b else 0) + (if id = ua then a else 0))
        = unitsAt w id + ((if id = ul then shares else 0)
          + ((if id = vaultB then b else 0) + (if id = vaultA then a else 0)))) :
    Spends w w' ua a ∧ Spends w w' ub b ∧ Receives w w' ul shares ∧
      OnlyMoves w w' (vaultA :: vaultB :: (others ++ [ua, ub, ul])) := by
  simp only [List.forall_mem_cons, List.not_mem_nil, false_implies, implies_true,
    and_true] at hothers
  obtain ⟨houa, houb, houl⟩ := hothers
  simp only [List.nodup_cons, List.mem_cons, not_or, List.not_mem_nil, not_false_eq_true,
    and_true] at hn
  obtain ⟨⟨-, haua, haub, haul⟩, ⟨hbua, hbub, hbul⟩, ⟨huaub, huaul⟩, hubul, -⟩ := hn
  refine ⟨?_, ?_, ?_, fun id hid => ?_⟩
  · have := hflow ua houa
    simp only [if_true, if_neg huaub, if_neg huaul, if_neg (Ne.symm haua),
      if_neg (Ne.symm hbua)] at this
    rw [Spends]
    omega
  · have := hflow ub houb
    simp only [if_true, if_neg (Ne.symm huaub), if_neg hubul, if_neg (Ne.symm haub),
      if_neg (Ne.symm hbub)] at this
    rw [Spends]
    omega
  · have := hflow ul houl
    simp only [if_true, if_neg (Ne.symm huaul), if_neg (Ne.symm hubul), if_neg (Ne.symm haul),
      if_neg (Ne.symm hbul)] at this
    rw [Receives, Spends]
    omega
  · simp only [List.mem_cons, List.mem_append, not_or, List.not_mem_nil, not_false_eq_true,
      and_true] at hid
    obtain ⟨hva, hvb, ho, hua, hub, hul⟩ := hid
    simpa only [if_neg hva, if_neg hvb, if_neg hua, if_neg hub, if_neg hul, Nat.add_zero]
      using hflow id ho

section
variable (w v w' : Accounts) (authority : List AccountId)

/-- The balances after the calls of a creation, apart from the accounts it founds the LP token
with. -/
theorem creation_flows (cfg : AmmConfig) (x ua ub ul tokenA tokenB : AccountId)
    (a b userLp price : U128) (seed : PdaSeed) (hbare : Bare v)
    (h : Settled ammProgramId authority v
      (creationCalls cfg x ua ub ul tokenA tokenB a b userLp price seed) w') (id : AccountId)
    (hlp : id ≠ computeLiquidityTokenPda ammProgramId x)
    (hlock : id ≠ computeLpLockHoldingPda ammProgramId x) :
    unitsAt w' id
        + ((if id = ub then b.val else 0) + (if id = ua then a.val else 0))
      = unitsAt v id + ((if id = ul then userLp.val else 0)
        + ((if id = computeVaultPda ammProgramId x tokenB then b.val else 0)
          + (if id = computeVaultPda ammProgramId x tokenA then a.val else 0))) := by
  cases h with
  | cons _ u _ _ _ first rest =>
    obtain ⟨-, ht⟩ := first.transition _ _ _ _ _ rfl
    obtain ⟨⟨-, -, -, hsame⟩, -, -⟩ := ht.newFungibleDefinition
    have hu : unitsAt u id = unitsAt v id := by
      rw [unitsAt, owned_congr _ _ _ id (hsame id hlp hlock), unitsAt]
    have hflow := rest.units_flow _ _ _ _ (hbare.frame _ _ _ ht.frame (by decide)) _ (by
      simp only [List.forall_mem_cons, List.not_mem_nil, false_implies, implies_true, and_true]
      exact ⟨.mint _ _ _ rfl rfl, .transfer _ _ _ rfl rfl, .transfer _ _ _ rfl rfl,
        .oracle _ rfl⟩) id
    rw [hu] at hflow
    have htick : (createTickCall cfg.twapOracleProgramId x price seed).debit id = 0 ∧
        (createTickCall cfg.twapOracleProgramId x price seed).credit id = 0 := ⟨rfl, rfl⟩
    simpa only [List.map_cons, List.map_nil, List.sum_cons, List.sum_nil, debit_lpMintCall,
      credit_lpMintCall, debit_transferCall, credit_transferCall, htick.1, htick.2, Nat.add_zero,
      Nat.zero_add] using hflow

/-- The vaults and the holdings of the user, among the accounts of an instruction. -/
theorem distinct_holdings (c x vaultA vaultB ua ub ul : AccountId) (others rest : List AccountId)
    (hn : (c :: x :: vaultA :: vaultB :: (others ++ ua :: ub :: ul :: rest)).Nodup) :
    [vaultA, vaultB, ua, ub, ul].Nodup ∧ ∀ id ∈ [ua, ub, ul], id ∉ others := by
  have hlast : (others ++ ua :: ub :: ul :: rest).Nodup := hn.of_cons.of_cons.of_cons.of_cons
  refine ⟨hn.sublist (List.Sublist.cons _ (.cons _ (.cons_cons _ (.cons_cons _ ?_)))), ?_⟩
  · exact List.Sublist.trans (.cons_cons _ (.cons_cons _ (.cons_cons _ (List.nil_sublist rest))))
      (List.sublist_append_right others _)
  · intro id hid hother
    refine List.disjoint_of_nodup_append hlast hother ?_
    exact List.Sublist.subset (.cons_cons _ (.cons_cons _ (.cons_cons _ (List.nil_sublist rest)))) hid

/-- The balances after the calls of a swap. -/
theorem swap_flows (tokenProgram oracle c x i o vaultIn vaultOut fees tokenIn tokenOut : AccountId)
    (amounts : SwapAmounts) (protocolFee price : U128) (seed : PdaSeed) (hbare : Bare v)
    (h : Settled ammProgramId authority v (swapCalls tokenProgram c x i o vaultIn vaultOut fees
      tokenIn tokenOut amounts protocolFee ++ [tickCall oracle x price seed]) w')
    (hn : [vaultIn, vaultOut, i, o, fees].Nodup) :
    Spends v w' i amounts.amountIn.val ∧ Receives v w' o amounts.amountOut.val ∧
      OnlyMoves v w' [vaultIn, vaultOut, i, o, fees] := by
  have hflow := h.units_flow _ _ _ _ hbare _ (transfers_swapCalls _ _ _ _ _ _ _ _ _ _ _ _ _ _ _)
  simp only [List.map_append, List.sum_append, debit_swapCalls, credit_swapCalls, List.map_cons,
    List.map_nil, List.sum_cons, List.sum_nil, debit_tickCall, credit_tickCall,
    Nat.add_zero] at hflow
  simp only [List.nodup_cons, List.mem_cons, not_or, List.not_mem_nil, not_false_eq_true,
    and_true] at hn
  obtain ⟨⟨-, hii, hio, -⟩, ⟨hoi, hoo, -⟩, ⟨hpair, hif⟩, hof, -⟩ := hn
  refine ⟨?_, ?_, fun id hid => ?_⟩
  · have := hflow i
    simp only [if_true, if_neg (Ne.symm hii), if_neg (Ne.symm hoi), if_neg hpair,
      if_neg hif] at this
    simpa [Spends] using this.symm
  · have := hflow o
    simp only [if_true, if_neg (Ne.symm hio), if_neg (Ne.symm hoo), if_neg (Ne.symm hpair),
      if_neg hof] at this
    simpa [Receives, Spends] using this
  · simp only [List.mem_cons, not_or, List.not_mem_nil, not_false_eq_true, and_true] at hid
    obtain ⟨h₁, h₂, h₃, h₄, h₅⟩ := hid
    simpa only [if_neg h₁, if_neg h₂, if_neg h₃, if_neg h₄, if_neg h₅, Nat.add_zero] using hflow id

end

section
variable (platform : Platform) (w v w' : Accounts) (authority : List AccountId) (call : ChainedCall)
  (instruction : Instruction) (calls : List ChainedCall) (hbare : Bare w) (hw : Sound w)
include hbare hw

theorem Transacted.honored (deadline : U64) (hdeadline : instruction.deadline = some deadline)
    (h : Transacted platform w authority call instruction v calls w') :
    Honored w w' instruction call.accountIds := by
  have htokens := owned_frame tokenProgramId _ _ _ h.frame (by decide) (by decide)
  have hbare' := hbare.frame _ _ _ h.frame (by decide)
  have hunits : ∀ id, unitsAt v id = unitsAt w id := fun id => by rw [unitsAt, unitsAt, htokens]
  have hstep := h.step
  have hn := h.distinct
  have hsettled := h.settled
  generalize hids : call.accountIds = ids at hstep hn
  cases hstep with
  | initializeConfig | updateConfig | withdrawProtocolFees | syncReserves => cases hdeadline
  | newDefinition c x ua ub ul a b _ cfg holdingA holdingB initialLp userLp price seed _ _ _ _ _ _ _
      _ root above rest =>
    obtain ⟨hdistinct, hnew⟩ := distinct_holdings _ _ _ _ _ _ _
      [computeLiquidityTokenPda ammProgramId x, computeLpLockHoldingPda ammProgramId x] _ hn
    obtain ⟨hpaidA, hpaidB, hreceived, hothers⟩ := payments w w' _ _ ua ub ul a.val b.val userLp.val
      [computeLiquidityTokenPda ammProgramId x, computeLpLockHoldingPda ammProgramId x] hdistinct
      hnew fun id hid => by
        simp only [List.mem_cons, not_or, List.not_mem_nil, not_false_eq_true, and_true] at hid
        rw [← hunits]
        exact creation_flows _ w' authority cfg x ua ub ul _ _ a b userLp price seed hbare'
          hsettled id hid.1 hid.2
    exact .newDefinition a b _ userLp.val c x _ _ _ _ ua ub ul _ _
      (rest.trans (isqrtProduct_val a b initialLp root)) (by omega) hpaidA hpaidB hreceived hothers
  | addLiquidity c x ua ub ul minLp maxA maxB _ cfg q q' token balance amountA amountB deltaLp price
      seed reads vaults amounts updated written spot seeded =>
    obtain ⟨hA, hB, hLp⟩ := liquidityToAdd_limits q minLp maxA maxB amountA amountB deltaLp amounts
    have op := operation_addLiquidity w c x cfg q q' reads cfg.tokenProgramId
      cfg.twapOracleProgramId price seed seeded ua ub ul _ _ amountA amountB hn hbare written minLp
      maxA maxB deltaLp deadline amounts updated
    obtain ⟨hflow, -⟩ := op.flows _ _ w' authority _ _ _ _ _ _ hbare (hw.pools x q op.stored)
      h.frame hsettled
    simp only [List.map_cons, List.map_nil, List.sum_cons, List.sum_nil, debit_lpMintCall,
      credit_lpMintCall, debit_transferCall, credit_transferCall, debit_tickCall, credit_tickCall,
      Nat.add_zero, Nat.zero_add] at hflow
    obtain ⟨hpaidA, hpaidB, hreceived, hothers⟩ := payments w w' _ _ ua ub ul _ _ _ []
      (distinct_holdings _ _ _ _ _ _ _ [_] _ hn).1 (fun _ _ => List.not_mem_nil)
      fun id _ => hflow id
    exact .addLiquidity minLp maxA maxB _ amountA.val amountB.val deltaLp.val c x _ _ _ ua ub ul _ _
      hA hB hLp hpaidA hpaidB hreceived hothers
  | removeLiquidity c x ua ub ul amount minA minB _ cfg q q' lpBalance amountA amountB price seed
      reads positive _ _ _ amounts updated written spot seeded =>
    obtain ⟨hA, hB⟩ := liquidityToRemove_limits q lpBalance amount minA minB amountA amountB amounts
    have op := operation_removeLiquidity w c x cfg q q' reads cfg.tokenProgramId
      cfg.twapOracleProgramId price seed seeded ua ub ul _ _ amountA amountB hn hbare written
      lpBalance amount minA minB deadline positive amounts updated
    obtain ⟨hflow, -⟩ := op.flows _ _ w' authority _ _ _ _ _ _ hbare (hw.pools x q op.stored)
      h.frame hsettled
    simp only [List.map_cons, List.map_nil, List.sum_cons, List.sum_nil, debit_lpBurnCall,
      credit_lpBurnCall, debit_transferCall, credit_transferCall, debit_tickCall, credit_tickCall,
      Nat.add_zero, Nat.zero_add] at hflow
    -- a removal is an addition run backwards
    obtain ⟨hreceivedA, hreceivedB, hburned, hothers⟩ := payments w' w _ _ ua ub ul _ _ _ []
      (distinct_holdings _ _ _ _ _ _ _ [_] _ hn).1 (fun _ _ => List.not_mem_nil)
      fun id _ => (hflow id).symm
    exact .removeLiquidity amount minA minB _ amountA.val amountB.val c x _ _ _ ua ub ul _ _ hA hB
      hburned hreceivedA hreceivedB hothers.symm
  | swap _ side c x i o cfg q q' token balance holding amounts swapFee protocolFee net price seed
      reads vaults input inputToken priced =>
    simp only [List.nodup_cons, List.mem_cons, not_or, List.not_mem_nil, not_false_eq_true,
      and_true] at hn
    obtain ⟨-, -, ⟨hab, hai, hao, -, -, haf⟩, ⟨hbi, hbo, -, -, hbf⟩, ⟨hio, -, -, hif⟩,
      ⟨-, -, hof⟩, -⟩ := hn
    have hswap : [q.vault side, q.vault side.other, i, o,
        computeProtocolFeePda ammProgramId c (q.token side)].Nodup := by
      cases side <;> simp_all [PoolDefinition.vault, Side.other, eq_comm]
    obtain ⟨hpaid, hreceived, hothers⟩ := swap_flows _ w' authority _ _ _ _ _ _ _ _ _ _ _ _ _ _ _
      hbare' hsettled hswap
    simp only [Spends, Receives, OnlyMoves, hunits] at hpaid hreceived hothers
    have hboth : OnlyMoves w w' [q.vaultAId, q.vaultBId, i, o,
        computeProtocolFeePda ammProgramId c (q.token side)] := by
      intro id hid
      refine hothers id fun hm => hid ?_
      cases side <;>
        simp only [PoolDefinition.vault, Side.other, List.mem_cons, List.not_mem_nil,
          or_false] at hm ⊢ <;> tauto
    cases priced with
    | exactInput n minOut _ _ priced =>
      obtain ⟨rfl, hmin, hne⟩ := exactInputAmounts_limits _ _ _ _ _ _ priced
      exact .swapExactInput _ minOut _ amounts.amountOut.val c x _ _ i o _ _ _ hmin (by omega) hpaid
        hreceived hboth
    | exactOutput n maxIn _ _ priced =>
      obtain ⟨rfl, hmax⟩ := exactOutputAmounts_limits _ _ _ _ _ _ priced
      exact .swapExactOutput _ maxIn _ amounts.amountIn.val c x _ _ i o _ _ _ hmax hpaid hreceived
        hboth

end

theorem in_time (now deadline : U64) (output : HandlerResult)
    (result : List StateDiff × List ChainedCall)
    (h : withTimestampValidityWindow now deadline output = .ok result) :
    now.val < deadline.val := by
  simp only [withTimestampValidityWindow, bind_eq_ok, ensure_eq_ok, exists_const] at h
  obtain ⟨_, -, htime, -⟩ := h
  exact htime

/-- An instruction with a deadline runs before it. -/
theorem deadline_of_main (program : AccountId) (now deadline : U64) (accounts : List InputAccount)
    (instruction : Instruction) (result : List StateDiff × List ChainedCall)
    (hdeadline : instruction.deadline = some deadline)
    (h : main program now accounts instruction = .ok result) : now.val < deadline.val := by
  unfold main at h
  split at h <;> simp only [Instruction.deadline, reduceCtorEq, Option.some.injEq] at hdeadline
  · subst hdeadline
    simp only [bind_eq_ok, ensure_eq_ok, exists_const] at h
    exact in_time _ _ _ _ h.2.2
  · subst hdeadline
    simp only [bind_eq_ok, ensure_eq_ok, exists_const] at h
    exact in_time _ _ _ _ h.2
  · subst hdeadline
    simp only [bind_eq_ok, ensure_eq_ok, exists_const] at h
    exact in_time _ _ _ _ h.2
  · subst hdeadline
    exact in_time _ _ _ _ h
  · subst hdeadline
    exact in_time _ _ _ _ h
  · cases h

theorem deadline_of_transact (platform : Platform) (w w' : Accounts) (authority : List AccountId)
    (call : ChainedCall) (instruction : Instruction) (hi : call.instruction = .amm instruction)
    (deadline : U64) (hdeadline : instruction.deadline = some deadline)
    (h : transact platform w authority call = .ok w') :
    (blockTimestamp w).val < deadline.val := by
  obtain ⟨v, calls, _, hv, -⟩ := transact_calls platform w w' authority _ h
  obtain ⟨-, diffs, hh, -⟩ := (execute_eq_ok _ _ _ _ _ _ _).mp hv
  rw [hi] at hh
  simp only [dispatch, bind_eq_ok, ensure_eq_ok, exists_const] at hh
  exact deadline_of_main _ _ _ _ _ _ hdeadline hh.2

/-- Whatever runs before it, an instruction with a deadline succeeds only in time, and then it
moves exactly what its user agreed to. -/
theorem user_terms_are_honored (platform : Platform) (genesis : Genesis) (events : List Event)
    (authority : List AccountId) (call : ChainedCall) (instruction : Instruction)
    (hi : call.instruction = .amm instruction) (deadline : U64)
    (hdeadline : instruction.deadline = some deadline) (w' : Accounts)
    (h : transact platform (run platform genesis.world events) authority call = .ok w') :
    (blockTimestamp (run platform genesis.world events)).val < deadline.val ∧
      Honored (run platform genesis.world events) w' instruction call.accountIds := by
  obtain ⟨hbare, hw⟩ := run_sound platform genesis events
  obtain ⟨v, calls, ht⟩ := transacted_of_ok platform _ w' authority call instruction hi h
  exact ⟨deadline_of_transact platform _ w' authority call instruction hi deadline hdeadline h,
    ht.honored platform _ _ w' authority call instruction calls hbare hw deadline hdeadline⟩

theorem first_swap_terms_honored :
    (blockTimestamp firstPoolWorld).val < 1 ∧
    ∃ output, 1 ≤ output ∧ Spends firstPoolWorld
        (Event.apply tablePlatform firstPoolWorld (.transaction [.key 21] firstSwap)) (.key 21) 1000 ∧
      Receives firstPoolWorld
        (Event.apply tablePlatform firstPoolWorld (.transaction [.key 21] firstSwap)) (.key 23)
        output := by
  obtain ⟨hnow, hterms⟩ := user_terms_are_honored tablePlatform (clockedGenesis 0) firstPoolEvents
    [.key 21] firstSwap (.swapExactInput 1000 1 1) rfl 1 rfl _
    (transact_apply _ _ _ _ (by decide +kernel))
  refine ⟨hnow, ?_⟩
  generalize hids : firstSwap.accountIds = ids at hterms
  cases hterms with
  | swapExactInput _ _ _ output c x vaultA vaultB i o t k fees enough some paid received others =>
    simp only [firstSwap, List.cons.injEq] at hids
    obtain ⟨-, -, -, -, rfl, rfl, -⟩ := hids
    exact ⟨output, enough, paid, received⟩

end LezPrograms.Amm
