import LezPrograms.Amm.Completion

/-! # What additions and removals move

An addition takes the priced amounts from the holdings of the user to the vaults and
issues the priced shares. A removal does the opposite. -/

set_option autoImplicit false

namespace LezPrograms.Amm
open LezPrograms.Checked LezPrograms.Checked.Unsigned LezPrograms.Lee LezPrograms.Token

structure Paid (w w' : Accounts) (x holding token : AccountId) (n : ℕ) : Prop where
  sent : unitsAt w' holding + n = unitsAt w holding
  kept : unitsAt w' (computeVaultPda ammProgramId x token)
    = unitsAt w (computeVaultPda ammProgramId x token) + n

structure Issued (w w' : Accounts) (token holding : AccountId) (n : ℕ) : Prop where
  received : unitsAt w' holding = unitsAt w holding + n
  minted : supplyAt w' token = supplyAt w token + n

/-- Balances and shares after the calls of an operation. -/
theorem Operation.flows (w v w' : Accounts) (authority : List AccountId) (c x : AccountId)
    (q q' : PoolDefinition) (instruction : Instruction) (calls : List ChainedCall)
    (op : Operation w c x q q' instruction calls) (hbare : Bare w) (hs : PoolSound w x q)
    (hf : Frame ammProgramId w v) (h : Settled ammProgramId authority v calls w') :
    (∀ id, unitsAt w' id + (calls.map fun call => call.debit id).sum
      = unitsAt w id + (calls.map fun call => call.credit id).sum) ∧
    supplyAt w' q.liquidityPoolId + (calls.map fun call => call.burned q.liquidityPoolId).sum
      = supplyAt w q.liquidityPoolId
        + (calls.map fun call => call.minted q.liquidityPoolId).sum := by
  have htokens := owned_frame tokenProgramId _ _ _ hf (by decide) (by decide)
  have hroutine : ∀ call ∈ calls, call.Routine := fun call hc => (op.proper call hc).routine
  constructor
  · intro id
    have hflow := h.units_flow _ _ _ _ (hbare.frame _ _ _ hf (by decide)) calls hroutine id
    rwa [unitsAt, unitsAt, htokens] at hflow
  · obtain ⟨d, hd, -⟩ := hs.liquidity
    obtain ⟨d', hd', hr⟩ := h.resupplied _ _ _ _ calls hroutine _ d (by rwa [DefinitionAt, htokens])
    rw [hd'.supplyAt_eq, hd.supplyAt_eq]
    exact hr.supply

section
variable (platform : Platform) (w w' : Accounts) (hl : Live platform w)
  (authority : List AccountId) (c x ua ub ul : AccountId) (q : PoolDefinition)
  (hq : PoolAt w x q) (deadline : U64) (seeds : List PdaSeed)
include hl hq

omit hl hq in
/-- No addition succeeds without a minimum of shares. -/
theorem addition_bounded (minLp maxA maxB : U128)
    (h : transact platform w authority ⟨ammProgramId, liquidityAccounts c x q ua ub ul,
      .amm (.addLiquidity minLp maxA maxB deadline), seeds⟩ = .ok w') : minLp.val ≠ 0 := by
  obtain ⟨v, calls, _, hv, -⟩ := transact_calls platform w w' authority _ h
  obtain ⟨-, diffs, hh, -⟩ := (execute_eq_ok _ _ _ _ _ _ _).mp hv
  simp only [dispatch, liquidityAccounts, List.map_cons, List.map_nil, main, bind_eq_ok,
    ensure_eq_ok, exists_const] at hh
  exact hh.2.1

/-- A successful addition was priced and moves what was priced. -/
theorem addition_moves (minLp maxA maxB : U128)
    (h : transact platform w authority ⟨ammProgramId, liquidityAccounts c x q ua ub ul,
      .amm (.addLiquidity minLp maxA maxB deadline), seeds⟩ = .ok w') :
    ∃ amountA amountB deltaLp,
      liquidityToAdd q minLp maxA maxB = .ok (amountA, amountB, deltaLp) ∧
      Paid w w' x ua q.definitionTokenAId amountA.val ∧
      Paid w w' x ub q.definitionTokenBId amountB.val ∧
      Issued w w' q.liquidityPoolId ul deltaLp.val := by
  obtain ⟨v, calls, ht⟩ := transacted_of_ok platform w w' authority _ _ rfl h
  have hstep := ht.step
  have hn := ht.distinct
  have hf := ht.frame
  have hsettled := ht.settled
  dsimp only at hstep hn
  generalize hids : liquidityAccounts c x q ua ub ul = ids at hstep hn
  cases hstep with
  | addLiquidity c' x' ua' ub' ul' _ _ _ _ cfg p p' _ _ amountA amountB deltaLp price seed reads _
      amounts updated written _ seeded =>
    simp only [liquidityAccounts, List.cons.injEq] at hids
    obtain ⟨rfl, rfl, -, -, -, rfl, rfl, rfl, -⟩ := hids
    have hp := reads.stored
    rw [PoolAt.data _ _ _ hq, Data.poolDefinition.injEq] at hp
    subst hp
    have hs := hl.sound.pools x q hq
    have hva : q.vaultAId = computeVaultPda ammProgramId x q.definitionTokenAId := hs.vaultIds .a
    have hvb : q.vaultBId = computeVaultPda ammProgramId x q.definitionTokenBId := hs.vaultIds .b
    have op := operation_addLiquidity w c x cfg q p' reads cfg.tokenProgramId cfg.twapOracleProgramId
      price seed seeded ua ub ul _ _ amountA amountB hn hl.bare written minLp maxA maxB deltaLp
      deadline amounts updated
    obtain ⟨hflow, hsupply⟩ := op.flows _ _ w' authority _ _ _ _ _ _ hl.bare hs hf hsettled
    simp only [List.map_cons, List.map_nil, List.sum_cons, List.sum_nil, debit_lpMintCall,
      credit_lpMintCall, debit_transferCall, credit_transferCall, debit_tickCall, credit_tickCall,
      Nat.add_zero, Nat.zero_add] at hflow
    simp only [List.map_cons, List.map_nil, List.sum_cons, List.sum_nil, minted_lpMintCall,
      burned_lpMintCall, minted_transferCall, burned_transferCall, minted_tickCall,
      burned_tickCall, Nat.add_zero, if_true] at hsupply
    simp only [List.nodup_cons, List.mem_cons, not_or, List.not_mem_nil, not_false_eq_true,
      and_true] at hn
    obtain ⟨-, -, ⟨hab, -, haua, haub, haul, -⟩, ⟨-, hbua, hbub, hbul, -⟩, -, ⟨huaub, huaul, -⟩,
      ⟨hubul, -⟩, -⟩ := hn
    refine ⟨amountA, amountB, deltaLp, amounts, ⟨?_, ?_⟩, ⟨?_, ?_⟩, ⟨?_, hsupply⟩⟩
    · simpa [huaub, huaul, Ne.symm haua, Ne.symm hbua] using hflow ua
    · rw [← hva]
      simpa [hab, haua, haub, haul] using hflow q.vaultAId
    · simpa [Ne.symm huaub, hubul, Ne.symm haub, Ne.symm hbub] using hflow ub
    · rw [← hvb]
      simpa [Ne.symm hab, hbua, hbub, hbul] using hflow q.vaultBId
    · simpa [Ne.symm huaul, Ne.symm hubul, Ne.symm haul, Ne.symm hbul] using hflow ul
  | swap _ _ _ _ _ _ _ _ _ _ _ _ _ _ _ _ _ _ _ _ _ _ priced => cases priced

/-- A successful removal was priced and moves what was priced. -/
theorem removal_moves (amount minA minB : U128)
    (h : transact platform w authority ⟨ammProgramId, liquidityAccounts c x q ua ub ul,
      .amm (.removeLiquidity amount minA minB deadline), seeds⟩ = .ok w') :
    minA.val ≠ 0 ∧ minB.val ≠ 0 ∧ ∃ l amountA amountB,
      liquidityToRemove q l amount minA minB = .ok (amountA, amountB) ∧
      Paid w' w x ua q.definitionTokenAId amountA.val ∧
      Paid w' w x ub q.definitionTokenBId amountB.val ∧
      Issued w' w q.liquidityPoolId ul amount.val := by
  obtain ⟨v, calls, ht⟩ := transacted_of_ok platform w w' authority _ _ rfl h
  have hstep := ht.step
  have hn := ht.distinct
  have hf := ht.frame
  have hsettled := ht.settled
  dsimp only at hstep hn
  generalize hids : liquidityAccounts c x q ua ub ul = ids at hstep hn
  cases hstep with
  | removeLiquidity c' x' ua' ub' ul' _ _ _ _ cfg p p' l amountA amountB price seed reads positive _
      positiveA positiveB amounts updated written _ seeded =>
    simp only [liquidityAccounts, List.cons.injEq] at hids
    obtain ⟨rfl, rfl, -, -, -, rfl, rfl, rfl, -⟩ := hids
    have hp := reads.stored
    rw [PoolAt.data _ _ _ hq, Data.poolDefinition.injEq] at hp
    subst hp
    have hs := hl.sound.pools x q hq
    have hva : q.vaultAId = computeVaultPda ammProgramId x q.definitionTokenAId := hs.vaultIds .a
    have hvb : q.vaultBId = computeVaultPda ammProgramId x q.definitionTokenBId := hs.vaultIds .b
    have op := operation_removeLiquidity w c x cfg q p' reads cfg.tokenProgramId
      cfg.twapOracleProgramId price seed seeded ua ub ul _ _ amountA amountB hn hl.bare written l
      amount minA minB deadline positive amounts updated
    obtain ⟨hflow, hsupply⟩ := op.flows _ _ w' authority _ _ _ _ _ _ hl.bare hs hf hsettled
    simp only [List.map_cons, List.map_nil, List.sum_cons, List.sum_nil, debit_lpBurnCall,
      credit_lpBurnCall, debit_transferCall, credit_transferCall, debit_tickCall, credit_tickCall,
      Nat.add_zero, Nat.zero_add] at hflow
    simp only [List.map_cons, List.map_nil, List.sum_cons, List.sum_nil, minted_lpBurnCall,
      burned_lpBurnCall, minted_transferCall, burned_transferCall, minted_tickCall,
      burned_tickCall, Nat.add_zero, if_true] at hsupply
    simp only [List.nodup_cons, List.mem_cons, not_or, List.not_mem_nil, not_false_eq_true,
      and_true] at hn
    obtain ⟨-, -, ⟨hab, -, haua, haub, haul, -⟩, ⟨-, hbua, hbub, hbul, -⟩, -, ⟨huaub, huaul, -⟩,
      ⟨hubul, -⟩, -⟩ := hn
    refine ⟨positiveA, positiveB, l, amountA, amountB, amounts, ⟨?_, ?_⟩, ⟨?_, ?_⟩,
      ⟨?_, hsupply.symm⟩⟩
    · simpa [huaub, huaul, Ne.symm haua, Ne.symm hbua] using (hflow ua).symm
    · rw [← hva]
      simpa [hab, haua, haub, haul] using (hflow q.vaultAId).symm
    · simpa [Ne.symm huaub, hubul, Ne.symm haub, Ne.symm hbub] using (hflow ub).symm
    · rw [← hvb]
      simpa [Ne.symm hab, hbua, hbub, hbul] using (hflow q.vaultBId).symm
    · simpa [Ne.symm huaul, Ne.symm hubul, Ne.symm haul, Ne.symm hbul] using (hflow ul).symm
  | swap _ _ _ _ _ _ _ _ _ _ _ _ _ _ _ _ _ _ _ _ _ _ priced => cases priced

end

end LezPrograms.Amm
