import LezPrograms.Amm.Accounts

/-! # What an instruction does to the pools

An instruction configures, withdraws fees, creates a pool or operates on one pool.
An operation is a move of the pool, and its calls settle what the move says. -/

set_option autoImplicit false

namespace LezPrograms.Amm
open LezPrograms.Checked LezPrograms.Checked.Unsigned LezPrograms.Lee LezPrograms.Token

inductive Follows (w : Accounts) (q q' : PoolDefinition) (calls : List ChainedCall) :
    Instruction → Prop
  | transfers (instruction : Instruction) (priced : instruction ≠ .syncReserves)
      (settled : ∀ side,
        (q'.reserve side).val + (calls.map fun call => call.debit (q.vault side)).sum
          = (q.reserve side).val + (calls.map fun call => call.credit (q.vault side)).sum) :
      Follows w q q' calls instruction
  | balances (token : Side → AccountId)
      (holds : ∀ side, (w (q.vault side)).data
        = .tokenHolding (.fungible (token side) (q'.reserve side)))
      (idle : ∀ call ∈ calls, ∀ id, call.debit id = 0 ∧ call.credit id = 0) :
      Follows w q q' calls .syncReserves

structure Operation (w : Accounts) (c x : AccountId) (q q' : PoolDefinition)
    (instruction : Instruction) (calls : List ChainedCall) : Prop where
  stored : PoolAt w x q
  poolOf : PoolOf c x q
  same : SamePool q q'
  move : ConstantProduct.Move 1000 q.pool q'.pool
  proper : ∀ call ∈ calls, Proper c x call
  payer : ∀ call ∈ calls, ∀ token, computeProtocolFeePdaSeed c token ∈ call.pdaSeeds →
    ∃ side, ∀ id, id ≠ q.vault side → call.debit id = 0
  follows : Follows w q q' calls instruction
  shares : q'.liquidityPoolSupply.val + (calls.map fun call => call.burned q.liquidityPoolId).sum
    = q.liquidityPoolSupply.val + (calls.map fun call => call.minted q.liquidityPoolId).sum
  burns : ∀ call ∈ calls, ∀ id, id ≠ q.liquidityPoolId → call.burned id = 0

/-- A pool that changes is one of the AMM. -/
theorem poolAt_of_written (w : Accounts) (hbare : Bare w) (x : AccountId) (q q' : PoolDefinition)
    (stored : (w x).data = .poolDefinition q)
    (written : MayWrite ammProgramId (w x) (.poolDefinition q')) (hne : q' ≠ q) : PoolAt w x q := by
  rcases written with hsame | howner | hnone
  · rw [stored, Data.poolDefinition.injEq] at hsame
    exact absurd hsame hne
  · exact (owned_eq_some _ _ _ _).mpr ⟨howner, stored⟩
  · have hdata := hbare x hnone
    rw [stored] at hdata
    cases hdata

section
variable (c x a b token : AccountId)

theorem not_fee_liquidityToken :
    computeProtocolFeePdaSeed c token ∉ [computeLiquidityTokenPdaSeed x] := by
  intro h
  cases List.mem_singleton.mp h

theorem not_fee_vault : computeProtocolFeePdaSeed c token ∉ [computeVaultPdaSeed x a] := by
  intro h
  cases List.mem_singleton.mp h

theorem not_fee_pool (seed : PdaSeed) (seeded : computePoolPdaSeed c a b = .ok seed) :
    computeProtocolFeePdaSeed c token ∉ [seed] := by
  intro h
  obtain ⟨-, _, _, he⟩ := computePoolPdaSeed_shape _ _ _ _ seeded
  rw [← List.mem_singleton.mp h] at he
  cases he

end

section
variable (tokenProgramId c x i o vaultIn vaultOut feeHolding tokenIn tokenOut : AccountId)
  (amounts : SwapAmounts) (protocolFee : U128)

theorem debit_swapCalls (id : AccountId) :
    ((swapCalls tokenProgramId c x i o vaultIn vaultOut feeHolding tokenIn tokenOut amounts
      protocolFee).map fun call => call.debit id).sum
      = (if id = i then amounts.amountIn.val else 0)
        + (if id = vaultOut then amounts.amountOut.val else 0)
        + (if id = vaultIn then protocolFee.val else 0) := by
  unfold swapCalls
  split
  · simp [Nat.add_assoc]
  · rename_i hzero
    simp [not_not.mp hzero]

theorem credit_swapCalls (id : AccountId) :
    ((swapCalls tokenProgramId c x i o vaultIn vaultOut feeHolding tokenIn tokenOut amounts
      protocolFee).map fun call => call.credit id).sum
      = (if id = vaultIn then amounts.amountIn.val else 0)
        + (if id = o then amounts.amountOut.val else 0)
        + (if id = feeHolding then protocolFee.val else 0) := by
  unfold swapCalls
  split
  · simp [Nat.add_assoc]
  · rename_i hzero
    simp [not_not.mp hzero]

theorem resupply_swapCalls (id : AccountId) :
    ((swapCalls tokenProgramId c x i o vaultIn vaultOut feeHolding tokenIn tokenOut amounts
      protocolFee).map fun call => call.minted id).sum = 0 ∧
    ((swapCalls tokenProgramId c x i o vaultIn vaultOut feeHolding tokenIn tokenOut amounts
      protocolFee).map fun call => call.burned id).sum = 0 := by
  unfold swapCalls
  split <;> simp

theorem burned_swapCalls (id : AccountId) : ∀ call ∈ swapCalls tokenProgramId c x i o vaultIn
    vaultOut feeHolding tokenIn tokenOut amounts protocolFee, call.burned id = 0 := by
  intro call hc
  rw [swapCalls, List.mem_append] at hc
  rcases hc with hc | hc
  · simp only [List.mem_cons, List.not_mem_nil, or_false] at hc
    rcases hc with rfl | rfl
    · rfl
    · rfl
  · split at hc
    · rw [List.mem_singleton.mp hc]
      rfl
    · cases hc

theorem proper_swapCalls : ∀ call ∈ swapCalls tokenProgramId c x i o vaultIn vaultOut feeHolding
    tokenIn tokenOut amounts protocolFee, Proper c x call := by
  intro call hc
  rw [swapCalls, List.mem_append] at hc
  rcases hc with hc | hc
  · simp only [List.mem_cons, List.not_mem_nil, or_false] at hc
    rcases hc with rfl | rfl
    · exact proper_transferCall _ _ _ _ _ _ _ (by simp)
    · exact proper_transferCall _ _ _ _ _ _ _ (List.forall_mem_singleton.mpr (.vault _))
  · split at hc
    · rw [List.mem_singleton.mp hc]
      refine proper_transferCall _ _ _ _ _ _ _ ?_
      simp only [List.forall_mem_cons, List.not_mem_nil, false_implies, implies_true, and_true]
      exact ⟨.vault _, .protocolFee _⟩
    · cases hc

/-- The protocol's share is paid by the vault that received the input. -/
theorem payer_swapCalls : ∀ call ∈ swapCalls tokenProgramId c x i o vaultIn vaultOut feeHolding
    tokenIn tokenOut amounts protocolFee, ∀ token,
      computeProtocolFeePdaSeed c token ∈ call.pdaSeeds →
        ∀ id, id ≠ vaultIn → call.debit id = 0 := by
  intro call hc token hfee id hid
  rw [swapCalls, List.mem_append] at hc
  rcases hc with hc | hc
  · simp only [List.mem_cons, List.not_mem_nil, or_false] at hc
    rcases hc with rfl | rfl
    · cases hfee
    · exact absurd hfee (not_fee_vault c x _ token)
  · split at hc
    · rw [List.mem_singleton.mp hc, debit_transferCall, if_neg hid]
    · cases hc

end

section
variable (w : Accounts) (c x : AccountId) (cfg : AmmConfig)
  (q q' : PoolDefinition) (reads : PoolReads ammProgramId w c x cfg q)
  (tokenProgramId oracle : AccountId) (price : U128) (seed : PdaSeed)
  (seeded : computePoolPdaSeed c q.definitionTokenAId q.definitionTokenBId = .ok seed)
include reads seeded

section
variable (ua ub ul t k : AccountId) (amountA amountB : U128)
  (hn : [c, x, q.vaultAId, q.vaultBId, q.liquidityPoolId, ua, ub, ul, t, k].Nodup)
  (hbare : Bare w) (written : MayWrite ammProgramId (w x) (.poolDefinition q'))
include hn hbare written

theorem operation_addLiquidity (minLp maxA maxB deltaLp : U128) (deadline : U64)
    (amounts : liquidityToAdd q minLp maxA maxB = .ok (amountA, amountB, deltaLp))
    (updated : addedPool q amountA amountB deltaLp = .ok q') :
    Operation w c x q q' (.addLiquidity minLp maxA maxB deadline)
      [lpMintCall tokenProgramId x q.liquidityPoolId ul deltaLp,
      transferCall tokenProgramId ub q.vaultBId amountB [],
      transferCall tokenProgramId ua q.vaultAId amountA [], tickCall oracle x price seed] := by
  obtain ⟨hpositive, -, -⟩ := liquidityToAdd_spec _ _ _ _ _ _ _ amounts
  obtain ⟨hsame, hsupply, hreserve⟩ := addedPool_spec _ _ _ _ _ updated
  have hne : q' ≠ q := by
    rintro rfl
    omega
  simp only [List.nodup_cons, List.mem_cons, not_or, List.not_mem_nil, not_false_eq_true,
    and_true] at hn
  obtain ⟨-, -, ⟨hab, -, haua, haub, haul, -⟩, ⟨-, hbua, hbub, hbul, -⟩, -⟩ := hn
  refine ⟨poolAt_of_written w hbare x q q' reads.stored written hne, reads.derived, hsame,
    added_move _ _ _ _ _ _ _ _ amounts updated, ?_, ?_,
    .transfers _ Instruction.noConfusion ?_, ?_, ?_⟩
  · simp only [List.forall_mem_cons, List.not_mem_nil, false_implies, implies_true, and_true]
    exact ⟨proper_lpMintCall _ _ _ _ _ _, proper_transferCall _ _ _ _ _ _ _ (by simp),
      proper_transferCall _ _ _ _ _ _ _ (by simp), proper_tickCall _ _ _ _ _ _ _ seeded⟩
  · simp only [List.forall_mem_cons, List.not_mem_nil, false_implies, implies_true, and_true]
    exact ⟨fun token h => absurd h (not_fee_liquidityToken c x token),
      fun token h => absurd h (List.not_mem_nil),
      fun token h => absurd h (List.not_mem_nil),
      fun token h => absurd h (not_fee_pool c _ _ token seed seeded)⟩
  · rintro (_ | _)
    · simpa [PoolDefinition.vault, amountOn, haua, haub, haul, hab] using hreserve .a
    · simpa [PoolDefinition.vault, amountOn, hbua, hbub, hbul, Ne.symm hab] using hreserve .b
  · simpa using hsupply
  · simp only [List.forall_mem_cons, List.not_mem_nil, false_implies, implies_true, and_true]
    exact ⟨fun id _ => rfl, fun id _ => rfl, fun id _ => rfl, fun id _ => rfl⟩

theorem operation_removeLiquidity (balance amount minA minB : U128) (deadline : U64)
    (positive : amount.val ≠ 0)
    (amounts : liquidityToRemove q balance amount minA minB = .ok (amountA, amountB))
    (updated : removedPool q amountA amountB amount = .ok q') :
    Operation w c x q q' (.removeLiquidity amount minA minB deadline)
      [lpBurnCall tokenProgramId x q.liquidityPoolId ul amount,
      transferCall tokenProgramId q.vaultBId ub amountB
        [computeVaultPdaSeed x q.definitionTokenBId],
      transferCall tokenProgramId q.vaultAId ua amountA
        [computeVaultPdaSeed x q.definitionTokenAId], tickCall oracle x price seed] := by
  obtain ⟨hsame, hsupply, hreserve⟩ := removedPool_spec _ _ _ _ _ updated
  have hne : q' ≠ q := by
    rintro rfl
    omega
  simp only [List.nodup_cons, List.mem_cons, not_or, List.not_mem_nil, not_false_eq_true,
    and_true] at hn
  obtain ⟨-, -, ⟨hab, -, haua, haub, haul, -⟩, ⟨-, hbua, hbub, hbul, -⟩, -⟩ := hn
  refine ⟨poolAt_of_written w hbare x q q' reads.stored written hne, reads.derived, hsame,
    removed_move _ _ _ _ _ _ _ _ amounts updated, ?_, ?_,
    .transfers _ Instruction.noConfusion ?_, ?_, ?_⟩
  · simp only [List.forall_mem_cons, List.not_mem_nil, false_implies, implies_true, and_true]
    exact ⟨proper_lpBurnCall _ _ _ _ _ _,
      proper_transferCall _ _ _ _ _ _ _ (List.forall_mem_singleton.mpr (.vault _)),
      proper_transferCall _ _ _ _ _ _ _ (List.forall_mem_singleton.mpr (.vault _)),
      proper_tickCall _ _ _ _ _ _ _ seeded⟩
  · simp only [List.forall_mem_cons, List.not_mem_nil, false_implies, implies_true, and_true]
    exact ⟨fun token h => absurd h (not_fee_liquidityToken c x token),
      fun token h => absurd h (not_fee_vault c x _ token),
      fun token h => absurd h (not_fee_vault c x _ token),
      fun token h => absurd h (not_fee_pool c _ _ token seed seeded)⟩
  · rintro (_ | _)
    · simpa [PoolDefinition.vault, amountOn, haua, haub, haul, hab] using hreserve .a
    · simpa [PoolDefinition.vault, amountOn, hbua, hbub, hbul, Ne.symm hab] using hreserve .b
  · simpa using hsupply
  · simp only [List.forall_mem_cons, List.not_mem_nil, false_implies, implies_true, and_true]
    exact ⟨fun id hid => if_neg (Ne.symm hid), fun id _ => rfl, fun id _ => rfl, fun id _ => rfl⟩

end

theorem operation_syncReserves (owned : (w x).programOwner = ammProgramId)
    (token : Side → AccountId) (balance : Side → U128) (vaults : VaultReads w q token balance) :
    Operation w c x q { q with reserveA := balance .a, reserveB := balance .b } .syncReserves
      [tickCall oracle x price seed] := by
  refine ⟨(owned_eq_some _ _ _ _).mpr ⟨owned, reads.stored⟩, reads.derived,
    ⟨rfl, rfl, rfl, rfl, rfl⟩, synced_move q balance vaults.covers,
    List.forall_mem_singleton.mpr (proper_tickCall _ _ _ _ _ _ _ seeded),
    List.forall_mem_singleton.mpr fun token h =>
      absurd h (not_fee_pool c _ _ token seed seeded), .balances token ?_ ?_, rfl,
    List.forall_mem_singleton.mpr fun _ _ => rfl⟩
  · rintro (_ | _)
    · exact vaults.holds .a
    · exact vaults.holds .b
  · exact List.forall_mem_singleton.mpr fun id => ⟨rfl, rfl⟩

theorem operation_swap (hbare : Bare w) (written : MayWrite ammProgramId (w x) (.poolDefinition q'))
    (hcfg : cfg.protocolFeeBps.val ≤ 10000) (instruction : Instruction) (side : Side)
    (i o t k feeHolding : AccountId) (token : Side → AccountId) (amounts : SwapAmounts)
    (swapFee protocolFee net : U128)
    (hn : [c, x, q.vaultAId, q.vaultBId, i, o, t, k, feeHolding].Nodup)
    (priced : Priced (q.reserve side) (q.reserve side.other) cfg.swapFeeBps instruction amounts)
    (fee : swapFee.val + amounts.effectiveAmountIn.val = amounts.amountIn.val)
    (share : protocolFeeAmount swapFee cfg.protocolFeeBps = .ok protocolFee)
    (rest : net.val + protocolFee.val = amounts.amountIn.val)
    (updated : swappedSide q side net amounts.amountOut = .ok q') :
    Operation w c x q q' instruction (swapCalls tokenProgramId c x i o (q.vault side) (q.vault side.other)
      feeHolding (token side) (token side.other) amounts protocolFee
      ++ [tickCall oracle x price seed]) := by
  obtain ⟨hpositive, -⟩ := priced.product
  have hpriced : instruction ≠ .syncReserves := by
    rintro rfl
    cases priced
  obtain ⟨hsame, hsupply, hin, hout⟩ := swappedSide_spec q q' side net amounts.amountOut updated
  have hne : q' ≠ q := by
    rintro rfl
    omega
  simp only [List.nodup_cons, List.mem_cons, not_or, List.not_mem_nil, not_false_eq_true,
    and_true] at hn
  obtain ⟨-, -, ⟨hab, hai, hao, -, -, haf⟩, ⟨hbi, hbo, -, -, hbf⟩, -⟩ := hn
  refine ⟨poolAt_of_written w hbare x q q' reads.stored written hne, reads.derived, hsame,
    swapped_move q q' side cfg hcfg instruction amounts swapFee protocolFee net priced fee share
      rest updated, ?_, ?_, .transfers _ hpriced ?_, ?_, ?_⟩
  · intro call hc
    rcases List.mem_append.mp hc with hc | hc
    · exact proper_swapCalls _ _ _ _ _ _ _ _ _ _ _ _ call hc
    · exact List.mem_singleton.mp hc ▸ proper_tickCall _ _ _ _ _ _ _ seeded
  · intro call hc feeToken hfee
    rcases List.mem_append.mp hc with hc | hc
    · exact ⟨side, payer_swapCalls _ _ _ _ _ _ _ _ _ _ _ _ call hc feeToken hfee⟩
    · rw [List.mem_singleton.mp hc] at hfee
      exact absurd hfee (not_fee_pool c _ _ feeToken seed seeded)
  · intro y
    simp only [List.map_append, List.sum_append, debit_swapCalls, credit_swapCalls, List.map_cons,
      List.map_nil, List.sum_cons, List.sum_nil, debit_tickCall, credit_tickCall, Nat.add_zero]
    have hba := Ne.symm hab
    -- the vault that receives, the vault that pays, on either side
    cases side <;> cases y <;>
      simp only [PoolDefinition.vault, Side.other, hab, hba, hai, hao, haf, hbi, hbo, hbf, if_true,
        if_false] <;>
      simp only [Side.other] at hin hout <;> omega
  · obtain ⟨hminted, hburned⟩ := resupply_swapCalls tokenProgramId c x i o (q.vault side)
      (q.vault side.other) feeHolding (token side) (token side.other) amounts protocolFee
      q.liquidityPoolId
    simp only [List.map_append, List.sum_append, hminted, hburned, hsupply, List.map_cons,
      List.map_nil, List.sum_cons, List.sum_nil, minted_tickCall, burned_tickCall]
  · intro call hc id _
    rcases List.mem_append.mp hc with hc | hc
    · exact burned_swapCalls _ _ _ _ _ _ _ _ _ _ _ _ id call hc
    · exact List.mem_singleton.mp hc ▸ rfl

end

def AmmConfig.Valid (cfg : AmmConfig) : Prop :=
  cfg.swapFeeBps.val < 10000 ∧ cfg.protocolFeeBps.val ≤ 10000

def creationCalls (cfg : AmmConfig) (x ua ub ul tokenA tokenB : AccountId) (a b userLp price : U128)
    (seed : PdaSeed) : List ChainedCall :=
  [lpLockCall ammProgramId cfg.tokenProgramId x,
    lpMintCall cfg.tokenProgramId x (computeLiquidityTokenPda ammProgramId x) ul userLp,
    transferCall cfg.tokenProgramId ub (computeVaultPda ammProgramId x tokenB) b
      [computeVaultPdaSeed x tokenB],
    transferCall cfg.tokenProgramId ua (computeVaultPda ammProgramId x tokenA) a
      [computeVaultPdaSeed x tokenA],
    createTickCall cfg.twapOracleProgramId x price seed]

theorem granted_creationCalls (cfg : AmmConfig) (c x ua ub ul tokenA tokenB : AccountId)
    (a b userLp price : U128) (seed : PdaSeed)
    (seeded : computePoolPdaSeed c tokenA tokenB = .ok seed) :
    ∀ call ∈ creationCalls cfg x ua ub ul tokenA tokenB a b userLp price seed,
      ∀ seed ∈ call.pdaSeeds, Granted c x seed ∨ seed = computeLpLockHoldingPdaSeed x := by
  have hlock : ∀ seed ∈ (lpLockCall ammProgramId cfg.tokenProgramId x).pdaSeeds,
      Granted c x seed ∨ seed = computeLpLockHoldingPdaSeed x :=
    List.forall_mem_cons.mpr ⟨Or.inl .liquidityToken, List.forall_mem_singleton.mpr (Or.inr rfl)⟩
  simp only [creationCalls, List.forall_mem_cons, List.not_mem_nil, false_implies, implies_true,
    and_true]
  exact ⟨hlock, List.forall_mem_singleton.mpr (Or.inl .liquidityToken),
    List.forall_mem_singleton.mpr (Or.inl (.vault tokenB)),
    List.forall_mem_singleton.mpr (Or.inl (.vault tokenA)),
    List.forall_mem_singleton.mpr (Or.inl (.pool _ _ _ seeded))⟩

inductive Effect (w : Accounts) (authority : List AccountId) :
    List AccountId → Instruction → Accounts → List ChainedCall → Prop
  | configured (c : AccountId) (ids : List AccountId) (instruction : Instruction) (cfg : AmmConfig)
      (valid : cfg.Valid) (previous : w c = default ∨
        ∃ old, ConfigAt w c old ∧ cfg = { old with authority := cfg.authority }) :
      Effect w authority ids instruction (put ammProgramId w c (.ammConfig cfg)) []
  | withdrawn (c token destination : AccountId) (cfg : AmmConfig) (amount : U128)
      (config : ConfigAt w c cfg) (signed : cfg.authority ∈ authority) :
      Effect w authority [c, computeProtocolFeePda ammProgramId c token, destination, cfg.authority]
        (.withdrawProtocolFees amount) w
        [transferCall cfg.tokenProgramId (computeProtocolFeePda ammProgramId c token) destination
          amount [computeProtocolFeePdaSeed c token]]
  | created (instruction : Instruction) (c x ua ub ul : AccountId) (a b : U128) (cfg : AmmConfig)
      (holdingA holdingB : Holding) (initialLp userLp price : U128) (seed : PdaSeed)
      (rest : List AccountId) (config : ConfigAt w c cfg)
      (dataA : (w ua).data = .tokenHolding holdingA) (dataB : (w ub).data = .tokenHolding holdingB)
      (poolOf : PoolOf c x (createdPool ammProgramId x holdingA.definitionId
        holdingB.definitionId initialLp a b))
      (fresh : w x = default) (positiveA : a.val ≠ 0) (positiveB : b.val ≠ 0)
      (above : userLp.val + 1000 = initialLp.val)
      (spot : spotPriceQ6464 a b = .ok price)
      (seeded : computePoolPdaSeed c holdingA.definitionId holdingB.definitionId = .ok seed) :
      Effect w authority (c :: x :: rest) instruction
        (put ammProgramId w x (.poolDefinition (createdPool ammProgramId x holdingA.definitionId
          holdingB.definitionId initialLp a b)))
        (creationCalls cfg x ua ub ul holdingA.definitionId holdingB.definitionId a b userLp price
          seed)
  | operated (instruction : Instruction) (c x : AccountId) (rest : List AccountId)
      (q q' : PoolDefinition) (calls : List ChainedCall)
      (operation : Operation w c x q q' instruction calls) :
      Effect w authority (c :: x :: rest) instruction
        (put ammProgramId w x (.poolDefinition q')) calls

theorem Step.effect (w v : Accounts) (authority ids : List AccountId) (instruction : Instruction)
    (calls : List ChainedCall) (hbare : Bare w) (hn : ids.Nodup)
    (hcfg : ∀ c cfg, ConfigAt w c cfg → cfg.Valid)
    (h : Step ammProgramId w authority ids instruction v calls) :
    Effect w authority ids instruction v calls := by
  cases h with
  | initializeConfig owner nonce cfg _ fresh swapFee protocolFee =>
    exact .configured _ _ _ cfg ⟨swapFee, protocolFee⟩ (Or.inl fresh)
  | updateConfig c a new cfg config =>
    have hc := configAt_of_holds w c cfg config
    exact .configured c _ _ _ (hcfg c cfg hc) (Or.inr ⟨cfg, hc, rfl⟩)
  | withdrawProtocolFees c destination a cfg amount holding config entitled authorized =>
    subst entitled
    exact .withdrawn c _ destination cfg amount (configAt_of_holds w c cfg config) authorized
  | newDefinition c x ua ub ul a b deadline cfg holdingA holdingB initialLp userLp price seed config
      dataA dataB _ derived fresh positiveA positiveB _ _ rest spot seeded =>
    exact .created _ c x ua ub ul a b cfg holdingA holdingB initialLp userLp price seed _
      (configAt_of_holds w c cfg config) dataA dataB derived fresh positiveA positiveB rest spot
      seeded
  | addLiquidity c x ua ub ul minLp maxA maxB deadline cfg q q' token balance amountA amountB deltaLp
      price seed reads _ amounts updated written _ seeded =>
    exact .operated _ c x _ q q' _ (operation_addLiquidity w c x cfg q q' reads _ _ price seed
      seeded ua ub ul _ _ amountA amountB hn hbare written minLp maxA maxB deltaLp deadline amounts
      updated)
  | removeLiquidity c x ua ub ul amount minA minB deadline cfg q q' lpBalance amountA amountB price
      seed reads positive _ _ _ amounts updated written _ seeded =>
    exact .operated _ c x _ q q' _ (operation_removeLiquidity w c x cfg q q' reads _ _ price seed
      seeded ua ub ul _ _ amountA amountB hn hbare written lpBalance amount minA minB deadline
      positive amounts updated)
  | syncReserves c x cfg q token balance price seed reads owned vaults _ seeded =>
    exact .operated _ c x _ q _ _ (operation_syncReserves w c x cfg q reads _ price seed seeded
      owned token balance vaults)
  | swap _ side c x i o cfg q q' token balance holding amounts swapFee protocolFee net price seed
      reads _ _ _ priced fee share rest updated written _ seeded =>
    exact .operated _ c x _ q q' _ (operation_swap w c x cfg q q' reads _ _ price seed seeded
      hbare written (hcfg c cfg (configAt_of_holds w c cfg reads.config)).2 instruction side i o _ _
      _ token amounts swapFee protocolFee net hn priced fee share rest updated)

/-- An instruction presents keys of the accounts it names only: of its configuration, and of the
pool in the second place. -/
theorem Effect.granted (w v : Accounts) (authority ids : List AccountId) (instruction : Instruction)
    (calls : List ChainedCall) (h : Effect w authority ids instruction v calls) : calls = [] ∨
      ∃ c x rest, ids = c :: x :: rest ∧ ∀ call ∈ calls, ∀ seed ∈ call.pdaSeeds,
        Granted c x seed ∨ seed = computeLpLockHoldingPdaSeed x := by
  cases h with
  | configured => exact Or.inl rfl
  | withdrawn c token =>
    exact Or.inr ⟨c, _, _, rfl, List.forall_mem_singleton.mpr
      (List.forall_mem_singleton.mpr (Or.inl (.protocolFee token)))⟩
  | created _ c x ua ub ul a b cfg _ _ _ userLp price seed rest _ _ _ _ _ _ _ _ _ seeded =>
    exact Or.inr ⟨c, x, rest, rfl, granted_creationCalls _ _ _ _ _ _ _ _ _ _ _ _ _ seeded⟩
  | operated _ c x rest _ _ _ operation =>
    exact Or.inr ⟨c, x, rest, rfl, fun call hc seed hs =>
      Or.inl ((operation.proper call hc).granted seed hs)⟩

end LezPrograms.Amm
