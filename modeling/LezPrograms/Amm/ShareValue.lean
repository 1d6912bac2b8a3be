import LezPrograms.Amm.Failures
import LezPrograms.Amm.Reachable

/-! # The value of a share

Every instruction on a pool is a move of a constant-product pool, so the reserves
behind a share never fall. In reachable worlds the reserves are positive and the
supply keeps the locked minimum: nothing that an instruction divides by is zero. -/

set_option autoImplicit false

namespace LezPrograms.Amm
open LezPrograms.Checked LezPrograms.Checked.Unsigned LezPrograms.Lee

def divisionTexts : List String :=
  ["mul_div_floor: divisor must be non-zero",
    "mul_div_floor: divisor is non-zero after the assertion above",
    "mul_div_ceil: divisor must be non-zero",
    "spot_price_q64_64: reserve_base must be non-zero",
    "reserve_base is non-zero after the assertion above"]

abbrev Divides {α : Type} (o : Outcome α) : Prop := Avoids divisionTexts o

theorem divides_mulDivFloor (a b c : U128) (hc : c.val ≠ 0) : Divides (mulDivFloor a b c) :=
  avoids_mulDivFloor _ _ _ _ (by decide) (Or.inl hc)

theorem divides_mulDivCeil (a b c : U128) (hc : c.val ≠ 0) : Divides (mulDivCeil a b c) := by
  refine Avoids.bind _ _ _ (avoids_ensure _ _ _ (Or.inr hc)) fun _ _ => ?_
  refine Avoids.bind _ _ _ (avoids_expect _ _ _ (Or.inl (by decide))) fun product _ => ?_
  exact avoids_expect _ _ _ (Or.inl (by decide))

theorem divides_swapExactInAmounts (amountIn reserveIn reserveOut feeBps : U128) :
    Divides (swapExactInAmounts amountIn reserveIn reserveOut feeBps) := by
  refine Avoids.bind _ _ _ (divides_mulDivFloor _ _ _ (by decide)) fun effective _ => ?_
  split
  · exact avoids_pure _ _
  · split
    · exact avoids_pure _ _
    · rename_i hne
      exact Avoids.bind _ _ _ (divides_mulDivFloor _ _ _ hne) fun _ _ => avoids_pure _ _

theorem divides_swapExactOutAmounts (amountOut reserveIn reserveOut feeBps : U128) :
    Divides (swapExactOutAmounts amountOut reserveIn reserveOut feeBps) := by
  unfold swapExactOutAmounts
  split
  · exact avoids_pure _ _
  · split
    · exact avoids_pure _ _
    · rename_i hne
      split
      · exact avoids_pure _ _
      · refine Avoids.bind _ _ _ (divides_mulDivCeil _ _ _ hne) fun effective _ => ?_
        split
        · exact avoids_pure _ _
        · split
          · exact avoids_pure _ _
          · rename_i hmultiplier
            exact Avoids.bind _ _ _ (divides_mulDivCeil _ _ _ hmultiplier) fun _ _ =>
              avoids_pure _ _

theorem divides_spotPriceQ6464 (base quote : U128) (hb : base.val ≠ 0) :
    Divides (spotPriceQ6464 base quote) :=
  avoids_spotPriceQ6464 _ _ _ (by decide) (Or.inl hb)

theorem divides_updateTickCall (oracle : AccountId) (tick pool clock config : InputAccount)
    (q : PoolDefinition) (reserveA reserveB : U128) (ha : reserveA.val ≠ 0) :
    Divides (updateTickCall oracle tick pool clock config q reserveA reserveB) :=
  avoids_updateTickCall _ _ _ _ _ _ _ _ _ (by decide) (divides_spotPriceQ6464 _ _ ha)

theorem divides_liquidityToAdd (q : PoolDefinition) (minLp maxA maxB : U128)
    (ha : q.reserveA.val ≠ 0) (hb : q.reserveB.val ≠ 0) :
    Divides (liquidityToAdd q minLp maxA maxB) := by
  refine Avoids.guard _ _ _ _ (by decide) fun _ => Avoids.guard _ _ _ _ (by decide) fun _ => ?_
  refine Avoids.bind _ _ _ (divides_mulDivFloor _ _ _ hb) fun idealA _ => ?_
  refine Avoids.bind _ _ _ (divides_mulDivFloor _ _ _ ha) fun idealB _ => ?_
  refine Avoids.guard _ _ _ _ (by decide) fun _ => Avoids.guard _ _ _ _ (by decide) fun _ => ?_
  refine Avoids.guard _ _ _ _ (by decide) fun _ => Avoids.guard _ _ _ _ (by decide) fun _ => ?_
  refine Avoids.bind _ _ _ (divides_mulDivFloor _ _ _ ha) fun shareA _ => ?_
  refine Avoids.bind _ _ _ (divides_mulDivFloor _ _ _ hb) fun shareB _ => ?_
  exact Avoids.guard _ _ _ _ (by decide) fun _ => Avoids.guard _ _ _ _ (by decide) fun _ =>
    avoids_pure _ _

theorem divides_liquidityToRemove (q : PoolDefinition) (balance amount minA minB : U128)
    (hs : q.liquidityPoolSupply.val ≠ 0) :
    Divides (liquidityToRemove q balance amount minA minB) := by
  refine Avoids.guard _ _ _ _ (by decide) fun _ => Avoids.guard _ _ _ _ (by decide) fun _ => ?_
  refine Avoids.bind _ _ _ (avoids_expect _ _ _ (Or.inl (by decide))) fun unlocked _ => ?_
  refine Avoids.guard _ _ _ _ (by decide) fun _ => ?_
  refine Avoids.bind _ _ _ (divides_mulDivFloor _ _ _ hs) fun amountA _ => ?_
  refine Avoids.bind _ _ _ (divides_mulDivFloor _ _ _ hs) fun amountB _ => ?_
  exact Avoids.guard _ _ _ _ (by decide) fun _ => Avoids.guard _ _ _ _ (by decide) fun _ =>
    avoids_pure _ _

section
variable (config pool vaultA vaultB lp ua ub ul tick clock : InputAccount) (self : AccountId)

variable (q : PoolDefinition) (hq : pool.account.data = .poolDefinition q)
  (healthy : ConstantProduct.Healthy 1000 q.pool)
include hq healthy

theorem divides_addLiquidity (minLp maxA maxB : U128) :
    Divides (addLiquidity config pool vaultA vaultB lp ua ub ul tick clock minLp maxA maxB self) := by
  have ha : q.reserveA.val ≠ 0 := Nat.pos_iff_ne_zero.mp healthy.first
  have hb : q.reserveB.val ≠ 0 := Nat.pos_iff_ne_zero.mp healthy.second
  simp only [addLiquidity]
  refine Avoids.bind _ _ _ (avoids_decodeConfig _ _ _ _ (by decide)) fun cfg _ => ?_
  refine Avoids.bind _ _ _ (avoids_expect _ _ _ (Or.inl (by decide))) fun stored hstored => ?_
  rw [expect_eq_ok, tryFrom_poolDefinition, hq, Data.poolDefinition.injEq] at hstored
  subst hstored
  refine Avoids.bind _ _ _ (avoids_assertPoolInConfigNamespace _ _ _ _ _ _ (by decide)) fun _ _ => ?_
  iterate 7 refine Avoids.guard _ _ _ _ (by decide) fun _ => ?_
  refine Avoids.bind _ _ _ (avoids_assertOracleAccounts _ _ _ _ _ _ (by decide)) fun _ _ => ?_
  refine Avoids.guard _ _ _ _ (by decide) fun _ => ?_
  refine Avoids.bind _ _ _ (avoids_readVaultFungibleBalances _ _ _ _ (by decide)) fun balances _ => ?_
  iterate 2 refine Avoids.guard _ _ _ _ (by decide) fun _ => ?_
  refine Avoids.bind _ _ _ (divides_liquidityToAdd _ _ _ _ ha hb) fun amounts hamounts => ?_
  refine Avoids.bind _ _ _ (avoids_addedPool _ _ _ _ _ (by decide)) fun q' hq' => ?_
  have hmove := added_move q q' _ _ _ minLp maxA maxB hamounts hq'
  have hhealthy := hmove.healthy 1000 (by decide) _ _ healthy
  exact Avoids.bind _ _ _ (divides_updateTickCall _ _ _ _ _ _ _ _
    (Nat.pos_iff_ne_zero.mp hhealthy.first)) fun _ _ => avoids_pure _ _

theorem divides_removeLiquidity (amount minA minB : U128) :
    Divides (removeLiquidity config pool vaultA vaultB lp ua ub ul tick clock amount minA minB
      self) := by
  have hs : q.liquidityPoolSupply.val ≠ 0 :=
    Nat.pos_iff_ne_zero.mp (lt_of_lt_of_le (by decide) healthy.shares)
  simp only [removeLiquidity]
  refine Avoids.bind _ _ _ (avoids_decodeConfig _ _ _ _ (by decide)) fun cfg _ => ?_
  refine Avoids.bind _ _ _ (avoids_expect _ _ _ (Or.inl (by decide))) fun stored hstored => ?_
  rw [expect_eq_ok, tryFrom_poolDefinition, hq, Data.poolDefinition.injEq] at hstored
  subst hstored
  refine Avoids.bind _ _ _ (avoids_assertPoolInConfigNamespace _ _ _ _ _ _ (by decide)) fun _ _ => ?_
  iterate 8 refine Avoids.guard _ _ _ _ (by decide) fun _ => ?_
  refine Avoids.bind _ _ _ (avoids_assertOracleAccounts _ _ _ _ _ _ (by decide)) fun _ _ => ?_
  iterate 2 refine Avoids.guard _ _ _ _ (by decide) fun _ => ?_
  refine Avoids.bind _ _ _ (avoids_expect _ _ _ (Or.inl (by decide))) fun holding _ => ?_
  refine Avoids.bind _ _ _ ?_ fun balance _ => ?_
  · cases holding with
    | fungible d balance => exact avoids_pure _ _
    | _ => exact avoids_error _ _ (by decide)
  iterate 2 refine Avoids.guard _ _ _ _ (by decide) fun _ => ?_
  refine Avoids.bind _ _ _ (divides_liquidityToRemove _ _ _ _ _ hs) fun amounts hamounts => ?_
  refine Avoids.bind _ _ _ (avoids_removedPool _ _ _ _ _ (by decide)) fun q' hq' => ?_
  have hmove := removed_move q q' _ _ amount balance minA minB hamounts hq'
  have hhealthy := hmove.healthy 1000 (by decide) _ _ healthy
  exact Avoids.bind _ _ _ (divides_updateTickCall _ _ _ _ _ _ _ _
    (Nat.pos_iff_ne_zero.mp hhealthy.first)) fun _ _ => avoids_pure _ _

theorem divides_syncReserves :
    Divides (syncReserves config pool vaultA vaultB tick clock self) := by
  simp only [syncReserves]
  refine Avoids.guard _ _ _ _ (by decide) fun _ => ?_
  refine Avoids.bind _ _ _ (avoids_expect _ _ _ (Or.inl (by decide))) fun stored hstored => ?_
  rw [expect_eq_ok, tryFrom_poolDefinition, hq, Data.poolDefinition.injEq] at hstored
  subst hstored
  refine Avoids.bind _ _ _ (avoids_decodeConfig _ _ _ _ (by decide)) fun cfg _ => ?_
  refine Avoids.bind _ _ _ (avoids_assertPoolInConfigNamespace _ _ _ _ _ _ (by decide)) fun _ _ => ?_
  iterate 3 refine Avoids.guard _ _ _ _ (by decide) fun _ => ?_
  refine Avoids.bind _ _ _ (avoids_assertOracleAccounts _ _ _ _ _ _ (by decide)) fun _ _ => ?_
  refine Avoids.bind _ _ _ (avoids_readVaultFungibleBalances _ _ _ _ (by decide)) fun balances _ => ?_
  refine Avoids.guard _ _ _ _ (by decide) fun hcovers => ?_
  refine Avoids.guard _ _ _ _ (by decide) fun _ => ?_
  have ha : balances.1.val ≠ 0 :=
    Nat.pos_iff_ne_zero.mp (lt_of_lt_of_le healthy.first hcovers)
  exact Avoids.bind _ _ _ (divides_updateTickCall _ _ _ _ _ _ _ _ ha) fun _ _ => avoids_pure _ _

def swapTexts (context logicContext amountName : String) : List String :=
  [context ++ ": AMM config account must be owned by the AMM Program",
    context ++ ": AMM Program must be initialized before use",
    context ++ ": input holding must be a valid token holding",
    context ++ ": input holding token is not part of the pool",
    context ++ ": protocol-fee holding does not match the input token's protocol PDA",
    context ++ ": clock account must be the canonical 1-block LEZ clock account",
    context ++ ": current tick Account ID does not match PDA",
    logicContext ++ ": AMM Program expects valid token data",
    "effective_amount_in <= " ++ amountName, "protocol_fee <= swap_fee <= " ++ amountName]

variable (input output feeHolding : InputAccount) (context logicContext amountName : String)
  (price : U128 → U128 → U128 → Outcome SwapAmounts) (instruction : Instruction)
  (texts : ∀ text ∈ swapTexts context logicContext amountName, text ∉ divisionTexts)
include texts

omit hq healthy in
theorem divides_settleSwap (vaultIn vaultOut : InputAccount) (amounts : SwapAmounts)
    (protocolFeeBps : U128) (x c : AccountId) :
    Divides (settleSwap logicContext amountName input vaultIn vaultOut output amounts protocolFeeBps
      feeHolding x c) := by
  have hdata := texts (logicContext ++ ": AMM Program expects valid token data") (by simp [swapTexts])
  simp only [settleSwap]
  refine Avoids.bind _ _ _ (avoids_expect _ _ _ (Or.inl hdata)) fun _ _ => ?_
  refine Avoids.bind _ _ _ (avoids_expect _ _ _ (Or.inl (texts _ (by simp [swapTexts])))) fun _ _ => ?_
  refine Avoids.bind _ _ _ (divides_mulDivFloor _ _ _ (by decide)) fun _ _ => ?_
  refine Avoids.bind _ _ _ (avoids_expect _ _ _ (Or.inl hdata)) fun _ _ => ?_
  exact Avoids.bind _ _ _ (avoids_expect _ _ _ (Or.inl (texts _ (by simp [swapTexts]))))
    fun _ _ => avoids_pure _ _

omit texts hq healthy in
theorem divides_swappedPool (depositA withdrawA depositB withdrawB : U128) :
    Divides (swappedPool q depositA withdrawA depositB withdrawB) := by
  refine Avoids.bind _ _ _ (avoids_expect _ _ _ (Or.inl (by decide))) fun _ _ => ?_
  refine Avoids.bind _ _ _ (avoids_expect _ _ _ (Or.inl (by decide))) fun _ _ => ?_
  refine Avoids.bind _ _ _ (avoids_expect _ _ _ (Or.inl (by decide))) fun _ _ => ?_
  exact Avoids.bind _ _ _ (avoids_expect _ _ _ (Or.inl (by decide))) fun _ _ => avoids_pure _ _

theorem divides_swap (hdivides : ∀ a b c, Divides (price a b c))
    (hprice : ∀ reserveIn reserveOut feeBps amounts,
      price reserveIn reserveOut feeBps = .ok amounts →
        Priced reserveIn reserveOut feeBps instruction amounts)
    (hcfg : ∀ cfg, Holds self config.account (.ammConfig cfg) → cfg.Valid) :
    Divides (swap context logicContext amountName price config pool vaultA vaultB input output tick
      clock feeHolding self) := by
  simp only [swap]
  refine Avoids.bind _ _ _ ?_ fun stored hstored => ?_
  · simp only [validateSwapSetup]
    refine Avoids.bind _ _ _ (avoids_expect _ _ _ (Or.inl (by decide))) fun _ _ => ?_
    iterate 3 refine Avoids.guard _ _ _ _ (by decide) fun _ => ?_
    refine Avoids.bind _ _ _ (avoids_readVaultFungibleBalances _ _ _ _ (by decide)) fun _ _ => ?_
    iterate 2 refine Avoids.guard _ _ _ _ (by decide) fun _ => ?_
    exact avoids_pure _ _
  obtain ⟨hq', -, -, -, balanceA, balanceB, ⟨⟨tokenA, hba⟩, ⟨tokenB, hbb⟩⟩, -⟩ :=
    (validateSwapSetup_eq_ok _ _ _ _).mp hstored
  rw [hq, Data.poolDefinition.injEq] at hq'
  subst hq'
  refine Avoids.bind _ _ _ (avoids_decodeConfig _ _ _ _
    ⟨texts _ (by simp [swapTexts]), texts _ (by simp [swapTexts])⟩) fun cfg hconfig => ?_
  have hvalid := hcfg cfg ((decodeConfig_eq_ok _ _ _ _).mp hconfig)
  refine Avoids.bind _ _ _ (avoids_assertPoolInConfigNamespace _ _ _ _ _ _ (by decide)) fun _ _ => ?_
  iterate 2 refine Avoids.guard _ _ _ _ (by decide) fun _ => ?_
  refine Avoids.bind _ _ _ (avoids_expect _ _ _ (Or.inl (texts _ (by simp [swapTexts]))))
    fun holding _ => ?_
  refine Avoids.guard _ _ _ _ (texts _ (by simp [swapTexts])) fun hside => ?_
  iterate 2 refine Avoids.guard _ _ _ _ (by decide) fun _ => ?_
  refine Avoids.guard _ _ _ _ (texts _ (by simp [swapTexts])) fun _ => ?_
  refine Avoids.bind _ _ _ (avoids_assertOracleAccounts _ _ _ _ _ _
    ⟨texts _ (by simp [swapTexts]), texts _ (by simp [swapTexts])⟩) fun _ _ => ?_
  refine Avoids.bind _ _ _ (hdivides _ _ _) fun amounts hamounts => ?_
  refine Avoids.bind _ _ _ (divides_settleSwap _ _ _ _ _ _ texts _ _ _ _ _ _) fun settled hsettle => ?_
  refine Avoids.bind _ _ _ ?_ fun q' hq' => ?_
  · split <;> exact divides_swappedPool _ _ _ _ _
  refine Avoids.bind _ _ _ (divides_updateTickCall _ _ _ _ _ _ _ _ ?_) fun _ _ => avoids_pure _ _
  obtain ⟨calls, deposit, withdraw⟩ := settled
  have hmove : ConstantProduct.Move 1000 q.pool q'.pool := by
    by_cases hA : holding.definitionId = q.definitionTokenAId
    · simp only [hA, decide_true, if_true] at hamounts hsettle hq'
      obtain ⟨swapFee, protocolFee, hfee, hshare, hrest, rfl, -⟩ :=
        (settleSwap_eq_ok _ _ _ _ _ _ _ _ _ _ _ _ _ _ _ hba hbb _ _ _).mp hsettle
      exact swapped_move q q' .a cfg hvalid.2 instruction amounts swapFee protocolFee deposit
        (hprice _ _ _ _ hamounts) hfee hshare hrest hq'
    · simp only [hA, decide_false, Bool.false_eq_true, if_false] at hamounts hsettle hq'
      obtain ⟨swapFee, protocolFee, hfee, hshare, hrest, rfl, -⟩ :=
        (settleSwap_eq_ok _ _ _ _ _ _ _ _ _ _ _ _ _ _ _ hbb hba _ _ _).mp hsettle
      exact swapped_move q q' .b cfg hvalid.2 instruction amounts swapFee protocolFee deposit
        (hprice _ _ _ _ hamounts) hfee hshare hrest hq'
  exact Nat.pos_iff_ne_zero.mp (hmove.healthy 1000 (by decide) _ _ healthy).first

end

theorem divides_exactInputAmounts (swapAmountIn minAmountOut reserveIn reserveOut feeBps : U128) :
    Divides (exactInputAmounts swapAmountIn minAmountOut reserveIn reserveOut feeBps) := by
  refine Avoids.bind _ _ _ (divides_swapExactInAmounts _ _ _ _) fun _ _ => ?_
  iterate 3 refine Avoids.guard _ _ _ _ (by decide) fun _ => ?_
  exact avoids_pure _ _

theorem divides_exactOutputAmounts (exactAmountOut maxAmountIn reserveIn reserveOut feeBps : U128) :
    Divides (exactOutputAmounts exactAmountOut maxAmountIn reserveIn reserveOut feeBps) := by
  iterate 2 refine Avoids.guard _ _ _ _ (by decide) fun _ => ?_
  refine Avoids.bind _ _ _ (divides_swapExactOutAmounts _ _ _ _) fun _ _ => ?_
  refine Avoids.bind _ _ _ (avoids_expect _ _ _ (Or.inl (by decide))) fun _ _ => ?_
  exact Avoids.guard _ _ _ _ (by decide) fun _ => avoids_pure _ _

theorem divides_newDefinition (config pool vaultA vaultB lp lock ua ub ul tick clock : InputAccount)
    (a b : U128) (self : AccountId) (ha : a.val ≠ 0) :
    Divides (newDefinition config pool vaultA vaultB lp lock ua ub ul tick clock a b self) := by
  simp only [newDefinition]
  iterate 2 refine Avoids.bind _ _ _ (avoids_expect _ _ _ (Or.inl (by decide))) fun _ _ => ?_
  refine Avoids.bind _ _ _ (avoids_decodeConfig _ _ _ _ (by decide)) fun _ _ => ?_
  iterate 3 refine Avoids.guard _ _ _ _ (by decide) fun _ => ?_
  refine Avoids.bind _ _ _ (avoids_computePoolPda _ _ _ _ _ (by decide)) fun _ _ => ?_
  iterate 9 refine Avoids.guard _ _ _ _ (by decide) fun _ => ?_
  refine Avoids.bind _ _ _ ?_ fun _ _ => ?_
  · refine Avoids.bind _ _ _ (avoids_expect _ _ _ (Or.inl (by decide))) fun _ _ => ?_
    exact avoids_expect _ _ _ (Or.inl (by decide))
  refine Avoids.guard _ _ _ _ (by decide) fun _ => ?_
  refine Avoids.bind _ _ _ (avoids_expect _ _ _ (Or.inl (by decide))) fun _ _ => ?_
  refine Avoids.bind _ _ _ (divides_spotPriceQ6464 _ _ ha) fun _ _ => ?_
  exact Avoids.bind _ _ _ (avoids_computePoolPdaSeed _ _ _ _ (by decide)) fun _ _ =>
    avoids_pure _ _

/-- No instruction whose second account is a healthy pool divides by zero. -/
theorem divides_main (self : AccountId) (now : U64) (config pool : InputAccount)
    (rest : List InputAccount) (instruction : Instruction) (q : PoolDefinition)
    (hq : pool.account.data = .poolDefinition q) (healthy : ConstantProduct.Healthy 1000 q.pool)
    (hcfg : ∀ cfg, Holds self config.account (.ammConfig cfg) → cfg.Valid) :
    Divides (main self now (config :: pool :: rest) instruction) := by
  unfold main
  split <;> rename_i heq
  · cases heq
    iterate 5 refine Avoids.guard _ _ _ _ (by decide) fun _ => ?_
    exact avoids_pure _ _
  · cases heq
    refine Avoids.bind _ _ _ (avoids_decodeConfig _ _ _ _ (by decide)) fun _ _ => ?_
    iterate 2 refine Avoids.guard _ _ _ _ (by decide) fun _ => ?_
    exact avoids_pure _ _
  · cases heq
    refine Avoids.guard _ _ _ _ (by decide) fun ha => Avoids.guard _ _ _ _ (by decide) fun _ => ?_
    exact avoids_window _ _ _ _ (by decide) (divides_newDefinition _ _ _ _ _ _ _ _ _ _ _ _ _ _ ha)
  · cases heq
    refine Avoids.guard _ _ _ _ (by decide) fun _ => avoids_window _ _ _ _ (by decide) ?_
    exact divides_addLiquidity _ _ _ _ _ _ _ _ _ _ _ q hq healthy _ _ _
  · cases heq
    refine Avoids.guard _ _ _ _ (by decide) fun _ => avoids_window _ _ _ _ (by decide) ?_
    exact divides_removeLiquidity _ _ _ _ _ _ _ _ _ _ _ q hq healthy _ _ _
  · cases heq
    refine avoids_window _ _ _ _ (by decide) (divides_swap _ _ _ _ _ _ _ q hq healthy _ _ _ _ _ _ _
      (.swapExactInput _ _ (Unsigned.zero 64)) (by decide) (divides_exactInputAmounts _ _)
      (fun _ _ _ amounts hp => .exactInput _ _ _ amounts hp) hcfg)
  · cases heq
    refine avoids_window _ _ _ _ (by decide) (divides_swap _ _ _ _ _ _ _ q hq healthy _ _ _ _ _ _ _
      (.swapExactOutput _ _ (Unsigned.zero 64)) (by decide) (divides_exactOutputAmounts _ _)
      (fun _ _ _ amounts hp => .exactOutput _ _ _ amounts hp) hcfg)
  · cases heq
    exact divides_syncReserves _ _ _ _ _ _ _ q hq healthy
  · cases heq
    simp only [withdrawProtocolFees]
    refine Avoids.bind _ _ _ (avoids_decodeConfig _ _ _ _ (by decide)) fun _ _ => ?_
    iterate 3 refine Avoids.guard _ _ _ _ (by decide) fun _ => ?_
    refine Avoids.bind _ _ _ (avoids_expect _ _ _ (Or.inl (by decide))) fun _ _ => ?_
    iterate 2 refine Avoids.guard _ _ _ _ (by decide) fun _ => ?_
    refine Avoids.bind _ _ _ (avoids_expect _ _ _ (Or.inl (by decide))) fun _ _ => ?_
    exact Avoids.guard _ _ _ _ (by decide) fun _ => avoids_pure _ _
  · exact avoids_error _ _ (by decide)

/-- From any reachable state of a pool, no run lowers the product of the reserves against the
square of the shares. The reserves are positive and the locked minimum is there, so no instruction
on the pool divides by zero. -/
theorem share_value_never_falls (platform : Platform) (genesis : Genesis) (events : List Event)
    (x : AccountId) (q : PoolDefinition)
    (hq : PoolAt (run platform genesis.world events) x q) :
    (1 ≤ q.reserveA.val ∧ 1 ≤ q.reserveB.val ∧
      minimumLiquidity.val ≤ q.liquidityPoolSupply.val) ∧
    (∀ later, ∃ q', PoolAt (run platform genesis.world (events ++ later)) x q' ∧
      q.reserveA.val * q.reserveB.val * q'.liquidityPoolSupply.val ^ 2
        ≤ q'.reserveA.val * q'.reserveB.val * q.liquidityPoolSupply.val ^ 2) ∧
    ∀ now authority c rest instruction message,
      main ammProgramId now ((c :: x :: rest).map
        (view (run platform genesis.world events) authority)) instruction = .error message →
        message ∉ divisionTexts := by
  obtain ⟨hbare, hsound⟩ := run_sound platform genesis events
  have healthy := (hsound.pools x q hq).healthy
  refine ⟨⟨healthy.first, healthy.second, healthy.shares⟩, fun later => ?_, ?_⟩
  · rw [run_append]
    obtain ⟨q', hq', -, hmoves⟩ := pool_run platform _ hbare hsound x q hq later
    exact ⟨q', hq', (ConstantProduct.moves_rise 1000 (by decide) _ _ hmoves healthy).2⟩
  · intro now authority c rest instruction message herror hm
    refine divides_main ammProgramId now (view _ authority c) (view _ authority x) _ instruction q
      hq.data healthy ?_ message hm herror
    exact fun cfg hcfg => hsound.configs c cfg (configAt_of_holds _ _ _ hcfg)

/-- The fee of the first swap raises the value of a share. -/
theorem first_share_value :
    ∃ q', PoolAt (run tablePlatform (clockedGenesis 0).world
        (firstPoolEvents ++ [.transaction [.key 21] firstSwap])) firstPoolId q' ∧
      (q'.reserveA, q'.reserveB) = (40995, 9759) ∧
      40000 * 10000 * q'.liquidityPoolSupply.val ^ 2
        ≤ q'.reserveA.val * q'.reserveB.val * 20000 ^ 2 := by
  obtain ⟨q', hq', hrises⟩ := (share_value_never_falls tablePlatform (clockedGenesis 0)
    firstPoolEvents firstPoolId firstPool (by unfold PoolAt; decide +kernel)).2.1
    [.transaction [.key 21] firstSwap]
  have hstored : PoolAt (run tablePlatform (clockedGenesis 0).world
      (firstPoolEvents ++ [.transaction [.key 21] firstSwap])) firstPoolId
      { firstPool with reserveA := 40995, reserveB := 9759 } := by
    unfold PoolAt
    decide +kernel
  obtain rfl := Data.poolDefinition.inj (Option.some.inj (hq'.symm.trans hstored))
  exact ⟨_, hq', rfl, hrises⟩

end LezPrograms.Amm
