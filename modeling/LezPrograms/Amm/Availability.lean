import LezPrograms.Amm.Custody
import LezPrograms.Amm.Exchange
import LezPrograms.Amm.Maxima
import LezPrograms.Amm.Terms

/-! # Who can block a pool

Nobody takes the accounts of a pool from the AMM, so covered instructions on a pool of
fungible tokens succeed. The holding for protocol fees is created late: whoever credits it
with another token first blocks the swaps that owe a fee in its token. -/

set_option autoImplicit false

namespace LezPrograms.Amm
open LezPrograms.Checked LezPrograms.Checked.Unsigned LezPrograms.Lee LezPrograms.Token

def HoldsToken (w : Accounts) (id token : AccountId) : Prop :=
  ∃ balance, HoldingAt w id (.fungible token balance)

/-- A holding keeps its token, whatever happens. -/
theorem holdsToken_event (platform : Platform) (w : Accounts) (event : Event) (id token : AccountId)
    (h : HoldsToken w id token) : HoldsToken (event.apply platform w) id token := by
  refine Event.preserves (fun w => HoldsToken w id token) ?_ ?_ ?_ platform w event h
  · rintro authority ids instruction v v' ht ⟨balance, hh⟩
    obtain ⟨held, hh', htoken, hkind, -⟩ := ht.holding_flows _ _ _ _ _ id _ hh
    obtain ⟨balance', hheld⟩ := TokenHolding.eq_fungible_of_kind held hkind
    rw [htoken] at hheld
    exact ⟨balance', hheld ▸ hh'⟩
  · rintro program v v' hother hd hf ⟨balance, hh⟩
    exact ⟨balance, by rwa [HoldingAt, owned_frame tokenProgramId _ _ _ hf hother (by decide)]⟩
  · rintro v change ⟨balance, hh⟩
    exact ⟨balance, by rwa [HoldingAt, owned_environment tokenProgramId v change (by decide)]⟩

theorem holdsToken_run (platform : Platform) (w : Accounts) (id token : AccountId)
    (h : HoldsToken w id token) (events : List Event) :
    HoldsToken (run platform w events) id token :=
  run_preserves platform (fun w => HoldsToken w id token)
    (fun w event hw => holdsToken_event platform w event id token hw) w h events

/-- The accounts that the AMM derives for the pool are what they were derived for. -/
structure InPlace (w : Accounts) (x : AccountId) (q : PoolDefinition) : Prop where
  vaults : ∀ side, HoldsToken w (computeVaultPda ammProgramId x (q.token side)) (q.token side)
  liquidity : ∃ name supply metadata, DefinitionAt w (computeLiquidityTokenPda ammProgramId x)
    (.fungible name supply metadata (some (computeLiquidityTokenPda ammProgramId x)))
  lock : HoldsToken w (computeLpLockHoldingPda ammProgramId x)
    (computeLiquidityTokenPda ammProgramId x)

theorem Serviceable.inPlace (w : Accounts) (c x : AccountId) (cfg : AmmConfig) (q : PoolDefinition)
    (balance : Side → U128) (h : Serviceable w c x cfg q balance) : InPlace w x q where
  vaults side := ⟨balance side, by rw [← h.sound.vaultIds side]; exact h.vaults side⟩
  liquidity := by
    obtain ⟨name, supply, metadata, hd, -⟩ := h.liquidity
    rw [h.sound.liquidityId] at hd
    exact ⟨name, supply, metadata, hd⟩
  lock := by
    obtain ⟨held, hh, htoken, hkind, -⟩ := h.sound.lock
    obtain ⟨amount, hheld⟩ := TokenHolding.eq_fungible_of_kind held hkind
    rw [htoken, h.sound.liquidityId] at hheld
    exact ⟨amount, hheld ▸ hh⟩

/-- The protocol fee of `token` can be credited: its holding is fresh or holds that token. -/
def Creditable (w : Accounts) (c token : AccountId) : Prop :=
  ∃ paid, CreditBase w token (computeProtocolFeePda ammProgramId c token) paid

/-- Who receives the last transfer of a swap was fresh before it, or a holding of the token. -/
theorem fee_credited (w v w' : Accounts) (authority : List AccountId) (c x i o vaultIn vaultOut
    fee token tokenOut : AccountId) (amounts : SwapAmounts) (protocolFee balance : U128)
    (rest : List ChainedCall) (hbare : Bare v) (howed : protocolFee.val ≠ 0)
    (hv : v fee = w fee) (hdistinct : fee ∉ [i, o, vaultIn, vaultOut])
    (hvault : HoldingAt v vaultIn (.fungible token balance))
    (h : Settled ammProgramId authority v (swapCalls tokenProgramId c x i o vaultIn vaultOut fee token
      tokenOut amounts protocolFee ++ rest) w') :
    ∃ paid, CreditBase w token fee paid := by
  simp only [List.mem_cons, List.not_mem_nil, or_false, not_or] at hdistinct
  obtain ⟨hi, ho, hin, hout⟩ := hdistinct
  rw [swapCalls, if_pos howed, List.append_assoc] at h
  cases h with
  | cons _ v₁ _ _ _ deposit h =>
    cases h with
    | cons _ v₂ _ _ _ withdrawal h =>
      cases h with
      | cons _ v₃ _ _ _ share h =>
        obtain ⟨-, t₁⟩ := deposit.transition _ _ _ _ _ rfl
        obtain ⟨-, t₂⟩ := withdrawal.transition _ _ _ _ _ rfl
        obtain ⟨-, t₃⟩ := share.transition _ _ _ _ _ rfl
        have hbare₁ := hbare.frame _ _ _ t₁.frame (by decide)
        have hbare₂ := hbare₁.frame _ _ _ t₂.frame (by decide)
        obtain ⟨-, -, hsame₁⟩ := t₁.moved _ _ _ _ _ _ hbare
        obtain ⟨-, -, hsame₂⟩ := t₂.moved _ _ _ _ _ _ hbare₁
        have hfee : v₂ fee = w fee :=
          (hsame₂ fee hout ho).trans ((hsame₁ fee hi hin).trans hv)
        obtain ⟨held₁, hh₁, htoken₁, hkind₁, -⟩ := t₁.holding_flows _ _ _ _ _ vaultIn _ hvault
        obtain ⟨held₂, hh₂, htoken₂, hkind₂, -⟩ := t₂.holding_flows _ _ _ _ _ vaultIn _ hh₁
        obtain ⟨balance₂, hheld⟩ := TokenHolding.eq_fungible_of_kind held₂ (hkind₂.trans hkind₁)
        rw [htoken₂, htoken₁] at hheld
        rw [hheld] at hh₂
        obtain ⟨paid, hpaid⟩ := t₃.credit_base _ _ _ _ _ _ hbare₂ howed token balance₂ hh₂
        exact ⟨paid, hpaid.congr _ _ _ _ _ hfee.symm⟩

theorem Priced.isSwap (reserveIn reserveOut feeBps : U128) (instruction : Instruction)
    (amounts : SwapAmounts) (h : Priced reserveIn reserveOut feeBps instruction amounts) :
    instruction.isSwap := by
  cases h <;> rfl

theorem Priced.unique (reserveIn reserveOut feeBps : U128) (instruction : Instruction)
    (amounts amounts' : SwapAmounts) (h : Priced reserveIn reserveOut feeBps instruction amounts)
    (h' : Priced reserveIn reserveOut feeBps instruction amounts') : amounts' = amounts := by
  cases h with
  | exactInput _ _ _ _ priced =>
    cases h' with
    | exactInput _ _ _ _ priced' =>
      rw [priced, Except.ok.injEq] at priced'
      exact priced'.symm
  | exactOutput _ _ _ _ priced =>
    cases h' with
    | exactOutput _ _ _ _ priced' =>
      rw [priced, Except.ok.injEq] at priced'
      exact priced'.symm

theorem PoolOf.token_inj (c x : AccountId) (q : PoolDefinition) (h : PoolOf c x q)
    (side side' : Side) (he : q.token side = q.token side') : side = side' := by
  have hab := h.distinct
  cases side <;> cases side' <;> first | rfl | exact absurd he hab | exact absurd he.symm hab

section
variable (platform : Platform) (w w' : Accounts) (hl : Live platform w) (c x : AccountId)
  (cfg : AmmConfig) (q : PoolDefinition) (balance : Side → U128)
  (hs : Serviceable w c x cfg q balance) (authority : List AccountId) (seeds : List PdaSeed)
  (side : Side) (i o : AccountId) (instruction : Instruction)
  (h : transact platform w authority ⟨ammProgramId, swapAccounts c x q side i o,
    .amm instruction, seeds⟩ = .ok w')
include hl hs h

/-- What a swap that succeeds was priced at, its calls and the world in which they run. -/
theorem swap_performed (hswap : instruction.isSwap) :
    ∃ amounts v protocolFee price seed,
      Priced (q.reserve side) (q.reserve side.other) cfg.swapFeeBps instruction amounts ∧ Bare v ∧
      (∀ id, id ≠ x → v id = w id) ∧
      owned tokenProgramId v = owned tokenProgramId w ∧ (swapAccounts c x q side i o).Nodup ∧
      protocolFee.val = owedFee cfg amounts ∧
      Settled ammProgramId authority v (swapCalls tokenProgramId c x i o (q.vault side)
        (q.vault side.other) (computeProtocolFeePda ammProgramId c (q.token side)) (q.token side)
        (q.token side.other) amounts protocolFee
          ++ [tickCall twapOracleProgramId x price seed]) w' := by
  obtain ⟨v, calls, ht⟩ := transacted_of_ok platform w w' authority _ instruction rfl h
  have hbare := hl.bare.frame _ _ _ ht.frame (by decide)
  have htokens := owned_frame tokenProgramId _ _ _ ht.frame (by decide) (by decide)
  have hstep := ht.step
  have hn := ht.distinct
  have hsettled := ht.settled
  generalize hids : (⟨ammProgramId, swapAccounts c x q side i o, .amm instruction,
    seeds⟩ : ChainedCall).accountIds = ids at hstep hn
  cases hstep with
  | swap _ side' c' x' i' o' cfg' q₀ q' token balance' holding amounts swapFee protocolFee net price
      seed reads vaults input inputToken priced fee share rest updated written _ seeded =>
    simp only [swapAccounts, List.cons.injEq, and_true] at hids
    obtain ⟨rfl, rfl, -, -, rfl, rfl, -, -, hfeeId⟩ := hids
    have hq := reads.stored
    rw [hs.stored.data, Data.poolDefinition.injEq] at hq
    subst hq
    have hcfg := reads.config.2
    rw [hs.config.data, Data.ammConfig.injEq] at hcfg
    subst hcfg
    simp only [computeProtocolFeePda, AccountId.forPublicPda, AccountId.pda.injEq,
      true_and] at hfeeId
    obtain rfl := hs.poolOf.token_inj _ _ _ _ _ (computeProtocolFeePdaSeed_inj _ _ _ _ hfeeId).2
    have htoken : ∀ on, token on = q.token on := by
      intro on
      have hdata := vaults.holds on
      rw [(hs.vaults on).data, Data.tokenHolding.injEq, TokenHolding.fungible.injEq] at hdata
      exact hdata.1.symm
    rw [htoken, htoken, hs.tokenProgram, hs.oracle] at hsettled
    rw [hs.oracle] at hn
    have hpaid : protocolFee.val = owedFee cfg amounts := by
      rw [protocolFeeAmount, mulDivFloor_eq_ok, feeBpsDenominator_val] at share
      rw [owedFee, ← fee, Nat.add_sub_cancel, share.2]
    exact ⟨amounts, _, protocolFee, price, seed, priced, hbare,
      fun id hid => put_other _ _ _ _ _ hid, htokens, hn, hpaid, hsettled⟩
  | initializeConfig | updateConfig | withdrawProtocolFees | newDefinition | addLiquidity
    | removeLiquidity | syncReserves => cases hswap

variable (amounts : SwapAmounts)
  (hpriced : Priced (q.reserve side) (q.reserve side.other) cfg.swapFeeBps instruction amounts)
include hpriced

/-- A swap that succeeds and owes a fee finds a fee holding that can be credited. -/
theorem swap_credits (howed : owedFee cfg amounts ≠ 0) : Creditable w c (q.token side) := by
  obtain ⟨_, v, protocolFee, price, seed, hperformed, hbare, hsame, htokens, hn, hpaid, hsettled⟩ :=
    swap_performed platform w w' hl c x cfg q balance hs authority seeds side i o instruction h
      (hpriced.isSwap _ _ _ _ _)
  obtain rfl := hperformed.unique _ _ _ _ _ _ hpriced
  simp only [swapAccounts, List.nodup_cons, List.mem_cons, not_or, List.not_mem_nil,
    not_false_eq_true, and_true] at hn
  obtain ⟨-, ⟨hxva, hxvb, -, -, -, -, hxf⟩, ⟨hvavb, -, -, -, -, hvaf⟩, ⟨-, -, -, -, hvbf⟩,
    ⟨-, -, -, hif⟩, ⟨-, -, hof⟩, -⟩ := hn
  have hvault : ∀ s, computeProtocolFeePda ammProgramId c (q.token side) ≠ q.vault s := by
    rintro (_ | _)
    · exact Ne.symm hvaf
    · exact Ne.symm hvbf
  have hdistinct : computeProtocolFeePda ammProgramId c (q.token side) ∉
      [i, o, q.vault side, q.vault side.other] := by
    simp only [List.mem_cons, List.not_mem_nil, or_false, not_or]
    exact ⟨Ne.symm hif, Ne.symm hof, hvault side, hvault side.other⟩
  exact fee_credited w v w' authority c x i o _ _ _ _ _ amounts protocolFee (balance side) _ hbare
    (hpaid ▸ howed) (hsame _ (Ne.symm hxf)) hdistinct
    (by rw [HoldingAt, htokens]; exact hs.vaults side) hsettled

/-- A swap that succeeds moves what was priced. -/
theorem swap_moves :
    Spends w w' i amounts.amountIn.val ∧ Receives w w' o amounts.amountOut.val := by
  obtain ⟨_, v, protocolFee, price, seed, hperformed, hbare, -, htokens, hn, -, hsettled⟩ :=
    swap_performed platform w w' hl c x cfg q balance hs authority seeds side i o instruction h
      (hpriced.isSwap _ _ _ _ _)
  obtain rfl := hperformed.unique _ _ _ _ _ _ hpriced
  simp only [swapAccounts, List.nodup_cons, List.mem_cons, not_or, List.not_mem_nil,
    not_false_eq_true, and_true] at hn
  obtain ⟨-, -, ⟨hab, hai, hao, -, -, haf⟩, ⟨hbi, hbo, -, -, hbf⟩, ⟨hio, -, -, hif⟩,
    ⟨-, -, hof⟩, -⟩ := hn
  have hswap : [q.vault side, q.vault side.other, i, o,
      computeProtocolFeePda ammProgramId c (q.token side)].Nodup := by
    cases side <;> simp_all [PoolDefinition.vault, Side.other, eq_comm]
  obtain ⟨hpaid, hreceived, -⟩ := swap_flows v w' authority _ _ _ _ _ _ _ _ _ _ _ _ _ _ _ hbare
    hsettled hswap
  have hunits : ∀ id, unitsAt v id = unitsAt w id := fun id => by rw [unitsAt, unitsAt, htokens]
  simp only [Spends, Receives, hunits] at hpaid hreceived ⊢
  exact ⟨hpaid, hreceived⟩

end

structure Available (platform : Platform) (w : Accounts) (c x : AccountId) (cfg : AmmConfig)
    (q : PoolDefinition) (now : U64) (authority : List AccountId) : Prop where
  additions : ∀ (ua ub ul : AccountId) (a b l : U128), Holder w q ua ub ul a b l →
    ua ∈ authority → ub ∈ authority → ∀ minLp maxA maxB amountA amountB deltaLp : U128,
      minLp.val ≠ 0 → maxA.val ≠ 0 → maxB.val ≠ 0 →
      liquidityToAdd q minLp maxA maxB = .ok (amountA, amountB, deltaLp) →
      amountA.val ≤ a.val → amountB.val ≤ b.val →
      ∀ deadline : U64, now.val < deadline.val → ∀ seeds, ∃ w', transact platform w authority
        ⟨ammProgramId, liquidityAccounts c x q ua ub ul,
          .amm (.addLiquidity minLp maxA maxB deadline), seeds⟩ = .ok w'
  removals : ∀ (ua ub ul : AccountId) (a b l : U128), Holder w q ua ub ul a b l →
    HoldingAt w ul (.fungible q.liquidityPoolId l) → ul ∈ authority →
      ∀ amount minA minB amountA amountB : U128, amount.val ≠ 0 → minA.val ≠ 0 → minB.val ≠ 0 →
      liquidityToRemove q l amount minA minB = .ok (amountA, amountB) →
      ∀ deadline : U64, now.val < deadline.val → ∀ seeds, ∃ w', transact platform w authority
        ⟨ammProgramId, liquidityAccounts c x q ua ub ul,
          .amm (.removeLiquidity amount minA minB deadline), seeds⟩ = .ok w'
  swaps : ∀ (side : Side) (i o : AccountId) (n m : U128),
    (∀ id ∈ [i, o], ¬id.DerivedBy ammProgramId) → HoldingAt w i (.fungible (q.token side) n) →
    HoldingAt w o (.fungible (q.token side.other) m) → i ∈ authority →
      ∀ (instruction : Instruction) (amounts : SwapAmounts),
      Priced (q.reserve side) (q.reserve side.other) cfg.swapFeeBps instruction amounts →
      (∀ deadline, instruction.deadline = some deadline → now.val < deadline.val) →
      amounts.amountIn.val ≤ n.val → ∀ seeds, (∃ w', transact platform w authority
        ⟨ammProgramId, swapAccounts c x q side i o, .amm instruction, seeds⟩ = .ok w') ↔
          owedFee cfg amounts = 0 ∨ Creditable w c (q.token side)

/-- Nobody blocks additions to a pool of fungible tokens or removals from it. Swaps that owe a fee need
a fee holding of their token, which nobody takes away once it is there. -/
theorem only_fee_holdings_block (platform : Platform) (hcovers : platform.tickMath.Covers)
    (hdepth : 2 ≤ platform.callDepth) (genesis : Genesis) (w : Accounts)
    (hreached : Reached platform genesis w) (x : AccountId) (q : PoolDefinition) (hq : PoolAt w x q)
    (hf : Fungible w q) (c : AccountId) (hof : PoolOf c x q) (cfg : AmmConfig)
    (hcfg : ConfigAt w c cfg) (now : U64) (hclock : ClockAt w now) (authority : List AccountId)
    (hout : ∀ id ∈ authority, ∀ program ∈ deployedPrograms, ¬id.DerivedBy program) :
    InPlace w x q ∧ Available platform w c x cfg q now authority ∧
      ∀ token, HoldsToken w (computeProtocolFeePda ammProgramId c token) token → ∀ events,
        HoldsToken (run platform w events) (computeProtocolFeePda ammProgramId c token) token := by
  have hl := hreached.live platform genesis w
  obtain ⟨c', cfg', balance, hs⟩ := hl.serviceable platform w x q hq hf
  obtain rfl := hof.config_unique _ _ _ _ _ hs.poolOf
  have hsame := hs.config.data
  rw [hcfg.data, Data.ammConfig.injEq] at hsame
  subst hsame
  refine ⟨hs.inPlace, ⟨?_, ?_, ?_⟩, fun token h events => holdsToken_run platform w _ token h events⟩
  · intro ua ub ul a b l hu hua hub minLp maxA maxB amountA amountB deltaLp hminLp hmaxA hmaxB
      hamounts hA hB deadline hdeadline seeds
    exact addition_succeeds platform w hl c x cfg q balance hs ua ub ul a b l hu _ _ hcovers hdepth
      now hclock deadline hdeadline authority seeds hout hua hub minLp _ _ _ hminLp hmaxA hmaxB
      hamounts hA hB
  · intro ua ub ul a b l hu hheld hul amount minA minB amountA amountB hamount hminA hminB hamounts
      deadline hdeadline seeds
    exact removal_succeeds platform w hl c x cfg q balance hs ua ub ul a b l hu _ _ hcovers hdepth
      now hclock deadline hdeadline authority seeds hout hul hheld amount minA minB hamount hminA
      hminB hamounts
  · intro side i o n m hown hi ho hauth instruction amounts hpriced htimely hin seeds
    constructor
    · rintro ⟨w', h⟩
      refine or_iff_not_imp_left.mpr fun howed => ?_
      exact swap_credits platform w w' hl c x cfg q balance hs authority seeds side i o instruction
        h amounts hpriced howed
    · intro hfee
      exact swap_succeeds platform hcovers hdepth w hl c x cfg q balance hs now hclock authority seeds
        hout side i o n m hown hi ho hauth instruction amounts hpriced htimely hin hfee

def firstConfig : AmmConfig := ⟨tokenProgramId, twapOracleProgramId, .key 61, 100, 5000⟩

def firstSwapAmounts : SwapAmounts := ⟨1000, 990, 241⟩

theorem first_pool_fungible : Fungible firstPoolWorld firstPool := by
  rintro (_ | _)
  · exact ⟨.fungible "AAA" 1000000 none none, by unfold DefinitionAt; decide +kernel, trivial⟩
  · exact ⟨.fungible "BBB" 1000000 none none, by unfold DefinitionAt; decide +kernel, trivial⟩

theorem first_swap_available :
    InPlace firstPoolWorld firstPoolId firstPool ∧
      ∃ w', transact tablePlatform firstPoolWorld [.key 21] firstSwap = .ok w' := by
  obtain ⟨hplace, havailable, -⟩ := only_fee_holdings_block tablePlatform TwapOracle.tableTickMath_covers
    le_rfl (clockedGenesis 0) firstPoolWorld first_pool_reached firstPoolId firstPool
    (by unfold PoolAt; decide +kernel) first_pool_fungible firstConfigId rfl firstConfig
    (by unfold ConfigAt; decide +kernel) 0 (by unfold ClockAt; decide +kernel) [.key 21] (by decide)
  refine ⟨hplace, (havailable.swaps .a (.key 21) (.key 23) 960000 990000 (by decide)
    (by unfold HoldingAt; decide +kernel) (by unfold HoldingAt; decide +kernel) (by decide)
    (.swapExactInput 1000 1 1) firstSwapAmounts (.exactInput _ _ _ _ (by decide)) ?_ (by decide)
    []).mpr (Or.inr ⟨0, Or.inl ⟨by decide +kernel, rfl⟩⟩)⟩
  rintro deadline ⟨⟩
  decide

/-- An outsider creates a token and sends none of it to the fee holding of the first token. -/
def feeSquatting : List Event :=
  [.transaction [.key 50, .key 51] ⟨tokenProgramId, [.key 50, .key 51],
      .token (.newFungibleDefinition "CCC" 1 none), []⟩,
    .transaction [.key 51] ⟨tokenProgramId,
      [.key 51, computeProtocolFeePda ammProgramId firstConfigId (.key 20)],
      .token (.transfer 0), []⟩]

def squattedWorld : Accounts := run tablePlatform firstPoolWorld feeSquatting

theorem squatted_fee_holding_blocks :
    (∃ w', transact tablePlatform firstPoolWorld [.key 21] firstSwap = .ok w') ∧
    Reached tablePlatform (clockedGenesis 0) squattedWorld ∧
    PoolAt squattedWorld firstPoolId firstPool ∧
    HoldingAt squattedWorld (.key 21) (.fungible (.key 20) 960000) ∧
    HoldingAt squattedWorld (.key 23) (.fungible (.key 22) 990000) ∧
    ClockAt squattedWorld 0 ∧
    exactInputAmounts 1000 1 firstPool.reserveA firstPool.reserveB 100 = .ok firstSwapAmounts ∧
    HoldingAt squattedWorld (computeProtocolFeePda ammProgramId firstConfigId (.key 20))
      (.fungible (.key 50) 0) ∧
    ¬∃ w', transact tablePlatform squattedWorld [.key 21] firstSwap = .ok w' := by
  have hreached : Reached tablePlatform (clockedGenesis 0) squattedWorld :=
    .transaction _ (.transaction _ first_pool_reached _ _) _ _
  have hq : PoolAt squattedWorld firstPoolId firstPool := by
    unfold PoolAt
    decide +kernel
  have hf : Fungible squattedWorld firstPool := by
    rintro (_ | _)
    · exact ⟨.fungible "AAA" 1000000 none none, by unfold DefinitionAt; decide +kernel, trivial⟩
    · exact ⟨.fungible "BBB" 1000000 none none, by unfold DefinitionAt; decide +kernel, trivial⟩
  have hcfg : ConfigAt squattedWorld firstConfigId firstConfig := by
    unfold ConfigAt
    decide +kernel
  have hsquatted : HoldingAt squattedWorld
      (computeProtocolFeePda ammProgramId firstConfigId (.key 20)) (.fungible (.key 50) 0) := by
    unfold HoldingAt
    decide +kernel
  refine ⟨⟨_, transact_apply _ _ _ _ (by decide +kernel)⟩, hreached, hq,
    by unfold HoldingAt; decide +kernel, by unfold HoldingAt; decide +kernel,
    by unfold ClockAt; decide +kernel, by decide, hsquatted, ?_⟩
  rintro ⟨w', h⟩
  have hl := hreached.live _ _ _
  obtain ⟨c, cfg, balance, hs⟩ := hl.serviceable _ _ firstPoolId firstPool hq hf
  obtain rfl : firstConfigId = c :=
    PoolOf.config_unique firstConfigId c firstPoolId firstPool firstPool rfl hs.poolOf
  have hsame := hs.config.data
  rw [hcfg.data, Data.ammConfig.injEq] at hsame
  subst hsame
  obtain ⟨paid, hpaid⟩ := swap_credits tablePlatform squattedWorld w' hl firstConfigId firstPoolId
    firstConfig firstPool balance hs [.key 21] [] .a (.key 21) (.key 23) (.swapExactInput 1000 1 1) h
    firstSwapAmounts (.exactInput _ _ _ _ (by decide)) (by decide)
  rcases hpaid with ⟨hfresh, -⟩ | hheld
  · have hdata := hsquatted.data
    change (squattedWorld (computeProtocolFeePda ammProgramId firstConfigId (.key 20))) = _ at hfresh
    rw [hfresh] at hdata
    cases hdata
  · change HoldingAt _ (computeProtocolFeePda ammProgramId firstConfigId (.key 20))
      (.fungible (.key 20) paid) at hheld
    rw [HoldingAt, hsquatted] at hheld
    cases hheld

end LezPrograms.Amm
