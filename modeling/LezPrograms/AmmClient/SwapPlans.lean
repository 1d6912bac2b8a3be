import LezPrograms.Amm.Availability
import LezPrograms.AmmClient.Agreement
import LezPrograms.AmmClient.LiquidityAgreement

/-! # Swaps as they are quoted

The plan for a quoted swap takes the bound of the quote. In time it is carried out
unless it owes a fee that its holding cannot take, and then it moves exactly the
amounts that the quote showed. -/

set_option autoImplicit false

namespace LezPrograms.AmmClient
open LezPrograms.Checked LezPrograms.Checked.Unsigned LezPrograms.Lee LezPrograms.Token
open LezPrograms.Amm

def isCanonicalPair (tokenA tokenB : AccountId) : Bool := decide (tokenB.code < tokenA.code)

/-- The order in which the addresses of a pair are derived. -/
def canonicalPair (tokenIn tokenOut : AccountId) : AccountId × AccountId :=
  if isCanonicalPair tokenIn tokenOut then (tokenIn, tokenOut) else (tokenOut, tokenIn)

def swapPlan (ammProgram tokenIn tokenOut : AccountId) (config : AccountRead) (poolData : Data)
    (userInputHolding userOutputHolding : AccountId) (instruction : Outcome Amm.Instruction) :
    Outcome Plan := do
  ensure (tokenIn ≠ tokenOut) "same_token_pair"
  let (tokenA, tokenB) := canonicalPair tokenIn tokenOut
  let pair ← (derivePair ammProgram tokenA tokenB config).mapError fun _ => "config_unavailable"
  let pool : PoolDefinition ← expect (tryFrom poolData) "no_pool"
  let instruction ← instruction
  pure ⟨ammProgram, [pair.config, pair.pool, pool.vaultAId, pool.vaultBId, userInputHolding,
      userOutputHolding, pair.currentTick, pair.clock,
      computeProtocolFeePda ammProgram pair.config tokenIn],
    [false, false, false, false, true, false, false, false, false], instruction⟩

structure SwapExactInPlanRequest where
  ammProgramId : AccountId
  tokenInId : AccountId
  tokenOutId : AccountId
  config : AccountRead
  userInputHoldingId : AccountId
  userOutputHoldingId : AccountId
  amountIn : String
  minOut : String
  deadlineMs : String
  poolData : Data

def swapExactInPlan (request : SwapExactInPlanRequest) : Outcome Plan :=
  swapPlan request.ammProgramId request.tokenInId request.tokenOutId request.config request.poolData
    request.userInputHoldingId request.userOutputHoldingId do
      let swapAmountIn ← parseU128 request.amountIn "amountIn"
      let minAmountOut ← parseU128 request.minOut "minOut"
      let deadline ← parseU64 request.deadlineMs "deadlineMs"
      pure (.swapExactInput swapAmountIn minAmountOut deadline)

structure SwapExactOutPlanRequest where
  ammProgramId : AccountId
  tokenInId : AccountId
  tokenOutId : AccountId
  config : AccountRead
  userInputHoldingId : AccountId
  userOutputHoldingId : AccountId
  amountOut : String
  maxIn : String
  deadlineMs : String
  poolData : Data

def swapExactOutPlan (request : SwapExactOutPlanRequest) : Outcome Plan :=
  swapPlan request.ammProgramId request.tokenInId request.tokenOutId request.config request.poolData
    request.userInputHoldingId request.userOutputHoldingId do
      let exactAmountOut ← parseU128 request.amountOut "amountOut"
      let maxAmountIn ← parseU128 request.maxIn "maxIn"
      let deadline ← parseU64 request.deadlineMs "deadlineMs"
      pure (.swapExactOutput exactAmountOut maxAmountIn deadline)

def SwapExactInQuoteRequest.plan (request : SwapExactInQuoteRequest) (minOut deadlineMs : String)
    (i o : AccountId) : Outcome Plan :=
  swapExactInPlan ⟨ammProgramId, request.tokenInId, request.tokenOutId, request.config, i, o,
    request.amountIn, minOut, deadlineMs, request.poolData⟩

def SwapExactOutQuoteRequest.plan (request : SwapExactOutQuoteRequest) (maxIn deadlineMs : String)
    (i o : AccountId) : Outcome Plan :=
  swapExactOutPlan ⟨ammProgramId, request.tokenInId, request.tokenOutId, request.config, i, o,
    request.amountOut, maxIn, deadlineMs, request.poolData⟩

section
variable (w : Accounts) (c x : AccountId) (cfg : AmmConfig) (q : PoolDefinition)
  (balance : Side → U128) (hs : Serviceable w c x cfg q balance)
include hs

theorem decodes_config : Decodes (readOf w c) cfg := ⟨rfl, w c, rfl, hs.config.data⟩

variable (side : Side)

theorem swap_tokens_ne : q.token side ≠ q.token side.other := by
  intro he
  have hsame := hs.poolOf.token_inj _ _ _ _ _ he
  cases side <;> cases hsame

/-- The canonical pair is the pair of the pool, on one side or the other. -/
theorem canonicalPair_side : ∃ on,
    sideOf q (canonicalPair (q.token side) (q.token side.other)).1
      (canonicalPair (q.token side) (q.token side.other)).2 = .ok on ∧
    (canonicalPair (q.token side) (q.token side.other)).1
      ≠ (canonicalPair (q.token side) (q.token side.other)).2 := by
  have hne := swap_tokens_ne w c x cfg q balance hs side
  unfold canonicalPair
  split
  · exact ⟨side, (sideOf_eq_ok q _ _ hne side).mpr ⟨rfl, rfl⟩, hne⟩
  · refine ⟨side.other, (sideOf_eq_ok q _ _ hne.symm side.other).mpr ⟨rfl, ?_⟩, hne.symm⟩
    cases side <;> rfl

theorem swapPlan_succeeds (i o : AccountId) (instruction : Amm.Instruction)
    (parsed : Outcome Amm.Instruction) (hparsed : parsed = .ok instruction) :
    ∃ plan, swapPlan ammProgramId (q.token side) (q.token side.other) (readOf w c)
        (.poolDefinition q) i o parsed = .ok plan ∧ plan.signers = [i] ∧
      plan.call = ⟨ammProgramId, swapAccounts c x q side i o, .amm instruction, []⟩ := by
  have hne := swap_tokens_ne w c x cfg q balance hs side
  obtain ⟨on, hon, hdistinct⟩ := canonicalPair_side w c x cfg q balance hs side
  obtain ⟨pair, hpair, hc, hx, htick, hclock⟩ := derivePair_succeeds w c x cfg q balance hs on _ _
    hdistinct hon
  have hread : expect (tryFrom (Data.poolDefinition q)) "no_pool" = .ok q := rfl
  refine ⟨⟨ammProgramId, swapAccounts c x q side i o,
    [false, false, false, false, true, false, false, false, false], instruction⟩, ?_, rfl, rfl⟩
  simp only [swapPlan, ensure_pos _ _ hne, hparsed, hpair, hread, ok_bind, hc, hx, htick, hclock]
  rfl

end

/-- The plan is carried out exactly if its fee can be taken, and then it moves the amounts. -/
structure SwapCarriedOut (platform : Platform) (w : Accounts) (c : AccountId) (cfg : AmmConfig)
    (plan : Plan) (tokenIn i o : AccountId) (amountIn effectiveIn amountOut : ℕ) : Prop where
  executes : (∃ w', transact platform w [i] plan.call = .ok w') ↔
    (amountIn - effectiveIn) * cfg.protocolFeeBps.val / 10000 = 0 ∨ Creditable w c tokenIn
  moves : ∀ w', transact platform w [i] plan.call = .ok w' →
    Amm.Spends w w' i amountIn ∧ Amm.Receives w w' o amountOut

structure Trader (w : Accounts) (q : PoolDefinition) (side : Side) (i o : AccountId)
    (amountIn : ℕ) : Prop where
  signs : ∀ program ∈ deployedPrograms, ¬i.DerivedBy program
  receives : ¬o.DerivedBy ammProgramId
  pays : ∃ n : U128, HoldingAt w i (.fungible (q.token side) n) ∧ amountIn ≤ n.val
  output : HoldsToken w o (q.token side.other)

section
variable (platform : Platform) (w : Accounts) (c x : AccountId) (cfg : AmmConfig)
  (q : PoolDefinition) (now : U64)

def ExactInputsCarriedOut : Prop :=
  ∀ (side : Side) (slippageBps : U32) (raw minOut deadlineMs : String) (quote : SwapExactInQuote)
    (amountIn : U128) (deadline : U64) (i o : AccountId),
    swapExactInQuote (exactInRequest q side (readOf w c) slippageBps raw) = .ok quote →
    parse raw = .ok amountIn → parse minOut = .ok quote.minReceived →
    parse deadlineMs = .ok deadline →
    ∃ plan, (exactInRequest q side (readOf w c) slippageBps raw).plan minOut deadlineMs i o
        = .ok plan ∧ plan.signers = [i] ∧
      (now.val < deadline.val → Trader w q side i o amountIn.val →
        SwapCarriedOut platform w c cfg plan (q.token side) i o amountIn.val
          (ConstantProduct.afterFee 10000 cfg.swapFeeBps.val amountIn.val) quote.expectedOut.val)

def ExactOutputsCarriedOut : Prop :=
  ∀ (side : Side) (slippageBps : U32) (raw maxIn deadlineMs : String) (quote : SwapExactOutQuote)
    (amountOut : U128) (deadline : U64) (i o : AccountId),
    swapExactOutQuote (exactOutRequest q side (readOf w c) slippageBps raw) = .ok quote →
    parse raw = .ok amountOut → parse maxIn = .ok quote.maxIn →
    parse deadlineMs = .ok deadline →
    ∃ plan, (exactOutRequest q side (readOf w c) slippageBps raw).plan maxIn deadlineMs i o
        = .ok plan ∧ plan.signers = [i] ∧
      (now.val < deadline.val → Trader w q side i o quote.requiredIn.val →
        SwapCarriedOut platform w c cfg plan (q.token side) i o quote.requiredIn.val
          (ConstantProduct.needed (q.reserve side).val (q.reserve side.other).val amountOut.val)
          amountOut.val)

def InputsRejected : Prop :=
  ∀ (side : Side) (slippageBps : U32) (raw message : String) (amountIn : U128),
    slippageBps.val < 10000 → parse raw = .ok amountIn →
    swapExactInQuote (exactInRequest q side (readOf w c) slippageBps raw) = .error message →
    ∀ (authority : List AccountId) (i o : AccountId) (minOut : U128) (deadline : U64)
      (seeds : List PdaSeed) (w' : Accounts), transact platform w authority ⟨ammProgramId,
        swapAccounts c x q side i o, .amm (.swapExactInput amountIn minOut deadline), seeds⟩ ≠ .ok w'

/-- An output without a quote is rejected with every bound, unless its quote cannot be displayed. -/
def OutputsRejected : Prop :=
  ∀ (side : Side) (slippageBps : U32) (raw message : String) (amountOut : U128),
    slippageBps.val < 10000 → parse raw = .ok amountOut →
    swapExactOutQuote (exactOutRequest q side (readOf w c) slippageBps raw) = .error message →
    Displayable cfg q side slippageBps amountOut →
    ∀ (authority : List AccountId) (i o : AccountId) (maxIn : U128) (deadline : U64)
      (seeds : List PdaSeed) (w' : Accounts), transact platform w authority ⟨ammProgramId,
        swapAccounts c x q side i o, .amm (.swapExactOutput amountOut maxIn deadline), seeds⟩ ≠ .ok w'

structure SwapQuotesCarriedOut : Prop where
  inputs : ExactInputsCarriedOut platform w c cfg q now
  outputs : ExactOutputsCarriedOut platform w c cfg q now
  noInput : InputsRejected platform w c x q
  noOutput : OutputsRejected platform w c x cfg q

section
variable (balance : Side → U128) (hl : Live platform w) (hs : Serviceable w c x cfg q balance)
include hl hs

theorem inputs_rejected : InputsRejected platform w c x q := by
  intro side slippageBps raw message amountIn hslippage hparse herror authority i o minOut deadline
    seeds w' h
  obtain ⟨amounts, -, -, -, -, hpriced, -⟩ := swap_performed platform w w' hl c x cfg q balance hs
    authority seeds side i o _ h rfl
  cases hpriced with
  | exactInput _ _ _ _ priced =>
    have hsell := ((exactInputAmounts_eq_ok cfg q side amountIn minOut amounts).mp priced).1
    have hconfig := decodes_config w c x cfg q balance hs
    obtain ⟨hagrees, -⟩ := quotes_on_healthy_pools cfg q side (readOf w c) slippageBps raw hconfig
      hslippage hs.poolOf.distinct amountIn hparse hs.valid.2 hs.sound.healthy
    -- Without a bound the same input is priced, and so it has a quote.
    obtain ⟨unbounded, hin, heffective, -, hamounts⟩ :=
      sellable_priced cfg q side amountIn (zero 128) hsell
    have hle : unbounded.effectiveAmountIn.val ≤ unbounded.amountIn.val := by
      rw [heffective, hin]
      exact ConstantProduct.afterFee_le _ _ _
    have hsettles := settles_iff cfg q side _ unbounded (hamounts (Nat.zero_le _)) hle
    obtain ⟨quote, hquote⟩ :=
      hagrees.1.mpr (hsettles.mpr (feeCovered_of_valid cfg hs.valid.2 _ _))
    rw [hquote] at herror
    cases herror

theorem outputs_rejected : OutputsRejected platform w c x cfg q := by
  intro side slippageBps raw message amountOut hslippage hparse herror hdisplay authority i o maxIn
    deadline seeds w' h
  obtain ⟨amounts, -, -, -, -, hpriced, -⟩ := swap_performed platform w w' hl c x cfg q balance hs
    authority seeds side i o _ h rfl
  cases hpriced with
  | exactOutput _ _ _ _ priced =>
    have hbuy := ((exactOutputAmounts_eq_ok cfg q side amountOut maxIn amounts).mp priced).1
    have hconfig := decodes_config w c x cfg q balance hs
    have hagrees := (quotes_on_healthy_pools cfg q side (readOf w c) slippageBps raw hconfig
      hslippage hs.poolOf.distinct amountOut hparse hs.valid.2 hs.sound.healthy).2.mpr
      fun _ => hdisplay
    obtain ⟨unbounded, -, heffective, hin, hamounts⟩ :=
      buyable_priced cfg q side amountOut (maxValue 128) hbuy
    have hle : unbounded.effectiveAmountIn.val ≤ unbounded.amountIn.val := by
      rw [heffective, hin]
      exact needed_le_requiredFor cfg q side hbuy.fee _
    have hfits := (le_maxValue_iff 128 unbounded.amountIn.val).mpr unbounded.amountIn.isLt
    have hsettles := settles_iff cfg q side _ unbounded (hamounts hfits) hle
    obtain ⟨quote, hquote⟩ :=
      hagrees.1.mpr (hsettles.mpr (feeCovered_of_valid cfg hs.valid.2 _ _))
    rw [hquote] at herror
    cases herror

variable (hcovers : platform.tickMath.Covers) (hdepth : 2 ≤ platform.callDepth)
  (hclock : ClockAt w now)
include hcovers hdepth hclock

/-- A priced swap of a trader is carried out with its amounts. -/
theorem priced_carried_out (side : Side) (i o : AccountId) (instruction : Amm.Instruction)
    (deadline : U64) (hdeadline : instruction.deadline = some deadline)
    (hintime : now.val < deadline.val) (amounts : SwapAmounts)
    (hpriced : Priced (q.reserve side) (q.reserve side.other) cfg.swapFeeBps instruction amounts)
    (ht : Trader w q side i o amounts.amountIn.val) (plan : Plan)
    (hcall : plan.call = ⟨ammProgramId, swapAccounts c x q side i o, .amm instruction, []⟩) :
    SwapCarriedOut platform w c cfg plan (q.token side) i o amounts.amountIn.val
      amounts.effectiveAmountIn.val amounts.amountOut.val := by
  obtain ⟨n, hi, hpays⟩ := ht.pays
  obtain ⟨m, ho⟩ := ht.output
  have hown : ∀ id ∈ [i, o], ¬id.DerivedBy ammProgramId := by
    simp only [List.forall_mem_cons, List.not_mem_nil, false_implies, implies_true, and_true]
    exact ⟨ht.signs ammProgramId (by decide), ht.receives⟩
  have htimely : ∀ limit, instruction.deadline = some limit → now.val < limit.val := by
    intro limit hlimit
    rw [hdeadline, Option.some.injEq] at hlimit
    exact hlimit ▸ hintime
  refine ⟨?_, fun w' h => ?_⟩
  · rw [hcall]
    constructor
    · rintro ⟨w', h⟩
      refine or_iff_not_imp_left.mpr fun howed => ?_
      exact swap_credits platform w w' hl c x cfg q balance hs [i] [] side i o instruction h amounts
        hpriced howed
    · exact swap_succeeds platform hcovers hdepth w hl c x cfg q balance hs now hclock [i] []
        (List.forall_mem_singleton.mpr ht.signs) side i o n m hown hi ho (List.mem_singleton_self i)
        instruction amounts hpriced htimely hpays
  · rw [hcall] at h
    exact swap_moves platform w w' hl c x cfg q balance hs [i] [] side i o instruction h amounts
      hpriced

theorem exact_inputs_carried_out : ExactInputsCarriedOut platform w c cfg q now := by
  intro side slippageBps raw minOut deadlineMs quote amountIn deadline i o hq hparse hmin hdeadline
  have hslippage : slippageBps.val < 10000 := by
    have haccepted := hq
    simp only [swapExactInQuote, exactInRequest, bind_eq_ok, ensure_eq_ok, exists_const] at haccepted
    obtain ⟨-, -, _, -, _, hslippage, -⟩ := haccepted
    exact (ensure_eq_ok _ _ _).mp hslippage
  have hconfig := decodes_config w c x cfg q balance hs
  obtain ⟨-, -, hsell, hout, hminimal, -⟩ := (swapExactInQuote_eq_ok cfg q side (readOf w c)
    slippageBps raw hconfig hslippage hs.poolOf.distinct amountIn hparse quote).mp hq
  have hle : quote.minReceived.val ≤ quote.expectedOut.val := by
    rw [hminimal]
    exact ConstantProduct.afterFee_le 10000 slippageBps.val _
  obtain ⟨amounts, hin, heffective, hpaid, hamounts⟩ :=
    sellable_priced cfg q side amountIn quote.minReceived hsell
  obtain ⟨plan, hplan, hsigners, hcall⟩ := swapPlan_succeeds w c x cfg q balance hs side i o
    (.swapExactInput amountIn quote.minReceived deadline) (do
      let swapAmountIn ← parseU128 raw "amountIn"
      let minAmountOut ← parseU128 minOut "minOut"
      let deadline ← parseU64 deadlineMs "deadlineMs"
      pure (.swapExactInput swapAmountIn minAmountOut deadline))
    (by simp only [parseU128, parseU64, parseLabelled, hparse, hmin, hdeadline]; rfl)
  have hreaches : quote.minReceived.val ≤ amounts.amountOut.val := by
    rw [hpaid, ← hout]
    exact hle
  refine ⟨plan, hplan, hsigners, fun hintime ht => ?_⟩
  have hdone := priced_carried_out platform w c x cfg q now balance hl hs hcovers hdepth hclock side i
    o _ deadline rfl hintime amounts (.exactInput _ _ _ _ (hamounts hreaches)) (hin ▸ ht) plan hcall
  rw [hin, heffective, hpaid.trans hout.symm] at hdone
  exact hdone

theorem exact_outputs_carried_out : ExactOutputsCarriedOut platform w c cfg q now := by
  intro side slippageBps raw maxIn deadlineMs quote amountOut deadline i o hq hparse hmax hdeadline
  have hslippage : slippageBps.val < 10000 := by
    have haccepted := hq
    simp only [swapExactOutQuote, exactOutRequest, bind_eq_ok, ensure_eq_ok, exists_const] at haccepted
    obtain ⟨-, -, _, -, -, _, hslippage, -⟩ := haccepted
    exact (ensure_eq_ok _ _ _).mp hslippage
  have hconfig := decodes_config w c x cfg q balance hs
  obtain ⟨-, hbuy, hrequired, hbound, -⟩ := (swapExactOutQuote_eq_ok cfg q side (readOf w c)
    slippageBps raw hconfig hslippage hs.poolOf.distinct amountOut hparse quote).mp hq
  obtain ⟨amounts, hout, heffective, hin, hamounts⟩ :=
    buyable_priced cfg q side amountOut quote.maxIn hbuy
  have hwithin : amounts.amountIn.val ≤ quote.maxIn.val := by
    rw [hin, hbound]
    exact le_ceiling _ _
  have hcost : amounts.amountIn.val = quote.requiredIn.val := hin.trans hrequired.symm
  obtain ⟨plan, hplan, hsigners, hcall⟩ := swapPlan_succeeds w c x cfg q balance hs side i o
    (.swapExactOutput amountOut quote.maxIn deadline) (do
      let exactAmountOut ← parseU128 raw "amountOut"
      let maxAmountIn ← parseU128 maxIn "maxIn"
      let deadline ← parseU64 deadlineMs "deadlineMs"
      pure (.swapExactOutput exactAmountOut maxAmountIn deadline))
    (by simp only [parseU128, parseU64, parseLabelled, hparse, hmax, hdeadline]; rfl)
  refine ⟨plan, hplan, hsigners, fun hintime ht => ?_⟩
  have hdone := priced_carried_out platform w c x cfg q now balance hl hs hcovers hdepth hclock side i
    o _ deadline rfl hintime amounts (.exactOutput _ _ _ _ (hamounts hwithin)) (hcost ▸ ht) plan hcall
  rw [hcost, heffective, hout] at hdone
  exact hdone

end

end

/-- In every reached world the quotes for swaps on a pool of two fungible tokens are carried out as
they are shown, unless they owe a fee whose holding was taken by another token. What has no quote is
rejected, but for the outputs whose quotes cannot be displayed. -/
theorem quoted_swaps_are_carried_out (platform : Platform) (hcovers : platform.tickMath.Covers)
    (hdepth : 2 ≤ platform.callDepth) (genesis : Genesis) (w : Accounts)
    (hreached : Reached platform genesis w) (x : AccountId) (q : PoolDefinition) (hq : PoolAt w x q)
    (c : AccountId) (hof : PoolOf c x q) (cfg : AmmConfig) (hcfg : ConfigAt w c cfg) (now : U64)
    (hclock : ClockAt w now) (hf : Fungible w q) :
    SwapQuotesCarriedOut platform w c x cfg q now := by
  have hl := hreached.live platform genesis w
  obtain ⟨c', cfg', balance, hs⟩ := hl.serviceable platform w x q hq hf
  obtain rfl := hof.config_unique _ _ _ _ _ hs.poolOf
  have hsame := hs.config.data
  rw [hcfg.data, Data.ammConfig.injEq] at hsame
  subst hsame
  exact ⟨exact_inputs_carried_out platform w c x cfg q now balance hl hs hcovers hdepth hclock,
    exact_outputs_carried_out platform w c x cfg q now balance hl hs hcovers hdepth hclock,
    inputs_rejected platform w c x cfg q balance hl hs,
    outputs_rejected platform w c x cfg q balance hl hs⟩

/-- The first swap is quoted, planned and carried out. -/
theorem first_swap_is_carried_out : ∃ plan w',
    (exactInRequest firstPool .a (readOf firstPoolWorld firstConfigId) 50 "1000").plan "239" "1"
        (.key 21) (.key 23) = .ok plan ∧
      transact tablePlatform firstPoolWorld [.key 21] plan.call = .ok w' ∧
      Amm.Spends firstPoolWorld w' (.key 21) 1000 ∧
      Amm.Receives firstPoolWorld w' (.key 23) 241 := by
  obtain ⟨plan, hplan, -, hcarried⟩ := (quoted_swaps_are_carried_out tablePlatform
    TwapOracle.tableTickMath_covers le_rfl (clockedGenesis 0) firstPoolWorld first_pool_reached firstPoolId
    firstPool (by unfold PoolAt; decide +kernel) firstConfigId rfl firstConfig
    (by unfold ConfigAt; decide +kernel) 0 (by unfold ClockAt; decide +kernel)
    first_pool_fungible).inputs .a 50 "1000" "239" "1" ⟨241, 239, 360⟩ 1000 1 (.key 21) (.key 23)
    (by decide +kernel) (by decide +kernel) (by decide +kernel) (by decide +kernel)
  obtain ⟨hexecutes, hmoves⟩ := hcarried (by decide) ⟨by decide, by decide,
    ⟨960000, by unfold HoldingAt; decide +kernel, by decide⟩, 990000,
    by unfold HoldingAt; decide +kernel⟩
  obtain ⟨w', h⟩ := hexecutes.mpr (Or.inr ⟨0, Or.inl ⟨by decide +kernel, rfl⟩⟩)
  obtain ⟨hpaid, hreceived⟩ := hmoves w' h
  exact ⟨plan, w', hplan, h, hpaid, hreceived⟩

end LezPrograms.AmmClient
