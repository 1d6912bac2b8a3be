import LezPrograms.Amm.Contributions
import LezPrograms.AmmClient.LiquidityPricing

/-! # Liquidity as it is quoted

What a quote shows for a pool of fungible tokens is what the planned transaction moves,
for either order of display, and amounts without a quote are rejected. -/

set_option autoImplicit false

namespace LezPrograms.AmmClient
open LezPrograms.Checked LezPrograms.Checked.Unsigned LezPrograms.Lee LezPrograms.Token
open LezPrograms.Amm

def AddLiquidityQuoteRequest.plan (request : AddLiquidityQuoteRequest) (w : Accounts) (c : AccountId)
    (minLp deadlineMs : String) (ua ub ul : AccountId) : Outcome Plan :=
  addLiquidityPlan ⟨ammProgramId, readOf w c, request.tokenAId, request.tokenBId,
    request.maxAmountA, request.maxAmountB, minLp, deadlineMs, ua, ub, ul, request.poolData⟩

def RemoveLiquidityQuoteRequest.plan (request : RemoveLiquidityQuoteRequest) (w : Accounts)
    (c : AccountId) (minA minB deadlineMs : String) (ua ub ul : AccountId) : Outcome Plan :=
  removeLiquidityPlan ⟨ammProgramId, readOf w c, request.tokenAId, request.tokenBId,
    request.lpAmount, minA, minB, deadlineMs, ua, ub, ul, request.poolData⟩

theorem computePoolPda_comm (program c a b : AccountId) :
    computePoolPda program c a b = computePoolPda program c b a := by
  have hseed : computePoolPdaSeed c a b = computePoolPdaSeed c b a := by
    unfold computePoolPdaSeed
    split_ifs with h h'
    · exact absurd h (Nat.lt_asymm h')
    · rfl
    · rfl
    · rfl
  rw [computePoolPda, hseed, computePoolPda]

section
variable (w : Accounts) (c x : AccountId) (cfg : AmmConfig) (q : PoolDefinition)
  (balance : Side → U128) (hs : Serviceable w c x cfg q balance)
include hs

theorem derivePair_succeeds (side : Side) (first second : AccountId) (hne : first ≠ second)
    (hside : sideOf q first second = .ok side) :
    ∃ pair, (derivePair ammProgramId first second (readOf w c)).mapError
        (fun _ => "config_unavailable") = .ok pair ∧
      pair.config = c ∧ pair.pool = x ∧
      pair.currentTick = TwapOracle.computeCurrentTickAccountPda twapOracleProgramId x ∧
      pair.clock = clock01ProgramAccountId := by
  have hpool : computePoolPda ammProgramId c first second = .ok x := by
    obtain ⟨rfl, rfl⟩ := (sideOf_eq_ok q _ _ hne side).mp hside
    cases side with
    | a => exact hs.poolOf
    | b => exact (computePoolPda_comm _ _ _ _).trans hs.poolOf
  obtain ⟨howner, hdata⟩ := (owned_eq_some _ _ _ _).mp hs.config
  have hexists : (w c).programOwner = ammProgramId ∧ w c ≠ default := by
    refine ⟨howner, fun he => ?_⟩
    rw [he] at hdata
    cases hdata
  have hload : loadConfig ammProgramId (readOf w c) = .ok (c, cfg) := by
    simp only [loadConfig, decodeAccount, readOf, bind_eq_ok, ensure_eq_ok, exists_const,
      expect_eq_ok, pure_eq_ok, Prod.exists, Prod.mk.injEq, tryFrom_ammConfig]
    exact ⟨c, w c, ⟨trivial, _, rfl, rfl, rfl⟩, hexists, cfg, hdata, rfl, rfl⟩
  refine ⟨⟨first, second, c, x, computeVaultPda ammProgramId x first,
    computeVaultPda ammProgramId x second, computeLiquidityTokenPda ammProgramId x,
    computeLpLockHoldingPda ammProgramId x,
    TwapOracle.computeCurrentTickAccountPda cfg.twapOracleProgramId x, clock01ProgramAccountId,
    cfg.twapOracleProgramId⟩, ?_, rfl, rfl, by rw [hs.oracle], rfl⟩
  simp only [derivePair, hload, hpool, ok_bind]
  rfl

variable (side : Side)

theorem addLiquidityPlan_succeeds (request : AddLiquidityQuoteRequest)
    (hpool : request.poolData = .poolDefinition q) (hne : request.tokenAId ≠ request.tokenBId)
    (hside : sideOf q request.tokenAId request.tokenBId = .ok side)
    (maxA maxB bound : U128) (hmaxA : positiveAmount (some request.maxAmountA) = .ok maxA)
    (hmaxB : positiveAmount (some request.maxAmountB) = .ok maxB) (minLp deadlineMs : String)
    (hminLp : positiveAmount (some minLp) = .ok bound) (deadline : U64)
    (hdeadline : parseU64 deadlineMs "deadlineMs" = .ok deadline) (ua ub ul : AccountId) :
    ∃ plan, request.plan w c minLp deadlineMs ua ub ul = .ok plan ∧
      plan.signers = [(orient side (ua, ub)).1, (orient side (ua, ub)).2, ul] ∧
      plan.call = ⟨ammProgramId, liquidityAccounts c x q (orient side (ua, ub)).1
        (orient side (ua, ub)).2 ul, .amm (.addLiquidity bound (orient side (maxA, maxB)).1
          (orient side (maxA, maxB)).2 deadline), []⟩ := by
  obtain ⟨pair, hpair, hc, hx, htick, hclock⟩ := derivePair_succeeds w c x cfg q balance hs side _ _
    hne hside
  have hread : expect (tryFrom request.poolData) "no_pool" = .ok q := by rw [hpool]; rfl
  refine ⟨⟨ammProgramId, liquidityAccounts c x q (orient side (ua, ub)).1 (orient side (ua, ub)).2 ul,
    [false, false, false, false, false, true, true, true, false, false],
    .addLiquidity bound (orient side (maxA, maxB)).1 (orient side (maxA, maxB)).2 deadline⟩,
    ?_, rfl, rfl⟩
  simp only [AddLiquidityQuoteRequest.plan, addLiquidityPlan, ensure_pos _ _ hne, hmaxA, hmaxB,
    hminLp, hdeadline, hpair, hread, hside, ok_bind, hc, hx, htick, hclock]
  rfl

theorem removeLiquidityPlan_succeeds (request : RemoveLiquidityQuoteRequest)
    (hpool : request.poolData = .poolDefinition q) (hne : request.tokenAId ≠ request.tokenBId)
    (hside : sideOf q request.tokenAId request.tokenBId = .ok side)
    (amount boundA boundB : U128) (hamount : positiveAmount (some request.lpAmount) = .ok amount)
    (minA minB deadlineMs : String) (hminA : positiveAmount (some minA) = .ok boundA)
    (hminB : positiveAmount (some minB) = .ok boundB) (deadline : U64)
    (hdeadline : parseU64 deadlineMs "deadlineMs" = .ok deadline) (ua ub ul : AccountId) :
    ∃ plan, request.plan w c minA minB deadlineMs ua ub ul = .ok plan ∧ plan.signers = [ul] ∧
      plan.call = ⟨ammProgramId, liquidityAccounts c x q (orient side (ua, ub)).1
        (orient side (ua, ub)).2 ul, .amm (.removeLiquidity amount (orient side (boundA, boundB)).1
          (orient side (boundA, boundB)).2 deadline), []⟩ := by
  obtain ⟨pair, hpair, hc, hx, htick, hclock⟩ := derivePair_succeeds w c x cfg q balance hs side _ _
    hne hside
  have hread : expect (tryFrom request.poolData) "no_pool" = .ok q := by rw [hpool]; rfl
  refine ⟨⟨ammProgramId, liquidityAccounts c x q (orient side (ua, ub)).1 (orient side (ua, ub)).2 ul,
    [false, false, false, false, false, false, false, true, false, false],
    .removeLiquidity amount (orient side (boundA, boundB)).1 (orient side (boundA, boundB)).2 deadline⟩,
    ?_, rfl, rfl⟩
  simp only [RemoveLiquidityQuoteRequest.plan, removeLiquidityPlan, ensure_pos _ _ hne, hamount,
    hminA, hminB, hdeadline, hpair, hread, hside, ok_bind, hc, hx, htick, hclock]
  rfl

end

def Covers (w : Accounts) (holding token : AccountId) (n : ℕ) : Prop :=
  ∃ held : Holding, HoldingAt w holding held ∧ held.definitionId = token ∧ n ≤ held.units

def Receives (w : Accounts) (x holding token : AccountId) : Prop :=
  ∃ held kept : Holding, HoldingAt w holding held ∧
    HoldingAt w (computeVaultPda ammProgramId x token) kept ∧ held.definitionId = token ∧
    held.kind = kept.kind

section
variable (platform : Platform) (w : Accounts) (hl : Live platform w)
include hl

theorem Covers.fungible (holding token : AccountId) (n : ℕ) (h : Covers w holding token n)
    (hn : n ≠ 0) (hf : ∃ d, DefinitionAt w token d ∧ d.isFungible) :
    ∃ held : U128, HoldingAt w holding (.fungible token held) ∧ n ≤ held.val := by
  obtain ⟨d, hd, hdf⟩ := hf
  obtain ⟨held, hh, ht, hle⟩ := h
  obtain ⟨balance, rfl⟩ := holding_fungible w hl.editions token d hd hdf holding held hh ht (by omega)
  exact ⟨balance, hh, hle⟩

end

theorem Receives.fungible (w : Accounts) (c x : AccountId) (cfg : AmmConfig) (q : PoolDefinition)
    (balance : Side → U128) (hs : Serviceable w c x cfg q balance) (side : Side)
    (holding : AccountId) (h : Receives w x holding (q.token side)) :
    ∃ held : U128, HoldingAt w holding (.fungible (q.token side) held) := by
  obtain ⟨held, kept, hh, hkept, ht, hkind⟩ := h
  have hvault := hs.vaults side
  rw [hs.sound.vaultIds side] at hvault
  have hsame : kept = .fungible (q.token side) (balance side) := by
    have h := hkept.data
    rw [hvault.data, Data.tokenHolding.injEq] at h
    exact h.symm
  obtain ⟨n, hn⟩ := held.eq_fungible_of_kind (hkind.trans (by rw [hsame]; rfl))
  rw [hn, ht] at hh
  exact ⟨n, hh⟩

section
variable (w : Accounts) (q : PoolDefinition) (side : Side) (ua ub ul : AccountId)

/-- The holder of displayed tokens, in the order of the pool. -/
theorem holder_oriented (a b l : U128) (hown : ∀ id ∈ [ua, ub], ¬id.DerivedBy ammProgramId)
    (ha : HoldingAt w ua (.fungible (q.token side) a))
    (hb : HoldingAt w ub (.fungible (q.token side.other) b))
    (hl : CreditBase w q.liquidityPoolId ul l) :
    Holder w q (orient side (ua, ub)).1 (orient side (ua, ub)).2 ul (orient side (a, b)).1
      (orient side (a, b)).2 l := by
  cases side with
  | a => exact ⟨hown, ha, hb, hl⟩
  | b => exact ⟨fun id hid => hown id (by simp at hid ⊢; exact hid.symm), hb, ha, hl⟩

/-- What the two sides of the pool get, in the order of display. -/
theorem paid_displayed (w' : Accounts) (x : AccountId) (m n : U128)
    (hA : Paid w w' x (orient side (ua, ub)).1 q.definitionTokenAId (orient side (m, n)).1.val)
    (hB : Paid w w' x (orient side (ua, ub)).2 q.definitionTokenBId (orient side (m, n)).2.val) :
    Paid w w' x ua (q.token side) m.val ∧ Paid w w' x ub (q.token side.other) n.val := by
  cases side with
  | a => exact ⟨hA, hB⟩
  | b => exact ⟨hB, hA⟩

end

section
variable (platform : Platform) (w : Accounts) (c x : AccountId) (q : PoolDefinition) (now : U64)

def AdditionsCarriedOut : Prop :=
  ∀ (request : AddLiquidityQuoteRequest) (quote : AddLiquidityQuote) (minLp deadlineMs : String)
    (deadline : U64) (ua ub ul : AccountId), request.poolData = .poolDefinition q →
    addLiquidityQuote request = .ok quote → positiveAmount (some minLp) = .ok quote.minimumLp →
    parseU64 deadlineMs "deadlineMs" = .ok deadline → now.val < deadline.val →
    (∀ id ∈ [ua, ub, ul], ∀ program ∈ deployedPrograms, ¬id.DerivedBy program) →
    Covers w ua request.tokenAId quote.amountA.val →
    Covers w ub request.tokenBId quote.amountB.val →
    (∃ l, CreditBase w quote.lpDefinitionId ul l) →
    ∃ plan w', request.plan w c minLp deadlineMs ua ub ul = .ok plan ∧
      transact platform w plan.signers plan.call = .ok w' ∧
      Paid w w' x ua request.tokenAId quote.amountA.val ∧
      Paid w w' x ub request.tokenBId quote.amountB.val ∧
      Issued w w' quote.lpDefinitionId ul quote.expectedLp.val

def RemovalsCarriedOut : Prop :=
  ∀ (request : RemoveLiquidityQuoteRequest) (quote : RemoveLiquidityQuote) (amount : U128)
    (minA minB deadlineMs : String) (deadline : U64) (ua ub ul : AccountId),
    request.poolData = .poolDefinition q → removeLiquidityQuote request = .ok quote →
    positiveAmount (some request.lpAmount) = .ok amount →
    positiveAmount (some minA) = .ok quote.minimumAmountA →
    positiveAmount (some minB) = .ok quote.minimumAmountB →
    parseU64 deadlineMs "deadlineMs" = .ok deadline → now.val < deadline.val →
    (∀ program ∈ deployedPrograms, ¬ul.DerivedBy program) →
    (∀ id ∈ [ua, ub], ¬id.DerivedBy ammProgramId) →
    Receives w x ua request.tokenAId → Receives w x ub request.tokenBId →
    Covers w ul q.liquidityPoolId amount.val →
    ∃ plan w', request.plan w c minA minB deadlineMs ua ub ul = .ok plan ∧
      transact platform w plan.signers plan.call = .ok w' ∧
      Paid w' w x ua request.tokenAId quote.amountA.val ∧
      Paid w' w x ub request.tokenBId quote.amountB.val ∧
      Issued w' w q.liquidityPoolId ul amount.val

/-- Maxima without a quote are rejected with every minimum of shares, or with none when the quote
lacks only that minimum. -/
def AdditionsRejected : Prop :=
  ∀ (request : AddLiquidityQuoteRequest) (message : String) (side : Side) (maxA maxB minLp : U128),
    request.poolData = .poolDefinition q → request.tokenAId ≠ request.tokenBId →
    positiveAmount (some request.maxAmountA) = .ok maxA →
    positiveAmount (some request.maxAmountB) = .ok maxB → request.slippageBps.val < 10000 →
    sideOf q request.tokenAId request.tokenBId = .ok side →
    addLiquidityQuote request = .error message →
    (message = "minimum_lp_zero" → minLp.val = 0) →
    ∀ (authority : List AccountId) (ua ub ul : AccountId) (deadline : U64) (seeds : List PdaSeed)
      (w' : Accounts), transact platform w authority ⟨ammProgramId, liquidityAccounts c x q ua ub ul,
        .amm (.addLiquidity minLp (orient side (maxA, maxB)).1 (orient side (maxA, maxB)).2 deadline),
        seeds⟩ ≠ .ok w'

/-- An amount of shares without a quote is rejected with all minima, or with a missing one when the
quote lacks only that minimum. -/
def RemovalsRejected : Prop :=
  ∀ (request : RemoveLiquidityQuoteRequest) (message : String) (side : Side)
    (amount minA minB : U128), request.poolData = .poolDefinition q →
    request.tokenAId ≠ request.tokenBId → positiveAmount (some request.lpAmount) = .ok amount →
    request.slippageBps.val < 10000 → sideOf q request.tokenAId request.tokenBId = .ok side →
    removeLiquidityQuote request = .error message →
    (message = "minimum_amount_zero" → minA.val = 0 ∨ minB.val = 0) →
    ∀ (authority : List AccountId) (ua ub ul : AccountId) (deadline : U64) (seeds : List PdaSeed)
      (w' : Accounts), transact platform w authority ⟨ammProgramId, liquidityAccounts c x q ua ub ul,
        .amm (.removeLiquidity amount (orient side (minA, minB)).1 (orient side (minA, minB)).2
          deadline), seeds⟩ ≠ .ok w'

structure LiquidityQuotesAgree : Prop where
  additions : AdditionsCarriedOut platform w c x q now
  removals : RemovalsCarriedOut platform w c x q now
  noAddition : AdditionsRejected platform w c x q
  noRemoval : RemovalsRejected platform w c x q

section
variable (hl : Live platform w) (hq : PoolAt w x q)
include hl hq

theorem additions_rejected : AdditionsRejected platform w c x q := by
  intro request message side maxA maxB minLp hpool hne hmaxA hmaxB hslippage hside herror hzero
    authority ua ub ul deadline seeds w' h
  obtain ⟨amountA, amountB, deltaLp, hamounts, -⟩ := addition_moves platform w w' hl authority c x ua
    ub ul q hq deadline seeds minLp _ _ h
  have hbound := addition_bounded platform w w' authority c x ua ub ul q deadline seeds minLp _ _ h
  have hshares := (hl.sound.pools x q hq).healthy.shares
  have hsupply : q.liquidityPoolSupply.val ≠ 0 :=
    (lt_of_lt_of_le (by decide) hshares : 0 < q.liquidityPoolSupply.val).ne'
  rcases addLiquidityQuote_shown request q hpool maxA maxB side hne hmaxA hmaxB hslippage hsupply
    hside minLp _ hamounts with ⟨quote, hquote⟩ | hquote
  · rw [hquote] at herror
    cases herror
  · rw [hquote, Except.error.injEq] at herror
    exact hbound (hzero herror.symm)

theorem removals_rejected : RemovalsRejected platform w c x q := by
  intro request message side amount minA minB hpool hne hamount hslippage hside herror hzero
    authority ua ub ul deadline seeds w' h
  obtain ⟨hminA, hminB, l, amountA, amountB, hamounts, -⟩ := removal_moves platform w w' hl authority
    c x ua ub ul q hq deadline seeds amount _ _ h
  have hs := hl.sound.pools x q hq
  rcases removeLiquidityQuote_shown request q hpool amount side hne hamount hslippage
    (hs.positive w x q .a) (hs.positive w x q .b) hside l _ _ hminA hminB _ hamounts with
    ⟨quote, hquote⟩ | hquote
  · rw [hquote] at herror
    cases herror
  · rw [hquote, Except.error.injEq] at herror
    have hmin := orient_forall side (fun n : U128 => n.val ≠ 0) _ _ hminA hminB
    simp only [Prod.mk.eta, orient_orient] at hmin
    rcases hzero herror.symm with hzero | hzero
    · exact hmin.1 hzero
    · exact hmin.2 hzero

section
variable (hof : PoolOf c x q) (hf : Fungible w q) (hcovers : platform.tickMath.Covers)
  (hdepth : 2 ≤ platform.callDepth) (hclock : ClockAt w now)
include hof hf hcovers hdepth hclock

theorem additions_carried_out : AdditionsCarriedOut platform w c x q now := by
  intro request quote minLp deadlineMs deadline ua ub ul hpool hquote hminLp hparse hdeadline hout
    hcoverA hcoverB hshares
  obtain ⟨c', cfg, balance, hs⟩ := hl.serviceable platform w x q hq hf
  obtain rfl := hof.config_unique _ _ _ _ _ hs.poolOf
  obtain ⟨side, maxA, maxB, hne, hmaxA, hmaxB, hside, hpositiveA, hpositiveB, hbound, hlp, hamounts⟩ :=
    addLiquidityQuote_priced request q hpool quote hquote
  obtain ⟨hfirst, hsecond⟩ := (sideOf_eq_ok q _ _ hne side).mp hside
  obtain ⟨plan, hplan, hsigners, hcall⟩ := addLiquidityPlan_succeeds w c x cfg q balance hs side
    request hpool hne hside maxA maxB _ hmaxA hmaxB minLp deadlineMs hminLp deadline hparse ua ub ul
  rw [hfirst] at hcoverA
  rw [hsecond] at hcoverB
  rw [hlp] at hshares
  obtain ⟨a, ha, hA⟩ := hcoverA.fungible platform w hl ua _ _ hpositiveA (hf side)
  obtain ⟨b, hb, hB⟩ := hcoverB.fungible platform w hl ub _ _ hpositiveB (hf side.other)
  obtain ⟨l, hbase⟩ := hshares
  have hown : ∀ id ∈ [ua, ub], ¬id.DerivedBy ammProgramId := by
    intro id hid
    refine hout id ?_ ammProgramId (by decide)
    simp only [List.mem_cons, List.not_mem_nil, or_false] at hid ⊢
    exact hid.imp (fun he => he) Or.inl
  have hu := holder_oriented w q side ua ub ul a b l hown ha hb hbase
  simp only [List.forall_mem_cons, List.not_mem_nil, false_implies, implies_true, and_true] at hout
  obtain ⟨houtA, houtB, houtL⟩ := hout
  obtain ⟨hua, hub⟩ := orient_forall side
    (fun id : AccountId => ∀ program ∈ deployedPrograms, ¬id.DerivedBy program) ua ub houtA houtB
  obtain ⟨hlimitA, hlimitB⟩ := orient_forall side (fun n : U128 => n.val ≠ 0) maxA maxB
    (positiveAmount_ne_zero _ _ hmaxA) (positiveAmount_ne_zero _ _ hmaxB)
  have hcovered : (orient side (quote.amountA, quote.amountB)).1.val ≤ (orient side (a, b)).1.val ∧
      (orient side (quote.amountA, quote.amountB)).2.val ≤ (orient side (a, b)).2.val := by
    cases side with
    | a => exact ⟨hA, hB⟩
    | b => exact ⟨hB, hA⟩
  obtain ⟨w', h⟩ := addition_succeeds platform w hl c x cfg q balance hs _ _ ul _ _ l hu _ _ hcovers
    hdepth now hclock deadline hdeadline
    [(orient side (ua, ub)).1, (orient side (ua, ub)).2, ul] []
    (by
      simp only [List.forall_mem_cons, List.not_mem_nil, false_implies, implies_true, and_true]
      exact ⟨hua, hub, houtL⟩)
    (by simp) (by simp) quote.minimumLp _ _ quote.expectedLp hbound hlimitA hlimitB hamounts
    hcovered.1 hcovered.2
  obtain ⟨amountA, amountB, deltaLp, hpriced, hpaidA, hpaidB, hissued⟩ := addition_moves platform w w'
    hl _ c x _ _ ul q hq deadline [] _ _ _ h
  rw [hamounts, Except.ok.injEq, Prod.mk.injEq, Prod.mk.injEq] at hpriced
  obtain ⟨rfl, rfl, rfl⟩ := hpriced
  obtain ⟨hpaid, hpaid'⟩ := paid_displayed w q side ua ub w' x _ _ hpaidA hpaidB
  refine ⟨plan, w', hplan, by rw [hsigners, hcall]; exact h, ?_, ?_, ?_⟩
  · rw [hfirst]
    exact hpaid
  · rw [hsecond]
    exact hpaid'
  · rw [hlp]
    exact hissued

theorem removals_carried_out : RemovalsCarriedOut platform w c x q now := by
  intro request quote amount minA minB deadlineMs deadline ua ub ul hpool hquote hamount hminA hminB
    hparse hdeadline hout hown hreceiveA hreceiveB hcover
  obtain ⟨c', cfg, balance, hs⟩ := hl.serviceable platform w x q hq hf
  obtain rfl := hof.config_unique _ _ _ _ _ hs.poolOf
  obtain ⟨side, amount', hne, hamount', hside, hboundA, hboundB, hamounts⟩ :=
    removeLiquidityQuote_priced request q hpool quote hquote
  rw [hamount, Except.ok.injEq] at hamount'
  subst hamount'
  obtain ⟨hfirst, hsecond⟩ := (sideOf_eq_ok q _ _ hne side).mp hside
  obtain ⟨plan, hplan, hsigners, hcall⟩ := removeLiquidityPlan_succeeds w c x cfg q balance hs side
    request hpool hne hside amount _ _ hamount minA minB deadlineMs hminA hminB deadline hparse ua ub
    ul
  rw [hfirst] at hreceiveA
  rw [hsecond] at hreceiveB
  obtain ⟨a, ha⟩ := hreceiveA.fungible w c x cfg q balance hs side ua
  obtain ⟨b, hb⟩ := hreceiveB.fungible w c x cfg q balance hs side.other ub
  have hpositive := positiveAmount_ne_zero _ _ hamount
  obtain ⟨name, supply, metadata, hd, -⟩ := hs.liquidity
  obtain ⟨l, hheld, hle⟩ := hcover.fungible platform w hl ul _ _ hpositive ⟨_, hd, trivial⟩
  have hu := holder_oriented w q side ua ub ul a b l hown ha hb (Or.inr hheld)
  obtain ⟨hlowA, hlowB⟩ := orient_forall side (fun n : U128 => n.val ≠ 0) _ _ hboundA hboundB
  obtain ⟨w', h⟩ := removal_succeeds platform w hl c x cfg q balance hs _ _ ul _ _ l hu _ _ hcovers
    hdepth now hclock deadline hdeadline [ul] [] (List.forall_mem_singleton.mpr hout)
    (List.mem_singleton_self _) hheld amount _ _ hpositive hlowA hlowB (hamounts l hle)
  obtain ⟨-, -, l', amountA, amountB, hpriced, hpaidA, hpaidB, hissued⟩ := removal_moves platform w w'
    hl _ c x _ _ ul q hq deadline [] _ _ _ h
  have hwithin : amount.val ≤ l'.val := by
    simp only [liquidityToRemove, bind_eq_ok, ensure_eq_ok, exists_const] at hpriced
    exact hpriced.2.1
  rw [hamounts l' hwithin, Except.ok.injEq, Prod.mk.injEq] at hpriced
  obtain ⟨rfl, rfl⟩ := hpriced
  obtain ⟨hpaid, hpaid'⟩ := paid_displayed w' q side ua ub w x _ _ hpaidA hpaidB
  refine ⟨plan, w', hplan, by rw [hsigners, hcall]; exact h, ?_, ?_, hissued⟩
  · rw [hfirst]
    exact hpaid
  · rw [hsecond]
    exact hpaid'

end

end

end

/-- In every reached world the quotes for a pool of two fungible tokens agree with the program. -/
theorem liquidity_quotes_agree (platform : Platform) (hcovers : platform.tickMath.Covers)
    (hdepth : 2 ≤ platform.callDepth) (genesis : Genesis) (w : Accounts)
    (hreached : Reached platform genesis w) (x : AccountId) (q : PoolDefinition) (hq : PoolAt w x q)
    (c : AccountId) (hof : PoolOf c x q) (now : U64) (hclock : ClockAt w now) (hf : Fungible w q) :
    LiquidityQuotesAgree platform w c x q now := by
  have hl := hreached.live platform genesis w
  exact {
    additions := additions_carried_out platform w c x q now hl hq hof hf hcovers hdepth hclock
    removals := removals_carried_out platform w c x q now hl hq hof hf hcovers hdepth hclock
    noAddition := additions_rejected platform w c x q hl hq
    noRemoval := removals_rejected platform w c x q hl hq }

theorem first_pool_quotes_agree :
    LiquidityQuotesAgree tablePlatform firstPoolWorld firstConfigId firstPoolId firstPool 0 := by
  refine liquidity_quotes_agree tablePlatform TwapOracle.tableTickMath_covers le_rfl (clockedGenesis 0)
    firstPoolWorld first_pool_reached firstPoolId firstPool (by unfold PoolAt; decide +kernel)
    firstConfigId rfl 0 (by unfold ClockAt; decide +kernel) ?_
  rintro (_ | _)
  · exact ⟨.fungible "AAA" 1000000 none none, by unfold DefinitionAt; decide +kernel, trivial⟩
  · exact ⟨.fungible "BBB" 1000000 none none, by unfold DefinitionAt; decide +kernel, trivial⟩

def masterPoolId : AccountId :=
  .forPublicPda ammProgramId (.account firstConfigId (.account (.key 40) (.account (.key 20) .nil)))

/-- The right to print 2000 copies is deposited whole into a pool. -/
def masterPoolEvents : List Event :=
  firstConfiguration ++
    [.transaction [.key 40, .key 41, .key 42] ⟨tokenProgramId, [.key 40, .key 41, .key 42],
      .token (.newDefinitionWithMetadata (.nonFungible "CCC" 2000) ⟨.simple, "", ""⟩), []⟩,
    .transaction [.key 41, .key 21, .key 24] ⟨ammProgramId, [firstConfigId, masterPoolId,
      computeVaultPda ammProgramId masterPoolId (.key 40),
      computeVaultPda ammProgramId masterPoolId (.key 20),
      computeLiquidityTokenPda ammProgramId masterPoolId,
      computeLpLockHoldingPda ammProgramId masterPoolId, .key 41, .key 21, .key 24,
      TwapOracle.computeCurrentTickAccountPda twapOracleProgramId masterPoolId,
      clock01ProgramAccountId], .amm (.newDefinition 2000 2000 1), []⟩]

def masterPoolWorld : Accounts := run tablePlatform (clockedGenesis 0).world masterPoolEvents

def masterPool : PoolDefinition :=
  createdPool ammProgramId masterPoolId (.key 40) (.key 20) 2000 2000 2000

def masterRequest : RemoveLiquidityQuoteRequest :=
  ⟨.key 40, .key 20, "500", 50, .poolDefinition masterPool⟩

def masterPlan : Plan :=
  ⟨ammProgramId, liquidityAccounts firstConfigId masterPoolId masterPool (.key 41) (.key 21) (.key 24),
    [false, false, false, false, false, false, false, true, false, false],
    .removeLiquidity 500 497 497 1⟩

theorem master_removal_fails :
    Reached tablePlatform (clockedGenesis 0) masterPoolWorld ∧
    PoolAt masterPoolWorld masterPoolId masterPool ∧ PoolOf firstConfigId masterPoolId masterPool ∧
    ClockAt masterPoolWorld 0 ∧
    ¬LiquidityQuotesAgree tablePlatform masterPoolWorld firstConfigId masterPoolId masterPool 0 := by
  refine ⟨.transaction _ (.transaction _ (.transaction _ (.transaction _ (.transaction _ .start _ _) _ _)
    _ _) _ _) _ _, by unfold PoolAt; decide +kernel, rfl, 
    by unfold ClockAt; decide +kernel, fun h => ?_⟩
  obtain ⟨plan, w', hplan, hsucceeds, -⟩ := h.removals masterRequest
    ⟨500, 500, 497, 497, 18446744073709551616⟩ 500 "497" "497" "1" 1 (.key 41) (.key 21) (.key 24) rfl
    (by decide +kernel) (by decide +kernel) (by decide +kernel) (by decide +kernel)
    (by decide +kernel) (by decide) (by decide) (by decide)
    ⟨.nftMaster (.key 40) 0, .nftMaster (.key 40) 2000, by unfold HoldingAt; decide +kernel,
      by unfold HoldingAt; decide +kernel, rfl, rfl⟩
    ⟨.fungible (.key 20) 998000, .fungible (.key 20) 2000, by unfold HoldingAt; decide +kernel,
      by unfold HoldingAt; decide +kernel, rfl, rfl⟩
    ⟨.fungible masterPool.liquidityPoolId 1000, by unfold HoldingAt; decide +kernel, rfl, by decide⟩
  have hplanned : masterRequest.plan masterPoolWorld firstConfigId "497" "497" "1" (.key 41) (.key 21)
      (.key 24) = .ok masterPlan := by decide +kernel
  rw [hplanned, Except.ok.injEq] at hplan
  subst hplan
  have hfails : (transact tablePlatform masterPoolWorld masterPlan.signers masterPlan.call).toBool
      = false := by decide +kernel
  rw [hsucceeds] at hfails
  cases hfails

end LezPrograms.AmmClient
