import LezPrograms.Amm.Acceptance

/-! # When instructions on a pool succeed

A serviceable pool serves whoever covers what is moved: the handler accepts the
accounts, and the calls that it chains succeed one after the other. -/

set_option autoImplicit false

namespace LezPrograms.Amm
open LezPrograms.Checked LezPrograms.Checked.Unsigned LezPrograms.Lee LezPrograms.Token

section
variable (tickMath : TwapOracle.TickMath) (depth : ℕ) (authority : List AccountId)

def Completes (w : Accounts) (calls : List ChainedCall) : Prop :=
  ∃ w', calls.foldlM (fun w chained =>
    invoke tickMath depth w (callAuthority authority ammProgramId chained) chained) w = .ok w'

theorem completes_nil (w : Accounts) : Completes tickMath depth authority w [] := ⟨w, rfl⟩

theorem completes_cons (w v : Accounts) (call : ChainedCall) (calls : List ChainedCall)
    (first : invoke tickMath depth w (callAuthority authority ammProgramId call) call = .ok v)
    (rest : Completes tickMath depth authority v calls) :
    Completes tickMath depth authority w (call :: calls) := by
  obtain ⟨w', h⟩ := rest
  exact ⟨w', by rw [List.foldlM_cons, first, ok_bind, h]⟩

theorem mem_callAuthority (callerId : AccountId) (call : ChainedCall) (seed : PdaSeed)
    (h : seed ∈ call.pdaSeeds) :
    AccountId.forPublicPda callerId seed ∈ callAuthority authority callerId call :=
  List.mem_append_right _ (List.mem_map_of_mem h)

theorem mem_callAuthority_of_mem (callerId : AccountId) (call : ChainedCall) (id : AccountId)
    (h : id ∈ authority) : id ∈ callAuthority authority callerId call := List.mem_append_left _ h

/-- A report of a price succeeds under the authority of its pool. -/
theorem report_succeeds (hcovers : tickMath.Covers) (w : Accounts) (x : AccountId) (price : U128)
    (seed : PdaSeed) (hauth : x ∈ authority) (current : TwapOracle.CurrentTickAccount) (now : U64)
    (hcurrent : owned twapOracleProgramId w
      (TwapOracle.computeCurrentTickAccountPda twapOracleProgramId x) = some (.currentTick current))
    (hclock : ClockAt w now)
    (hn : [TwapOracle.computeCurrentTickAccountPda twapOracleProgramId x, x,
      clock01ProgramAccountId].Nodup) :
    ∃ w', invoke tickMath (depth + 1) w authority (tickCall twapOracleProgramId x price seed)
      = .ok w' := by
  obtain ⟨tick, htick⟩ := TwapOracle.priceToTick_succeeds tickMath hcovers price
  obtain ⟨howner, hdata⟩ := (owned_eq_some _ _ _ _).mp hcurrent
  refine ⟨put twapOracleProgramId w (TwapOracle.computeCurrentTickAccountPda twapOracleProgramId x)
    (.currentTick ⟨tick, now⟩), ?_⟩
  simp only [invoke, bind_eq_ok, Prod.exists, execute_eq_ok]
  refine ⟨_, [], ⟨hn,
    [.new (view w authority (TwapOracle.computeCurrentTickAccountPda twapOracleProgramId x))
        (.currentTick ⟨tick, now⟩),
      .unchanged (view w authority x), .unchanged (view w authority clock01ProgramAccountId)],
    ?_, ?_⟩, rfl⟩
  · simp only [tickCall, ChainedCall.new, ChainedCall.withPdaSeeds, dispatch, TwapOracle.main,
      TwapOracle.updateCurrentTick, List.map_cons, List.map_nil, bind_eq_ok, ensure_eq_ok,
      exists_const, expect_eq_ok, tryFrom_currentTick, clockTimestamp_eq_ok, pure_eq_ok]
    simp only [view_account, view_isAuthorized, view_accountId]
    exact ⟨trivial, _, ⟨(), rfl, hauth, trivial, current, hdata, now, hclock, tick, htick, rfl⟩, rfl⟩
  · simp only [tickCall, ChainedCall.new, ChainedCall.withPdaSeeds, applyDiffs_new,
      applyDiffs_unchanged, view_accountId, applyDiffs_nil, and_true]
    exact Or.inr (Or.inl howner)

section
variable (w : Accounts) (calls : List ChainedCall) (n : U128)

/-- Chained calls complete when the first one is a covered transfer and the others complete
wherever it leads. -/
theorem completes_transfer (s r token : AccountId) (seeds : List PdaSeed) (hne : s ≠ r) (x y : U128)
    (hx : HoldingAt w s (.fungible token x)) (hy : CreditBase w token r y)
    (hauth : s ∈ callAuthority authority ammProgramId (transferCall tokenProgramId s r n seeds))
    (hle : n.val ≤ x.val) (hfits : y.val + n.val < 2 ^ 128)
    (rest : ∀ w' y', Touches w w' s r → HoldingAt w' r (.fungible token y') →
      y'.val = y.val + n.val → Completes tickMath (depth + 1) authority w' calls) :
    Completes tickMath (depth + 1) authority w (transferCall tokenProgramId s r n seeds :: calls) := by
  obtain ⟨w', x', y', h, ht, -, hr, -, hy'⟩ := transfer_succeeds tickMath depth w _ s r n seeds hne
    token x y hx hy hauth hle hfits
  exact completes_cons _ _ _ w w' _ _ h (rest w' y' ht hr hy')

variable (lp holding poolId : AccountId) (hne : lp ≠ holding) (name : String) (supply : U128)
  (metadata : Option AccountId)
  (hd : DefinitionAt w lp (.fungible name supply metadata (some lp))) (y : U128)
include hne hd

theorem completes_mint (hlp : lp = computeLiquidityTokenPda ammProgramId poolId)
    (hy : CreditBase w lp holding y) (hsupply : supply.val + n.val < 2 ^ 128)
    (hfits : y.val + n.val < 2 ^ 128)
    (rest : ∀ w', Touches w w' lp holding → Completes tickMath (depth + 1) authority w' calls) :
    Completes tickMath (depth + 1) authority w
      (lpMintCall tokenProgramId poolId lp holding n :: calls) := by
  have hauth : lp ∈ callAuthority authority ammProgramId
      (lpMintCall tokenProgramId poolId lp holding n) := by
    rw [hlp]
    exact mem_callAuthority _ _ _ _ (List.mem_singleton_self _)
  obtain ⟨w', _, _, h, ht, -⟩ := mint_succeeds tickMath depth w _ lp holding n
    [computeLiquidityTokenPdaSeed poolId] hne name supply metadata y hd hy hauth hsupply hfits
  exact completes_cons _ _ _ w w' _ _ h (rest w' ht)

theorem completes_burn (hy : HoldingAt w holding (.fungible lp y)) (hauth : holding ∈ authority)
    (hsupply : n.val ≤ supply.val) (hle : n.val ≤ y.val)
    (rest : ∀ w', Touches w w' lp holding → Completes tickMath (depth + 1) authority w' calls) :
    Completes tickMath (depth + 1) authority w
      (lpBurnCall tokenProgramId poolId lp holding n :: calls) := by
  obtain ⟨w', _, _, h, ht, -⟩ := burn_succeeds tickMath depth w
    (callAuthority authority ammProgramId (lpBurnCall tokenProgramId poolId lp holding n)) lp holding
    n [computeLiquidityTokenPdaSeed poolId] hne name supply metadata (some lp) y hd hy
    (mem_callAuthority_of_mem _ _ _ _ hauth) hsupply hle
  exact completes_cons _ _ _ w w' _ _ h (rest w' ht)

end

/-- A transaction of the AMM succeeds when its handler and the calls that it chains do. -/
theorem transact_succeeds (platform : Platform) (hdepth : 2 ≤ platform.callDepth) (w v : Accounts)
    (ids : List AccountId) (instruction : Instruction) (seeds : List PdaSeed)
    (hout : ∀ id ∈ authority, ∀ program ∈ deployedPrograms, ¬id.DerivedBy program)
    (hn : ids.Nodup) (diffs : List StateDiff) (calls : List ChainedCall)
    (hmain : main ammProgramId (blockTimestamp w) (ids.map (view w authority)) instruction
      = .ok (diffs, calls))
    (ha : applyDiffs ammProgramId w diffs = .ok v)
    (hcalls : ∀ depth, Completes platform.tickMath (depth + 1) authority v calls) :
    ∃ w', transact platform w authority ⟨ammProgramId, ids, .amm instruction, seeds⟩ = .ok w' := by
  obtain ⟨depth, hd⟩ := Nat.exists_eq_add_of_le' hdepth
  obtain ⟨w', hw'⟩ := hcalls depth
  refine ⟨w', ?_⟩
  simp only [transact, bind_eq_ok, ensure_eq_ok, exists_const, hd]
  refine ⟨hout, ?_⟩
  rw [invoke]
  simp only [bind_eq_ok, Prod.exists, execute_eq_ok]
  refine ⟨v, calls, ⟨hn, diffs, ?_, ha⟩, hw'⟩
  simp only [dispatch, bind_eq_ok, ensure_eq_ok, exists_const]
  exact ⟨trivial, hmain⟩

end

theorem spotPrice_succeeds (reserveBase reserveQuote : U128) (h : reserveBase.val ≠ 0) :
    ∃ price, spotPriceQ6464 reserveBase reserveQuote = .ok price := by
  have hfits : reserveQuote.val * 2 ^ 64 < 2 ^ 256 := by
    have := reserveQuote.isLt
    calc reserveQuote.val * 2 ^ 64 ≤ 2 ^ 128 * 2 ^ 64 := Nat.mul_le_mul_right _ this.le
      _ < 2 ^ 256 := by rw [← pow_add]; exact Nat.pow_lt_pow_right (by omega) (by omega)
  simp only [spotPriceQ6464, bind_eq_ok, ensure_eq_ok, exists_const, expect_eq_ok,
    Unsigned.tryFrom_eq_some, pure_eq_ok]
  exact ⟨_, h, ⟨_, hfits⟩, rfl, ⟨_, lt_of_le_of_lt (Nat.div_le_self _ _) hfits⟩,
    (checkedDiv_eq_some _ _ _).mpr ⟨h, rfl⟩, rfl⟩

section
variable (tickMath : TwapOracle.TickMath) (hcovers : tickMath.Covers) (depth : ℕ)
  (authority : List AccountId) (w : Accounts) (c x : AccountId) (cfg : AmmConfig)
  (q q' : PoolDefinition) (balance : Side → U128) (hs : Serviceable w c x cfg q balance)
  (now : U64) (hclock : ClockAt w now) (price : U128) (seed : PdaSeed)
  (hseed : computePoolPdaSeed c q.definitionTokenAId q.definitionTokenBId = .ok seed)
include hcovers hs hclock hseed

/-- The report of the pool completes while its tick and the clock are as they were. -/
theorem completes_report (v : Accounts)
    (htick : v (TwapOracle.computeCurrentTickAccountPda twapOracleProgramId x)
      = w (TwapOracle.computeCurrentTickAccountPda twapOracleProgramId x))
    (htime : v clock01ProgramAccountId = w clock01ProgramAccountId)
    (hn : [TwapOracle.computeCurrentTickAccountPda twapOracleProgramId x, x,
      clock01ProgramAccountId].Nodup) :
    Completes tickMath (depth + 1) authority v [tickCall twapOracleProgramId x price seed] := by
  obtain ⟨current, hcurrent⟩ := hs.tick
  obtain ⟨seed', hseed', hx⟩ := (computePoolPda_eq_ok _ _ _ _ _).mp hs.poolOf
  rw [hseed, Except.ok.injEq] at hseed'
  subst hseed'
  have hauth : x ∈ callAuthority authority ammProgramId
      (tickCall twapOracleProgramId x price seed) := by
    rw [hx]
    exact mem_callAuthority _ _ _ _ (List.mem_singleton_self _)
  obtain ⟨w', h⟩ := report_succeeds tickMath depth _ hcovers v x price seed hauth current now
    (by rwa [owned_congr _ _ _ _ htick]) (by rwa [ClockAt, htime]) hn
  exact completes_cons _ _ _ v w' _ _ h (completes_nil _ _ _ _)

variable (hc : Conserved w) (ua ub ul : AccountId) (a b l : U128) (hu : Holder w q ua ub ul a b l)
include hc hu

theorem addition_completes (hua : ua ∈ authority) (hub : ub ∈ authority)
    (amountA amountB deltaLp : U128) (hA : amountA.val ≤ a.val) (hB : amountB.val ≤ b.val)
    (hroom : q.liquidityPoolSupply.val + deltaLp.val < 2 ^ 128) :
    Completes tickMath (depth + 1) authority (put ammProgramId w x (.poolDefinition q'))
      [lpMintCall tokenProgramId x q.liquidityPoolId ul deltaLp,
        transferCall tokenProgramId ub q.vaultBId amountB [],
        transferCall tokenProgramId ua q.vaultAId amountA [],
        tickCall twapOracleProgramId x price seed] := by
  have hn := hs.distinct w c x cfg q balance now hclock ua ub ul a b l hu
  simp only [liquidityAccounts, List.nodup_cons, List.mem_cons, List.not_mem_nil, or_false, not_or,
    List.nodup_nil, and_true, not_false_eq_true] at hn
  obtain ⟨-, ⟨hxva, hxvb, hxlp, hxua, hxub, hxul, hxt, hxk⟩,
    ⟨hvavb, hvalp, hvaua, hvaub, hvaul, hvat, hvak⟩, ⟨hvblp, hvbua, hvbub, hvbul, hvbt, hvbk⟩,
    ⟨hlpua, hlpub, hlpul, hlpt, hlpk⟩, ⟨huaub, huaul, huat, huak⟩, ⟨hubul, hubt, hubk⟩,
    ⟨hult, hulk⟩, htk⟩ := hn
  obtain ⟨name, supply, metadata, hd, hle⟩ := hs.liquidity
  have hl := hc.le_recorded w _ name supply metadata _ hd ul l hu.shares
  have hroomA := hs.room w c x cfg q balance hc .a ua a hu.tokenA (hu.own ua (by simp))
  have hroomB := hs.room w c x cfg q balance hc .b ub b hu.tokenB (hu.own ub (by simp))
  have t₀ : Touches w (put ammProgramId w x (.poolDefinition q')) x x :=
    fun id hid _ => put_other _ _ _ _ _ hid
  refine completes_mint tickMath depth authority _ _ deltaLp q.liquidityPoolId ul x hlpul name supply
    metadata ?_ l hs.sound.liquidityId
    (hu.shares.congr _ _ _ _ _ (t₀ _ (Ne.symm hxul) (Ne.symm hxul))) (by omega) (by omega)
    fun w₁ t₁ => ?_
  · rwa [DefinitionAt, owned_congr _ _ _ _ (t₀ _ (Ne.symm hxlp) (Ne.symm hxlp))]
  have h₁ : ∀ id, id ≠ x → id ≠ q.liquidityPoolId → id ≠ ul → w₁ id = w id :=
    fun id hx hlp hul => (t₁ id hlp hul).trans (t₀ id hx hx)
  refine completes_transfer tickMath depth authority _ _ amountB ub q.vaultBId
    q.definitionTokenBId [] (Ne.symm hvbub) b
    (balance .b) ?_ (Or.inr ?_) (mem_callAuthority_of_mem _ _ _ _ hub) hB (by omega)
    fun w₂ _ t₂ _ _ => ?_
  · exact (owned_congr _ _ _ _ (h₁ ub (Ne.symm hxub) (Ne.symm hlpub) hubul)).trans hu.tokenB
  · exact (owned_congr _ _ _ _ (h₁ _ (Ne.symm hxvb) hvblp hvbul)).trans (hs.vaults .b)
  have h₂ : ∀ id, id ≠ x → id ≠ q.liquidityPoolId → id ≠ ul → id ≠ ub → id ≠ q.vaultBId →
      w₂ id = w id := fun id hx hlp hul hub hvb => (t₂ id hub hvb).trans (h₁ id hx hlp hul)
  refine completes_transfer tickMath depth authority _ _ amountA ua q.vaultAId
    q.definitionTokenAId [] (Ne.symm hvaua) a
    (balance .a) ?_ (Or.inr ?_) (mem_callAuthority_of_mem _ _ _ _ hua) hA (by omega)
    fun w₃ _ t₃ _ _ => ?_
  · exact (owned_congr _ _ _ _ (h₂ ua (Ne.symm hxua) (Ne.symm hlpua) huaul huaub
      (Ne.symm hvbua))).trans hu.tokenA
  · exact (owned_congr _ _ _ _ (h₂ _ (Ne.symm hxva) hvalp hvaul hvaub hvavb)).trans (hs.vaults .a)
  refine completes_report tickMath hcovers depth authority w c x cfg q balance hs now hclock price
    seed hseed w₃ ?_ ?_ (by simp [Ne.symm hxt, hxk, htk])
  · exact (t₃ _ (Ne.symm huat) (Ne.symm hvat)).trans (h₂ _ (Ne.symm hxt) (Ne.symm hlpt)
      (Ne.symm hult) (Ne.symm hubt) (Ne.symm hvbt))
  · exact (t₃ _ (Ne.symm huak) (Ne.symm hvak)).trans (h₂ _ (Ne.symm hxk) (Ne.symm hlpk)
      (Ne.symm hulk) (Ne.symm hubk) (Ne.symm hvbk))

theorem removal_completes (hul : ul ∈ authority) (hheld : HoldingAt w ul (.fungible q.liquidityPoolId l))
    (amountA amountB amount : U128) (hA : amountA.val ≤ (q.reserveA).val)
    (hB : amountB.val ≤ q.reserveB.val) (hle : amount.val ≤ l.val) :
    Completes tickMath (depth + 1) authority (put ammProgramId w x (.poolDefinition q'))
      [lpBurnCall tokenProgramId x q.liquidityPoolId ul amount,
        transferCall tokenProgramId q.vaultBId ub amountB
          [computeVaultPdaSeed x q.definitionTokenBId],
        transferCall tokenProgramId q.vaultAId ua amountA
          [computeVaultPdaSeed x q.definitionTokenAId],
        tickCall twapOracleProgramId x price seed] := by
  have hn := hs.distinct w c x cfg q balance now hclock ua ub ul a b l hu
  simp only [liquidityAccounts, List.nodup_cons, List.mem_cons, List.not_mem_nil, or_false, not_or,
    List.nodup_nil, and_true, not_false_eq_true] at hn
  obtain ⟨-, ⟨hxva, hxvb, hxlp, hxua, hxub, hxul, hxt, hxk⟩,
    ⟨hvavb, hvalp, hvaua, hvaub, hvaul, hvat, hvak⟩, ⟨hvblp, hvbua, hvbub, hvbul, hvbt, hvbk⟩,
    ⟨hlpua, hlpub, hlpul, hlpt, hlpk⟩, ⟨huaub, huaul, huat, huak⟩, ⟨hubul, hubt, hubk⟩,
    ⟨hult, hulk⟩, htk⟩ := hn
  obtain ⟨name, supply, metadata, hd, -⟩ := hs.liquidity
  have hl := hc.le_recorded w _ name supply metadata _ hd ul l (Or.inr hheld)
  have hroomA := hs.room w c x cfg q balance hc .a ua a hu.tokenA (hu.own ua (by simp))
  have hroomB := hs.room w c x cfg q balance hc .b ub b hu.tokenB (hu.own ub (by simp))
  have hcoverA : q.reserveA.val ≤ (balance .a).val := hs.covered .a
  have hcoverB : q.reserveB.val ≤ (balance .b).val := hs.covered .b
  have t₀ : Touches w (put ammProgramId w x (.poolDefinition q')) x x :=
    fun id hid _ => put_other _ _ _ _ _ hid
  refine completes_burn tickMath depth authority _ _ amount q.liquidityPoolId ul x hlpul name supply
    metadata ?_ l (t₀.holdingAt _ _ _ _ _ _ (Ne.symm hxul) (Ne.symm hxul) hheld) hul (by omega) hle
    fun w₁ t₁ => ?_
  · rwa [DefinitionAt, owned_congr _ _ _ _ (t₀ _ (Ne.symm hxlp) (Ne.symm hxlp))]
  have h₁ : ∀ id, id ≠ x → id ≠ q.liquidityPoolId → id ≠ ul → w₁ id = w id :=
    fun id hx hlp hul => (t₁ id hlp hul).trans (t₀ id hx hx)
  have hvault : ∀ side, q.vault side = .forPublicPda ammProgramId
      (computeVaultPdaSeed x (q.token side)) := hs.sound.vaultIds
  refine completes_transfer tickMath depth authority _ _ amountB q.vaultBId ub
    q.definitionTokenBId _ hvbub (balance .b) b
    ?_ (Or.inr ?_) ?_ (by omega) (by omega) fun w₂ _ t₂ _ _ => ?_
  · exact (owned_congr _ _ _ _ (h₁ _ (Ne.symm hxvb) hvblp hvbul)).trans (hs.vaults .b)
  · exact (owned_congr _ _ _ _ (h₁ ub (Ne.symm hxub) (Ne.symm hlpub) hubul)).trans hu.tokenB
  · rw [show q.vaultBId = _ from hvault .b]
    exact mem_callAuthority _ _ _ _ (List.mem_singleton_self _)
  have h₂ : ∀ id, id ≠ x → id ≠ q.liquidityPoolId → id ≠ ul → id ≠ q.vaultBId → id ≠ ub →
      w₂ id = w id := fun id hx hlp hul hvb hub => (t₂ id hvb hub).trans (h₁ id hx hlp hul)
  refine completes_transfer tickMath depth authority _ _ amountA q.vaultAId ua
    q.definitionTokenAId _ hvaua (balance .a) a
    ?_ (Or.inr ?_) ?_ (by omega) (by omega) fun w₃ _ t₃ _ _ => ?_
  · exact (owned_congr _ _ _ _ (h₂ _ (Ne.symm hxva) hvalp hvaul hvavb hvaub)).trans (hs.vaults .a)
  · exact (owned_congr _ _ _ _ (h₂ ua (Ne.symm hxua) (Ne.symm hlpua) huaul (Ne.symm hvbua)
      huaub)).trans hu.tokenA
  · rw [show q.vaultAId = _ from hvault .a]
    exact mem_callAuthority _ _ _ _ (List.mem_singleton_self _)
  refine completes_report tickMath hcovers depth authority w c x cfg q balance hs now hclock price
    seed hseed w₃ ?_ ?_ (by simp [Ne.symm hxt, hxk, htk])
  · exact (t₃ _ (Ne.symm hvat) (Ne.symm huat)).trans (h₂ _ (Ne.symm hxt) (Ne.symm hlpt)
      (Ne.symm hult) (Ne.symm hvbt) (Ne.symm hubt))
  · exact (t₃ _ (Ne.symm hvak) (Ne.symm huak)).trans (h₂ _ (Ne.symm hxk) (Ne.symm hlpk)
      (Ne.symm hulk) (Ne.symm hvbk) (Ne.symm hubk))

end

section
variable (platform : Platform) (w : Accounts) (hl : Live platform w) (c x : AccountId)
  (cfg : AmmConfig) (q : PoolDefinition) (balance : Side → U128)
  (hs : Serviceable w c x cfg q balance) (ua ub ul : AccountId) (a b l : U128)
  (hu : Holder w q ua ub ul a b l) (amountA amountB : U128)
include hs

theorem Serviceable.seeded : ∃ seed, computePoolPdaSeed c q.definitionTokenAId q.definitionTokenBId
    = .ok seed := by
  obtain ⟨seed, hseed, -⟩ := (computePoolPda_eq_ok _ _ _ _ _).mp hs.poolOf
  exact ⟨seed, hseed⟩

include hl hu

/-- What somebody holds besides the vaults fits into the reserves, and so do the shares for it. -/
theorem Live.added (minLp maxA maxB deltaLp : U128)
    (hamounts : liquidityToAdd q minLp maxA maxB = .ok (amountA, amountB, deltaLp))
    (hA : amountA.val ≤ a.val) (hB : amountB.val ≤ b.val) :
    q.liquidityPoolSupply.val + deltaLp.val < 2 ^ 128 ∧
      ∃ q', addedPool q amountA amountB deltaLp = .ok q' := by
  have hroomA := hs.room w c x cfg q balance hl.conserved .a ua a hu.tokenA (hu.own ua (by simp))
  have hroomB := hs.room w c x cfg q balance hl.conserved .b ub b hu.tokenB (hu.own ub (by simp))
  have hcoverA : q.reserveA.val ≤ (balance .a).val := hs.covered .a
  have hcoverB : q.reserveB.val ≤ (balance .b).val := hs.covered .b
  obtain ⟨-, hfirst, hsecond⟩ := liquidityToAdd_spec _ _ _ _ _ _ _ hamounts
  have hmove : ConstantProduct.Move 1000 q.pool _ :=
    .deposit amountA.val amountB.val deltaLp.val hfirst hsecond
  have hbacked := (hmove.rises 1000 _ _).backed _ _
    (Nat.mul_pos hs.sound.healthy.first hs.sound.healthy.second) (hl.backed x q hs.stored)
  have hsupply : q.liquidityPoolSupply.val + deltaLp.val < 2 ^ 128 := by
    refine hbacked.shares_lt _ (2 ^ 128) ?_ ?_
    · change q.reserveA.val + amountA.val < _
      omega
    · change q.reserveB.val + amountB.val < _
      omega
  refine ⟨hsupply, ?_⟩
  simp only [addedPool, bind_eq_ok, expect_eq_ok, checkedAdd_eq_some, pure_eq_ok]
  exact ⟨_, ⟨_, hsupply⟩, rfl, ⟨q.reserveA.val + amountA.val, by omega⟩, rfl,
    ⟨q.reserveB.val + amountB.val, by omega⟩, rfl, rfl⟩

variable (hcovers : platform.tickMath.Covers) (hdepth : 2 ≤ platform.callDepth) (now : U64)
  (hclock : ClockAt w now) (deadline : U64) (hdeadline : now.val < deadline.val)
  (authority : List AccountId) (seeds : List PdaSeed)
  (hout : ∀ id ∈ authority, ∀ program ∈ deployedPrograms, ¬id.DerivedBy program)
include hcovers hdepth hclock hdeadline hout

/-- An addition that can be priced and that the user covers succeeds. -/
theorem addition_succeeds (hua : ua ∈ authority) (hub : ub ∈ authority)
    (minLp maxA maxB deltaLp : U128) (hminLp : minLp.val ≠ 0)
    (hmaxA : maxA.val ≠ 0) (hmaxB : maxB.val ≠ 0)
    (hamounts : liquidityToAdd q minLp maxA maxB = .ok (amountA, amountB, deltaLp))
    (hA : amountA.val ≤ a.val) (hB : amountB.val ≤ b.val) :
    ∃ w', transact platform w authority ⟨ammProgramId, liquidityAccounts c x q ua ub ul,
      .amm (.addLiquidity minLp maxA maxB deadline), seeds⟩ = .ok w' := by
  obtain ⟨hroom, q', hq'⟩ := hl.added platform w c x cfg q balance hs ua ub ul a b l hu amountA
    amountB minLp maxA maxB deltaLp hamounts hA hB
  have hreserve : q'.reserveA.val = q.reserveA.val + amountA.val :=
    (addedPool_spec _ _ _ _ _ hq').2.2 .a
  have hpositive : q.reserveA.val ≠ 0 := hs.sound.positive w x q .a
  obtain ⟨price, hspot⟩ := spotPrice_succeeds q'.reserveA q'.reserveB (by omega)
  obtain ⟨seed, hseed⟩ := hs.seeded w c x cfg q balance
  obtain ⟨diffs, hmain, happly⟩ := accepts_addition authority w c x cfg q q' balance hs now hclock
    deadline hdeadline price seed hspot hseed ua ub ul a b l hu minLp maxA maxB amountA amountB
    deltaLp hminLp hmaxA hmaxB hamounts hq'
  exact transact_succeeds authority platform hdepth w _ _ _ seeds hout
    (hs.distinct w c x cfg q balance now hclock ua ub ul a b l hu) diffs _ hmain happly fun depth =>
    addition_completes platform.tickMath hcovers depth authority w c x cfg q q' balance hs now hclock
      price seed hseed hl.conserved ua ub ul a b l hu hua hub amountA amountB deltaLp hA hB hroom

/-- A removal that can be priced succeeds. -/
theorem removal_succeeds (hul : ul ∈ authority) (hheld : HoldingAt w ul (.fungible q.liquidityPoolId l))
    (amount minA minB : U128) (hamount : amount.val ≠ 0) (hminA : minA.val ≠ 0)
    (hminB : minB.val ≠ 0)
    (hamounts : liquidityToRemove q l amount minA minB = .ok (amountA, amountB)) :
    ∃ w', transact platform w authority ⟨ammProgramId, liquidityAccounts c x q ua ub ul,
      .amm (.removeLiquidity amount minA minB deadline), seeds⟩ = .ok w' := by
  obtain ⟨hkept, hpartA, hpartB⟩ := liquidityToRemove_spec _ _ _ _ _ _ _ hamounts
  have hsupply : 0 < q.liquidityPoolSupply.val := by omega
  have hle : ∀ n r : ℕ, n * q.liquidityPoolSupply.val ≤ r * amount.val → n ≤ r := by
    intro n r h
    refine Nat.le_of_mul_le_mul_right (h.trans (Nat.mul_le_mul_left r ?_)) hsupply
    omega
  have hA := hle _ _ hpartA
  have hB := hle _ _ hpartB
  obtain ⟨q', hq'⟩ : ∃ q', removedPool q amountA amountB amount = .ok q' := by
    simp only [removedPool, bind_eq_ok, expect_eq_ok, pure_eq_ok]
    exact ⟨_, _, checkedSub_of_le _ _ (by omega), _, checkedSub_of_le _ _ hA, _,
      checkedSub_of_le _ _ hB, rfl⟩
  have hhealthy := (removed_move q q' _ _ amount l minA minB hamounts hq').healthy 1000 (by decide)
    _ _ hs.sound.healthy
  obtain ⟨price, hspot⟩ := spotPrice_succeeds q'.reserveA q'.reserveB hhealthy.first.ne'
  obtain ⟨seed, hseed⟩ := hs.seeded w c x cfg q balance
  have hshares : l.val ≤ q.liquidityPoolSupply.val := by
    obtain ⟨name, supply, metadata, hd, hle⟩ := hs.liquidity
    exact (hl.conserved.le_recorded w _ name supply metadata _ hd ul l (Or.inr hheld)).trans hle
  obtain ⟨diffs, hmain, happly⟩ := accepts_removal authority w c x cfg q q' balance hs now hclock
    deadline hdeadline price seed hspot hseed ua ub ul a b l hu hheld hshares amount minA minB
    amountA amountB hamount hminA hminB hamounts hq'
  have hamountLe : amount.val ≤ l.val := by
    simp only [liquidityToRemove, bind_eq_ok, ensure_eq_ok, exists_const] at hamounts
    exact hamounts.2.1
  exact transact_succeeds authority platform hdepth w _ _ _ seeds hout
    (hs.distinct w c x cfg q balance now hclock ua ub ul a b l hu) diffs _ hmain happly fun depth =>
    removal_completes platform.tickMath hcovers depth authority w c x cfg q q' balance hs now hclock
      price seed hseed hl.conserved ua ub ul a b l hu hul hheld amountA amountB amount hA hB hamountLe

end

end LezPrograms.Amm
