import LezPrograms.Amm.Program

/-! # What one AMM instruction does to the world

`Step` lists the successful executions of the AMM. The two tokens of a pool are
its sides; a swap moves from one side to the other. -/

set_option autoImplicit false

namespace LezPrograms.Amm
open LezPrograms.Checked LezPrograms.Checked.Unsigned LezPrograms.Lee

inductive Side where
  | a
  | b
deriving DecidableEq

def Side.other : Side → Side
  | .a => .b
  | .b => .a

namespace PoolDefinition

def token (q : PoolDefinition) : Side → AccountId
  | .a => q.definitionTokenAId
  | .b => q.definitionTokenBId

def vault (q : PoolDefinition) : Side → AccountId
  | .a => q.vaultAId
  | .b => q.vaultBId

def reserve (q : PoolDefinition) : Side → U128
  | .a => q.reserveA
  | .b => q.reserveB

end PoolDefinition

theorem readFungibleHolding_eq_ok (account : InputAccount) (context : String) (balance : U128) :
    readFungibleHolding account context = .ok balance ↔
      ∃ d, account.account.data = .tokenHolding (.fungible d balance) := by
  simp only [readFungibleHolding, bind_eq_ok, expect_eq_ok, tryFrom_holding]
  constructor
  · rintro ⟨holding, hd, h⟩
    cases holding with
    | fungible d b =>
      rw [pure_eq_ok] at h
      exact ⟨d, by rw [hd, h]⟩
    | nftMaster d b => exact absurd h (error_ne_ok _ _)
    | nftPrintedCopy d o => exact absurd h (error_ne_ok _ _)
  · rintro ⟨d, hd⟩
    exact ⟨_, hd, rfl⟩

theorem readVaultFungibleBalances_eq_ok (context : String) (vaultA vaultB : InputAccount)
    (balanceA balanceB : U128) :
    readVaultFungibleBalances context vaultA vaultB = .ok (balanceA, balanceB) ↔
      (∃ d, vaultA.account.data = .tokenHolding (.fungible d balanceA)) ∧
        (∃ d, vaultB.account.data = .tokenHolding (.fungible d balanceB)) := by
  simp only [readVaultFungibleBalances, bind_eq_ok, readFungibleHolding_eq_ok, pure_eq_ok,
    Prod.mk.injEq]
  constructor
  · rintro ⟨_, ha, _, hb, rfl, rfl⟩
    exact ⟨ha, hb⟩
  · rintro ⟨ha, hb⟩
    exact ⟨_, ha, _, hb, rfl, rfl⟩

theorem decodeConfig_eq_ok (config : InputAccount) (self : AccountId) (context : String)
    (c : AmmConfig) :
    decodeConfig config self context = .ok c ↔ Holds self config.account (.ammConfig c) := by
  simp only [decodeConfig, bind_eq_ok, ensure_eq_ok, exists_const, expect_eq_ok,
    tryFrom_ammConfig, Holds]

theorem assertPoolInConfigNamespace_eq_ok (pool config : InputAccount) (q : PoolDefinition)
    (self : AccountId) (context : String) (u : Unit) :
    assertPoolInConfigNamespace pool config q self context = .ok u ↔
      computePoolPda self config.accountId q.definitionTokenAId q.definitionTokenBId
        = .ok pool.accountId := by
  simp only [assertPoolInConfigNamespace, bind_eq_ok, ensure_eq_ok]
  constructor
  · rintro ⟨_, h, rfl⟩
    exact h
  · intro h
    exact ⟨_, h, rfl⟩

theorem assertOracleAccounts_eq_ok (tick pool clock : InputAccount) (oracle : AccountId)
    (context : String) (u : Unit) :
    assertOracleAccounts tick pool clock oracle context = .ok u ↔
      clock.accountId = clock01ProgramAccountId ∧
        tick.accountId = TwapOracle.computeCurrentTickAccountPda oracle pool.accountId := by
  simp only [assertOracleAccounts, bind_eq_ok, ensure_eq_ok, exists_const]

def tickCall (oracle poolId : AccountId) (price : U128) (seed : PdaSeed) : ChainedCall :=
  (ChainedCall.new oracle [TwapOracle.computeCurrentTickAccountPda oracle poolId, poolId,
    clock01ProgramAccountId] (.twapOracle (.updateCurrentTick price))).withPdaSeeds [seed]

theorem updateTickCall_eq_ok (oracle : AccountId) (tick pool clock config : InputAccount)
    (q : PoolDefinition) (reserveA reserveB : U128) (call : ChainedCall)
    (hc : clock.accountId = clock01ProgramAccountId)
    (ht : tick.accountId = TwapOracle.computeCurrentTickAccountPda oracle pool.accountId) :
    updateTickCall oracle tick pool clock config q reserveA reserveB = .ok call ↔
      ∃ price seed, spotPriceQ6464 reserveA reserveB = .ok price ∧
        computePoolPdaSeed config.accountId q.definitionTokenAId q.definitionTokenBId = .ok seed ∧
        call = tickCall oracle pool.accountId price seed := by
  simp only [updateTickCall, bind_eq_ok, pure_eq_ok, hc, ht]
  constructor
  · rintro ⟨price, hp, seed, hs, rfl⟩
    exact ⟨price, seed, hp, hs, rfl⟩
  · rintro ⟨price, seed, hp, hs, rfl⟩
    exact ⟨price, hp, seed, hs, rfl⟩

structure PoolReads (program : AccountId) (w : Accounts) (c x : AccountId) (cfg : AmmConfig)
    (q : PoolDefinition) : Prop where
  config : Holds program (w c) (.ammConfig cfg)
  stored : (w x).data = .poolDefinition q
  derived : computePoolPda program c q.definitionTokenAId q.definitionTokenBId = .ok x

section
variable (self : AccountId)

structure VaultReads (w : Accounts) (q : PoolDefinition) (token : Side → AccountId)
    (balance : Side → U128) : Prop where
  holds : ∀ side, (w (q.vault side)).data = .tokenHolding (.fungible (token side) (balance side))
  covers : ∀ side, (q.reserve side).val ≤ (balance side).val

inductive Priced (reserveIn reserveOut feeBps : U128) : Instruction → SwapAmounts → Prop
  | exactInput (swapAmountIn minAmountOut : U128) (deadline : U64) (amounts : SwapAmounts)
      (priced : exactInputAmounts swapAmountIn minAmountOut reserveIn reserveOut feeBps
        = .ok amounts) :
      Priced reserveIn reserveOut feeBps (.swapExactInput swapAmountIn minAmountOut deadline) amounts
  | exactOutput (exactAmountOut maxAmountIn : U128) (deadline : U64) (amounts : SwapAmounts)
      (priced : exactOutputAmounts exactAmountOut maxAmountIn reserveIn reserveOut feeBps
        = .ok amounts) :
      Priced reserveIn reserveOut feeBps (.swapExactOutput exactAmountOut maxAmountIn deadline)
        amounts

def swappedSide (q : PoolDefinition) (side : Side) (deposit withdraw : U128) :
    Outcome PoolDefinition :=
  match side with
  | .a => swappedPool q deposit (zero 128) (zero 128) withdraw
  | .b => swappedPool q (zero 128) withdraw deposit (zero 128)

def lpMintCall (tokenProgramId poolId lp holdingId : AccountId) (amount : U128) : ChainedCall :=
  (ChainedCall.new tokenProgramId [lp, holdingId]
    (.token (.mint amount))).withPdaSeeds [computeLiquidityTokenPdaSeed poolId]

def lpBurnCall (tokenProgramId poolId lp holdingId : AccountId) (amount : U128) : ChainedCall :=
  (ChainedCall.new tokenProgramId [lp, holdingId]
    (.token (.burn amount))).withPdaSeeds [computeLiquidityTokenPdaSeed poolId]

def lpLockCall (tokenProgramId poolId : AccountId) : ChainedCall :=
  (ChainedCall.new tokenProgramId
    [computeLiquidityTokenPda self poolId, computeLpLockHoldingPda self poolId]
    (.token (.newFungibleDefinition "LP Token" minimumLiquidity
      (some (computeLiquidityTokenPda self poolId))))).withPdaSeeds
    [computeLiquidityTokenPdaSeed poolId, computeLpLockHoldingPdaSeed poolId]

def createTickCall (oracle poolId : AccountId) (price : U128) (seed : PdaSeed) : ChainedCall :=
  (ChainedCall.new oracle [TwapOracle.computeCurrentTickAccountPda oracle poolId, poolId,
    clock01ProgramAccountId] (.twapOracle (.createCurrentTickAccount price))).withPdaSeeds [seed]

def swapCalls (tokenProgramId c x i o vaultIn vaultOut feeHolding tokenIn tokenOut : AccountId)
    (amounts : SwapAmounts) (protocolFee : U128) : List ChainedCall :=
  [transferCall tokenProgramId i vaultIn amounts.amountIn [],
    transferCall tokenProgramId vaultOut o amounts.amountOut [computeVaultPdaSeed x tokenOut]] ++
  (if protocolFee.val ≠ 0 then
    [transferCall tokenProgramId vaultIn feeHolding protocolFee
      [computeVaultPdaSeed x tokenIn, computeProtocolFeePdaSeed c tokenIn]]
  else [])

def createdPool (x tokenA tokenB : AccountId) (initialLp amountA amountB : U128) :
    PoolDefinition :=
  ⟨tokenA, tokenB, computeVaultPda self x tokenA, computeVaultPda self x tokenB,
    computeLiquidityTokenPda self x, initialLp, amountA, amountB⟩

inductive Step (w : Accounts) (authority : List AccountId) :
    List AccountId → Instruction → Accounts → List ChainedCall → Prop
  | initializeConfig (owner : AccountId) (nonce : U256) (cfg : AmmConfig)
      (authorized : owner ∈ authority)
      (fresh : w (computeConfigPda self owner nonce) = default)
      (swapFee : cfg.swapFeeBps.val < 10000) (protocolFee : cfg.protocolFeeBps.val ≤ 10000) :
      Step w authority [owner, computeConfigPda self owner nonce]
        (.initializeConfig nonce cfg.tokenProgramId cfg.twapOracleProgramId cfg.authority
          cfg.swapFeeBps cfg.protocolFeeBps)
        (put self w (computeConfigPda self owner nonce) (.ammConfig cfg)) []
  | updateConfig (c a new : AccountId) (cfg : AmmConfig)
      (config : Holds self (w c) (.ammConfig cfg)) (entitled : a = cfg.authority)
      (authorized : a ∈ authority) :
      Step w authority [c, a] (.updateConfig new)
        (put self w c (.ammConfig { cfg with authority := new })) []
  | withdrawProtocolFees (c destination a : AccountId) (cfg : AmmConfig) (amount : U128)
      (holding : Token.TokenHolding AccountId) (config : Holds self (w c) (.ammConfig cfg))
      (entitled : a = cfg.authority) (authorized : a ∈ authority)
      (fees : Holds cfg.tokenProgramId (w (computeProtocolFeePda self c holding.definitionId))
        (.tokenHolding holding)) :
      Step w authority [c, computeProtocolFeePda self c holding.definitionId, destination, a]
        (.withdrawProtocolFees amount) w
        [transferCall cfg.tokenProgramId (computeProtocolFeePda self c holding.definitionId)
          destination amount [computeProtocolFeePdaSeed c holding.definitionId]]
  | newDefinition (c x ua ub ul : AccountId) (a b : U128) (deadline : U64) (cfg : AmmConfig)
      (holdingA holdingB : Token.TokenHolding AccountId) (initialLp userLp price : U128)
      (seed : PdaSeed) (config : Holds self (w c) (.ammConfig cfg))
      (dataA : (w ua).data = .tokenHolding holdingA) (dataB : (w ub).data = .tokenHolding holdingB)
      (distinct : holdingA.definitionId ≠ holdingB.definitionId)
      (derived : computePoolPda self c holdingA.definitionId holdingB.definitionId = .ok x)
      (fresh : w x = default) (positiveA : a.val ≠ 0) (positiveB : b.val ≠ 0)
      (root : isqrtProduct a b = .ok initialLp) (above : 1000 < initialLp.val)
      (rest : userLp.val + 1000 = initialLp.val) (spot : spotPriceQ6464 a b = .ok price)
      (seeded : computePoolPdaSeed c holdingA.definitionId holdingB.definitionId = .ok seed) :
      Step w authority [c, x, computeVaultPda self x holdingA.definitionId,
          computeVaultPda self x holdingB.definitionId, computeLiquidityTokenPda self x,
          computeLpLockHoldingPda self x, ua, ub, ul,
          TwapOracle.computeCurrentTickAccountPda cfg.twapOracleProgramId x,
          clock01ProgramAccountId] (.newDefinition a b deadline)
        (put self w x (.poolDefinition (createdPool self x holdingA.definitionId
          holdingB.definitionId initialLp a b)))
        [lpLockCall self cfg.tokenProgramId x,
          lpMintCall cfg.tokenProgramId x (computeLiquidityTokenPda self x) ul userLp,
          transferCall cfg.tokenProgramId ub (computeVaultPda self x holdingB.definitionId) b
            [computeVaultPdaSeed x holdingB.definitionId],
          transferCall cfg.tokenProgramId ua (computeVaultPda self x holdingA.definitionId) a
            [computeVaultPdaSeed x holdingA.definitionId],
          createTickCall cfg.twapOracleProgramId x price seed]
  | addLiquidity (c x ua ub ul : AccountId) (minLp maxA maxB : U128) (deadline : U64)
      (cfg : AmmConfig) (q q' : PoolDefinition) (token : Side → AccountId) (balance : Side → U128)
      (amountA amountB deltaLp price : U128) (seed : PdaSeed)
      (reads : PoolReads self w c x cfg q) (vaults : VaultReads w q token balance)
      (amounts : liquidityToAdd q minLp maxA maxB = .ok (amountA, amountB, deltaLp))
      (updated : addedPool q amountA amountB deltaLp = .ok q')
      (written : MayWrite self (w x) (.poolDefinition q'))
      (spot : spotPriceQ6464 q'.reserveA q'.reserveB = .ok price)
      (seeded : computePoolPdaSeed c q.definitionTokenAId q.definitionTokenBId = .ok seed) :
      Step w authority [c, x, q.vaultAId, q.vaultBId, q.liquidityPoolId, ua, ub, ul,
          TwapOracle.computeCurrentTickAccountPda cfg.twapOracleProgramId x,
          clock01ProgramAccountId] (.addLiquidity minLp maxA maxB deadline)
        (put self w x (.poolDefinition q'))
        [lpMintCall cfg.tokenProgramId x q.liquidityPoolId ul deltaLp,
          transferCall cfg.tokenProgramId ub q.vaultBId amountB [],
          transferCall cfg.tokenProgramId ua q.vaultAId amountA [],
          tickCall cfg.twapOracleProgramId x price seed]
  | removeLiquidity (c x ua ub ul : AccountId) (amount minA minB : U128) (deadline : U64)
      (cfg : AmmConfig) (q q' : PoolDefinition) (lpBalance amountA amountB price : U128)
      (seed : PdaSeed) (reads : PoolReads self w c x cfg q) (positive : amount.val ≠ 0)
      (lpData : (w ul).data = .tokenHolding (.fungible q.liquidityPoolId lpBalance))
      (positiveA : minA.val ≠ 0) (positiveB : minB.val ≠ 0)
      (amounts : liquidityToRemove q lpBalance amount minA minB = .ok (amountA, amountB))
      (updated : removedPool q amountA amountB amount = .ok q')
      (written : MayWrite self (w x) (.poolDefinition q'))
      (spot : spotPriceQ6464 q'.reserveA q'.reserveB = .ok price)
      (seeded : computePoolPdaSeed c q.definitionTokenAId q.definitionTokenBId = .ok seed) :
      Step w authority [c, x, q.vaultAId, q.vaultBId, q.liquidityPoolId, ua, ub, ul,
          TwapOracle.computeCurrentTickAccountPda cfg.twapOracleProgramId x,
          clock01ProgramAccountId] (.removeLiquidity amount minA minB deadline)
        (put self w x (.poolDefinition q'))
        [lpBurnCall cfg.tokenProgramId x q.liquidityPoolId ul amount,
          transferCall cfg.tokenProgramId q.vaultBId ub amountB
            [computeVaultPdaSeed x q.definitionTokenBId],
          transferCall cfg.tokenProgramId q.vaultAId ua amountA
            [computeVaultPdaSeed x q.definitionTokenAId],
          tickCall cfg.twapOracleProgramId x price seed]
  | syncReserves (c x : AccountId) (cfg : AmmConfig) (q : PoolDefinition)
      (token : Side → AccountId) (balance : Side → U128) (price : U128) (seed : PdaSeed)
      (reads : PoolReads self w c x cfg q) (owned : (w x).programOwner = self)
      (vaults : VaultReads w q token balance)
      (spot : spotPriceQ6464 (balance .a) (balance .b) = .ok price)
      (seeded : computePoolPdaSeed c q.definitionTokenAId q.definitionTokenBId = .ok seed) :
      Step w authority [c, x, q.vaultAId, q.vaultBId,
          TwapOracle.computeCurrentTickAccountPda cfg.twapOracleProgramId x,
          clock01ProgramAccountId] .syncReserves
        (put self w x (.poolDefinition { q with reserveA := balance .a, reserveB := balance .b }))
        [tickCall cfg.twapOracleProgramId x price seed]
  | swap (instruction : Instruction) (side : Side) (c x i o : AccountId) (cfg : AmmConfig)
      (q q' : PoolDefinition) (token : Side → AccountId) (balance : Side → U128)
      (holding : Token.TokenHolding AccountId) (amounts : SwapAmounts)
      (swapFee protocolFee net price : U128) (seed : PdaSeed)
      (reads : PoolReads self w c x cfg q) (vaults : VaultReads w q token balance)
      (input : (w i).data = .tokenHolding holding) (inputToken : holding.definitionId = q.token side)
      (priced : Priced (q.reserve side) (q.reserve side.other) cfg.swapFeeBps instruction amounts)
      (fee : swapFee.val + amounts.effectiveAmountIn.val = amounts.amountIn.val)
      (share : protocolFeeAmount swapFee cfg.protocolFeeBps = .ok protocolFee)
      (rest : net.val + protocolFee.val = amounts.amountIn.val)
      (updated : swappedSide q side net amounts.amountOut = .ok q')
      (written : MayWrite self (w x) (.poolDefinition q'))
      (spot : spotPriceQ6464 q'.reserveA q'.reserveB = .ok price)
      (seeded : computePoolPdaSeed c q.definitionTokenAId q.definitionTokenBId = .ok seed) :
      Step w authority [c, x, q.vaultAId, q.vaultBId, i, o,
          TwapOracle.computeCurrentTickAccountPda cfg.twapOracleProgramId x,
          clock01ProgramAccountId, computeProtocolFeePda self c (q.token side)] instruction
        (put self w x (.poolDefinition q'))
        (swapCalls cfg.tokenProgramId c x i o (q.vault side) (q.vault side.other)
          (computeProtocolFeePda self c (q.token side)) (token side) (token side.other) amounts
          protocolFee ++ [tickCall cfg.twapOracleProgramId x price seed])

variable (w w' : Accounts) (authority : List AccountId) (diffs : List StateDiff)
  (calls : List ChainedCall)

theorem vaultReads_of_balances (q : PoolDefinition) (balanceA balanceB : U128)
    (ha : ∃ d, (w q.vaultAId).data = .tokenHolding (.fungible d balanceA))
    (hb : ∃ d, (w q.vaultBId).data = .tokenHolding (.fungible d balanceB))
    (hra : q.reserveA.val ≤ balanceA.val) (hrb : q.reserveB.val ≤ balanceB.val) :
    ∃ token balance, VaultReads w q token balance ∧ balance .a = balanceA ∧
      balance .b = balanceB := by
  obtain ⟨da, ha⟩ := ha
  obtain ⟨db, hb⟩ := hb
  refine ⟨fun | .a => da | .b => db, fun | .a => balanceA | .b => balanceB, ⟨?_, ?_⟩, rfl, rfl⟩
  · rintro (_ | _)
    · exact ha
    · exact hb
  · rintro (_ | _)
    · exact hra
    · exact hrb

theorem initializeConfig_step (o c : AccountId) (nonce : U256) (t r a : AccountId)
    (swapFee protocolFee : U128)
    (h : initializeConfig (view w authority o) (view w authority c) nonce t r a swapFee protocolFee
      self = .ok (diffs, calls))
    (ha : applyDiffs self w diffs = .ok w') :
    Step self w authority [o, c] (.initializeConfig nonce t r a swapFee protocolFee) w' calls := by
  simp only [initializeConfig, assertValidSwapFeeBps, assertValidProtocolFeeBps, bind_eq_ok,
    ensure_eq_ok, exists_const, pure_eq_ok, Prod.mk.injEq] at h
  simp only [view_account, view_isAuthorized, view_accountId] at h
  obtain ⟨hauth, rfl, hfresh, hs, hp, rfl, rfl⟩ := h
  simp only [applyDiffs_unchanged, applyDiffs_new, view_accountId, applyDiffs_nil,
    Except.ok.injEq] at ha
  obtain ⟨-, rfl⟩ := ha
  exact Step.initializeConfig o nonce ⟨t, r, a, swapFee, protocolFee⟩ hauth hfresh hs hp

theorem updateConfig_step (c a new : AccountId)
    (h : updateConfig (view w authority c) (view w authority a) new self = .ok (diffs, calls))
    (ha : applyDiffs self w diffs = .ok w') :
    Step self w authority [c, a] (.updateConfig new) w' calls := by
  simp only [updateConfig, decodeConfig_eq_ok, bind_eq_ok, ensure_eq_ok, exists_const, pure_eq_ok,
    Prod.mk.injEq] at h
  simp only [view_account, view_isAuthorized, view_accountId] at h
  obtain ⟨cfg, hc, hent, hauth, rfl, rfl⟩ := h
  simp only [applyDiffs_unchanged, applyDiffs_new, view_accountId, applyDiffs_nil,
    Except.ok.injEq] at ha
  obtain ⟨-, rfl⟩ := ha
  exact Step.updateConfig c a new cfg hc hent hauth

theorem withdrawProtocolFees_step (c f r a : AccountId) (amount : U128)
    (h : withdrawProtocolFees (view w authority c) (view w authority f) (view w authority r)
      (view w authority a) amount self = .ok (diffs, calls))
    (ha : applyDiffs self w diffs = .ok w') :
    Step self w authority [c, f, r, a] (.withdrawProtocolFees amount) w' calls := by
  simp only [withdrawProtocolFees, decodeConfig_eq_ok, bind_eq_ok, ensure_eq_ok, exists_const,
    expect_eq_ok, tryFrom_holding, pure_eq_ok, Prod.mk.injEq] at h
  simp only [view_account, view_isAuthorized, view_accountId] at h
  obtain ⟨cfg, hc, hent, hauth, howner, holding, hdata, rfl, -, _, -, -, rfl, rfl⟩ := h
  simp only [applyDiffs_unchanged, applyDiffs_nil, Except.ok.injEq] at ha
  subst ha
  exact Step.withdrawProtocolFees c r a cfg amount holding hc hent hauth ⟨howner, hdata⟩

theorem newDefinition_step (c x va vb lp lk ua ub ul t k : AccountId) (a b : U128)
    (deadline : U64) (hpa : a.val ≠ 0) (hpb : b.val ≠ 0)
    (h : newDefinition (view w authority c) (view w authority x) (view w authority va)
      (view w authority vb) (view w authority lp) (view w authority lk) (view w authority ua)
      (view w authority ub) (view w authority ul) (view w authority t) (view w authority k) a b
      self = .ok (diffs, calls))
    (ha : applyDiffs self w diffs = .ok w') :
    Step self w authority [c, x, va, vb, lp, lk, ua, ub, ul, t, k] (.newDefinition a b deadline) w'
      calls := by
  simp only [newDefinition, decodeConfig_eq_ok, bind_eq_ok, ensure_eq_ok, exists_const,
    expect_eq_ok, tryFrom_holding, pure_eq_ok, checkedSub_eq_some, Prod.mk.injEq] at h
  simp only [view_account, view_isAuthorized, view_accountId] at h
  obtain ⟨holdingA, hda, holdingB, hdb, cfg, hc, -, -, hne, _, hx, rfl, rfl, rfl, rfl, rfl, hfresh,
    -, rfl, rfl, initialLp, hroot, habove, userLp, hrest, price, hspot, seed, hseed, rfl, rfl⟩ := h
  simp only [applyDiffs_unchanged, applyDiffs_new, view_accountId, applyDiffs_nil,
    Except.ok.injEq] at ha
  obtain ⟨-, rfl⟩ := ha
  exact Step.newDefinition c x ua ub ul a b deadline cfg holdingA holdingB initialLp userLp price
    seed hc hda hdb hne hx hfresh hpa hpb hroot habove hrest hspot hseed

theorem addLiquidity_step (c x va vb lp ua ub ul t k : AccountId) (minLp maxA maxB : U128)
    (deadline : U64)
    (h : addLiquidity (view w authority c) (view w authority x) (view w authority va)
      (view w authority vb) (view w authority lp) (view w authority ua) (view w authority ub)
      (view w authority ul) (view w authority t) (view w authority k) minLp maxA maxB self
      = .ok (diffs, calls))
    (ha : applyDiffs self w diffs = .ok w') :
    Step self w authority [c, x, va, vb, lp, ua, ub, ul, t, k]
      (.addLiquidity minLp maxA maxB deadline) w' calls := by
  simp only [addLiquidity, decodeConfig_eq_ok, assertPoolInConfigNamespace_eq_ok,
    assertOracleAccounts_eq_ok, bind_eq_ok, ensure_eq_ok, exists_const, expect_eq_ok,
    tryFrom_poolDefinition, pure_eq_ok, Prod.exists, readVaultFungibleBalances_eq_ok,
    Prod.mk.injEq] at h
  simp only [view_account, view_accountId] at h
  obtain ⟨cfg, hc, q, hq, hx, rfl, rfl, rfl, -, -, -, -, ⟨hk, ht⟩, -, balanceA, balanceB,
    ⟨hba, hbb⟩, hra, hrb, amountA, amountB, deltaLp, hamounts, q', hupdated, call, hcall, rfl,
    rfl⟩ := h
  obtain ⟨price, seed, hspot, hseed, rfl⟩ := (updateTickCall_eq_ok _ _ _ _ _ _ _ _ _ hk ht).mp hcall
  simp only [applyDiffs_unchanged, applyDiffs_new, view_accountId, applyDiffs_nil,
    Except.ok.injEq] at ha
  obtain ⟨hw, rfl⟩ := ha
  obtain ⟨token, balance, hv, -, -⟩ := vaultReads_of_balances w q balanceA balanceB hba hbb hra hrb
  rw [hk, ht]
  exact Step.addLiquidity c x ua ub ul minLp maxA maxB deadline cfg q q' token balance amountA
    amountB deltaLp price seed ⟨hc, hq, hx⟩ hv hamounts hupdated hw hspot hseed

theorem removeLiquidity_step (c x va vb lp ua ub ul t k : AccountId) (amount minA minB : U128)
    (deadline : U64) (hpositive : amount.val ≠ 0)
    (h : removeLiquidity (view w authority c) (view w authority x) (view w authority va)
      (view w authority vb) (view w authority lp) (view w authority ua) (view w authority ub)
      (view w authority ul) (view w authority t) (view w authority k) amount minA minB self
      = .ok (diffs, calls))
    (ha : applyDiffs self w diffs = .ok w') :
    Step self w authority [c, x, va, vb, lp, ua, ub, ul, t, k]
      (.removeLiquidity amount minA minB deadline) w' calls := by
  simp only [removeLiquidity, decodeConfig_eq_ok, assertPoolInConfigNamespace_eq_ok,
    assertOracleAccounts_eq_ok, bind_eq_ok, ensure_eq_ok, exists_const, expect_eq_ok,
    tryFrom_poolDefinition, tryFrom_holding, pure_eq_ok, Prod.exists, Prod.mk.injEq] at h
  simp only [view_account, view_accountId] at h
  obtain ⟨cfg, hc, q, hq, hx, -, rfl, rfl, rfl, -, -, -, -, ⟨hk, ht⟩, hminA, hminB, holding, hlp,
    lpBalance, hbalance, -, hdef, amountA, amountB, hamounts, q', hupdated, call, hcall, rfl,
    rfl⟩ := h
  obtain ⟨price, seed, hspot, hseed, rfl⟩ := (updateTickCall_eq_ok _ _ _ _ _ _ _ _ _ hk ht).mp hcall
  simp only [applyDiffs_unchanged, applyDiffs_new, view_accountId, applyDiffs_nil,
    Except.ok.injEq] at ha
  obtain ⟨hw, rfl⟩ := ha
  have hfungible : holding = .fungible q.liquidityPoolId lpBalance := by
    cases holding with
    | fungible d b =>
      rw [pure_eq_ok] at hbalance
      rw [hbalance, ← hdef]
      rfl
    | nftMaster d b => exact absurd hbalance (error_ne_ok _ _)
    | nftPrintedCopy d o => exact absurd hbalance (error_ne_ok _ _)
  rw [hk, ht]
  exact Step.removeLiquidity c x ua ub ul amount minA minB deadline cfg q q' lpBalance amountA
    amountB price seed ⟨hc, hq, hx⟩ hpositive (hfungible ▸ hlp) hminA hminB hamounts hupdated hw
    hspot hseed

theorem syncReserves_step (c x va vb t k : AccountId)
    (h : syncReserves (view w authority c) (view w authority x) (view w authority va)
      (view w authority vb) (view w authority t) (view w authority k) self = .ok (diffs, calls))
    (ha : applyDiffs self w diffs = .ok w') :
    Step self w authority [c, x, va, vb, t, k] .syncReserves w' calls := by
  simp only [syncReserves, decodeConfig_eq_ok, assertPoolInConfigNamespace_eq_ok,
    assertOracleAccounts_eq_ok, bind_eq_ok, ensure_eq_ok, exists_const, expect_eq_ok,
    tryFrom_poolDefinition, pure_eq_ok, Prod.exists, readVaultFungibleBalances_eq_ok,
    Prod.mk.injEq] at h
  simp only [view_account, view_accountId] at h
  obtain ⟨howned, q, hq, cfg, hc, hx, -, rfl, rfl, ⟨hk, ht⟩, balanceA, balanceB, ⟨hba, hbb⟩, hra,
    hrb, call, hcall, rfl, rfl⟩ := h
  obtain ⟨price, seed, hspot, hseed, rfl⟩ := (updateTickCall_eq_ok _ _ _ _ _ _ _ _ _ hk ht).mp hcall
  simp only [applyDiffs_unchanged, applyDiffs_new, view_accountId, applyDiffs_nil,
    Except.ok.injEq] at ha
  obtain ⟨-, rfl⟩ := ha
  obtain ⟨token, balance, hv, rfl, rfl⟩ :=
    vaultReads_of_balances w q balanceA balanceB hba hbb hra hrb
  rw [hk, ht]
  exact Step.syncReserves c x cfg q token balance price seed ⟨hc, hq, hx⟩ howned hv hspot hseed

theorem validateSwapSetup_eq_ok (pool vaultA vaultB : InputAccount) (q : PoolDefinition) :
    validateSwapSetup pool vaultA vaultB = .ok q ↔
      pool.account.data = .poolDefinition q ∧ 1000 ≤ q.liquidityPoolSupply.val ∧
        vaultA.accountId = q.vaultAId ∧ vaultB.accountId = q.vaultBId ∧
        ∃ balanceA balanceB, ((∃ d, vaultA.account.data = .tokenHolding (.fungible d balanceA)) ∧
          (∃ d, vaultB.account.data = .tokenHolding (.fungible d balanceB))) ∧
          q.reserveA.val ≤ balanceA.val ∧ q.reserveB.val ≤ balanceB.val := by
  simp only [validateSwapSetup, bind_eq_ok, expect_eq_ok, tryFrom_poolDefinition, ensure_eq_ok,
    exists_const, Prod.exists, readVaultFungibleBalances_eq_ok, pure_eq_ok]
  constructor
  · rintro ⟨_, h1, h2, h3, h4, balanceA, balanceB, h5, h6, h7, rfl⟩
    exact ⟨h1, h2, h3, h4, balanceA, balanceB, h5, h6, h7⟩
  · rintro ⟨h1, h2, h3, h4, balanceA, balanceB, h5, h6, h7⟩
    exact ⟨q, h1, h2, h3, h4, balanceA, balanceB, h5, h6, h7, rfl⟩

theorem settleSwap_eq_ok (context amountName : String) (userIn vaultIn vaultOut userOut :
    InputAccount) (amounts : SwapAmounts) (protocolFeeBps : U128) (feeHolding : InputAccount)
    (x c tokenIn tokenOut : AccountId) (balanceIn balanceOut : U128)
    (hin : vaultIn.account.data = .tokenHolding (.fungible tokenIn balanceIn))
    (hout : vaultOut.account.data = .tokenHolding (.fungible tokenOut balanceOut))
    (settled : List ChainedCall) (deposit withdraw : U128) :
    settleSwap context amountName userIn vaultIn vaultOut userOut amounts protocolFeeBps feeHolding
        x c = .ok (settled, deposit, withdraw) ↔
      ∃ swapFee protocolFee : U128,
        swapFee.val + amounts.effectiveAmountIn.val = amounts.amountIn.val ∧
          protocolFeeAmount swapFee protocolFeeBps = .ok protocolFee ∧
          deposit.val + protocolFee.val = amounts.amountIn.val ∧ withdraw = amounts.amountOut ∧
          settled = swapCalls userIn.account.programOwner c x userIn.accountId userOut.accountId
            vaultIn.accountId vaultOut.accountId feeHolding.accountId tokenIn tokenOut amounts
            protocolFee := by
  simp only [settleSwap, bind_eq_ok, expect_eq_ok, tryFrom_holding, checkedSub_eq_some, pure_eq_ok,
    hin, hout, Data.tokenHolding.injEq, Prod.mk.injEq]
  constructor
  · rintro ⟨_, rfl, swapFee, hs, protocolFee, hp, _, rfl, net, hn, rfl, rfl, rfl⟩
    exact ⟨swapFee, protocolFee, hs, hp, hn, rfl, rfl⟩
  · rintro ⟨swapFee, protocolFee, hs, hp, hn, rfl, rfl⟩
    exact ⟨_, rfl, swapFee, hs, protocolFee, hp, _, rfl, deposit, hn, rfl, rfl, rfl⟩

theorem swap_step (context logicContext amountName : String)
    (price : U128 → U128 → U128 → Outcome SwapAmounts) (instruction : Instruction)
    (hprice : ∀ reserveIn reserveOut feeBps amounts,
      price reserveIn reserveOut feeBps = .ok amounts →
        Priced reserveIn reserveOut feeBps instruction amounts)
    (c x va vb i o t k f : AccountId)
    (h : swap context logicContext amountName price (view w authority c) (view w authority x)
      (view w authority va) (view w authority vb) (view w authority i) (view w authority o)
      (view w authority t) (view w authority k) (view w authority f) self = .ok (diffs, calls))
    (ha : applyDiffs self w diffs = .ok w') :
    Step self w authority [c, x, va, vb, i, o, t, k, f] instruction w' calls := by
  simp only [swap, validateSwapSetup_eq_ok, decodeConfig_eq_ok, assertPoolInConfigNamespace_eq_ok,
    assertOracleAccounts_eq_ok, bind_eq_ok, ensure_eq_ok, exists_const, expect_eq_ok,
    tryFrom_holding, pure_eq_ok, Prod.exists, Prod.mk.injEq] at h
  simp only [view_account, view_accountId] at h
  obtain ⟨q, ⟨hq, -, rfl, rfl, balanceA, balanceB, ⟨hba, hbb⟩, hra, hrb⟩, cfg, hc, hx, -, -, holding,
    hi, hside, hownerA, hownerB, rfl, ⟨rfl, rfl⟩, amounts, hamounts, settled, deposit, withdraw,
    hsettle, q', hupdated, call, hcall, rfl, rfl⟩ := h
  obtain ⟨tickPrice, seed, hspot, hseed, rfl⟩ := (updateTickCall_eq_ok _ _ _ _ _ _ _ _ _ rfl rfl).mp hcall
  simp only [applyDiffs_unchanged, applyDiffs_new, view_accountId, applyDiffs_nil,
    Except.ok.injEq] at ha
  obtain ⟨hw, rfl⟩ := ha
  obtain ⟨token, balance, hv, -, -⟩ := vaultReads_of_balances w q balanceA balanceB hba hbb hra hrb
  by_cases hA : holding.definitionId = q.definitionTokenAId
  · simp only [hA, decide_true, if_true, view_account] at hownerA hownerB hamounts hsettle hupdated
    obtain ⟨swapFee, protocolFee, hfee, hshare, hrest, rfl, rfl⟩ :=
      (settleSwap_eq_ok _ _ _ _ _ _ _ _ _ _ _ _ _ _ _ (hv.holds .a) (hv.holds .b) _ _ _).mp hsettle
    rw [hA, view_account, hownerA]
    exact Step.swap instruction .a c x i o cfg q q' token balance holding amounts swapFee protocolFee
      deposit tickPrice seed ⟨hc, hq, hx⟩ hv hi hA (hprice _ _ _ _ hamounts) hfee hshare hrest
      hupdated hw hspot hseed
  · have hB := hside.resolve_left hA
    simp only [hA, decide_false, Bool.false_eq_true, if_false,
      view_account] at hownerA hownerB hamounts hsettle hupdated
    obtain ⟨swapFee, protocolFee, hfee, hshare, hrest, rfl, rfl⟩ :=
      (settleSwap_eq_ok _ _ _ _ _ _ _ _ _ _ _ _ _ _ _ (hv.holds .b) (hv.holds .a) _ _ _).mp hsettle
    rw [hB, view_account, hownerB]
    exact Step.swap instruction .b c x i o cfg q q' token balance holding amounts swapFee protocolFee
      deposit tickPrice seed ⟨hc, hq, hx⟩ hv hi hB (hprice _ _ _ _ hamounts) hfee hshare hrest
      hupdated hw hspot hseed

theorem withTimestampValidityWindow_eq_ok (now deadline : U64) (output : HandlerResult)
    (r : List StateDiff × List ChainedCall) :
    withTimestampValidityWindow now deadline output = .ok r ↔
      output = .ok r ∧ now.val < deadline.val := by
  simp only [withTimestampValidityWindow, bind_eq_ok, ensure_eq_ok, exists_const, pure_eq_ok]
  constructor
  · rintro ⟨_, h, hd, rfl⟩
    exact ⟨h, hd⟩
  · rintro ⟨h, hd⟩
    exact ⟨r, h, hd, rfl⟩

/-- Every successful execution of the AMM is one of the listed steps. -/
theorem step_of_main (now : U64) (ids : List AccountId) (instruction : Instruction)
    (h : main self now (ids.map (view w authority)) instruction = .ok (diffs, calls))
    (ha : applyDiffs self w diffs = .ok w') :
    Step self w authority ids instruction w' calls := by
  rcases ids with _ | ⟨i, _ | ⟨j, _ | ⟨k, _ | ⟨l, _ | ⟨m, _ | ⟨n, _ | ⟨o, _ | ⟨p, _ | ⟨q, _ |
    ⟨r, _ | ⟨s, _ | ⟨t, ids⟩⟩⟩⟩⟩⟩⟩⟩⟩⟩⟩⟩
  · cases instruction <;> exact absurd h (error_ne_ok _ _)
  · cases instruction <;> exact absurd h (error_ne_ok _ _)
  · cases instruction with
    | initializeConfig nonce t r a swapFee protocolFee =>
      exact initializeConfig_step self w w' authority diffs calls i j nonce t r a swapFee
        protocolFee h ha
    | updateConfig new => exact updateConfig_step self w w' authority diffs calls i j new h ha
    | _ => exact absurd h (error_ne_ok _ _)
  · cases instruction <;> exact absurd h (error_ne_ok _ _)
  · cases instruction with
    | withdrawProtocolFees amount =>
      exact withdrawProtocolFees_step self w w' authority diffs calls i j k l amount h ha
    | _ => exact absurd h (error_ne_ok _ _)
  · cases instruction <;> exact absurd h (error_ne_ok _ _)
  · cases instruction with
    | syncReserves => exact syncReserves_step self w w' authority diffs calls i j k l m n h ha
    | _ => exact absurd h (error_ne_ok _ _)
  · cases instruction <;> exact absurd h (error_ne_ok _ _)
  · cases instruction <;> exact absurd h (error_ne_ok _ _)
  · cases instruction with
    | swapExactInput amountIn minOut deadline =>
      obtain ⟨h, -⟩ := (withTimestampValidityWindow_eq_ok _ _ _ _).mp h
      exact swap_step self w w' authority diffs calls _ _ _ _ _
        (fun _ _ _ amounts hp => .exactInput amountIn minOut deadline amounts hp)
        i j k l m n o p q h ha
    | swapExactOutput amountOut maxIn deadline =>
      obtain ⟨h, -⟩ := (withTimestampValidityWindow_eq_ok _ _ _ _).mp h
      exact swap_step self w w' authority diffs calls _ _ _ _ _
        (fun _ _ _ amounts hp => .exactOutput amountOut maxIn deadline amounts hp)
        i j k l m n o p q h ha
    | _ => exact absurd h (error_ne_ok _ _)
  · cases instruction with
    | addLiquidity minLp maxA maxB deadline =>
      simp only [main, List.map_cons, List.map_nil, bind_eq_ok, ensure_eq_ok, exists_const,
        withTimestampValidityWindow_eq_ok] at h
      exact addLiquidity_step self w w' authority diffs calls i j k l m n o p q r minLp maxA maxB
        deadline h.2.1 ha
    | removeLiquidity amount minA minB deadline =>
      simp only [main, List.map_cons, List.map_nil, bind_eq_ok, ensure_eq_ok, exists_const,
        withTimestampValidityWindow_eq_ok] at h
      exact removeLiquidity_step self w w' authority diffs calls i j k l m n o p q r amount minA
        minB deadline h.1 h.2.1 ha
    | _ => exact absurd h (error_ne_ok _ _)
  · cases instruction with
    | newDefinition a b deadline =>
      simp only [main, List.map_cons, List.map_nil, bind_eq_ok, ensure_eq_ok, exists_const,
        withTimestampValidityWindow_eq_ok] at h
      exact newDefinition_step self w w' authority diffs calls i j k l m n o p q r s a b deadline
        h.1 h.2.1 h.2.2.1 ha
    | _ => exact absurd h (error_ne_ok _ _)
  · cases instruction <;> exact absurd h (error_ne_ok _ _)

end

end LezPrograms.Amm
