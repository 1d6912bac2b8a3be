import LezPrograms.Amm.Operations

/-! # The invariant of the AMM

The vaults of a pool cover its reserves, its LP token has no more supply than the
pool counts, and the lock keeps the locked minimum. Nobody but the pool's own
instructions takes anything from these accounts. -/

set_option autoImplicit false

namespace LezPrograms.Amm
open LezPrograms.Checked LezPrograms.Lee LezPrograms.Token

/-- The token accounts of the pool at `x` lose nothing, but for LP tokens that are burned. -/
structure Undrained (x : AccountId) (w w' : Accounts) : Prop where
  vaults : ∀ token held, HoldingAt w (computeVaultPda ammProgramId x token) held →
    ∃ held', HoldingAt w' (computeVaultPda ammProgramId x token) held' ∧ Grown held held'
  lock : ∀ held, HoldingAt w (computeLpLockHoldingPda ammProgramId x) held →
    ∃ held', HoldingAt w' (computeLpLockHoldingPda ammProgramId x) held' ∧ Grown held held'
  liquidity : ∀ d, DefinitionAt w (computeLiquidityTokenPda ammProgramId x) d →
    d.mintAuthority = some (computeLiquidityTokenPda ammProgramId x) →
      ∃ d', DefinitionAt w' (computeLiquidityTokenPda ammProgramId x) d' ∧
        d'.mintAuthority = some (computeLiquidityTokenPda ammProgramId x) ∧
        (d'.isFungible ↔ d.isFungible) ∧ d'.supply ≤ d.supply

theorem Undrained.of_owned (x : AccountId) (w w' : Accounts)
    (h : owned tokenProgramId w' = owned tokenProgramId w) : Undrained x w w' where
  vaults _ held hh := ⟨held, by rwa [HoldingAt, h], Grown.refl held⟩
  lock held hh := ⟨held, by rwa [HoldingAt, h], Grown.refl held⟩
  liquidity d hd hm := ⟨d, by rwa [DefinitionAt, h], hm, Iff.rfl, le_rfl⟩

theorem Undrained.trans (x : AccountId) (w v u : Accounts) (h : Undrained x w v)
    (k : Undrained x v u) : Undrained x w u where
  vaults token held hh := by
    obtain ⟨b, hb, hg⟩ := h.vaults token held hh
    obtain ⟨c, hc, hg'⟩ := k.vaults token b hb
    exact ⟨c, hc, hg.trans _ _ _ hg'⟩
  lock held hh := by
    obtain ⟨b, hb, hg⟩ := h.lock held hh
    obtain ⟨c, hc, hg'⟩ := k.lock b hb
    exact ⟨c, hc, hg.trans _ _ _ hg'⟩
  liquidity d hd hm := by
    obtain ⟨b, hb, hbm, hs, hle⟩ := h.liquidity d hd hm
    obtain ⟨c, hc, hcm, hs', hle'⟩ := k.liquidity b hb hbm
    exact ⟨c, hc, hcm, hs'.trans hs, hle'.trans hle⟩

theorem Undrained.of_foreign (x : AccountId) (w w' : Accounts) (h : Foreign ammProgramId w w') :
    Undrained x w w' where
  vaults _ held hh := h.holding_grows _ _ _ _ (derivedBy_forPublicPda _ _) held hh
  lock held hh := h.holding_grows _ _ _ _ (derivedBy_forPublicPda _ _) held hh
  liquidity d hd hm := h.definition_diminished _ _ _ _ _ (derivedBy_forPublicPda _ _) d hd hm

structure Spared (y : AccountId) (seed : PdaSeed) : Prop where
  vault : ∀ token, computeVaultPda ammProgramId y token ≠ .forPublicPda ammProgramId seed
  lock : computeLpLockHoldingPda ammProgramId y ≠ .forPublicPda ammProgramId seed
  liquidity : computeLiquidityTokenPda ammProgramId y ≠ .forPublicPda ammProgramId seed

theorem Granted.spared (c x y : AccountId) (seed : PdaSeed) (h : Granted c x seed) (hy : y ≠ x) :
    Spared y seed :=
  ⟨fun token => h.not_vault c x seed y token hy, h.not_lpLockHolding c x seed y,
    h.not_liquidityToken c x seed y hy⟩

theorem spared_lpLockHolding (x y : AccountId) (hy : y ≠ x) :
    Spared y (computeLpLockHoldingPdaSeed x) := by
  refine ⟨fun token he => ?_, fun he => ?_, fun he => ?_⟩
  · cases he
  · cases he
    exact hy rfl
  · cases he

/-- Calls that carry no key of the pool drain nothing. -/
theorem Undrained.of_settled (x : AccountId) (authority : List AccountId)
    (ho : Outside ammProgramId authority) (w w' : Accounts) (calls : List ChainedCall)
    (hseeds : ∀ call ∈ calls, ∀ seed ∈ call.pdaSeeds, Spared x seed)
    (h : Settled ammProgramId authority w calls w') : Undrained x w w' where
  vaults token held hh := h.holding_grows _ _ _ (ho.not_mem _ _ _) _ _ _
    (fun call hc seed hs => (hseeds call hc seed hs).vault token) held hh
  lock held hh := h.holding_grows _ _ _ (ho.not_mem _ _ _) _ _ _
    (fun call hc seed hs => (hseeds call hc seed hs).lock) held hh
  liquidity d hd hm := by
    obtain ⟨d', h1, h2, h3, h4⟩ := h.definition_burned _ _ _ _ (ho.not_mem _ _ _) _ _ _
      (fun call hc seed hs => (hseeds call hc seed hs).liquidity) d hd hm
    exact ⟨d', h1, h2, h3, by omega⟩

structure PoolSound (w : Accounts) (x : AccountId) (q : PoolDefinition) : Prop where
  configured : ∃ c cfg, ConfigAt w c cfg ∧ PoolOf c x q
  vaultIds : ∀ side, q.vault side = computeVaultPda ammProgramId x (q.token side)
  liquidityId : q.liquidityPoolId = computeLiquidityTokenPda ammProgramId x
  healthy : ConstantProduct.Healthy 1000 q.pool
  vaults : ∀ side, ∃ held, HoldingAt w (q.vault side) held ∧ held.definitionId = q.token side ∧
    (q.reserve side).val ≤ held.units
  liquidity : ∃ d, DefinitionAt w q.liquidityPoolId d ∧ d.isFungible ∧
    d.mintAuthority = some q.liquidityPoolId ∧ d.supply ≤ q.liquidityPoolSupply.val
  lock : ∃ held, HoldingAt w (computeLpLockHoldingPda ammProgramId x) held ∧
    held.definitionId = q.liquidityPoolId ∧ held.kind = .fungible ∧ 1000 ≤ held.units

structure Sound (w : Accounts) : Prop where
  configs : ∀ c cfg, ConfigAt w c cfg → cfg.Valid
  pools : ∀ x q, PoolAt w x q → PoolSound w x q

def ConfigsStay (w w' : Accounts) : Prop :=
  ∀ c cfg, ConfigAt w c cfg → ∃ cfg', ConfigAt w' c cfg'

theorem PoolSound.undrained (w w' : Accounts) (x : AccountId) (q : PoolDefinition)
    (h : PoolSound w x q) (hc : ConfigsStay w w') (hu : Undrained x w w') : PoolSound w' x q where
  configured := by
    obtain ⟨c, cfg, hcfg, hof⟩ := h.configured
    obtain ⟨cfg', hcfg'⟩ := hc c cfg hcfg
    exact ⟨c, cfg', hcfg', hof⟩
  vaultIds := h.vaultIds
  liquidityId := h.liquidityId
  healthy := h.healthy
  vaults side := by
    obtain ⟨held, hh, ht, hr⟩ := h.vaults side
    rw [h.vaultIds side] at hh ⊢
    obtain ⟨held', hh', hg⟩ := hu.vaults _ held hh
    exact ⟨held', hh', hg.token.trans ht, hr.trans hg.units⟩
  liquidity := by
    obtain ⟨d, hd, hf, hm, hs⟩ := h.liquidity
    rw [h.liquidityId] at hd hm ⊢
    obtain ⟨d', hd', hm', hf', hs'⟩ := hu.liquidity d hd hm
    exact ⟨d', hd', hf'.mpr hf, hm', hs'.trans hs⟩
  lock := by
    obtain ⟨held, hh, ht, hk, hr⟩ := h.lock
    obtain ⟨held', hh', hg⟩ := hu.lock held hh
    exact ⟨held', hh', hg.token.trans ht, hg.kind.trans hk, hr.trans hg.units⟩

/-- What happens outside the AMM keeps the invariant. -/
theorem Sound.foreign (w w' : Accounts) (h : Sound w) (hf : Foreign ammProgramId w w') :
    Sound w' := by
  have ho := hf.owned_eq _ _ _ (by decide) (by decide)
  refine ⟨fun c cfg hc => h.configs c cfg ?_, fun x q hq => ?_⟩
  · rwa [ConfigAt, ← ho]
  · refine (h.pools x q (by rwa [PoolAt, ← ho])).undrained w w' x q (fun c cfg hc => ⟨cfg, ?_⟩)
      (.of_foreign x w w' hf)
    rwa [ConfigAt, ho]

theorem sum_eq_zero_of_idle (calls : List ChainedCall) (f : ChainedCall → ℕ)
    (h : ∀ call ∈ calls, f call = 0) : (calls.map f).sum = 0 :=
  List.sum_eq_zero fun n hn => by
    obtain ⟨call, hc, rfl⟩ := List.mem_map.mp hn
    exact h call hc

section
variable (w v w' : Accounts) (authority : List AccountId) (ho : Outside ammProgramId authority)
  (calls : List ChainedCall) (hf : Frame ammProgramId w v)
  (hsettled : Settled ammProgramId authority v calls w')
include hf hsettled

/-- The stored reserves follow the vaults. -/
theorem Follows.covered (q q' : PoolDefinition) (instruction : Instruction)
    (hfollows : Follows w q q' calls instruction) (side : Side) (held : Holding)
    (hh : HoldingAt w (q.vault side) held) (hr : (q.reserve side).val ≤ held.units) :
    ∃ held', HoldingAt w' (q.vault side) held' ∧ held'.definitionId = held.definitionId ∧
      (q'.reserve side).val ≤ held'.units := by
  have htokens := owned_frame tokenProgramId _ _ _ hf (by decide) (by decide)
  have hv : HoldingAt v (q.vault side) held := by rwa [HoldingAt, htokens]
  obtain ⟨held', hh', ht, -, hflow⟩ := hsettled.holding_flows _ _ _ _ _ _ held hv
  refine ⟨held', hh', ht, ?_⟩
  cases hfollows with
  | transfers _ _ settled =>
    have := settled side
    omega
  | balances token holds idle =>
    have hdebit := sum_eq_zero_of_idle calls (fun call => call.debit (q.vault side))
      fun call hc => (idle call hc _).1
    have hcredit := sum_eq_zero_of_idle calls (fun call => call.credit (q.vault side))
      fun call hc => (idle call hc _).2
    have hdata := hh.data
    rw [holds side, Data.tokenHolding.injEq] at hdata
    subst hdata
    have hunits : (TokenHolding.fungible (token side) (q'.reserve side)).units
        = (q'.reserve side).val := rfl
    omega

include ho

/-- An operation keeps its own pool sound. -/
theorem Operation.sound (c x : AccountId) (q q' : PoolDefinition) (instruction : Instruction)
    (op : Operation w c x q q' instruction calls) (hs : PoolSound w x q) (hc : ConfigsStay w w') :
    PoolSound w' x q' where
  configured := by
    obtain ⟨c, cfg, hcfg, hof⟩ := hs.configured
    obtain ⟨cfg', hcfg'⟩ := hc c cfg hcfg
    exact ⟨c, cfg', hcfg', by rwa [PoolOf, op.same.tokenA, op.same.tokenB]⟩
  vaultIds side := by rw [op.same.vault, op.same.token, hs.vaultIds]
  liquidityId := by rw [op.same.liquidity, hs.liquidityId]
  healthy := op.move.healthy 1000 (by decide) _ _ hs.healthy
  vaults side := by
    obtain ⟨held, hh, ht, hr⟩ := hs.vaults side
    obtain ⟨held', hh', ht', hr'⟩ := op.follows.covered w v w' authority calls hf hsettled q q' _ side
      held hh hr
    rw [op.same.vault, op.same.token]
    exact ⟨held', hh', ht'.trans ht, hr'⟩
  liquidity := by
    have htokens := owned_frame tokenProgramId _ _ _ hf (by decide) (by decide)
    obtain ⟨d, hd, hfungible, hm, hsupply⟩ := hs.liquidity
    obtain ⟨d', hd', hr⟩ := hsettled.resupplied _ _ _ _ _ (fun call hc => (op.proper call hc).routine)
      q.liquidityPoolId d (by rwa [DefinitionAt, htokens])
    rw [op.same.liquidity]
    refine ⟨d', hd', hr.shape.mpr hfungible, hr.mintAuthority.trans hm, ?_⟩
    have := hr.supply
    have := op.shares
    omega
  lock := by
    have htokens := owned_frame tokenProgramId _ _ _ hf (by decide) (by decide)
    obtain ⟨held, hh, ht, hk, hr⟩ := hs.lock
    obtain ⟨held', hh', hg⟩ := hsettled.holding_grows _ _ _ (ho.not_mem _ _ _) _ _ _
      (fun call hc seed hseed => ((op.proper call hc).granted seed hseed).not_lpLockHolding c x seed x)
      held (by rwa [HoldingAt, htokens])
    rw [op.same.liquidity]
    exact ⟨held', hh', hg.token.trans ht, hg.kind.trans hk, hr.trans hg.units⟩

end

section
variable (w' : Accounts) (authority : List AccountId) (ho : Outside ammProgramId authority)
include ho

/-- What a transfer delivers to a vault stays there while the vault's key is not presented. -/
theorem vault_filled (v : Accounts) (tokenProgramId sender x token : AccountId) (n : U128)
    (hn : n.val ≠ 0) (held : Holding) (calls : List ChainedCall)
    (hseeds : ∀ call ∈ calls, ∀ seed ∈ call.pdaSeeds, computeVaultPda ammProgramId x token ≠
      .forPublicPda ammProgramId seed)
    (hs : (v sender).data = .tokenHolding held) (seeds : List PdaSeed)
    (h : Settled ammProgramId authority v
      (transferCall tokenProgramId sender (computeVaultPda ammProgramId x token) n seeds :: calls)
      w') :
    ∃ held', HoldingAt w' (computeVaultPda ammProgramId x token) held' ∧
      held'.definitionId = held.definitionId ∧ n.val ≤ held'.units := by
  cases h with
  | cons _ u _ _ _ first rest =>
    obtain ⟨-, ht⟩ := first.transition _ _ _ _ (.transfer n) rfl
    obtain ⟨b, hb, hbt, hbn⟩ := ht.delivered _ _ _ _ _ _ hn held hs
    obtain ⟨c, hc, hg⟩ := rest.holding_grows _ _ _ (ho.not_mem _ _ _) _ _ _ hseeds b hb
    exact ⟨c, hc, hg.token.trans hbt, hbn.trans hg.units⟩

/-- The LP token that a creation founds: its supply and its lock. -/
theorem liquidity_founded (v : Accounts) (tokenProgramId c x ul : AccountId) (userLp : U128)
    (calls : List ChainedCall) (hproper : ∀ call ∈ calls, Proper c x call)
    (hminted : (calls.map fun call =>
      call.minted (computeLiquidityTokenPda ammProgramId x)).sum = 0)
    (hburned : (calls.map fun call =>
      call.burned (computeLiquidityTokenPda ammProgramId x)).sum = 0)
    (h : Settled ammProgramId authority v (lpLockCall ammProgramId tokenProgramId x ::
      lpMintCall tokenProgramId x (computeLiquidityTokenPda ammProgramId x) ul userLp :: calls) w') :
    (∃ d, DefinitionAt w' (computeLiquidityTokenPda ammProgramId x) d ∧ d.isFungible ∧
      d.mintAuthority = some (computeLiquidityTokenPda ammProgramId x) ∧
      d.supply = 1000 + userLp.val) ∧
    ∃ held, HoldingAt w' (computeLpLockHoldingPda ammProgramId x) held ∧
      held.definitionId = computeLiquidityTokenPda ammProgramId x ∧ held.kind = .fungible ∧
      1000 ≤ held.units := by
  cases h with
  | cons _ u _ _ _ first rest =>
    obtain ⟨-, ht⟩ := first.transition _ _ _ _ _ rfl
    obtain ⟨hd, hk⟩ := ht.founded
    have hproper' : ∀ call ∈ lpMintCall tokenProgramId x (computeLiquidityTokenPda ammProgramId x)
        ul userLp :: calls, Proper c x call :=
      List.forall_mem_cons.mpr ⟨proper_lpMintCall _ _ _ _ _ _, hproper⟩
    constructor
    · obtain ⟨d', hd', hr⟩ := rest.resupplied _ _ _ _ _ (fun call hc => (hproper' call hc).routine)
        _ _ hd
      refine ⟨d', hd', hr.shape.mpr trivial, hr.mintAuthority, ?_⟩
      have hsupply := hr.supply
      simp only [List.map_cons, List.sum_cons, hminted, hburned, minted_lpMintCall,
        burned_lpMintCall, if_true, Nat.add_zero] at hsupply
      exact hsupply
    · obtain ⟨held', hh', hg⟩ := rest.holding_grows _ _ _ (ho.not_mem _ _ _) _ _ _
        (fun call hc seed hseed =>
          ((hproper' call hc).granted seed hseed).not_lpLockHolding c x seed x) _ hk
      exact ⟨held', hh', hg.token, hg.kind, hg.units⟩

/-- A created pool is sound. -/
theorem created_sound (w v : Accounts) (c x ua ub ul : AccountId) (a b : U128)
    (cfg cfg' : AmmConfig) (holdingA holdingB : Holding) (initialLp userLp price : U128)
    (seed : PdaSeed) (q : PoolDefinition)
    (hq : createdPool ammProgramId x holdingA.definitionId holdingB.definitionId initialLp a b = q)
    (config : ConfigAt w' c cfg') (hua : v ua = w ua) (hub : v ub = w ub)
    (dataA : (w ua).data = .tokenHolding holdingA) (dataB : (w ub).data = .tokenHolding holdingB)
    (poolOf : PoolOf c x q) (positiveA : a.val ≠ 0) (positiveB : b.val ≠ 0)
    (above : userLp.val + 1000 = initialLp.val)
    (seeded : computePoolPdaSeed c holdingA.definitionId holdingB.definitionId = .ok seed)
    (h : Settled ammProgramId authority v (creationCalls cfg x ua ub ul holdingA.definitionId
      holdingB.definitionId a b userLp price seed) w') :
    PoolSound w' x q := by
  have hdistinct := poolOf.distinct c x q
  subst hq
  have htick := proper_createTickCall x cfg.twapOracleProgramId price seed c _ _ seeded
  have hvault : ∀ token, ∀ s ∈ [seed],
      computeVaultPda ammProgramId x token ≠ .forPublicPda ammProgramId s := by
    intro token s hs he
    obtain ⟨-, _, _, hshape⟩ := computePoolPdaSeed_shape _ _ _ _ seeded
    rw [List.mem_singleton.mp hs, hshape] at he
    cases he
  obtain ⟨⟨d, hd, hfungible, hmint, hsupply⟩, hlock⟩ := liquidity_founded w' authority ho v
    cfg.tokenProgramId c x ul userLp _ (by
      simp only [List.forall_mem_cons, List.not_mem_nil, false_implies, implies_true, and_true]
      exact ⟨proper_transferCall _ _ _ _ _ _ _ (List.forall_mem_singleton.mpr (.vault _)),
        proper_transferCall _ _ _ _ _ _ _ (List.forall_mem_singleton.mpr (.vault _)), htick⟩)
    rfl rfl h
  -- the deposit of token B follows two token calls, that of token A three
  obtain ⟨u, hfirst, hlast⟩ := (settled_append ammProgramId authority v w'
    [_, _] [_, _, _]).mp h
  obtain ⟨heldB, hdataB, htokenB⟩ := hfirst.token_kept _ _ _ _ _ (by
    simp only [List.forall_mem_cons, List.not_mem_nil, false_implies, implies_true, and_true]
    exact ⟨⟨_, rfl⟩, ⟨_, rfl⟩⟩) ub holdingB (by rw [hub, dataB])
  obtain ⟨t, hsecond, hthird⟩ := (settled_append ammProgramId authority v w'
    [_, _, _] [_, _]).mp h
  obtain ⟨heldA, hdataA, htokenA⟩ := hsecond.token_kept _ _ _ _ _ (by
    simp only [List.forall_mem_cons, List.not_mem_nil, false_implies, implies_true, and_true]
    exact ⟨⟨_, rfl⟩, ⟨_, rfl⟩, ⟨_, rfl⟩⟩) ua holdingA (by rw [hua, dataA])
  obtain ⟨finalB, hfinalB, htB, hnB⟩ := vault_filled w' authority ho u cfg.tokenProgramId ub x
    holdingB.definitionId b positiveB heldB _ (by
      simp only [List.forall_mem_cons, List.not_mem_nil, false_implies, implies_true, and_true]
      refine ⟨?_, hvault _⟩
      intro s hs he
      rw [List.mem_singleton.mp hs] at he
      exact hdistinct (computeVaultPda_inj _ _ _ _ _ he).2.symm) hdataB _ hlast
  obtain ⟨finalA, hfinalA, htA, hnA⟩ := vault_filled w' authority ho t cfg.tokenProgramId ua x
    holdingA.definitionId a positiveA heldA _ (List.forall_mem_singleton.mpr (hvault _)) hdataA _
    hthird
  exact {
    configured := ⟨c, cfg', config, poolOf⟩
    vaultIds := fun side => by cases side <;> rfl
    liquidityId := rfl
    healthy := ⟨Nat.pos_of_ne_zero positiveA, Nat.pos_of_ne_zero positiveB, by
      change 1000 ≤ initialLp.val
      omega⟩
    vaults := by
      rintro (_ | _)
      · exact ⟨finalA, hfinalA, htA.trans htokenA, hnA⟩
      · exact ⟨finalB, hfinalB, htB.trans htokenB, hnB⟩
    liquidity := ⟨d, hd, hfungible, hmint, by
      change d.supply ≤ initialLp.val
      omega⟩
    lock := hlock }

end

/-- The AMM owns what it writes over an account that nobody used or that it owned. -/
theorem owned_put_amm (w : Accounts) (z : AccountId) (data : Data) (hne : data ≠ .empty)
    (h : w z = default ∨ (w z).programOwner = ammProgramId) :
    owned ammProgramId (put ammProgramId w z data)
      = Function.update (owned ammProgramId w) z (some data) := by
  refine owned_put _ _ _ _ (h.symm.imp_right fun h => ?_)
  rw [h]
  exact hne

section
variable (w v : Accounts) (authority ids : List AccountId) (instruction : Instruction)
  (calls : List ChainedCall) (h : Effect w authority ids instruction v calls)
include h

/-- The account of the AMM that an instruction writes. -/
theorem Effect.written : v = w ∨ ∃ z data, v = put ammProgramId w z data ∧
    owned ammProgramId v = Function.update (owned ammProgramId w) z (some data) ∧
    ((∃ cfg, data = .ammConfig cfg ∧ cfg.Valid ∧ (w z = default ∨ ∃ old, ConfigAt w z old)) ∨
      (∃ q, data = .poolDefinition q ∧ (w z = default ∨ ∃ old, PoolAt w z old))) := by
  cases h with
  | configured c _ _ cfg valid previous =>
    refine Or.inr ⟨c, _, rfl, owned_put_amm _ _ _ Data.noConfusion ?_, Or.inl ⟨cfg, rfl, valid, ?_⟩⟩
    · exact previous.imp_right fun ⟨old, hold, _⟩ => ((owned_eq_some _ _ _ _).mp hold).1
    · exact previous.imp_right fun ⟨old, hold, _⟩ => ⟨old, hold⟩
  | withdrawn => exact Or.inl rfl
  | created _ c x _ _ _ _ _ _ _ _ _ _ _ _ _ _ _ _ _ fresh =>
    exact Or.inr ⟨_, _, rfl, owned_put_amm _ _ _ Data.noConfusion (Or.inl fresh),
      Or.inr ⟨_, rfl, Or.inl fresh⟩⟩
  | operated _ c x _ q q' _ operation =>
    exact Or.inr ⟨_, _, rfl, owned_put_amm _ _ _ Data.noConfusion
      (Or.inr ((owned_eq_some _ _ _ _).mp operation.stored).1),
      Or.inr ⟨_, rfl, Or.inr ⟨_, operation.stored⟩⟩⟩

theorem Effect.configs_stay : ConfigsStay w v := by
  intro c cfg hc
  rcases h.written with rfl | ⟨z, data, -, hv, hdata⟩
  · exact ⟨cfg, hc⟩
  · by_cases hz : c = z
    · subst hz
      rcases hdata with ⟨cfg', rfl, -⟩ | ⟨q, -, hfresh | ⟨old, hold⟩⟩
      · exact ⟨cfg', by rw [ConfigAt, hv, Function.update_self]⟩
      · have hdata := hc.data
        rw [hfresh] at hdata
        cases hdata
      · rw [PoolAt, hc] at hold
        cases hold
    · exact ⟨cfg, by rwa [ConfigAt, hv, Function.update_of_ne hz]⟩

theorem Effect.configs_valid (hcfg : ∀ c cfg, ConfigAt w c cfg → cfg.Valid) (c : AccountId)
    (cfg : AmmConfig) (hc : ConfigAt v c cfg) : cfg.Valid := by
  rcases h.written with rfl | ⟨z, data, -, hv, hdata⟩
  · exact hcfg c cfg hc
  · rw [ConfigAt, hv] at hc
    by_cases hz : c = z
    · subst hz
      rw [Function.update_self, Option.some.injEq] at hc
      subst hc
      rcases hdata with ⟨_, hcfg', hvalid, -⟩ | ⟨_, hq, -⟩
      · cases hcfg'
        exact hvalid
      · cases hq
    · rw [Function.update_of_ne hz] at hc
      exact hcfg c cfg hc

end

theorem poolAt_put (w : Accounts) (x : AccountId) (q q' : PoolDefinition) (h : PoolAt w x q) :
    PoolAt (put ammProgramId w x (.poolDefinition q')) x q' := by
  rw [PoolAt, owned_put_amm _ _ _ Data.noConfusion (Or.inr ((owned_eq_some _ _ _ _).mp h).1),
    Function.update_self]

/-- An instruction leaves a pool and its keys alone, or it operates on the pool. -/
theorem Effect.pool (w v : Accounts) (authority ids : List AccountId) (instruction : Instruction)
    (calls : List ChainedCall) (h : Effect w authority ids instruction v calls) (x : AccountId)
    (q : PoolDefinition) (hq : PoolAt w x q) :
    (PoolAt v x q ∧ ∀ call ∈ calls, ∀ seed ∈ call.pdaSeeds, Spared x seed) ∨
      ∃ c rest q', ids = c :: x :: rest ∧ Operation w c x q q' instruction calls ∧ PoolAt v x q' := by
  have hused : w x ≠ default := by
    intro he
    have hdata := hq.data
    rw [he] at hdata
    cases hdata
  cases h with
  | configured c _ _ cfg valid previous =>
    have hne : x ≠ c := by
      rintro rfl
      rcases previous with he | ⟨old, hold, -⟩
      · exact hused he
      · rw [ConfigAt, hq] at hold
        cases hold
    exact Or.inl ⟨(owned_congr _ _ _ x (put_other _ _ _ _ _ hne)).trans hq, by simp⟩
  | withdrawn c token =>
    refine Or.inl ⟨hq, ?_⟩
    rw [List.forall_mem_singleton]
    refine List.forall_mem_singleton.mpr ⟨fun t he => ?_, fun he => ?_, fun he => ?_⟩ <;> cases he
  | created _ c y _ _ _ _ _ _ _ _ _ _ _ _ _ _ _ _ _ fresh _ _ _ _ seeded =>
    have hne : x ≠ y := by
      rintro rfl
      exact hused fresh
    refine Or.inl ⟨(owned_congr _ _ _ x (put_other _ _ _ _ _ hne)).trans hq, ?_⟩
    intro call hc s hs
    rcases granted_creationCalls _ _ _ _ _ _ _ _ _ _ _ _ _ seeded call hc s hs with hg | rfl
    · exact hg.spared c y x s hne
    · exact spared_lpLockHolding y x hne
  | operated _ c y rest p q' calls op =>
    by_cases hy : x = y
    · subst hy
      have hpq := op.stored.unique w x p q hq
      subst hpq
      exact Or.inr ⟨c, rest, q', rfl, op, poolAt_put w x p q' op.stored⟩
    · exact Or.inl ⟨(owned_congr _ _ _ x (put_other _ _ _ _ _ hy)).trans hq, fun call hc s hs =>
        ((op.proper call hc).granted s hs).spared c y x s hy⟩

/-- An AMM transaction keeps the invariant. -/
theorem Sound.effect (w v w' : Accounts) (authority ids : List AccountId)
    (ho : Outside ammProgramId authority) (instruction : Instruction) (calls : List ChainedCall)
    (hw : Sound w) (effect : Effect w authority ids instruction v calls)
    (hf : Frame ammProgramId w v) (hsettled : Settled ammProgramId authority v calls w') :
    Sound w' := by
  have hown := hsettled.owned_eq _ _ ammProgramId (by decide) (by decide)
  have htokens := owned_frame tokenProgramId _ _ _ hf (by decide) (by decide)
  have hstay : ConfigsStay w w' := by
    intro c cfg hc
    obtain ⟨cfg', hcfg'⟩ := effect.configs_stay w v authority ids instruction calls c cfg hc
    exact ⟨cfg', by rwa [ConfigAt, hown]⟩
  have hothers : ∀ x q, PoolAt w x q → Undrained x v w' → PoolSound w' x q := fun x q hq hu =>
    (hw.pools x q hq).undrained w w' x q hstay ((Undrained.of_owned x w v htokens).trans _ _ _ _ hu)
  refine ⟨fun c cfg hc => effect.configs_valid w v authority ids instruction calls hw.configs
    c cfg (by rwa [ConfigAt, ← hown]), fun y p hp => ?_⟩
  rw [PoolAt, hown] at hp
  by_cases hold : ∃ q, PoolAt w y q
  · obtain ⟨q, hq⟩ := hold
    rcases effect.pool w v authority ids instruction calls y q hq with
      ⟨hv, hspared⟩ | ⟨c, rest, q', -, op, hv⟩
    · have hpq := hv.unique v y q p hp
      subst hpq
      exact hothers y q hq (.of_settled y authority ho _ _ _ hspared hsettled)
    · have hpq := hv.unique v y q' p hp
      subst hpq
      exact op.sound w v w' authority ho calls hf hsettled c y q q' _ (hw.pools y q hq) hstay
  · -- a pool that was not there was created
    cases effect with
    | configured c _ _ cfg valid previous =>
      rw [owned_put_amm _ _ _ Data.noConfusion (previous.imp_right fun hold =>
        hold.elim fun old h => ((owned_eq_some _ _ _ _).mp h.1).1)] at hp
      by_cases hy : y = c
      · subst hy
        rw [Function.update_self] at hp
        cases hp
      · rw [Function.update_of_ne hy] at hp
        exact absurd ⟨p, hp⟩ hold
    | withdrawn => exact absurd ⟨p, hp⟩ hold
    | created _ c x ua ub ul a b cfg holdingA holdingB initialLp userLp price seed rest config dataA
        dataB poolOf fresh positiveA positiveB above spot seeded =>
      have hne : ∀ (u : AccountId) (held : Holding), (w u).data = .tokenHolding held → u ≠ x := by
        rintro u held hu rfl
        rw [fresh] at hu
        cases hu
      rw [owned_put_amm _ _ _ Data.noConfusion (Or.inl fresh)] at hp
      by_cases hy : y = x
      · subst hy
        rw [Function.update_self, Option.some.injEq, Data.poolDefinition.injEq] at hp
        obtain ⟨cfg', hcfg'⟩ := hstay c cfg config
        exact created_sound w' authority ho w _ c y ua ub ul a b cfg cfg' holdingA holdingB initialLp
          userLp price seed p hp hcfg' (put_other _ _ _ _ _ (hne ua _ dataA))
          (put_other _ _ _ _ _ (hne ub _ dataB)) dataA dataB (hp ▸ poolOf) positiveA positiveB above
          seeded hsettled
      · rw [Function.update_of_ne hy] at hp
        exact absurd ⟨p, hp⟩ hold
    | operated _ c x rest q q' calls op =>
      rw [owned_put_amm _ _ _ Data.noConfusion
        (Or.inr ((owned_eq_some _ _ _ _).mp op.stored).1)] at hp
      by_cases hy : y = x
      · subst hy
        exact absurd ⟨q, op.stored⟩ hold
      · rw [Function.update_of_ne hy] at hp
        exact absurd ⟨p, hp⟩ hold

end LezPrograms.Amm
