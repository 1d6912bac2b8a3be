import LezPrograms.Amm.Bindings
import LezPrograms.Amm.Shares
import LezPrograms.Token.Completion
import LezPrograms.TwapOracle.SquareRoot

/-! # Pools that can be served

In a reached world everything that the instructions on a pool read is in place, as
long as its two tokens are fungible: the configuration with the deployed programs, the
vaults, the LP token, the current tick and the clock. -/

set_option autoImplicit false

namespace LezPrograms.Amm
open LezPrograms.Checked LezPrograms.Lee LezPrograms.Token

structure Live (platform : Platform) (w : Accounts) : Prop where
  bare : Bare w
  sound : Sound w
  bound : Bound w
  backed : Backed w
  ticks : Ticks platform w
  conserved : Conserved w
  editions : editionTally.Balanced w

theorem Reached.live (platform : Platform) (genesis : Genesis) (w : Accounts)
    (h : Reached platform genesis w) : Live platform w := by
  obtain ⟨events, rfl⟩ := h.run platform genesis w
  exact {
    bare := (run_sound platform genesis events).1
    sound := (run_sound platform genesis events).2
    bound := run_bound platform genesis events
    backed := run_backed platform genesis events
    ticks := h.ticks platform genesis _
    conserved := (run_conserved platform genesis events).2
    editions := (run_balanced editionTally editionTally_lawful platform genesis events).2 }

theorem PoolSound.positive (w : Accounts) (x : AccountId) (q : PoolDefinition)
    (h : PoolSound w x q) (side : Side) : (q.reserve side).val ≠ 0 := by
  cases side with
  | a => exact h.healthy.first.ne'
  | b => exact h.healthy.second.ne'

def Fungible (w : Accounts) (q : PoolDefinition) : Prop :=
  ∀ side, ∃ d, DefinitionAt w (q.token side) d ∧ d.isFungible

def ClockAt (w : Accounts) (now : U64) : Prop := (w clock01ProgramAccountId).data = .clock now

structure Serviceable (w : Accounts) (c x : AccountId) (cfg : AmmConfig) (q : PoolDefinition)
    (balance : Side → U128) : Prop where
  config : ConfigAt w c cfg
  stored : PoolAt w x q
  poolOf : PoolOf c x q
  tokenProgram : cfg.tokenProgramId = tokenProgramId
  oracle : cfg.twapOracleProgramId = twapOracleProgramId
  valid : cfg.Valid
  sound : PoolSound w x q
  vaults : ∀ side, HoldingAt w (q.vault side) (.fungible (q.token side) (balance side))
  covered : ∀ side, (q.reserve side).val ≤ (balance side).val
  tick : ∃ current, owned twapOracleProgramId w
    (TwapOracle.computeCurrentTickAccountPda twapOracleProgramId x) = some (.currentTick current)

/-- A pool of fungible tokens is serviceable. -/
theorem Live.serviceable (platform : Platform) (w : Accounts) (h : Live platform w)
    (x : AccountId) (q : PoolDefinition) (hq : PoolAt w x q) (hf : Fungible w q) :
    ∃ c cfg balance, Serviceable w c x cfg q balance := by
  have hs := h.sound.pools x q hq
  obtain ⟨c, cfg, hcfg, hof⟩ := hs.configured
  obtain ⟨htoken, horacle⟩ := h.bound x q c cfg hq hof hcfg
  obtain ⟨current, -, hcurrent, -⟩ := h.ticks x q hq
  have hvault : ∀ side, ∃ balance : U128,
      HoldingAt w (q.vault side) (.fungible (q.token side) balance) ∧
        (q.reserve side).val ≤ balance.val := by
    intro side
    obtain ⟨held, hh, ht, hr⟩ := hs.vaults side
    obtain ⟨d, hd, hdf⟩ := hf side
    obtain ⟨balance, rfl⟩ := holding_fungible w h.editions _ d hd hdf _ held hh ht
      (by have := hs.positive w x q side; omega)
    exact ⟨balance, hh, hr⟩
  choose balance hbalance using hvault
  exact ⟨c, cfg, balance, hcfg, hq, hof, htoken, horacle, h.sound.configs c cfg hcfg, hs,
    fun side => (hbalance side).1, fun side => (hbalance side).2, current, hcurrent⟩

/-- The LP token of a pool is not one of its tokens. -/
theorem PoolOf.liquidity_ne (c x : AccountId) (q : PoolDefinition) (h : PoolOf c x q) (side : Side) :
    computeLiquidityTokenPda ammProgramId x ≠ q.token side := by
  intro he
  obtain ⟨seed, hseed, rfl⟩ := (computePoolPda_eq_ok _ _ _ _ _).mp h
  unfold computePoolPdaSeed at hseed
  split at hseed
  · rw [← (pure_eq_ok _ _).mp hseed] at he
    have hsize := congrArg sizeOf he
    cases side <;> simp [computeLiquidityTokenPda, computeLiquidityTokenPdaSeed,
      AccountId.forPublicPda, PoolDefinition.token] at hsize <;> omega
  · split at hseed
    · rw [← (pure_eq_ok _ _).mp hseed] at he
      have hsize := congrArg sizeOf he
      cases side <;> simp [computeLiquidityTokenPda, computeLiquidityTokenPdaSeed,
        AccountId.forPublicPda, PoolDefinition.token] at hsize <;> omega
    · exact absurd hseed (error_ne_ok _ _)

/-- What tells the accounts of an instruction apart: the kind of data, the token that a holding
holds, and whether it is a holding of the AMM. -/
def role (w : Accounts) (id : AccountId) : ℕ × Option AccountId × Bool :=
  match (w id).data with
  | .tokenHolding held => (0, some held.definitionId, decide (id.DerivedBy ammProgramId))
  | .tokenDefinition _ => (1, none, false)
  | .ammConfig _ => (2, none, false)
  | .poolDefinition _ => (3, none, false)
  | .currentTick _ => (4, none, false)
  | .clock _ => (5, none, false)
  | _ => (6, none, false)

theorem role_holding (w : Accounts) (id : AccountId) (held : Holding)
    (h : HoldingAt w id held) :
    role w id = (0, some held.definitionId, decide (id.DerivedBy ammProgramId)) := by
  rw [role, h.data]

theorem role_outside (w : Accounts) (id : AccountId) (held : Holding) (h : HoldingAt w id held)
    (hout : ¬id.DerivedBy ammProgramId) : role w id = (0, some held.definitionId, false) := by
  rw [role_holding w id held h, decide_eq_false hout]

def liquidityAccounts (c x : AccountId) (q : PoolDefinition) (ua ub ul : AccountId) : List AccountId :=
  [c, x, q.vaultAId, q.vaultBId, q.liquidityPoolId, ua, ub, ul,
    TwapOracle.computeCurrentTickAccountPda twapOracleProgramId x, clock01ProgramAccountId]

def swapAccounts (c x : AccountId) (q : PoolDefinition) (side : Side) (i o : AccountId) :
    List AccountId :=
  [c, x, q.vaultAId, q.vaultBId, i, o,
    TwapOracle.computeCurrentTickAccountPda twapOracleProgramId x, clock01ProgramAccountId,
    computeProtocolFeePda ammProgramId c (q.token side)]

structure Holder (w : Accounts) (q : PoolDefinition) (ua ub ul : AccountId) (a b l : U128) :
    Prop where
  own : ∀ id ∈ [ua, ub], ¬id.DerivedBy ammProgramId
  tokenA : HoldingAt w ua (.fungible q.definitionTokenAId a)
  tokenB : HoldingAt w ub (.fungible q.definitionTokenBId b)
  shares : CreditBase w q.liquidityPoolId ul l

section
variable (w : Accounts) (c x : AccountId) (cfg : AmmConfig) (q : PoolDefinition)
  (balance : Side → U128) (h : Serviceable w c x cfg q balance)
include h

theorem Serviceable.liquidity : ∃ name supply metadata, DefinitionAt w q.liquidityPoolId
    (.fungible name supply metadata (some q.liquidityPoolId)) ∧
      supply.val ≤ q.liquidityPoolSupply.val := by
  obtain ⟨d, hd, hf, hm, hle⟩ := h.sound.liquidity
  cases d with
  | fungible name supply metadata authority =>
    rw [TokenDefinition.mintAuthority] at hm
    exact ⟨name, supply, metadata, hm ▸ hd, hle⟩
  | nonFungible name supply metadata => exact hf.elim

/-- The roles of the accounts of a pool that every instruction on it names. -/
theorem Serviceable.roles (now : U64) (hclock : ClockAt w now) :
    role w c = (2, none, false) ∧ role w x = (3, none, false) ∧
      role w q.vaultAId = (0, some q.definitionTokenAId, true) ∧
      role w q.vaultBId = (0, some q.definitionTokenBId, true) ∧
      role w (TwapOracle.computeCurrentTickAccountPda twapOracleProgramId x) = (4, none, false) ∧
      role w clock01ProgramAccountId = (5, none, false) := by
  obtain ⟨current, hcurrent⟩ := h.tick
  have hvault : ∀ side, role w (q.vault side) = (0, some (q.token side), true) := by
    intro side
    rw [role_holding _ _ _ (h.vaults side), h.sound.vaultIds side]
    rfl
  refine ⟨?_, ?_, hvault .a, hvault .b, ?_, ?_⟩
  · rw [role, h.config.data]
  · rw [role, h.stored.data]
  · rw [role, ((owned_eq_some _ _ _ _).mp hcurrent).2]
  · rw [role, hclock]

/-- What somebody holds of a token of the pool fits into a vault. -/
theorem Serviceable.room (hc : Conserved w) (side : Side) (u : AccountId) (n : U128)
    (hu : HoldingAt w u (.fungible (q.token side) n)) (hout : ¬u.DerivedBy ammProgramId) :
    n.val + (balance side).val < 2 ^ 128 := by
  refine hc.room w _ u (q.vault side) n (balance side) hu (Or.inr (h.vaults side)) ?_
  rintro rfl
  refine hout ?_
  rw [h.sound.vaultIds side]
  exact derivedBy_forPublicPda _ _

/-- The accounts of an addition or a removal are distinct. -/
theorem Serviceable.distinct (now : U64) (hclock : ClockAt w now) (ua ub ul : AccountId)
    (a b l : U128) (hu : Holder w q ua ub ul a b l) : (liquidityAccounts c x q ua ub ul).Nodup := by
  obtain ⟨hout, hua, hub, hul⟩ := hu
  simp only [List.forall_mem_cons, List.not_mem_nil, false_implies, implies_true, and_true] at hout
  obtain ⟨hua', hub'⟩ := hout
  obtain ⟨d, hd, -⟩ := h.sound.liquidity
  obtain ⟨hconfig, hpool, hva, hvb, htick, htime⟩ := h.roles w c x cfg q balance now hclock
  have hab := h.poolOf.distinct
  have hla := h.poolOf.liquidity_ne c x q .a
  have hlb := h.poolOf.liquidity_ne c x q .b
  rw [← h.sound.liquidityId] at hla hlb
  have hlp : role w q.liquidityPoolId = (1, none, false) := by rw [role, hd.data]
  have hroleA : role w ua = (0, some q.definitionTokenAId, false) := role_outside _ _ _ hua hua'
  have hroleB : role w ub = (0, some q.definitionTokenBId, false) := role_outside _ _ _ hub hub'
  have hroleL : role w ul = (6, none, false) ∨
      ∃ derived, role w ul = (0, some q.liquidityPoolId, derived) := by
    rcases hul with ⟨hfresh, -⟩ | hheld
    · exact Or.inl (by rw [role, hfresh]; rfl)
    · exact Or.inr ⟨_, role_holding _ _ _ hheld⟩
  refine List.Nodup.of_map (role w) ?_
  simp only [liquidityAccounts, List.map_cons, List.map_nil, hconfig, hpool, hva, hvb, hlp, hroleA,
    hroleB, htick, htime]
  change q.liquidityPoolId ≠ q.definitionTokenAId at hla
  change q.liquidityPoolId ≠ q.definitionTokenBId at hlb
  rcases hroleL with hl | ⟨derived, hl⟩ <;> rw [hl] <;> simp [hab, hab.symm, hla.symm, hlb.symm]

end

end LezPrograms.Amm
