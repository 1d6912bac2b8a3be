import LezPrograms.Amm.Moves
import LezPrograms.Token.Flows

/-! # The accounts of a pool

Pools and configurations are accounts of the AMM; vaults, LP tokens, lock and fee
holdings are token accounts at addresses that the AMM derives. An instruction
presents seeds of its own pool and configuration only. -/

set_option autoImplicit false

namespace LezPrograms.Amm
open LezPrograms.Checked LezPrograms.Lee LezPrograms.Token

def PoolAt (w : Accounts) (x : AccountId) (q : PoolDefinition) : Prop :=
  owned ammProgramId w x = some (.poolDefinition q)

def ConfigAt (w : Accounts) (c : AccountId) (cfg : AmmConfig) : Prop :=
  owned ammProgramId w c = some (.ammConfig cfg)

theorem PoolAt.data (w : Accounts) (x : AccountId) (q : PoolDefinition) (h : PoolAt w x q) :
    (w x).data = .poolDefinition q := ((owned_eq_some _ _ _ _).mp h).2

theorem PoolAt.unique (w : Accounts) (x : AccountId) (q q' : PoolDefinition) (h : PoolAt w x q)
    (h' : PoolAt w x q') : q = q' := by
  rw [PoolAt, h, Option.some.injEq, Data.poolDefinition.injEq] at h'
  exact h'

theorem ConfigAt.data (w : Accounts) (c : AccountId) (cfg : AmmConfig) (h : ConfigAt w c cfg) :
    (w c).data = .ammConfig cfg := ((owned_eq_some _ _ _ _).mp h).2

theorem ConfigAt.unique (w : Accounts) (c : AccountId) (cfg cfg' : AmmConfig)
    (h : ConfigAt w c cfg) (h' : ConfigAt w c cfg') : cfg = cfg' := by
  rw [ConfigAt, h, Option.some.injEq, Data.ammConfig.injEq] at h'
  exact h'

theorem configAt_of_holds (w : Accounts) (c : AccountId) (cfg : AmmConfig)
    (h : Holds ammProgramId (w c) (.ammConfig cfg)) : ConfigAt w c cfg :=
  (owned_eq_some _ _ _ _).mpr h

def PoolOf (c x : AccountId) (q : PoolDefinition) : Prop :=
  computePoolPda ammProgramId c q.definitionTokenAId q.definitionTokenBId = .ok x

theorem computePoolPdaSeed_shape (c a b : AccountId) (seed : PdaSeed)
    (h : computePoolPdaSeed c a b = .ok seed) :
    a ≠ b ∧ ∃ larger smaller, seed = .account c (.account larger (.account smaller .nil)) := by
  unfold computePoolPdaSeed at h
  split at h
  · rename_i hlt
    refine ⟨?_, _, _, ((pure_eq_ok _ _).mp h).symm⟩
    rintro rfl
    exact lt_irrefl _ hlt
  · split at h
    · rename_i hlt
      refine ⟨?_, _, _, ((pure_eq_ok _ _).mp h).symm⟩
      rintro rfl
      exact lt_irrefl _ hlt
    · exact absurd h (error_ne_ok _ _)

theorem computePoolPda_eq_ok (program c a b x : AccountId) :
    computePoolPda program c a b = .ok x ↔
      ∃ seed, computePoolPdaSeed c a b = .ok seed ∧ x = .forPublicPda program seed := by
  simp only [computePoolPda, bind_eq_ok, pure_eq_ok]
  exact ⟨fun ⟨seed, h, he⟩ => ⟨seed, h, he.symm⟩, fun ⟨seed, h, he⟩ => ⟨seed, h, he.symm⟩⟩

theorem PoolOf.distinct (c x : AccountId) (q : PoolDefinition) (h : PoolOf c x q) :
    q.definitionTokenAId ≠ q.definitionTokenBId := by
  obtain ⟨seed, hseed, -⟩ := (computePoolPda_eq_ok _ _ _ _ _).mp h
  exact (computePoolPdaSeed_shape _ _ _ _ hseed).1

/-- A pool belongs to one configuration. -/
theorem PoolOf.config_unique (c d x : AccountId) (q q' : PoolDefinition) (h : PoolOf c x q)
    (h' : PoolOf d x q') : c = d := by
  obtain ⟨seed, hseed, rfl⟩ := (computePoolPda_eq_ok _ _ _ _ _).mp h
  obtain ⟨seed', hseed', he⟩ := (computePoolPda_eq_ok _ _ _ _ _).mp h'
  obtain ⟨-, _, _, rfl⟩ := computePoolPdaSeed_shape _ _ _ _ hseed
  obtain ⟨-, _, _, rfl⟩ := computePoolPdaSeed_shape _ _ _ _ hseed'
  cases he
  rfl

theorem computeVaultPda_inj (program x y a b : AccountId)
    (h : computeVaultPda program x a = .forPublicPda program (computeVaultPdaSeed y b)) :
    x = y ∧ a = b := by
  cases h
  exact ⟨rfl, rfl⟩

inductive Granted (c x : AccountId) : PdaSeed → Prop
  | vault (token : AccountId) : Granted c x (computeVaultPdaSeed x token)
  | protocolFee (token : AccountId) : Granted c x (computeProtocolFeePdaSeed c token)
  | liquidityToken : Granted c x (computeLiquidityTokenPdaSeed x)
  | pool (a b : AccountId) (seed : PdaSeed) (derived : computePoolPdaSeed c a b = .ok seed) :
      Granted c x seed

section
variable (c x : AccountId) (seed : PdaSeed) (h : Granted c x seed)
include h

theorem Granted.not_vault (y token : AccountId) (hy : y ≠ x) :
    computeVaultPda ammProgramId y token ≠ .forPublicPda ammProgramId seed := by
  intro he
  cases h with
  | vault => cases he; exact hy rfl
  | protocolFee => cases he
  | liquidityToken => cases he
  | pool a b _ hseed =>
    obtain ⟨-, _, _, rfl⟩ := computePoolPdaSeed_shape _ _ _ _ hseed
    cases he

theorem Granted.not_liquidityToken (y : AccountId) (hy : y ≠ x) :
    computeLiquidityTokenPda ammProgramId y ≠ .forPublicPda ammProgramId seed := by
  intro he
  cases h with
  | vault => cases he
  | protocolFee => cases he
  | liquidityToken => cases he; exact hy rfl
  | pool a b _ hseed =>
    obtain ⟨-, _, _, rfl⟩ := computePoolPdaSeed_shape _ _ _ _ hseed
    cases he

theorem Granted.not_lpLockHolding (y : AccountId) :
    computeLpLockHoldingPda ammProgramId y ≠ .forPublicPda ammProgramId seed := by
  intro he
  cases h with
  | vault => cases he
  | protocolFee => cases he
  | liquidityToken => cases he
  | pool a b _ hseed =>
    obtain ⟨-, _, _, rfl⟩ := computePoolPdaSeed_shape _ _ _ _ hseed
    cases he

theorem Granted.not_protocolFee (d token : AccountId) (hd : d ≠ c) :
    computeProtocolFeePda ammProgramId d token ≠ .forPublicPda ammProgramId seed := by
  intro he
  cases h with
  | vault => cases he
  | protocolFee => cases he; exact hd rfl
  | liquidityToken => cases he
  | pool a b _ hseed =>
    obtain ⟨-, _, _, rfl⟩ := computePoolPdaSeed_shape _ _ _ _ hseed
    cases he

end

section
variable (tokenProgramId s r x : AccountId) (n : U128) (seeds : List PdaSeed)

@[simp] theorem credit_transferCall :
    (transferCall tokenProgramId s r n seeds).credit x = if x = r then n.val else 0 := rfl

@[simp] theorem debit_transferCall :
    (transferCall tokenProgramId s r n seeds).debit x = if x = s then n.val else 0 := rfl

@[simp] theorem minted_transferCall : (transferCall tokenProgramId s r n seeds).minted x = 0 := rfl

@[simp] theorem burned_transferCall : (transferCall tokenProgramId s r n seeds).burned x = 0 := rfl

variable (poolId lp k : AccountId)

@[simp] theorem credit_lpMintCall :
    (lpMintCall tokenProgramId poolId lp k n).credit x = if x = k then n.val else 0 := rfl

@[simp] theorem debit_lpMintCall : (lpMintCall tokenProgramId poolId lp k n).debit x = 0 := rfl

@[simp] theorem minted_lpMintCall :
    (lpMintCall tokenProgramId poolId lp k n).minted x = if lp = x then n.val else 0 := rfl

@[simp] theorem burned_lpMintCall : (lpMintCall tokenProgramId poolId lp k n).burned x = 0 := rfl

@[simp] theorem credit_lpBurnCall : (lpBurnCall tokenProgramId poolId lp k n).credit x = 0 := rfl

@[simp] theorem debit_lpBurnCall :
    (lpBurnCall tokenProgramId poolId lp k n).debit x = if x = k then n.val else 0 := rfl

@[simp] theorem minted_lpBurnCall : (lpBurnCall tokenProgramId poolId lp k n).minted x = 0 := rfl

@[simp] theorem burned_lpBurnCall :
    (lpBurnCall tokenProgramId poolId lp k n).burned x = if lp = x then n.val else 0 := rfl

variable (oracle : AccountId) (price : U128) (seed : PdaSeed)

@[simp] theorem credit_tickCall : (tickCall oracle poolId price seed).credit x = 0 := rfl

@[simp] theorem debit_tickCall : (tickCall oracle poolId price seed).debit x = 0 := rfl

@[simp] theorem minted_tickCall : (tickCall oracle poolId price seed).minted x = 0 := rfl

@[simp] theorem burned_tickCall : (tickCall oracle poolId price seed).burned x = 0 := rfl

structure Proper (c x : AccountId) (call : ChainedCall) : Prop where
  routine : call.Routine
  granted : ∀ seed ∈ call.pdaSeeds, Granted c x seed

theorem proper_transferCall (c : AccountId) (h : ∀ seed ∈ seeds, Granted c poolId seed) :
    Proper c poolId (transferCall tokenProgramId s r n seeds) := ⟨.transfer s r n rfl rfl, h⟩

theorem proper_lpMintCall (c : AccountId) :
    Proper c poolId (lpMintCall tokenProgramId poolId lp k n) :=
  ⟨.mint lp k n rfl rfl, List.forall_mem_singleton.mpr .liquidityToken⟩

theorem proper_lpBurnCall (c : AccountId) :
    Proper c poolId (lpBurnCall tokenProgramId poolId lp k n) :=
  ⟨.burn lp k n rfl rfl, List.forall_mem_singleton.mpr .liquidityToken⟩

theorem proper_tickCall (c a b : AccountId) (h : computePoolPdaSeed c a b = .ok seed) :
    Proper c poolId (tickCall oracle poolId price seed) :=
  ⟨.oracle _ rfl, List.forall_mem_singleton.mpr (.pool a b seed h)⟩

theorem proper_createTickCall (c a b : AccountId) (h : computePoolPdaSeed c a b = .ok seed) :
    Proper c poolId (createTickCall oracle poolId price seed) :=
  ⟨.oracle _ rfl, List.forall_mem_singleton.mpr (.pool a b seed h)⟩

end

end LezPrograms.Amm
