import LezPrograms.Amm.Program

/-! # What the shared checks fail with

Every handler is a chain of checks with texts of their own. A text that none of the
parts can raise is not raised by the whole. -/

set_option autoImplicit false

namespace LezPrograms.Amm
open LezPrograms.Checked LezPrograms.Checked.Unsigned LezPrograms.Lee

variable (texts : List String)

section
variable (config pool vaultA vaultB tick clock : InputAccount) (self : AccountId)
  (context : String)

theorem avoids_decodeConfig
    (h : context ++ ": AMM config account must be owned by the AMM Program" ∉ texts ∧
      context ++ ": AMM Program must be initialized before use" ∉ texts) :
    Avoids texts (decodeConfig config self context) :=
  Avoids.guard _ _ _ _ h.1 fun _ => avoids_expect _ _ _ (Or.inl h.2)

theorem avoids_computePoolPdaSeed (c a b : AccountId) (h : "Definitions match" ∉ texts) :
    Avoids texts (computePoolPdaSeed c a b) := by
  unfold computePoolPdaSeed
  split
  · exact avoids_pure _ _
  · split
    · exact avoids_pure _ _
    · exact avoids_error _ _ h

theorem avoids_computePoolPda (c a b : AccountId) (h : "Definitions match" ∉ texts) :
    Avoids texts (computePoolPda self c a b) :=
  Avoids.bind _ _ _ (avoids_computePoolPdaSeed _ _ _ _ h) fun _ _ => avoids_pure _ _

theorem avoids_assertPoolInConfigNamespace (q : PoolDefinition)
    (h : "Definitions match" ∉ texts ∧
      context ++ ": pool account is not derived under this config's namespace" ∉ texts) :
    Avoids texts (assertPoolInConfigNamespace pool config q self context) :=
  Avoids.bind _ _ _ (avoids_computePoolPda _ _ _ _ _ h.1) fun _ _ =>
    avoids_ensure _ _ _ (Or.inl h.2)

theorem avoids_assertOracleAccounts (oracle : AccountId)
    (h : context ++ ": clock account must be the canonical 1-block LEZ clock account" ∉ texts ∧
      context ++ ": current tick Account ID does not match PDA" ∉ texts) :
    Avoids texts (assertOracleAccounts tick pool clock oracle context) :=
  Avoids.guard _ _ _ _ h.1 fun _ => avoids_ensure _ _ _ (Or.inl h.2)

theorem avoids_readFungibleHolding (account : InputAccount)
    (h : context ++ ": AMM Program expects a valid Token Holding Account" ∉ texts ∧
      context ++ ": AMM Program expects a valid Fungible Token Holding Account" ∉ texts) :
    Avoids texts (readFungibleHolding account context) := by
  refine Avoids.bind _ _ _ (avoids_expect _ _ _ (Or.inl h.1)) fun holding _ => ?_
  cases holding with
  | fungible d balance => exact avoids_pure _ _
  | _ => exact avoids_error _ _ h.2

theorem avoids_readVaultFungibleBalances
    (h : ∀ side ∈ [": Vault A", ": Vault B"],
      context ++ side ++ ": AMM Program expects a valid Token Holding Account" ∉ texts ∧
        context ++ side ++ ": AMM Program expects a valid Fungible Token Holding Account"
          ∉ texts) :
    Avoids texts (readVaultFungibleBalances context vaultA vaultB) := by
  rw [List.forall_mem_cons, List.forall_mem_singleton] at h
  exact Avoids.bind _ _ _ (avoids_readFungibleHolding _ _ _ h.1) fun _ _ =>
    Avoids.bind _ _ _ (avoids_readFungibleHolding _ _ _ h.2) fun _ _ => avoids_pure _ _

theorem avoids_updateTickCall (oracle : AccountId) (q : PoolDefinition) (reserveA reserveB : U128)
    (h : "Definitions match" ∉ texts) (hprice : Avoids texts (spotPriceQ6464 reserveA reserveB)) :
    Avoids texts (updateTickCall oracle tick pool clock config q reserveA reserveB) :=
  Avoids.bind _ _ _ hprice fun _ _ => Avoids.bind _ _ _ (avoids_computePoolPdaSeed _ _ _ _ h)
    fun _ _ => avoids_pure _ _

end

theorem avoids_mulDivFloor (a b c : U128)
    (h : ∀ text ∈ ["u128 * u128 always fits in U256", "mul_div_floor result exceeds u128"],
      text ∉ texts)
    (hdivisor : c.val ≠ 0 ∨ ∀ text ∈ ["mul_div_floor: divisor must be non-zero",
      "mul_div_floor: divisor is non-zero after the assertion above"], text ∉ texts) :
    Avoids texts (mulDivFloor a b c) := by
  simp only [List.forall_mem_cons, List.not_mem_nil, false_implies, implies_true, and_true]
    at h hdivisor
  refine Avoids.bind _ _ _ (avoids_ensure _ _ _ (hdivisor.symm.imp_left And.left)) fun _ hc => ?_
  have hne := (ensure_eq_ok _ _ _).mp hc
  refine Avoids.bind _ _ _ (avoids_expect _ _ _ (Or.inl h.1)) fun product _ => ?_
  refine Avoids.bind _ _ _ (avoids_expect _ _ _ (Or.inr (checkedDiv_ne_none _ _ ?_)))
    fun quotient _ => avoids_expect _ _ _ (Or.inl h.2)
  rwa [widen_val]

theorem avoids_spotPriceQ6464 (base quote : U128)
    (h : "reserve_quote < 2^128, so reserve_quote << 64 fits in U256" ∉ texts)
    (hbase : base.val ≠ 0 ∨ "spot_price_q64_64: reserve_base must be non-zero" ∉ texts) :
    Avoids texts (spotPriceQ6464 base quote) := by
  refine Avoids.bind _ _ _ (avoids_ensure _ _ _ hbase.symm) fun _ hb => ?_
  have hne := (ensure_eq_ok _ _ _).mp hb
  refine Avoids.bind _ _ _ (avoids_expect _ _ _ (Or.inl h)) fun numerator _ => ?_
  refine Avoids.bind _ _ _ (avoids_expect _ _ _ (Or.inr (checkedDiv_ne_none _ _ ?_)))
    fun price _ => avoids_pure _ _
  rwa [widen_val]

variable (q : PoolDefinition)

theorem avoids_addedPool (amountA amountB deltaLp : U128)
    (h : ∀ text ∈ ["liquidity_pool_supply + delta_lp overflows u128",
      "reserve_a + actual_amount_a overflows u128",
      "reserve_b + actual_amount_b overflows u128"], text ∉ texts) :
    Avoids texts (addedPool q amountA amountB deltaLp) := by
  simp only [List.forall_mem_cons, List.not_mem_nil, false_implies, implies_true, and_true] at h
  refine Avoids.bind _ _ _ (avoids_expect _ _ _ (Or.inl h.1)) fun _ _ => ?_
  refine Avoids.bind _ _ _ (avoids_expect _ _ _ (Or.inl h.2.1)) fun _ _ => ?_
  exact Avoids.bind _ _ _ (avoids_expect _ _ _ (Or.inl h.2.2)) fun _ _ => avoids_pure _ _

theorem avoids_removedPool (amountA amountB deltaLp : U128)
    (h : ∀ text ∈ ["liquidity_pool_supply - delta_lp underflows",
      "reserve_a - withdraw_amount_a underflows",
      "reserve_b - withdraw_amount_b underflows"], text ∉ texts) :
    Avoids texts (removedPool q amountA amountB deltaLp) := by
  simp only [List.forall_mem_cons, List.not_mem_nil, false_implies, implies_true, and_true] at h
  refine Avoids.bind _ _ _ (avoids_expect _ _ _ (Or.inl h.1)) fun _ _ => ?_
  refine Avoids.bind _ _ _ (avoids_expect _ _ _ (Or.inl h.2.1)) fun _ _ => ?_
  exact Avoids.bind _ _ _ (avoids_expect _ _ _ (Or.inl h.2.2)) fun _ _ => avoids_pure _ _

theorem avoids_window (now deadline : U64) (output : HandlerResult)
    (hw : "timestamp is outside the validity window" ∉ texts) (h : Avoids texts output) :
    Avoids texts (withTimestampValidityWindow now deadline output) :=
  Avoids.bind _ _ _ h fun _ _ => Avoids.guard _ _ _ _ hw fun _ => avoids_pure _ _

end LezPrograms.Amm
