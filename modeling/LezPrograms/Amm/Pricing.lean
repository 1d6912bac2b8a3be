import LezPrograms.Amm.Moves

/-! # The pricing of swaps

Both kinds of swap price with one rounding for the fee and one for the product.
A sale is the pricing of an exact input with the reserves that it leaves. -/

set_option autoImplicit false

namespace LezPrograms.Amm
open LezPrograms.Checked LezPrograms.Checked.Unsigned LezPrograms.Lee

def sale (q : PoolDefinition) (side : Side) (feeBps protocolFeeBps amountIn : U128) :
    Outcome (U128 × PoolDefinition) := do
  let (effectiveAmountIn, amountOut) ← swapExactInAmounts amountIn (q.reserve side)
    (q.reserve side.other) feeBps
  let swapFee ← expect (amountIn.checkedSub effectiveAmountIn)
    "effective_amount_in <= swap_amount_in"
  let protocolFee ← protocolFeeAmount swapFee protocolFeeBps
  let netDeposit ← expect (amountIn.checkedSub protocolFee)
    "protocol_fee <= swap_fee <= swap_amount_in"
  let poolPostDefinition ← swappedSide q side netDeposit amountOut
  pure (amountOut, poolPostDefinition)

def Sells (self : AccountId) (w w' : Accounts) (amountIn minAmountOut : U128) : Prop :=
  ∃ (c x : AccountId) (cfg : AmmConfig) (q q' : PoolDefinition) (side : Side) (amountOut : U128),
    PoolReads self w c x cfg q ∧ w' = put self w x (.poolDefinition q') ∧
      minAmountOut.val ≤ amountOut.val ∧
      sale q side cfg.swapFeeBps cfg.protocolFeeBps amountIn = .ok (amountOut, q')

theorem sells_of_step (self : AccountId) (w w' : Accounts) (authority ids : List AccountId)
    (swapAmountIn minAmountOut : U128) (deadline : U64) (calls : List ChainedCall)
    (h : Step self w authority ids (.swapExactInput swapAmountIn minAmountOut deadline) w' calls) :
    Sells self w w' swapAmountIn minAmountOut := by
  cases h with
  | swap _ side c x i o cfg q q' token balance holding amounts swapFee protocolFee net price seed
      reads vaults input inputToken priced fee share rest updated written spot seeded =>
    cases priced with
    | exactInput _ _ _ _ priced =>
      simp only [exactInputAmounts, bind_eq_ok, ensure_eq_ok, exists_const, Prod.exists,
        pure_eq_ok] at priced
      obtain ⟨effective, out, hamounts, -, hmin, -, rfl⟩ := priced
      refine ⟨c, x, cfg, q, q', side, out, reads, rfl, hmin, ?_⟩
      simp only [sale, bind_eq_ok, expect_eq_ok, checkedSub_eq_some, Prod.exists, pure_eq_ok]
      exact ⟨effective, out, hamounts, swapFee, fee, protocolFee, share, net, rest, q', updated, rfl⟩

/-- What a sale pays, and what it leaves to the next one. -/
theorem sale_spec (q q' : PoolDefinition) (side : Side) (feeBps protocolFeeBps amountIn out : U128)
    (hshare : protocolFeeBps.val ≤ 10000)
    (h : sale q side feeBps protocolFeeBps amountIn = .ok (out, q')) :
    out.val = ConstantProduct.paid (q.reserve side).val (q.reserve side.other).val
        (ConstantProduct.afterFee 10000 feeBps.val amountIn.val) ∧
      (q'.reserve side.other).val = (q.reserve side.other).val - out.val ∧
      ∃ kept, ConstantProduct.afterFee 10000 feeBps.val amountIn.val ≤ kept ∧
        (q'.reserve side).val = (q.reserve side).val + kept := by
  simp only [sale, bind_eq_ok, expect_eq_ok, checkedSub_eq_some, Prod.exists, pure_eq_ok,
    Prod.mk.injEq] at h
  obtain ⟨effective, paid, hamounts, swapFee, hfee, protocolFee, hprotocol, net, hrest, left, hupdated,
    rfl, rfl⟩ := h
  obtain ⟨heffective, hout⟩ := (swapExactInAmounts_eq_ok _ _ _ _ _ _).mp hamounts
  obtain ⟨-, -, hin, hother⟩ := swappedSide_spec _ _ _ _ _ hupdated
  have hkept : effective.val ≤ net.val :=
    effective_le_net _ hshare ⟨amountIn, effective, paid⟩ swapFee
      protocolFee net hfee hprotocol hrest
  have hroom := (left.reserve side).isLt
  rw [if_pos (by omega), heffective] at hout
  exact ⟨hout, by omega, net.val, heffective ▸ hkept, hin⟩

/-- Two sales in a row pay at most what one sale of both inputs pays. -/
theorem split_sale_le (q q₁ q₂ q' : PoolDefinition) (side : Side)
    (feeBps protocolFeeBps x y whole out₁ out₂ out : U128)
    (hin : (q.reserve side).val ≠ 0)
    (hshare : protocolFeeBps.val ≤ 10000) (hwhole : whole.val = x.val + y.val)
    (first : sale q side feeBps protocolFeeBps x = .ok (out₁, q₁))
    (second : sale q₁ side feeBps protocolFeeBps y = .ok (out₂, q₂))
    (both : sale q side feeBps protocolFeeBps whole = .ok (out, q')) :
    out₁.val + out₂.val ≤ out.val := by
  obtain ⟨hout₁, hother, kept, hkept, hreserve⟩ := sale_spec _ _ _ _ _ _ _ hshare first
  obtain ⟨hout₂, -⟩ := sale_spec _ _ _ _ _ _ _ hshare second
  obtain ⟨hout, -⟩ := sale_spec _ _ _ _ _ _ _ hshare both
  rw [hout, hout₂, hother, hreserve, hout₁, hwhole]
  exact ConstantProduct.paid_add_le _ _ _ _ _ _ (Nat.pos_of_ne_zero hin) hkept
    (ConstantProduct.afterFee_add_le _ _ _ _)

/-- Every swap of an exact input is a sale, and splitting a sale gains nothing. -/
theorem splitting_never_gains :
    (∀ (self : AccountId) (w w' : Accounts) (authority ids : List AccountId)
      (swapAmountIn minAmountOut : U128) (deadline : U64) (calls : List ChainedCall),
      Step self w authority ids (.swapExactInput swapAmountIn minAmountOut deadline) w' calls →
      Sells self w w' swapAmountIn minAmountOut) ∧
    ∀ (q q₁ q₂ q' : PoolDefinition) (side : Side)
      (feeBps protocolFeeBps x y whole out₁ out₂ out : U128),
      (q.reserve side).val ≠ 0 → protocolFeeBps.val ≤ 10000 → whole.val = x.val + y.val →
      sale q side feeBps protocolFeeBps x = .ok (out₁, q₁) →
      sale q₁ side feeBps protocolFeeBps y = .ok (out₂, q₂) →
      sale q side feeBps protocolFeeBps whole = .ok (out, q') →
      out₁.val + out₂.val ≤ out.val :=
  ⟨sells_of_step, split_sale_le⟩

def splitPool (reserveA reserveB : U128) : PoolDefinition :=
  ⟨.key 1, .key 2, .key 3, .key 4, .key 5, 20000, reserveA, reserveB⟩

theorem split_pays_less : 241 + 449 ≤ 691 :=
  splitting_never_gains.2 (splitPool 40000 10000) (splitPool 40995 9759) (splitPool 42985 9310)
    (splitPool 42985 9309) .a 100 5000 1000 2000 3000 241 449 691 (by decide) (by decide) (by decide)
    (by rfl) (by rfl) (by rfl)

/-- A fulfillable output has a price. -/
theorem swapExactOutAmounts_fulfilled (amountOut reserveIn reserveOut feeBps : U128)
    (quoted : Option (U128 × U128)) (hin : 0 < reserveIn.val)
    (hout : amountOut.val < reserveOut.val) (hfee : feeBps.val < 10000)
    (h : swapExactOutAmounts amountOut reserveIn reserveOut feeBps = .ok quoted) :
    ∃ minimal required, quoted = some (minimal, required) := by
  rw [swapExactOutAmounts, checkedSub_of_le _ _ hout.le] at h
  have hdenominator : reserveOut.val - amountOut.val ≠ 0 := Nat.sub_ne_zero_of_lt hout
  have hmultiplier : feeBpsDenominator.val - feeBps.val ≠ 0 := Nat.sub_ne_zero_of_lt hfee
  simp only [if_neg hdenominator, if_neg hin.ne', bind_eq_ok] at h
  obtain ⟨minimal, -, h⟩ := h
  rw [checkedSub_of_le _ _ (by rw [feeBpsDenominator_val]; exact hfee.le)] at h
  simp only [if_neg hmultiplier, bind_eq_ok, pure_eq_ok] at h
  obtain ⟨required, -, rfl⟩ := h
  exact ⟨minimal, required, rfl⟩

/-- An input pays at least an output exactly when it reaches the input required for the output. -/
theorem pricing_adjoint (x amountOut reserveIn reserveOut feeBps effective out : U128)
    (quoted : Option (U128 × U128)) (hin : 0 < reserveIn.val)
    (hout : amountOut.val < reserveOut.val) (hfee : feeBps.val < 10000)
    (sell : swapExactInAmounts x reserveIn reserveOut feeBps = .ok (effective, out))
    (room : reserveIn.val + effective.val < 2 ^ 128)
    (buy : swapExactOutAmounts amountOut reserveIn reserveOut feeBps = .ok quoted) :
    ∃ minimal required, quoted = some (minimal, required) ∧
      (amountOut.val ≤ out.val ↔ required.val ≤ x.val) := by
  obtain ⟨heffective, hpaid⟩ := (swapExactInAmounts_eq_ok _ _ _ _ _ _).mp sell
  rw [if_pos room, heffective] at hpaid
  obtain ⟨minimal, required, rfl⟩ := swapExactOutAmounts_fulfilled _ _ _ _ _ hin hout hfee buy
  obtain ⟨-, -, -, hminimal, hrequired⟩ := (swapExactOutAmounts_eq_ok _ _ _ _ _ _).mp buy
  refine ⟨minimal, required, rfl, ?_⟩
  rw [hpaid, ConstantProduct.le_paid_iff _ _ _ _ hin hout, hrequired, hminimal,
    ConstantProduct.le_afterFee_iff _ _ _ _ hfee]

theorem quoted_input_adjoint :
    ∃ minimal required, some ((988 : U128), (998 : U128)) = some (minimal, required) ∧
      ((241 : U128).val ≤ (241 : U128).val ↔ required.val ≤ (1000 : U128).val) :=
  pricing_adjoint 1000 241 40000 10000 100 990 241 (some (988, 998)) (by decide) (by decide)
    (by decide) (by rfl) (by decide) (by rfl)

end LezPrograms.Amm
