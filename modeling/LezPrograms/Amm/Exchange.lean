import LezPrograms.Amm.Completion

/-! # When swaps succeed

A swap that can be priced and that the user covers succeeds, if the protocol fee that it
owes can be credited to the fee holding of the input token. -/

set_option autoImplicit false

namespace LezPrograms.Amm
open LezPrograms.Checked LezPrograms.Checked.Unsigned LezPrograms.Lee LezPrograms.Token

theorem protocolFee_ne_config (c token : AccountId) :
    c ≠ computeProtocolFeePda ammProgramId c token := by
  intro he
  have hsize := congrArg sizeOf he
  simp [computeProtocolFeePda, computeProtocolFeePdaSeed, AccountId.forPublicPda] at hsize
  omega

theorem protocolFee_ne_vault (c x a b : AccountId) :
    computeVaultPda ammProgramId x a ≠ computeProtocolFeePda ammProgramId c b := by
  intro he
  cases he

theorem PoolOf.ne_protocolFee (c x : AccountId) (q : PoolDefinition) (h : PoolOf c x q)
    (token : AccountId) : x ≠ computeProtocolFeePda ammProgramId c token := by
  obtain ⟨seed, hseed, rfl⟩ := (computePoolPda_eq_ok _ _ _ _ _).mp h
  obtain ⟨-, _, _, rfl⟩ := computePoolPdaSeed_shape _ _ _ _ hseed
  intro he
  cases he

section
variable (w : Accounts) (c x : AccountId) (cfg : AmmConfig) (q : PoolDefinition)
  (balance : Side → U128) (h : Serviceable w c x cfg q balance) (now : U64)
  (hclock : ClockAt w now) (side : Side) (i o : AccountId) (n m : U128)
  (hown : ∀ id ∈ [i, o], ¬id.DerivedBy ammProgramId)
  (hi : HoldingAt w i (.fungible (q.token side) n))
  (ho : HoldingAt w o (.fungible (q.token side.other) m))
include h hclock hown hi ho

/-- The accounts of a swap are distinct. -/
theorem Serviceable.swap_distinct : (swapAccounts c x q side i o).Nodup := by
  simp only [List.forall_mem_cons, List.not_mem_nil, false_implies, implies_true, and_true] at hown
  obtain ⟨hi', ho'⟩ := hown
  obtain ⟨hconfig, hpool, hva, hvb, htick, htime⟩ := h.roles w c x cfg q balance now hclock
  have hab := h.poolOf.distinct
  have hroleI : role w i = (0, some (q.token side), false) := role_outside _ _ _ hi hi'
  have hroleO : role w o = (0, some (q.token side.other), false) := role_outside _ _ _ ho ho'
  have hothers : [c, x, q.vaultAId, q.vaultBId, i, o,
      TwapOracle.computeCurrentTickAccountPda twapOracleProgramId x,
      clock01ProgramAccountId].Nodup := by
    refine List.Nodup.of_map (role w) ?_
    simp only [List.map_cons, List.map_nil, hconfig, hpool, hva, hvb, hroleI, hroleO, htick, htime]
    cases side <;> simp [PoolDefinition.token, Side.other, hab, hab.symm]
  have hfee : computeProtocolFeePda ammProgramId c (q.token side) ∉ [c, x, q.vaultAId, q.vaultBId, i,
      o, TwapOracle.computeCurrentTickAccountPda twapOracleProgramId x,
      clock01ProgramAccountId] := by
    have hderived : (computeProtocolFeePda ammProgramId c (q.token side)).DerivedBy ammProgramId :=
      derivedBy_forPublicPda _ _
    have hvaultA : q.vaultAId = computeVaultPda ammProgramId x q.definitionTokenAId :=
      h.sound.vaultIds .a
    have hvaultB : q.vaultBId = computeVaultPda ammProgramId x q.definitionTokenBId :=
      h.sound.vaultIds .b
    simp only [List.mem_cons, List.not_mem_nil, or_false, not_or]
    refine ⟨(protocolFee_ne_config c _).symm, (h.poolOf.ne_protocolFee c x q _).symm, ?_, ?_, ?_, ?_,
      ?_, ?_⟩
    · rw [hvaultA]
      exact (protocolFee_ne_vault _ _ _ _).symm
    · rw [hvaultB]
      exact (protocolFee_ne_vault _ _ _ _).symm
    · rintro he
      exact hi' (he ▸ hderived)
    · rintro he
      exact ho' (he ▸ hderived)
    · intro he
      cases he
    · intro he
      cases he
  exact hothers.concat hfee

end

section
variable (tickMath : TwapOracle.TickMath) (hcovers : tickMath.Covers) (depth : ℕ)
  (authority : List AccountId) (w : Accounts) (c x : AccountId) (cfg : AmmConfig)
  (q q' : PoolDefinition) (balance : Side → U128) (hs : Serviceable w c x cfg q balance)
  (now : U64) (hclock : ClockAt w now) (price : U128) (seed : PdaSeed)
  (hseed : computePoolPdaSeed c q.definitionTokenAId q.definitionTokenBId = .ok seed)
  (hc : Conserved w) (side : Side) (i o : AccountId) (n m : U128)
  (hown : ∀ id ∈ [i, o], ¬id.DerivedBy ammProgramId)
  (hi : HoldingAt w i (.fungible (q.token side) n))
  (ho : HoldingAt w o (.fungible (q.token side.other) m))
include hcovers hs hclock hseed hc hown hi ho

theorem swap_completes (hauth : i ∈ authority) (amounts : SwapAmounts) (protocolFee : U128)
    (hin : amounts.amountIn.val ≤ n.val)
    (hout : amounts.amountOut.val ≤ (q.reserve side.other).val)
    (hpart : protocolFee.val ≤ amounts.amountIn.val)
    (hfee : protocolFee.val = 0 ∨ ∃ paid, CreditBase w (q.token side)
      (computeProtocolFeePda ammProgramId c (q.token side)) paid) :
    Completes tickMath (depth + 1) authority (put ammProgramId w x (.poolDefinition q'))
      (swapCalls tokenProgramId c x i o (q.vault side) (q.vault side.other)
        (computeProtocolFeePda ammProgramId c (q.token side)) (q.token side) (q.token side.other)
        amounts protocolFee ++ [tickCall twapOracleProgramId x price seed]) := by
  have hn := hs.swap_distinct w c x cfg q balance now hclock side i o n m hown hi ho
  simp only [swapAccounts, List.nodup_cons, List.mem_cons, List.not_mem_nil, or_false, not_or,
    List.nodup_nil, and_true, not_false_eq_true] at hn
  obtain ⟨-, ⟨hxva, hxvb, hxi, hxo, hxt, hxk, hxf⟩, ⟨hvavb, hvai, hvao, hvat, hvak, hvaf⟩,
    ⟨hvbi, hvbo, hvbt, hvbk, hvbf⟩, ⟨hio, hit, hik, hif⟩, ⟨hot, hok, hof⟩, ⟨htk, htf⟩, hkf⟩ := hn
  set fee := computeProtocolFeePda ammProgramId c (q.token side) with hfeeId
  have hvault : ∀ s, x ≠ q.vault s ∧ q.vault s ≠ i ∧ q.vault s ≠ o ∧ q.vault s ≠ fee ∧
      q.vault s ≠ TwapOracle.computeCurrentTickAccountPda twapOracleProgramId x ∧
      q.vault s ≠ clock01ProgramAccountId := by
    rintro (_ | _)
    · exact ⟨hxva, hvai, hvao, hvaf, hvat, hvak⟩
    · exact ⟨hxvb, hvbi, hvbo, hvbf, hvbt, hvbk⟩
  obtain ⟨hxin, hini, hino, hinf, hint, hink⟩ := hvault side
  obtain ⟨hxout, houti, houto, houtf, houtt, houtk⟩ := hvault side.other
  have hpair : q.vault side ≠ q.vault side.other := by
    cases side with
    | a => exact hvavb
    | b => exact Ne.symm hvavb
  have hkey : ∀ s, q.vault s = .forPublicPda ammProgramId (computeVaultPdaSeed x (q.token s)) :=
    hs.sound.vaultIds
  have hroomIn := hs.room w c x cfg q balance hc side i n hi (hown i (by simp))
  have hroomOut := hs.room w c x cfg q balance hc side.other o m ho (hown o (by simp))
  have hcovered := hs.covered side.other
  have t₀ : Touches w (put ammProgramId w x (.poolDefinition q')) x x :=
    fun id hid _ => put_other _ _ _ _ _ hid
  rw [swapCalls, List.append_assoc, List.cons_append, List.cons_append, List.nil_append]
  refine completes_transfer tickMath depth authority _ _ amounts.amountIn i (q.vault side)
    (q.token side) [] (Ne.symm hini) n (balance side)
    (t₀.holdingAt _ _ _ _ _ _ (Ne.symm hxi) (Ne.symm hxi) hi)
    (Or.inr (t₀.holdingAt _ _ _ _ _ _ (Ne.symm hxin) (Ne.symm hxin) (hs.vaults side)))
    (mem_callAuthority_of_mem _ _ _ _ hauth) hin (by omega) fun w₁ grown t₁ hgrown hsum => ?_
  have h₁ : ∀ id, id ≠ x → id ≠ i → id ≠ q.vault side → w₁ id = w id :=
    fun id hx hi hv => (t₁ id hi hv).trans (t₀ id hx hx)
  refine completes_transfer tickMath depth authority _ _ amounts.amountOut (q.vault side.other) o
    (q.token side.other) _ houto (balance side.other) m ?_ (Or.inr ?_) ?_ (by omega) (by omega)
    fun w₂ _ t₂ _ _ => ?_
  · exact (owned_congr _ _ _ _ (h₁ _ (Ne.symm hxout) houti (Ne.symm hpair))).trans
      (hs.vaults side.other)
  · exact (owned_congr _ _ _ _ (h₁ o (Ne.symm hxo) (Ne.symm hio) (Ne.symm hino))).trans ho
  · rw [hkey side.other]
    exact mem_callAuthority _ _ _ _ (List.mem_singleton_self _)
  have h₂ : ∀ id, id ≠ x → id ≠ i → id ≠ q.vault side → id ≠ q.vault side.other → id ≠ o →
      w₂ id = w id := fun id hx hi hv hv' ho => (t₂ id hv' ho).trans (h₁ id hx hi hv)
  have htick := h₂ _ (Ne.symm hxt) (Ne.symm hit) (Ne.symm hint) (Ne.symm houtt) (Ne.symm hot)
  have htime := h₂ _ (Ne.symm hxk) (Ne.symm hik) (Ne.symm hink) (Ne.symm houtk) (Ne.symm hok)
  have hreport : [TwapOracle.computeCurrentTickAccountPda twapOracleProgramId x, x,
      clock01ProgramAccountId].Nodup := by simp [Ne.symm hxt, hxk, htk]
  split
  · rename_i howed
    obtain ⟨paid, hpaid⟩ := hfee.resolve_left howed
    have hroomFee := hc.room w _ i fee n paid hi hpaid hif
    refine completes_transfer tickMath depth authority _ _ protocolFee (q.vault side) fee
      (q.token side) _ hinf grown paid (t₂.holdingAt _ _ _ _ _ _ hpair hino hgrown)
      (hpaid.congr _ _ _ _ _ (h₂ fee (Ne.symm hxf) (Ne.symm hif) (Ne.symm hinf) (Ne.symm houtf)
        (Ne.symm hof))) ?_ (by omega) (by omega) fun w₃ _ t₃ _ _ => ?_
    · rw [hkey side]
      exact mem_callAuthority _ _ _ _ (List.mem_cons_self ..)
    exact completes_report tickMath hcovers depth authority w c x cfg q balance hs now hclock price
      seed hseed w₃ ((t₃ _ (Ne.symm hint) htf).trans htick) ((t₃ _ (Ne.symm hink) hkf).trans htime)
      hreport
  · exact completes_report tickMath hcovers depth authority w c x cfg q balance hs now hclock price
      seed hseed w₂ htick htime hreport

end

def Instruction.deadline : Instruction → Option U64
  | .newDefinition _ _ deadline => some deadline
  | .addLiquidity _ _ _ deadline => some deadline
  | .removeLiquidity _ _ _ deadline => some deadline
  | .swapExactInput _ _ deadline => some deadline
  | .swapExactOutput _ _ deadline => some deadline
  | _ => none

def owedFee (cfg : AmmConfig) (amounts : SwapAmounts) : ℕ :=
  (amounts.amountIn.val - amounts.effectiveAmountIn.val) * cfg.protocolFeeBps.val / 10000

/-- A swap never pays out a whole reserve, and its input covers what is priced. -/
theorem Priced.bounds (reserveIn reserveOut feeBps : U128) (instruction : Instruction)
    (amounts : SwapAmounts) (h : Priced reserveIn reserveOut feeBps instruction amounts) :
    amounts.effectiveAmountIn.val ≤ amounts.amountIn.val ∧
      amounts.amountOut.val ≤ reserveOut.val := by
  cases h with
  | exactInput swapAmountIn minAmountOut deadline amounts priced =>
    simp only [exactInputAmounts, bind_eq_ok, ensure_eq_ok, exists_const, Prod.exists,
      pure_eq_ok] at priced
    obtain ⟨effective, out, hamounts, -, -, hne, rfl⟩ := priced
    obtain ⟨heffective, -⟩ := (swapExactInAmounts_eq_ok _ _ _ _ _ _).mp hamounts
    refine ⟨?_, ?_⟩
    · exact heffective.le.trans (ConstantProduct.afterFee_le 10000 feeBps.val swapAmountIn.val)
    · change out.val ≤ reserveOut.val
      rw [swapExactInAmounts_spec _ _ _ _ _ _ hamounts hne]
      refine Nat.div_le_of_le_mul ?_
      rw [Nat.mul_comm]
      exact Nat.mul_le_mul_right _ (Nat.le_add_left _ _)
  | exactOutput exactAmountOut maxAmountIn deadline amounts priced =>
    simp only [exactOutputAmounts, bind_eq_ok, ensure_eq_ok, exists_const, expect_eq_ok,
      Prod.exists, pure_eq_ok] at priced
    obtain ⟨-, -, priced', hamounts, effective, required, rfl, -, rfl⟩ := priced
    obtain ⟨hlt, -, hfee, -, hrequired⟩ := (swapExactOutAmounts_eq_ok _ _ _ _ _ _).mp hamounts
    refine ⟨?_, hlt.le⟩
    change effective.val ≤ required.val
    have hcovers : effective.val ≤ ConstantProduct.afterFee 10000 feeBps.val required.val := by
      rw [ConstantProduct.le_afterFee_iff _ _ _ _ hfee, hrequired]
    exact hcovers.trans (ConstantProduct.afterFee_le 10000 feeBps.val required.val)

theorem swappedSide_succeeds (q : PoolDefinition) (side : Side) (deposit withdraw : U128)
    (hin : (q.reserve side).val + deposit.val < 2 ^ 128)
    (hout : withdraw.val ≤ (q.reserve side.other).val) :
    ∃ q', swappedSide q side deposit withdraw = .ok q' := by
  have hzero : (zero 128).val = 0 := rfl
  have hA := q.reserveA.isLt
  have hB := q.reserveB.isLt
  cases side with
  | a =>
    change q.reserveA.val + deposit.val < 2 ^ 128 at hin
    change withdraw.val ≤ q.reserveB.val at hout
    simp only [swappedSide, swappedPool, bind_eq_ok, expect_eq_ok, checkedAdd_eq_some,
      checkedSub_eq_some, hzero, Nat.add_zero, pure_eq_ok]
    exact ⟨_, ⟨_, hin⟩, rfl, ⟨_, hin⟩, rfl, q.reserveB, rfl,
      ⟨q.reserveB.val - withdraw.val, by omega⟩, Nat.sub_add_cancel hout, rfl⟩
  | b =>
    change q.reserveB.val + deposit.val < 2 ^ 128 at hin
    change withdraw.val ≤ q.reserveA.val at hout
    simp only [swappedSide, swappedPool, bind_eq_ok, expect_eq_ok, checkedAdd_eq_some,
      checkedSub_eq_some, hzero, Nat.add_zero, pure_eq_ok]
    exact ⟨_, q.reserveA, rfl, ⟨q.reserveA.val - withdraw.val, by omega⟩, Nat.sub_add_cancel hout,
      ⟨_, hin⟩, rfl, ⟨_, hin⟩, rfl, rfl⟩

/-- The fees of a priced swap, the deposit that remains and the pool after it. -/
theorem Priced.settles (cfg : AmmConfig) (hvalid : cfg.protocolFeeBps.val ≤ 10000)
    (q : PoolDefinition) (side : Side) (instruction : Instruction) (amounts : SwapAmounts)
    (h : Priced (q.reserve side) (q.reserve side.other) cfg.swapFeeBps instruction amounts)
    (hfits : (q.reserve side).val + amounts.amountIn.val < 2 ^ 128) :
    ∃ swapFee protocolFee net q', swapFee.val + amounts.effectiveAmountIn.val = amounts.amountIn.val ∧
      protocolFeeAmount swapFee cfg.protocolFeeBps = .ok protocolFee ∧
      net.val + protocolFee.val = amounts.amountIn.val ∧
      swappedSide q side net amounts.amountOut = .ok q' ∧ protocolFee.val = owedFee cfg amounts := by
  obtain ⟨hle, hout⟩ := h.bounds
  have hpart : owedFee cfg amounts ≤ amounts.amountIn.val - amounts.effectiveAmountIn.val :=
    Nat.div_le_of_le_mul (by rw [Nat.mul_comm]; exact Nat.mul_le_mul_right _ hvalid)
  have hswapFee : amounts.amountIn.val - amounts.effectiveAmountIn.val < 2 ^ 128 :=
    (Nat.sub_le _ _).trans_lt amounts.amountIn.isLt
  have hshare : protocolFeeAmount ⟨_, hswapFee⟩ cfg.protocolFeeBps
      = .ok ⟨owedFee cfg amounts, hpart.trans_lt hswapFee⟩ :=
    (mulDivFloor_eq_ok _ _ _ _).mpr ⟨by decide, rfl⟩
  have hnet : amounts.amountIn.val - owedFee cfg amounts < 2 ^ 128 :=
    (Nat.sub_le _ _).trans_lt amounts.amountIn.isLt
  have hgrown : (q.reserve side).val + (amounts.amountIn.val - owedFee cfg amounts) < 2 ^ 128 := by
    omega
  obtain ⟨q', hq'⟩ := swappedSide_succeeds q side ⟨_, hnet⟩ amounts.amountOut hgrown hout
  exact ⟨⟨_, hswapFee⟩, ⟨_, hpart.trans_lt hswapFee⟩, ⟨_, hnet⟩, q', Nat.sub_add_cancel hle, hshare,
    Nat.sub_add_cancel (hpart.trans (Nat.sub_le _ _)), hq', rfl⟩

section
variable (authority : List AccountId) (w : Accounts) (c x : AccountId) (cfg : AmmConfig)
  (q q' : PoolDefinition) (balance : Side → U128) (hs : Serviceable w c x cfg q balance)
  (now : U64) (hclock : ClockAt w now) (price : U128) (seed : PdaSeed)
  (hspot : spotPriceQ6464 q'.reserveA q'.reserveB = .ok price)
  (hseed : computePoolPdaSeed c q.definitionTokenAId q.definitionTokenBId = .ok seed)
  (side : Side) (i o : AccountId) (n m : U128)
  (hi : HoldingAt w i (.fungible (q.token side) n))
  (ho : HoldingAt w o (.fungible (q.token side.other) m))
include hs hclock hspot hseed hi ho

theorem accepts_swap (instruction : Instruction) (amounts : SwapAmounts)
    (swapFee protocolFee net : U128)
    (hpriced : Priced (q.reserve side) (q.reserve side.other) cfg.swapFeeBps instruction amounts)
    (htimely : ∀ deadline, instruction.deadline = some deadline → now.val < deadline.val)
    (hfee : swapFee.val + amounts.effectiveAmountIn.val = amounts.amountIn.val)
    (hshare : protocolFeeAmount swapFee cfg.protocolFeeBps = .ok protocolFee)
    (hnet : net.val + protocolFee.val = amounts.amountIn.val)
    (hupdated : swappedSide q side net amounts.amountOut = .ok q') :
    ∃ diffs, main ammProgramId (blockTimestamp w)
        ((swapAccounts c x q side i o).map (view w authority)) instruction
        = .ok (diffs, swapCalls tokenProgramId c x i o (q.vault side) (q.vault side.other)
          (computeProtocolFeePda ammProgramId c (q.token side)) (q.token side)
          (q.token side.other) amounts protocolFee ++
            [tickCall twapOracleProgramId x price seed]) ∧
      applyDiffs ammProgramId w diffs = .ok (put ammProgramId w x (.poolDefinition q')) := by
  have hwritten := fun context logicContext amountName pricing hamounts =>
    accepts_priced authority w c x cfg q q' balance hs price seed hspot hseed side i o n m hi ho
      context logicContext amountName pricing amounts swapFee protocolFee net hamounts hfee hshare hnet
      hupdated
  refine ⟨[.unchanged (view w authority c), .new (view w authority x) (.poolDefinition q'),
    .unchanged (view w authority q.vaultAId), .unchanged (view w authority q.vaultBId),
    .unchanged (view w authority i), .unchanged (view w authority o),
    .unchanged (view w authority (TwapOracle.computeCurrentTickAccountPda twapOracleProgramId x)),
    .unchanged (view w authority clock01ProgramAccountId),
    .unchanged (view w authority (computeProtocolFeePda ammProgramId c (q.token side)))], ?_, ?_⟩
  · cases hpriced with
    | exactInput swapAmountIn minAmountOut deadline amounts priced =>
      simp only [swapAccounts, List.map_cons, List.map_nil, main, withTimestampValidityWindow_eq_ok]
      refine ⟨hwritten _ _ _ _ priced, ?_⟩
      rw [hclock.blockTimestamp_eq]
      exact htimely deadline rfl
    | exactOutput exactAmountOut maxAmountIn deadline amounts priced =>
      simp only [swapAccounts, List.map_cons, List.map_nil, main, withTimestampValidityWindow_eq_ok]
      refine ⟨hwritten _ _ _ _ priced, ?_⟩
      rw [hclock.blockTimestamp_eq]
      exact htimely deadline rfl
  · simp only [applyDiffs_unchanged, applyDiffs_new, view_accountId, applyDiffs_nil, and_true]
    exact Or.inr (Or.inl ((owned_eq_some _ _ _ _).mp hs.stored).1)

end

/-- A swap that can be priced and that the user covers succeeds where its fee can be credited. -/
theorem swap_succeeds (platform : Platform) (hcovers : platform.tickMath.Covers)
    (hdepth : 2 ≤ platform.callDepth) (w : Accounts) (hl : Live platform w) (c x : AccountId)
    (cfg : AmmConfig) (q : PoolDefinition) (balance : Side → U128)
    (hs : Serviceable w c x cfg q balance) (now : U64) (hclock : ClockAt w now)
    (authority : List AccountId) (seeds : List PdaSeed)
    (hout : ∀ id ∈ authority, ∀ program ∈ deployedPrograms, ¬id.DerivedBy program)
    (side : Side) (i o : AccountId) (n m : U128)
    (hown : ∀ id ∈ [i, o], ¬id.DerivedBy ammProgramId)
    (hi : HoldingAt w i (.fungible (q.token side) n))
    (ho : HoldingAt w o (.fungible (q.token side.other) m)) (hauth : i ∈ authority)
    (instruction : Instruction) (amounts : SwapAmounts)
    (hpriced : Priced (q.reserve side) (q.reserve side.other) cfg.swapFeeBps instruction amounts)
    (htimely : ∀ deadline, instruction.deadline = some deadline → now.val < deadline.val)
    (hin : amounts.amountIn.val ≤ n.val)
    (hfee : owedFee cfg amounts = 0 ∨ ∃ paid, CreditBase w (q.token side)
      (computeProtocolFeePda ammProgramId c (q.token side)) paid) :
    ∃ w', transact platform w authority ⟨ammProgramId, swapAccounts c x q side i o,
      .amm instruction, seeds⟩ = .ok w' := by
  have hroom := hs.room w c x cfg q balance hl.conserved side i n hi (hown i (by simp))
  have hcovered := hs.covered side
  obtain ⟨swapFee, protocolFee, net, q', hsum, hshare, hnet, hupdated, howed⟩ :=
    hpriced.settles cfg hs.valid.2 q side instruction amounts (by omega)
  have hhealthy := (swapped_move q q' side cfg hs.valid.2 instruction amounts swapFee protocolFee net
    hpriced hsum hshare hnet hupdated).healthy 1000 (by decide) _ _ hs.sound.healthy
  obtain ⟨price, hspot⟩ := spotPrice_succeeds q'.reserveA q'.reserveB hhealthy.first.ne'
  obtain ⟨seed, hseed⟩ := hs.seeded w c x cfg q balance
  obtain ⟨diffs, hmain, happly⟩ := accepts_swap authority w c x cfg q q' balance hs now hclock price
    seed hspot hseed side i o n m hi ho instruction amounts swapFee protocolFee net hpriced htimely
    hsum hshare hnet hupdated
  rw [← howed] at hfee
  exact transact_succeeds authority platform hdepth w _ _ _ seeds hout
    (hs.swap_distinct w c x cfg q balance now hclock side i o n m hown hi ho) diffs _ hmain happly
    fun depth => swap_completes platform.tickMath hcovers depth authority w c x cfg q q' balance hs now
      hclock price seed hseed hl.conserved side i o n m hown hi ho hauth amounts protocolFee hin
      hpriced.bounds.2 (by omega) hfee

end LezPrograms.Amm
