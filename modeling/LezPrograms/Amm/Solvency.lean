import LezPrograms.Amm.Reachable

/-! # Solvency

Every vault holds its reserve. What it holds beyond the reserve changes when
somebody pays into the vault and when the reserves are synchronized; a swap moves
exactly what the reserves and the fee holding say. -/

set_option autoImplicit false

namespace LezPrograms.Amm
open LezPrograms.Checked LezPrograms.Lee LezPrograms.Token

def surplus (w : Accounts) (q : PoolDefinition) (side : Side) : ℤ :=
  unitsAt w (q.vault side) - (q.reserve side).val

inductive SurplusChange (platform : Platform) (w : Accounts) (event : Event) (x : AccountId)
    (q q' : PoolDefinition) : Prop
  | deposited (kept : q' = q) (paid : ∀ side, surplus (event.apply platform w) q' side
        = surplus w q side + deposits (executedCalls platform w event) (q.vault side)) :
      SurplusChange platform w event x q q'
  | operated (authority : List AccountId) (call : ChainedCall) (instruction : Instruction)
      (applied : event = .transaction authority call)
      (called : call.instruction = .amm instruction) (other : instruction ≠ .syncReserves)
      (pool : ∃ c rest, call.accountIds = c :: x :: rest)
      (kept : ∀ side, surplus (event.apply platform w) q' side = surplus w q side) :
      SurplusChange platform w event x q q'
  | synced (authority : List AccountId) (call : ChainedCall)
      (applied : event = .transaction authority call)
      (called : call.instruction = .amm .syncReserves)
      (pool : ∃ c rest, call.accountIds = c :: x :: rest)
      (taken : ∀ side, surplus (event.apply platform w) q' side = 0) :
      SurplusChange platform w event x q q'

/-- A swap with input on `side`: the user's input holding `i` pays what the reserve and the fee
holding `f` receive, and the output reserve pays what the user's output holding `o` receives. -/
structure Exchanged (w w' : Accounts) (q q' : PoolDefinition) (side : Side) (i o f : AccountId)
    (net fee out : ℕ) : Prop where
  inputToken : ∃ held : Holding, (w i).data = .tokenHolding held ∧
    held.definitionId = q.token side
  debited : unitsAt w i = unitsAt w' i + (net + fee)
  reserveIn : (q'.reserve side).val = (q.reserve side).val + net
  feeCredited : unitsAt w' f = unitsAt w f + fee
  credited : unitsAt w' o = unitsAt w o + out
  reserveOut : (q.reserve side.other).val = (q'.reserve side.other).val + out

def Instruction.isSwap : Instruction → Bool
  | .swapExactInput _ _ _ => true
  | .swapExactOutput _ _ _ => true
  | _ => false

section
variable (w v w' : Accounts) (authority : List AccountId) (calls : List ChainedCall)

/-- Calls that carry no key of the pool pay into its vaults. -/
theorem PoolSound.deposited (x : AccountId) (q : PoolDefinition) (hs : PoolSound w x q)
    (hd : Deposited ammProgramId w w' calls) (side : Side) :
    surplus w' q side = surplus w q side + deposits calls (q.vault side) := by
  obtain ⟨held, hh, -, -⟩ := hs.vaults side
  have hderived : (q.vault side).DerivedBy ammProgramId := by
    rw [hs.vaultIds side]
    exact derivedBy_forPublicPda _ _
  obtain ⟨held', hh', -, hunits⟩ := hd _ hderived held hh
  rw [surplus, surplus, hh'.unitsAt_eq, hh.unitsAt_eq, hunits]
  push_cast
  ring

variable (ho : Outside ammProgramId authority) (hf : Frame ammProgramId w v)
  (hsettled : Settled ammProgramId authority v calls w')
include ho hf hsettled

theorem PoolSound.spared (x : AccountId) (q : PoolDefinition) (hs : PoolSound w x q)
    (hspared : ∀ call ∈ calls, ∀ seed ∈ call.pdaSeeds, Spared x seed) (side : Side) :
    surplus w' q side = surplus w q side + deposits calls (q.vault side) := by
  obtain ⟨held, hh, -, -⟩ := hs.vaults side
  have htokens := owned_frame tokenProgramId _ _ _ hf (by decide) (by decide)
  have hv : HoldingAt v (q.vault side) held := by rwa [HoldingAt, htokens]
  obtain ⟨held', hh', -, -, hflow⟩ := hsettled.holding_flows _ _ _ _ _ _ held hv
  have hzero := hsettled.debits_eq_zero _ _ _ _ _ (q.vault side)
    (by rw [hs.vaultIds side]; exact ho.not_mem _ _ _) fun call hc => Or.inr fun seed hseed => by
      rw [hs.vaultIds side]
      exact (hspared call hc seed hseed).vault _
  rw [surplus, surplus, hh'.unitsAt_eq, hh.unitsAt_eq, deposits]
  omega

omit ho in
/-- The surplus of the pool that an instruction operates on. -/
theorem Follows.surplus_kept (x : AccountId) (q q' : PoolDefinition) (instruction : Instruction)
    (hs : PoolSound w x q) (same : SamePool q q')
    (hfollows : Follows w q q' calls instruction) (side : Side) :
    (instruction ≠ .syncReserves → surplus w' q' side = surplus w q side) ∧
      (instruction = .syncReserves → surplus w' q' side = 0) := by
  obtain ⟨held, hh, -, -⟩ := hs.vaults side
  have htokens := owned_frame tokenProgramId _ _ _ hf (by decide) (by decide)
  have hv : HoldingAt v (q.vault side) held := by rwa [HoldingAt, htokens]
  obtain ⟨held', hh', -, -, hflow⟩ := hsettled.holding_flows _ _ _ _ _ _ held hv
  rw [surplus, surplus, same.vault, hh'.unitsAt_eq, hh.unitsAt_eq]
  cases hfollows with
  | transfers _ priced settled =>
    refine ⟨fun _ => ?_, fun he => absurd he priced⟩
    have := settled side
    omega
  | balances token holds idle =>
    refine ⟨fun he => absurd rfl he, fun _ => ?_⟩
    have hdebit := sum_eq_zero_of_idle calls (fun call => call.debit (q.vault side))
      fun call hc => (idle call hc _).1
    have hcredit := sum_eq_zero_of_idle calls (fun call => call.credit (q.vault side))
      fun call hc => (idle call hc _).2
    have hdata := hh.data
    rw [holds side, Data.tokenHolding.injEq] at hdata
    subst hdata
    have hunits : (TokenHolding.fungible (token side) (q'.reserve side)).units
        = (q'.reserve side).val := rfl
    omega

end

theorem surplus_event (platform : Platform) (w : Accounts) (event : Event) (hbare : Bare w)
    (hw : Sound w) (x : AccountId) (q : PoolDefinition) (hq : PoolAt w x q) :
    ∃ q', PoolAt (event.apply platform w) x q' ∧ SamePool q q' ∧
      SurplusChange platform w event x q q' := by
  have hs := hw.pools x q hq
  by_cases ha : Invokes event
  · rcases event_cases platform w event with
      ⟨-, hfailed⟩ | ⟨authority, call, instruction, v, calls, rfl, ht⟩
    · obtain ⟨hsame, hnone⟩ := hfailed ha
      refine ⟨q, by rwa [hsame], SamePool.refl q, .deposited rfl fun side => ?_⟩
      rw [hsame, hnone]
      exact (add_zero _).symm
    · have hown := ht.settled.owned_eq _ _ ammProgramId (by decide) (by decide)
      rcases (ht.effect platform w v _ authority call instruction calls hbare hw).pool w v authority
        call.accountIds instruction calls x q hq with ⟨hv, hspared⟩ | ⟨c, rest, q', hids, op, hv⟩
      · refine ⟨q, by rwa [PoolAt, hown], SamePool.refl q, .deposited rfl fun side => ?_⟩
        rw [ht.deposits_eq platform w v _ authority call instruction calls]
        exact hs.spared w v _ authority calls ht.outside ht.frame ht.settled x q hspared side
      · have hkept := op.follows.surplus_kept w v _ authority calls ht.frame ht.settled x q q'
          instruction hs op.same
        refine ⟨q', by rwa [PoolAt, hown], op.same, ?_⟩
        by_cases hi : instruction = .syncReserves
        · subst hi
          exact .synced authority call rfl ht.called ⟨c, rest, hids⟩ fun side => (hkept side).2 rfl
        · exact .operated authority call instruction rfl ht.called hi ⟨c, rest, hids⟩
            fun side => (hkept side).1 hi
  · have hd := Event.deposits platform ammProgramId (by decide) w event
      fun authority call he => ⟨fun i hi => absurd ⟨authority, call, i, he, hi⟩ ha,
        fun _ _ => by decide⟩
    have hown : owned ammProgramId (event.apply platform w) = owned ammProgramId w := by
      rcases event_cases platform w event with ⟨he, -⟩ | ⟨authority, call, i, _, _, he, ht⟩
      · exact elsewhere_preserves ammProgramId
          (fun w' => owned ammProgramId w' = owned ammProgramId w)
          (fun v v' hv hf => (hf.owned_eq _ _ _ (by decide) (by decide)).trans hv) w _ he rfl
      · exact absurd ⟨authority, call, i, he, ht.called⟩ ha
    exact ⟨q, by rwa [PoolAt, hown], SamePool.refl q, .deposited rfl
      (hs.deposited w _ (executedCalls platform w event) x q hd)⟩

theorem transfers_swapCalls (tokenProgramId c x i o vaultIn vaultOut f tokenIn tokenOut oracle :
    AccountId) (amounts : SwapAmounts) (protocolFee price : U128) (seed : PdaSeed) :
    ∀ call ∈ swapCalls tokenProgramId c x i o vaultIn vaultOut f tokenIn tokenOut amounts
      protocolFee ++ [tickCall oracle x price seed], call.Routine := by
  intro call hc
  rw [swapCalls, List.append_assoc, List.mem_append, List.mem_append] at hc
  rcases hc with hc | hc | hc
  · simp only [List.mem_cons, List.not_mem_nil, or_false] at hc
    rcases hc with rfl | rfl
    · exact .transfer _ _ _ rfl rfl
    · exact .transfer _ _ _ rfl rfl
  · split at hc
    · rw [List.mem_singleton.mp hc]
      exact .transfer _ _ _ rfl rfl
    · cases hc
  · rw [List.mem_singleton.mp hc]
    exact .oracle _ rfl

theorem Transacted.exchanged (platform : Platform) (w v w' : Accounts) (authority : List AccountId)
    (call : ChainedCall) (instruction : Instruction) (calls : List ChainedCall) (hbare : Bare w)
    (hw : Sound w) (hswap : instruction.isSwap = true)
    (h : Transacted platform w authority call instruction v calls w') :
    ∃ c x i o t k q q' side net fee out, call.accountIds = [c, x, q.vaultAId, q.vaultBId, i, o, t,
        k, computeProtocolFeePda ammProgramId c (q.token side)] ∧
      PoolAt w x q ∧ PoolAt w' x q' ∧ Exchanged w w' q q' side i o
        (computeProtocolFeePda ammProgramId c (q.token side)) net fee out := by
  have htokens := owned_frame tokenProgramId _ _ _ h.frame (by decide) (by decide)
  have hown := h.settled.owned_eq _ _ ammProgramId (by decide) (by decide)
  have hbare' := hbare.frame _ _ _ h.frame (by decide)
  have hstep := h.step
  have hn := h.distinct
  have hsettled := h.settled
  generalize hids : call.accountIds = ids at hstep hn
  cases hstep with
  | swap _ side c x i o cfg q q' token balance holding amounts swapFee protocolFee net price seed
      reads vaults input inputToken priced fee share rest updated written _ seeded =>
    have hcfg := (hw.configs c cfg (configAt_of_holds w c cfg reads.config)).2
    have op := operation_swap w c x cfg q q' reads cfg.tokenProgramId cfg.twapOracleProgramId price
      seed seeded hbare written hcfg instruction side i o _ _ _ token amounts swapFee protocolFee net
      hn priced fee share rest updated
    obtain ⟨-, -, hin, hout⟩ := swappedSide_spec q q' side net amounts.amountOut updated
    have hflow := hsettled.units_flow _ _ _ _ hbare' _ (transfers_swapCalls _ _ _ _ _ _ _ _ _ _ _ _
      _ _ _)
    simp only [List.map_append, List.sum_append, debit_swapCalls, credit_swapCalls, List.map_cons,
      List.map_nil, List.sum_cons, List.sum_nil, debit_tickCall, credit_tickCall, Nat.add_zero,
      unitsAt, htokens] at hflow
    simp only [List.nodup_cons, List.mem_cons, not_or, List.not_mem_nil, not_false_eq_true,
      and_true] at hn
    obtain ⟨-, -, ⟨-, hai, hao, -, -, haf⟩, ⟨hbi, hbo, -, -, hbf⟩, ⟨hio, -, -, hif⟩,
      ⟨-, -, hof⟩, -⟩ := hn
    have hvault : ∀ s, q.vault s ≠ i ∧ q.vault s ≠ o ∧
        q.vault s ≠ computeProtocolFeePda ammProgramId c (q.token side) := by
      rintro (_ | _)
      · exact ⟨hai, hao, haf⟩
      · exact ⟨hbi, hbo, hbf⟩
    have hself := hvault side
    have hother := hvault side.other
    refine ⟨c, x, i, o, _, _, q, q', side, net.val, protocolFee.val, amounts.amountOut.val, rfl,
      op.stored, by rw [PoolAt, hown]; exact poolAt_put w x q q' op.stored,
      ⟨⟨holding, input, inputToken⟩, ?_, hin, ?_, ?_, hout.symm⟩⟩
    · have := hflow i
      simp only [Ne.symm hself.1, Ne.symm hother.1, hio, hif, if_true, if_false] at this
      simp only [unitsAt]
      omega
    · have := hflow (computeProtocolFeePda ammProgramId c (q.token side))
      simp only [Ne.symm hself.2.2, Ne.symm hother.2.2, Ne.symm hif, Ne.symm hof, if_true,
        if_false] at this
      simp only [unitsAt]
      omega
    · have := hflow o
      simp only [Ne.symm hself.2.1, Ne.symm hother.2.1, Ne.symm hio, hof, if_true, if_false] at this
      simp only [unitsAt]
      omega
  | initializeConfig | updateConfig | withdrawProtocolFees | newDefinition | addLiquidity
    | removeLiquidity | syncReserves => cases hswap

/-- The AMM is solvent: vaults cover reserves, only payments and synchronization change what they
hold beyond, and swaps move what the reserves and the fee holding say. -/
theorem vaults_cover_reserves (platform : Platform) (genesis : Genesis) (events : List Event) :
    (∀ x q, PoolAt (run platform genesis.world events) x q → ∀ side, ∃ held,
      HoldingAt (run platform genesis.world events) (q.vault side) held ∧
        held.definitionId = q.token side ∧ (q.reserve side).val ≤ held.units) ∧
    (∀ event x q, PoolAt (run platform genesis.world events) x q →
      ∃ q', PoolAt (event.apply platform (run platform genesis.world events)) x q' ∧
        SamePool q q' ∧ SurplusChange platform (run platform genesis.world events) event x q q') ∧
    ∀ authority call instruction w', call.instruction = .amm instruction →
      instruction.isSwap = true →
      transact platform (run platform genesis.world events) authority call = .ok w' →
      ∃ c x i o t k q q' side net fee out, call.accountIds = [c, x, q.vaultAId, q.vaultBId, i, o, t,
          k, computeProtocolFeePda ammProgramId c (q.token side)] ∧
        PoolAt (run platform genesis.world events) x q ∧ PoolAt w' x q' ∧
        Exchanged (run platform genesis.world events) w' q q' side i o
          (computeProtocolFeePda ammProgramId c (q.token side)) net fee out := by
  obtain ⟨hbare, hw⟩ := run_sound platform genesis events
  refine ⟨fun x q hq => (hw.pools x q hq).vaults,
    fun event x q hq => surplus_event platform _ event hbare hw x q hq, ?_⟩
  intro authority call instruction w' hi hswap h
  obtain ⟨v, calls, ht⟩ := transacted_of_ok platform _ w' authority call instruction hi h
  exact ht.exchanged platform _ v w' authority call instruction calls hbare hw hswap

theorem first_swap_solvent :
    (∃ held, HoldingAt firstPoolWorld firstPool.vaultAId held ∧ 40000 ≤ held.units) ∧
    (∃ q', SamePool firstPool q' ∧ SurplusChange tablePlatform firstPoolWorld
      (.transaction [.key 21] firstSwap) firstPoolId firstPool q') ∧
    ∃ q q' side i o f net fee out, Exchanged firstPoolWorld
      (Event.apply tablePlatform firstPoolWorld (.transaction [.key 21] firstSwap)) q q' side i o f
      net fee out := by
  have hpool : PoolAt firstPoolWorld firstPoolId firstPool := by
    unfold PoolAt
    decide +kernel
  obtain ⟨hcovered, hsurplus, hswap⟩ :=
    vaults_cover_reserves tablePlatform (clockedGenesis 0) firstPoolEvents
  refine ⟨?_, ?_, ?_⟩
  · obtain ⟨held, hh, -, hr⟩ := hcovered firstPoolId firstPool hpool .a
    exact ⟨held, hh, hr⟩
  · obtain ⟨q', -, hsame, hchange⟩ :=
      hsurplus (.transaction [.key 21] firstSwap) firstPoolId firstPool hpool
    exact ⟨q', hsame, hchange⟩
  · obtain ⟨_, _, i, o, _, _, q, q', side, net, fee, out, -, -, -, he⟩ :=
      hswap [.key 21] firstSwap (.swapExactInput 1000 1 1) _ rfl rfl
        (transact_apply _ _ _ _ (by decide +kernel))
    exact ⟨q, q', side, i, o, _, net, fee, out, he⟩

end LezPrograms.Amm
