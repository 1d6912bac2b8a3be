import LezPrograms.Amm.Sound
import LezPrograms.Token.Conservation
import LezPrograms.Token.Deposits

/-! # Reachable worlds of the AMM

An event is a transaction that the AMM executes or a change elsewhere. The
invariant holds before the first event and survives both. -/

set_option autoImplicit false

namespace LezPrograms.Amm
open LezPrograms.Checked LezPrograms.Lee LezPrograms.Token

structure Transacted (platform : Platform) (w : Accounts) (authority : List AccountId)
    (call : ChainedCall) (instruction : Instruction) (v : Accounts) (calls : List ChainedCall)
    (w' : Accounts) : Prop where
  called : call.instruction = .amm instruction
  succeeded : transact platform w authority call = .ok w'
  outside : Outside ammProgramId authority
  distinct : call.accountIds.Nodup
  step : Step ammProgramId w authority call.accountIds instruction v calls
  frame : Frame ammProgramId w v
  settled : Settled ammProgramId authority v calls w'
  executed : executedCalls platform w (.transaction authority call) = call :: calls

/-- The calls of a successful AMM transaction are invoked in order after its instruction. -/
theorem transacted_invoked (platform : Platform) (w w' : Accounts) (authority : List AccountId)
    (call : ChainedCall) (instruction : Instruction) (hi : call.instruction = .amm instruction)
    (h : transact platform w authority call = .ok w') :
    ∃ v calls depth, Transacted platform w authority call instruction v calls w' ∧
      calls.foldlM (fun w chained => invoke platform.tickMath depth w
        (callAuthority authority ammProgramId chained) chained) v = .ok w' := by
  obtain ⟨v, calls, depth, hv, hsettle, hdepth⟩ := transact_calls platform w w' authority call h
  obtain ⟨hcaller, hn, hstep, hf⟩ := execute_amm _ _ _ _ _ _ _ instruction hi hv
  have hleaf := amm_leaf _ _ _ _ _ _ _ hstep
  have hexecuted := executedCalls_of_leaves platform w v w' authority call calls depth h hdepth hv
    hleaf hsettle
  rw [hcaller] at hsettle
  have hsettled := settled_of_foldlM _ _ _ _ calls hleaf v w' hsettle
  exact ⟨v, calls, depth, ⟨hi, h, (transact_performed platform w w' authority call h).1 _ (by decide),
    hn, hstep, hf, hsettled, hexecuted⟩, hsettle⟩

/-- Only the chained calls of an AMM transaction deposit anything. -/
theorem Transacted.deposits_eq (platform : Platform) (w v w' : Accounts)
    (authority : List AccountId) (call : ChainedCall) (instruction : Instruction)
    (calls : List ChainedCall)
    (h : Transacted platform w authority call instruction v calls w') (x : AccountId) :
    deposits (executedCalls platform w (.transaction authority call)) x = deposits calls x := by
  rw [h.executed, deposits_cons, ChainedCall.credit, h.called, Nat.zero_add]

theorem transacted_of_ok (platform : Platform) (w w' : Accounts) (authority : List AccountId)
    (call : ChainedCall) (instruction : Instruction) (hi : call.instruction = .amm instruction)
    (h : transact platform w authority call = .ok w') :
    ∃ v calls, Transacted platform w authority call instruction v calls w' := by
  obtain ⟨v, calls, _, ht, -⟩ := transacted_invoked platform w w' authority call instruction hi h
  exact ⟨v, calls, ht⟩

def Invokes (event : Event) : Prop :=
  ∃ authority call instruction, event = .transaction authority call ∧
    call.instruction = .amm instruction

/-- The event is a successful AMM transaction, or it happens elsewhere; a failed one changes
nothing. -/
theorem event_cases (platform : Platform) (w : Accounts) (event : Event) :
    (Elsewhere ammProgramId w (event.apply platform w) ∧
        (Invokes event → event.apply platform w = w ∧ executedCalls platform w event = [])) ∨
      ∃ authority call instruction v calls, event = .transaction authority call ∧
        Transacted platform w authority call instruction v calls (event.apply platform w) := by
  by_cases ha : Invokes event
  · obtain ⟨authority, call, instruction, rfl, hi⟩ := ha
    rw [Event.apply]
    split
    · rename_i w' h
      obtain ⟨v, calls, ht⟩ := transacted_of_ok platform w w' authority call instruction hi h
      exact Or.inr ⟨authority, call, instruction, v, calls, rfl, ht⟩
    · rename_i message h
      exact Or.inl ⟨.refl, fun _ => ⟨rfl, by rw [executedCalls, h]⟩⟩
  · refine Or.inl ⟨Event.elsewhere platform ammProgramId w event (by decide) ?_ ?_,
      fun h => absurd h ha⟩
    · exact fun authority call i he hi => absurd ⟨authority, call, i, he, hi⟩ ha
    · exact fun _ _ _ _ _ => by decide

theorem bare_event (platform : Platform) (w : Accounts) (event : Event) (h : Bare w) :
    Bare (event.apply platform w) :=
  Event.preserves Bare (fun _ _ _ _ _ ht hb => hb.frame _ _ _ ht.frame (by decide))
    (fun _ _ _ _ hd hf hb => hb.frame _ _ _ hf hd) (fun w change hb => hb.environment w change)
    platform w event h

/-- What the AMM did in a transaction. -/
theorem Transacted.effect (platform : Platform) (w v w' : Accounts) (authority : List AccountId)
    (call : ChainedCall) (instruction : Instruction) (calls : List ChainedCall) (hbare : Bare w)
    (hw : Sound w) (h : Transacted platform w authority call instruction v calls w') :
    Effect w authority call.accountIds instruction v calls :=
  h.step.effect w v authority call.accountIds instruction calls hbare h.distinct hw.configs

theorem sound_event (platform : Platform) (w : Accounts) (event : Event) (hbare : Bare w)
    (h : Sound w) : Sound (event.apply platform w) := by
  rcases event_cases platform w event with
    ⟨he, -⟩ | ⟨authority, call, instruction, v, calls, rfl, ht⟩
  · exact elsewhere_preserves ammProgramId Sound (fun w w' hw hf => hw.foreign w w' hf) w _ he h
  · exact h.effect w v _ authority call.accountIds ht.outside instruction calls
      (ht.effect platform w v _ authority call instruction calls hbare h) ht.frame ht.settled

theorem sound_genesis (genesis : Genesis) : Sound genesis.world := by
  have hnone : ∀ id, owned ammProgramId genesis.world id = none := by
    intro id
    rw [owned, if_neg]
    intro he
    exact genesis.unowned id (by rw [he]; decide)
  refine ⟨fun c cfg hc => ?_, fun x q hq => ?_⟩
  · rw [ConfigAt, hnone] at hc
    cases hc
  · rw [PoolAt, hnone] at hq
    cases hq

/-- The invariant holds in every reachable world. -/
theorem run_sound (platform : Platform) (genesis : Genesis) (events : List Event) :
    Bare (run platform genesis.world events) ∧ Sound (run platform genesis.world events) :=
  run_preserves platform (fun w => Bare w ∧ Sound w)
    (fun w event h => ⟨bare_event platform w event h.1, sound_event platform w event h.1 h.2⟩) _
    ⟨genesis.bare, sound_genesis genesis⟩ events

theorem SamePool.refl (q : PoolDefinition) : SamePool q q := ⟨rfl, rfl, rfl, rfl, rfl⟩

theorem SamePool.trans (p q r : PoolDefinition) (h : SamePool p q) (k : SamePool q r) :
    SamePool p r :=
  ⟨k.tokenA.trans h.tokenA, k.tokenB.trans h.tokenB, k.vaultA.trans h.vaultA,
    k.vaultB.trans h.vaultB, k.liquidity.trans h.liquidity⟩

/-- An event leaves a pool alone or moves it. -/
theorem pool_event (platform : Platform) (w : Accounts) (event : Event) (hbare : Bare w)
    (hw : Sound w) (x : AccountId) (q : PoolDefinition) (hq : PoolAt w x q) :
    ∃ q', PoolAt (event.apply platform w) x q' ∧ SamePool q q' ∧
      Relation.ReflTransGen (ConstantProduct.Move 1000) q.pool q'.pool := by
  rcases event_cases platform w event with
    ⟨he, -⟩ | ⟨authority, call, instruction, v, calls, rfl, ht⟩
  · have hown := elsewhere_preserves ammProgramId
      (fun w' => owned ammProgramId w' = owned ammProgramId w)
      (fun v v' hv hf => (hf.owned_eq _ _ _ (by decide) (by decide)).trans hv) w _ he rfl
    exact ⟨q, by rwa [PoolAt, hown], SamePool.refl q, .refl⟩
  · have hown := ht.settled.owned_eq _ _ ammProgramId (by decide) (by decide)
    rcases (ht.effect platform w v _ authority call instruction calls hbare hw).pool w v authority
      call.accountIds instruction calls x q hq with ⟨hv, -⟩ | ⟨c, rest, q', -, op, hv⟩
    · exact ⟨q, by rwa [PoolAt, hown], SamePool.refl q, .refl⟩
    · exact ⟨q', by rwa [PoolAt, hown], op.same, .single op.move⟩

/-- Over a run a pool stays, and moves as a constant-product pool. -/
theorem pool_run (platform : Platform) (w : Accounts) (hbare : Bare w) (hw : Sound w)
    (x : AccountId) (q : PoolDefinition) (hq : PoolAt w x q) (events : List Event) :
    ∃ q', PoolAt (run platform w events) x q' ∧ SamePool q q' ∧
      Relation.ReflTransGen (ConstantProduct.Move 1000) q.pool q'.pool := by
  induction events generalizing w q with
  | nil => exact ⟨q, hq, SamePool.refl q, .refl⟩
  | cons event events ih =>
    obtain ⟨p, hp, hsame, hmoves⟩ := pool_event platform w event hbare hw x q hq
    obtain ⟨q', hq', hsame', hmoves'⟩ := ih _ (bare_event platform w event hbare)
      (sound_event platform w event hbare hw) p hp
    exact ⟨q', hq', hsame.trans _ _ _ hsame', hmoves.trans hmoves'⟩

def firstConfigId : AccountId := computeConfigPda ammProgramId (.key 60) 0

def firstPoolId : AccountId :=
  .forPublicPda ammProgramId (.account firstConfigId (.account (.key 22) (.account (.key 20) .nil)))

def firstTickId : AccountId :=
  TwapOracle.computeCurrentTickAccountPda twapOracleProgramId firstPoolId

/-- Two tokens and a configuration with a swap fee of 1% of which the protocol takes half. -/
def firstConfiguration : List Event :=
  [.transaction [.key 20, .key 21] ⟨tokenProgramId, [.key 20, .key 21],
      .token (.newFungibleDefinition "AAA" 1000000 none), []⟩,
    .transaction [.key 22, .key 23] ⟨tokenProgramId, [.key 22, .key 23],
      .token (.newFungibleDefinition "BBB" 1000000 none), []⟩,
    .transaction [.key 60] ⟨ammProgramId, [.key 60, firstConfigId],
      .amm (.initializeConfig 0 tokenProgramId twapOracleProgramId (.key 61) 100 5000), []⟩]

def firstCreation : ChainedCall :=
  ⟨ammProgramId, [firstConfigId, firstPoolId,
    computeVaultPda ammProgramId firstPoolId (.key 20),
    computeVaultPda ammProgramId firstPoolId (.key 22),
    computeLiquidityTokenPda ammProgramId firstPoolId,
    computeLpLockHoldingPda ammProgramId firstPoolId, .key 21, .key 23, .key 24, firstTickId,
    clock01ProgramAccountId], .amm (.newDefinition 40000 10000 1), []⟩

def firstPoolEvents : List Event :=
  firstConfiguration ++ [.transaction [.key 21, .key 23, .key 24] firstCreation]

def firstPool : PoolDefinition :=
  createdPool ammProgramId firstPoolId (.key 20) (.key 22) 20000 40000 10000

def firstPoolWorld : Accounts := run tablePlatform (clockedGenesis 0).world firstPoolEvents

example : owned ammProgramId firstPoolWorld firstPoolId = some (.poolDefinition firstPool) := by
  decide +kernel

def firstSwap : ChainedCall :=
  ⟨ammProgramId, [firstConfigId, firstPoolId, firstPool.vaultAId, firstPool.vaultBId, .key 21,
    .key 23, firstTickId, clock01ProgramAccountId,
    computeProtocolFeePda ammProgramId firstConfigId (.key 20)],
    .amm (.swapExactInput 1000 1 1), []⟩

end LezPrograms.Amm
