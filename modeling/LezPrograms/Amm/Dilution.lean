import LezPrograms.Amm.Solvency

/-! # Liquidity without dilution

An addition pays for its shares on both sides and a removal takes at most its part,
so no reserve falls against the supply, and shares that are removed at once return at
most what was added for them. -/

set_option autoImplicit false

namespace LezPrograms.Amm
open LezPrograms.Checked LezPrograms.Lee LezPrograms.Token

structure Undiluted (w w' : Accounts) (x : AccountId) (q q' : PoolDefinition) : Prop where
  before : PoolAt w x q
  after : PoolAt w' x q'
  same : SamePool q q'
  backed : ∀ side, (q.reserve side).val * q'.liquidityPoolSupply.val
    ≤ (q'.reserve side).val * q.liquidityPoolSupply.val

structure Added (w w' : Accounts) (q q' : PoolDefinition) (amount : Side → ℕ) (minted : ℕ) :
    Prop where
  paid : ∀ side, unitsAt w' (q.vault side) = unitsAt w (q.vault side) + amount side
  reserve : ∀ side, (q'.reserve side).val = (q.reserve side).val + amount side
  supply : q'.liquidityPoolSupply.val = q.liquidityPoolSupply.val + minted

structure Removed (w w' : Accounts) (q q' : PoolDefinition) (amount : Side → ℕ) (burned : ℕ) :
    Prop where
  returned : ∀ side, unitsAt w' (q.vault side) + amount side = unitsAt w (q.vault side)
  reserve : ∀ side, (q'.reserve side).val + amount side = (q.reserve side).val
  supply : q'.liquidityPoolSupply.val + burned = q.liquidityPoolSupply.val

section
variable (platform : Platform) (w v w' : Accounts) (authority : List AccountId) (call : ChainedCall)
  (calls : List ChainedCall) (hbare : Bare w) (hw : Sound w)
include hbare hw

/-- An addition mints at most the part of each reserve that it brings. -/
theorem Transacted.added (minLp maxA maxB : U128) (deadline : U64)
    (h : Transacted platform w authority call (.addLiquidity minLp maxA maxB deadline) v calls w') :
    ∃ c x rest q q' amount minted, call.accountIds = c :: x :: rest ∧ PoolAt w x q ∧ PoolAt w' x q' ∧
      SamePool q q' ∧ Added w w' q q' amount minted ∧
      ∀ side, minted * (q.reserve side).val ≤ q.liquidityPoolSupply.val * amount side := by
  have hown := h.settled.owned_eq _ _ ammProgramId (by decide) (by decide)
  have hstep := h.step
  have hn := h.distinct
  generalize hids : call.accountIds = ids at hstep hn
  cases hstep with
  | addLiquidity c x ua ub ul _ _ _ _ cfg q q' token balance amountA amountB deltaLp price seed
      reads vaults amounts updated written spot seeded =>
    have op := operation_addLiquidity w c x cfg q q' reads cfg.tokenProgramId
      cfg.twapOracleProgramId price seed seeded ua ub ul _ _ amountA amountB hn hbare written minLp
      maxA maxB deltaLp deadline amounts updated
    obtain ⟨-, hA, hB⟩ := liquidityToAdd_spec _ _ _ _ _ _ _ amounts
    obtain ⟨hsame, hsupply, hreserve⟩ := addedPool_spec _ _ _ _ _ updated
    refine ⟨c, x, _, q, q', fun side => (amountOn amountA amountB side).val, deltaLp.val, rfl,
      op.stored, by rw [PoolAt, hown]; exact poolAt_put w x q q' op.stored, hsame,
      ⟨fun side => ?_, hreserve, hsupply⟩, ?_⟩
    · have hkept := (op.follows.surplus_kept w _ w' authority _ h.frame h.settled x q q' _
        (hw.pools x q op.stored) hsame side).1 Instruction.noConfusion
      rw [surplus, surplus, hsame.vault] at hkept
      have := hreserve side
      omega
    · rintro (_ | _)
      · exact hA
      · exact hB
  | swap _ _ _ _ _ _ _ _ _ _ _ _ _ _ _ _ _ _ _ _ _ _ priced => cases priced

/-- A removal takes at most the part of each reserve that it burns. -/
theorem Transacted.removed (amount minA minB : U128) (deadline : U64)
    (h : Transacted platform w authority call (.removeLiquidity amount minA minB deadline) v calls
      w') :
    ∃ c x rest q q' returned, call.accountIds = c :: x :: rest ∧ PoolAt w x q ∧ PoolAt w' x q' ∧
      SamePool q q' ∧ Removed w w' q q' returned amount.val ∧
      ∀ side, returned side * q.liquidityPoolSupply.val ≤ (q.reserve side).val * amount.val := by
  have hown := h.settled.owned_eq _ _ ammProgramId (by decide) (by decide)
  have hstep := h.step
  have hn := h.distinct
  generalize hids : call.accountIds = ids at hstep hn
  cases hstep with
  | removeLiquidity c x ua ub ul _ _ _ _ cfg q q' lpBalance amountA amountB price seed reads positive
      lpData positiveA positiveB amounts updated written spot seeded =>
    have op := operation_removeLiquidity w c x cfg q q' reads cfg.tokenProgramId
      cfg.twapOracleProgramId price seed seeded ua ub ul _ _ amountA amountB hn hbare written lpBalance
      amount minA minB deadline positive amounts updated
    obtain ⟨-, hA, hB⟩ := liquidityToRemove_spec _ _ _ _ _ _ _ amounts
    obtain ⟨hsame, hsupply, hreserve⟩ := removedPool_spec _ _ _ _ _ updated
    refine ⟨c, x, _, q, q', fun side => (amountOn amountA amountB side).val, rfl,
      op.stored, by rw [PoolAt, hown]; exact poolAt_put w x q q' op.stored, hsame,
      ⟨fun side => ?_, hreserve, hsupply⟩, ?_⟩
    · have hkept := (op.follows.surplus_kept w _ w' authority _ h.frame h.settled x q q' _
        (hw.pools x q op.stored) hsame side).1 Instruction.noConfusion
      rw [surplus, surplus, hsame.vault] at hkept
      have := hreserve side
      omega
    · rintro (_ | _)
      · exact hA
      · exact hB
  | swap _ _ _ _ _ _ _ _ _ _ _ _ _ _ _ _ _ _ _ _ _ _ priced => cases priced

end

theorem sound_of_transact (platform : Platform) (w w' : Accounts) (authority : List AccountId)
    (call : ChainedCall) (hbare : Bare w) (hw : Sound w)
    (h : transact platform w authority call = .ok w') : Bare w' ∧ Sound w' := by
  have he : Event.apply platform w (.transaction authority call) = w' := by rw [Event.apply, h]
  exact he ▸ ⟨bare_event platform w _ hbare, sound_event platform w _ hbare hw⟩

theorem Added.undiluted (w w' : Accounts) (x : AccountId) (q q' : PoolDefinition)
    (amount : Side → ℕ) (minted : ℕ) (hq : PoolAt w x q) (hq' : PoolAt w' x q')
    (hsame : SamePool q q') (h : Added w w' q q' amount minted)
    (hshare : ∀ side, minted * (q.reserve side).val ≤ q.liquidityPoolSupply.val * amount side) :
    Undiluted w w' x q q' := by
  refine ⟨hq, hq', hsame, fun side => ?_⟩
  rw [h.supply, h.reserve]
  exact ConstantProduct.deposited_ratio _ _ _ _ (hshare side)

theorem Removed.undiluted (w w' : Accounts) (x : AccountId) (q q' : PoolDefinition)
    (amount : Side → ℕ) (burned : ℕ) (hq : PoolAt w x q) (hq' : PoolAt w' x q')
    (hsame : SamePool q q') (h : Removed w w' q q' amount burned)
    (hshare : ∀ side, amount side * q.liquidityPoolSupply.val ≤ (q.reserve side).val * burned) :
    Undiluted w w' x q q' :=
  ⟨hq, hq', hsame, fun side =>
    ConstantProduct.remaining_ratio _ _ _ _ _ _ (hshare side) (h.reserve side) h.supply⟩

/-- Additions and removals dilute nobody, and the shares of an addition return at most what was
added when they are removed at once. -/
theorem liquidity_never_dilutes (platform : Platform) (genesis : Genesis) (events : List Event)
    (authority : List AccountId) (call : ChainedCall) (w' : Accounts)
    (h : transact platform (run platform genesis.world events) authority call = .ok w') :
    (∀ minLp maxA maxB deadline,
      call.instruction = .amm (.addLiquidity minLp maxA maxB deadline) →
      ∃ c x rest q q' amount minted, call.accountIds = c :: x :: rest ∧
        Undiluted (run platform genesis.world events) w' x q q' ∧
        Added (run platform genesis.world events) w' q q' amount minted ∧
        ∀ authority' call' w'' d rest' burned minA minB deadline',
          call'.instruction = .amm (.removeLiquidity burned minA minB deadline') →
          call'.accountIds = d :: x :: rest' → burned.val = minted →
          transact platform w' authority' call' = .ok w'' →
          ∃ q'' returned, Undiluted w' w'' x q' q'' ∧ Removed w' w'' q' q'' returned minted ∧
            ∀ side, returned side ≤ amount side) ∧
    ∀ burned minA minB deadline,
      call.instruction = .amm (.removeLiquidity burned minA minB deadline) →
      ∃ c x rest q q' returned, call.accountIds = c :: x :: rest ∧
        Undiluted (run platform genesis.world events) w' x q q' ∧
        Removed (run platform genesis.world events) w' q q' returned burned.val := by
  obtain ⟨hbare, hw⟩ := run_sound platform genesis events
  refine ⟨fun minLp maxA maxB deadline hi => ?_, fun burned minA minB deadline hi => ?_⟩
  · obtain ⟨v, calls, ht⟩ := transacted_of_ok platform _ w' authority call _ hi h
    obtain ⟨c, x, rest, q, q', amount, minted, hids, hq, hq', hsame, hadded, hshare⟩ :=
      ht.added platform _ v w' authority call calls hbare hw minLp maxA maxB deadline
    refine ⟨c, x, rest, q, q', amount, minted, hids,
      hadded.undiluted _ _ x _ _ _ _ hq hq' hsame hshare, hadded, ?_⟩
    intro authority' call' w'' d rest' burned minA minB deadline' hi' hids' hburned h'
    obtain ⟨hbare', hw'⟩ := sound_of_transact platform _ _ _ _ hbare hw h
    obtain ⟨v', calls', ht'⟩ := transacted_of_ok platform _ w'' authority' call' _ hi' h'
    obtain ⟨_, y, _, p, q'', returned, hids'', hp, hq'', hsame', hremoved, hpart⟩ :=
      ht'.removed platform _ v' w'' authority' call' calls' hbare' hw' burned minA minB deadline'
    rw [hids', List.cons.injEq, List.cons.injEq] at hids''
    obtain ⟨-, rfl, -⟩ := hids''
    obtain rfl := PoolAt.unique _ _ _ _ hq' hp
    rw [hburned] at hremoved hpart
    refine ⟨q'', returned, hremoved.undiluted _ _ x _ _ _ _ hq' hq'' hsame' hpart, hremoved,
      fun side => ?_⟩
    have hpaid := hpart side
    rw [hadded.supply, hadded.reserve] at hpaid
    have hs : 0 < q.liquidityPoolSupply.val :=
      (Nat.zero_lt_succ 999).trans_le (hw.pools x q hq).healthy.shares
    exact ConstantProduct.returned_le _ _ _ _ _ hs (hshare side) hpaid
  · obtain ⟨v, calls, ht⟩ := transacted_of_ok platform _ w' authority call _ hi h
    obtain ⟨c, x, rest, q, q', returned, hids, hq, hq', hsame, hremoved, hpart⟩ :=
      ht.removed platform _ v w' authority call calls hbare hw burned minA minB deadline
    exact ⟨c, x, rest, q, q', returned, hids,
      hremoved.undiluted _ _ x _ _ _ _ hq hq' hsame hpart, hremoved⟩

def firstAddition : ChainedCall :=
  ⟨ammProgramId, [firstConfigId, firstPoolId, firstPool.vaultAId, firstPool.vaultBId,
    firstPool.liquidityPoolId, .key 21, .key 23, .key 24, firstTickId, clock01ProgramAccountId],
    .amm (.addLiquidity 1 4001 1000 1), []⟩

def firstRemoval : ChainedCall :=
  { firstAddition with instruction := .amm (.removeLiquidity 2000 1 1 1) }

def firstAdditionWorld : Accounts :=
  Event.apply tablePlatform firstPoolWorld (.transaction [.key 21, .key 23] firstAddition)

theorem first_addition_returned :
    ∃ q q' amount, Added firstPoolWorld firstAdditionWorld q q' amount 2000 ∧
      ∃ q'' returned, Removed firstAdditionWorld (Event.apply tablePlatform firstAdditionWorld
        (.transaction [.key 24] firstRemoval)) q' q'' returned 2000 ∧
        ∀ side, returned side ≤ amount side := by
  have hpool : PoolAt firstPoolWorld firstPoolId firstPool := by
    unfold PoolAt
    decide +kernel
  have hpool' : PoolAt firstAdditionWorld firstPoolId
      { firstPool with liquidityPoolSupply := 22000, reserveA := 44000, reserveB := 11000 } := by
    unfold PoolAt
    decide +kernel
  obtain ⟨c, x, rest, q, q', amount, minted, hids, hundiluted, hadded, hreturned⟩ :=
    (liquidity_never_dilutes tablePlatform (clockedGenesis 0) firstPoolEvents [.key 21, .key 23]
      firstAddition firstAdditionWorld (transact_apply _ _ _ _ (by decide +kernel))).1
      1 4001 1000 1 rfl
  cases hids
  obtain rfl := PoolAt.unique _ _ _ _ hundiluted.before hpool
  obtain rfl := PoolAt.unique _ _ _ _ hundiluted.after hpool'
  have hsupply : 22000 = 20000 + minted := hadded.supply
  obtain rfl : minted = 2000 := by omega
  obtain ⟨q'', returned, -, hremoved, hle⟩ := hreturned [.key 24] firstRemoval _ _ _ 2000 1 1 1 rfl rfl
    rfl (transact_apply _ _ _ _ (by decide +kernel))
  exact ⟨_, _, amount, hadded, q'', returned, hremoved, hle⟩

end LezPrograms.Amm
