import LezPrograms.Amm.Contributions

/-! # Additions below generous maxima

The deposit is the largest proportional one below both maxima. What the reserves make of
the maximum that does not bind is computed as well and has to fit, although the deposit
does not depend on it. -/

set_option autoImplicit false

namespace LezPrograms.Amm
open LezPrograms.Checked LezPrograms.Checked.Unsigned LezPrograms.Lee LezPrograms.Token

def idealOn (q : PoolDefinition) (maximum : Side → U128) (side : Side) : ℕ :=
  (q.reserve side).val * (maximum side.other).val / (q.reserve side.other).val

def depositOn (q : PoolDefinition) (maximum : Side → U128) (side : Side) : ℕ :=
  min (maximum side).val (idealOn q maximum side)

def shareOn (q : PoolDefinition) (maximum : Side → U128) (side : Side) : ℕ :=
  q.liquidityPoolSupply.val * depositOn q maximum side / (q.reserve side).val

def depositShares (q : PoolDefinition) (maximum : Side → U128) : ℕ :=
  min (shareOn q maximum .a) (shareOn q maximum .b)

section
variable (q : PoolDefinition) (maximum : Side → U128)
  (healthy : ConstantProduct.Healthy 1000 q.pool) (backed : q.pool.Backed)
include healthy backed

/-- The shares for a deposit fit whatever the maxima are. -/
theorem shareOn_lt (side : Side) : shareOn q maximum side < 2 ^ 128 := by
  have hdeposit : depositOn q maximum side * (q.reserve side.other).val
      ≤ (q.reserve side).val * (maximum side.other).val :=
    (Nat.mul_le_mul_right _ (min_le_right _ _)).trans (Nat.div_mul_le_self _ _)
  have hlt : depositOn q maximum side < 2 ^ 128 :=
    lt_of_le_of_lt (min_le_left _ _) (maximum side).isLt
  have hsquare : q.liquidityPoolSupply.val ^ 2
      ≤ (q.reserve side).val * (q.reserve side.other).val := by
    cases side with
    | a => exact backed
    | b => exact Nat.mul_comm q.reserveA.val q.reserveB.val ▸ backed
  have hpos : 0 < (q.reserve side).val := by
    cases side with
    | a => exact healthy.first
    | b => exact healthy.second
  exact ConstantProduct.minted_lt _ _ _ _ _ _ hpos hsquare hdeposit hlt (maximum side.other).isLt

/-- An addition is priced when both ideals fit, and the deposit and its shares are enough. -/
theorem liquidityToAdd_eq_ok (minLp amountA amountB deltaLp : U128) :
    liquidityToAdd q minLp (maximum .a) (maximum .b) = .ok (amountA, amountB, deltaLp) ↔
      (∀ side, idealOn q maximum side < 2 ^ 128) ∧
      (∀ side, depositOn q maximum side ≠ 0 ∧
        (amountOn amountA amountB side).val = depositOn q maximum side) ∧
      depositShares q maximum ≠ 0 ∧ minLp.val ≤ depositShares q maximum ∧
      deltaLp.val = depositShares q maximum := by
  have ha : q.reserveA.val ≠ 0 := healthy.first.ne'
  have hb : q.reserveB.val ≠ 0 := healthy.second.ne'
  have hclamp : ∀ (limit ideal : U128),
      (if limit.val < ideal.val then limit else ideal).val = min limit.val ideal.val := by
    intro limit ideal
    split <;> omega
  simp only [liquidityToAdd, bind_eq_ok, ensure_eq_ok, exists_const, mulDivFloor_eq_ok, pure_eq_ok,
    Prod.mk.injEq, hclamp, minimum_val]
  constructor
  · rintro ⟨-, -, idealA, ⟨-, hidealA⟩, idealB, ⟨-, hidealB⟩, -, -, hpositiveA, hpositiveB, shareA,
      ⟨-, hshareA⟩, shareB, ⟨-, hshareB⟩, hshares, hmin, rfl, rfl, rfl⟩
    have hA : min (maximum .a).val idealA.val = depositOn q maximum .a := by rw [hidealA]; rfl
    have hB : min (maximum .b).val idealB.val = depositOn q maximum .b := by rw [hidealB]; rfl
    rw [hA] at hpositiveA hshareA
    rw [hB] at hpositiveB hshareB
    have hminted : min shareA.val shareB.val = depositShares q maximum := by
      rw [hshareA, hshareB]
      rfl
    rw [hminted] at hshares hmin
    refine ⟨?_, ?_, hshares, hmin, (minimum_val _ _).trans hminted⟩
    · rintro (_ | _)
      · exact lt_of_eq_of_lt hidealA.symm idealA.isLt
      · exact lt_of_eq_of_lt hidealB.symm idealB.isLt
    · rintro (_ | _)
      · exact ⟨hpositiveA, (hclamp _ _).trans hA⟩
      · exact ⟨hpositiveB, (hclamp _ _).trans hB⟩
  · rintro ⟨hfits, hdeposit, hshares, hmin, hdelta⟩
    obtain ⟨hpositiveA, hA⟩ := hdeposit .a
    obtain ⟨hpositiveB, hB⟩ := hdeposit .b
    have hvalA : ∀ ideal : U128, ideal.val = idealOn q maximum .a →
        (if (maximum .a).val < ideal.val then maximum .a else ideal) = amountA := by
      intro ideal h
      exact Fin.ext (by rw [hclamp, h]; exact hA.symm)
    have hvalB : ∀ ideal : U128, ideal.val = idealOn q maximum .b →
        (if (maximum .b).val < ideal.val then maximum .b else ideal) = amountB := by
      intro ideal h
      exact Fin.ext (by rw [hclamp, h]; exact hB.symm)
    refine ⟨ha, hb, ⟨_, hfits .a⟩, ⟨hb, rfl⟩, ⟨_, hfits .b⟩, ⟨ha, rfl⟩, min_le_left _ _,
      min_le_left _ _, hpositiveA, hpositiveB, ⟨_, shareOn_lt q maximum healthy backed .a⟩,
      ⟨ha, rfl⟩, ⟨_, shareOn_lt q maximum healthy backed .b⟩, ⟨hb, rfl⟩, hshares, hmin,
      hvalA _ rfl, hvalB _ rfl, ?_⟩
    exact Fin.ext ((minimum_val _ _).trans hdelta.symm)

end

/-- The proportional deposit below the maxima is not empty, holdings of `a` and `b` cover it, and it
pays for the minimum of shares. -/
structure Affordable (q : PoolDefinition) (maximum : Side → U128) (minLp a b : U128) : Prop where
  nonzero : ∀ side, depositOn q maximum side ≠ 0
  covered : ∀ side, depositOn q maximum side ≤ (amountOn a b side).val
  minimum : minLp.val ≤ depositShares q maximum

/-- An affordable addition to a reachable pool succeeds if and only if what either maximum asks of
the other side fits. The reserves and the supply then have room for it. -/
theorem affordable_addition_succeeds_iff (platform : Platform) (hcovers : platform.tickMath.Covers)
    (hdepth : 2 ≤ platform.callDepth) (genesis : Genesis) (w : Accounts)
    (hreached : Reached platform genesis w) (x : AccountId) (q : PoolDefinition) (hq : PoolAt w x q) (c : AccountId)
    (hof : PoolOf c x q) (now : U64) (hclock : ClockAt w now) (deadline : U64)
    (hdeadline : now.val < deadline.val) (authority : List AccountId) (seeds : List PdaSeed)
    (hout : ∀ id ∈ authority, ∀ program ∈ deployedPrograms, ¬id.DerivedBy program)
    (ua ub ul : AccountId) (a b l : U128) (hu : Holder w q ua ub ul a b l) (hua : ua ∈ authority)
    (hub : ub ∈ authority) (minLp : U128) (hminLp : minLp.val ≠ 0) (maximum : Side → U128)
    (haffordable : Affordable q maximum minLp a b) :
    (∃ w', transact platform w authority ⟨ammProgramId, liquidityAccounts c x q ua ub ul,
      .amm (.addLiquidity minLp (maximum .a) (maximum .b) deadline), seeds⟩ = .ok w') ↔
      ∀ side, (q.reserve side).val * (maximum side.other).val / (q.reserve side.other).val
        < 2 ^ 128 := by
  have hl := hreached.live platform genesis w
  have hsound := hl.sound.pools x q hq
  have hbacked := hl.backed x q hq
  obtain ⟨hnonzero, hcovered, hminimum⟩ := haffordable
  constructor
  · rintro ⟨w', h⟩
    obtain ⟨amountA, amountB, deltaLp, hamounts, -⟩ := addition_moves platform w w' hl authority c x ua
      ub ul q hq deadline seeds minLp _ _ h
    exact ((liquidityToAdd_eq_ok q maximum hsound.healthy hbacked _ _ _ _).mp hamounts).1
  · intro hfits
    have hfungible : Fungible w q := by
      have hpositive : ∀ side, (amountOn a b side).val ≠ 0 := by
        intro side
        have hn := hnonzero side
        have hc := hcovered side
        omega
      rintro (_ | _)
      · exact hl.conserved.defined w _ ua a hu.tokenA (hpositive .a)
      · exact hl.conserved.defined w _ ub b hu.tokenB (hpositive .b)
    obtain ⟨c', cfg, balance, hs⟩ := hl.serviceable platform w x q hq hfungible
    obtain rfl := hof.config_unique _ _ _ _ _ hs.poolOf
    have hmaximum : ∀ side, (maximum side).val ≠ 0 := by
      intro side hzero
      have hn := hnonzero side
      rw [depositOn, hzero, Nat.zero_min] at hn
      exact hn rfl
    have hlt : ∀ side, depositOn q maximum side < 2 ^ 128 := fun side =>
      lt_of_le_of_lt (min_le_left _ _) (maximum side).isLt
    have hshares : depositShares q maximum < 2 ^ 128 :=
      lt_of_le_of_lt (min_le_left _ _) (shareOn_lt q maximum hsound.healthy hbacked .a)
    have hamounts : liquidityToAdd q minLp (maximum .a) (maximum .b)
        = .ok (⟨_, hlt .a⟩, ⟨_, hlt .b⟩, ⟨_, hshares⟩) := by
      refine (liquidityToAdd_eq_ok q maximum hsound.healthy hbacked _ _ _ _).mpr
        ⟨hfits, ?_, by omega, hminimum, rfl⟩
      rintro (_ | _)
      · exact ⟨hnonzero .a, rfl⟩
      · exact ⟨hnonzero .b, rfl⟩
    exact addition_succeeds platform w hl c x cfg q balance hs ua ub ul a b l hu _ _ hcovers hdepth
      now hclock deadline hdeadline authority seeds hout hua hub minLp _ _ _ hminLp (hmaximum .a)
      (hmaximum .b) hamounts (hcovered .a) (hcovered .b)

/-- The maxima of an addition of 4000 and 1000 to the first pool, the second without a limit. -/
def slackMaximum : Side → U128 := amountOn 4000 (maxValue 128)

def slackAddition (maximum : Side → U128) : ChainedCall :=
  ⟨ammProgramId, liquidityAccounts firstConfigId firstPoolId firstPool (.key 21) (.key 23) (.key 24),
    .amm (.addLiquidity 2000 (maximum .a) (maximum .b) 1), []⟩

theorem first_holder :
    Holder firstPoolWorld firstPool (.key 21) (.key 23) (.key 24) 960000 990000 19000 where
  own := by decide
  tokenA := by unfold HoldingAt; decide +kernel
  tokenB := by unfold HoldingAt; decide +kernel
  shares := Or.inr (by unfold HoldingAt; decide +kernel)

theorem slack_maximum_blocks :
    Reached tablePlatform (clockedGenesis 0) firstPoolWorld ∧
    PoolAt firstPoolWorld firstPoolId firstPool ∧
    Holder firstPoolWorld firstPool (.key 21) (.key 23) (.key 24) 960000 990000 19000 ∧
    Affordable firstPool slackMaximum 2000 960000 990000 ∧
    ¬∃ w', transact tablePlatform firstPoolWorld [.key 21, .key 23] (slackAddition slackMaximum)
      = .ok w' := by
  have hq : PoolAt firstPoolWorld firstPoolId firstPool := by
    unfold PoolAt
    decide +kernel
  refine ⟨first_pool_reached, hq, first_holder, ⟨?_, ?_, by decide⟩, ?_⟩
  · rintro (_ | _) <;> decide
  · rintro (_ | _) <;> decide
  · rintro ⟨w', h⟩
    obtain ⟨amountA, amountB, deltaLp, hamounts, -⟩ := addition_moves _ _ _
      (first_pool_reached.live _ _ _) _ _ _ _ _ _ _ hq _ _ _ _ _ h
    cases hamounts

theorem proportionate_addition_succeeds :
    ∃ w', transact tablePlatform firstPoolWorld [.key 21, .key 23]
      (slackAddition (amountOn 4000 1000)) = .ok w' := by
  refine (affordable_addition_succeeds_iff tablePlatform TwapOracle.tableTickMath_covers le_rfl
    (clockedGenesis 0) firstPoolWorld first_pool_reached firstPoolId firstPool
    (by unfold PoolAt; decide +kernel) firstConfigId rfl 0 (by unfold ClockAt; decide +kernel) 1
    (by decide) _ _ (by decide) (.key 21) (.key 23) (.key 24) 960000 990000 19000 first_holder
    (by decide) (by decide) 2000 (by decide) (amountOn 4000 1000) ⟨?_, ?_, by decide⟩).mpr ?_
  · rintro (_ | _) <;> decide
  · rintro (_ | _) <;> decide
  · rintro (_ | _) <;> decide

end LezPrograms.Amm
