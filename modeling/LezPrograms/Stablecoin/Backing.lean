import LezPrograms.Stablecoin.Reachable

/-! # Backing of the stablecoin over runs

The supply is at most the scaled debt, and it falls short of it by the dust of
the accruals and conversions and by what holders burned on their own. -/

set_option autoImplicit false

namespace LezPrograms.Stablecoin
open LezPrograms.Checked LezPrograms.Lee LezPrograms.Token LezPrograms.Stablecoin.Math

def accruals (platform : Platform) (w : Accounts) (event : Event) : ℕ :=
  match event with
  | .transaction authority call =>
    match call.instruction, transact platform w authority call with
    | .stablecoin instruction, .ok _ => if instruction.accrues then 1 else 0
    | _, _ => 0
  | .environment _ => 0

def convertedRate (platform : Platform) (w : Accounts) (event : Event) : ℕ :=
  match event with
  | .transaction authority call =>
    match call.instruction, transact platform w authority call with
    | .stablecoin instruction, .ok w' => if instruction.converts then accumulatedRate w' else 0
    | _, _ => 0
  | .environment _ => 0

def repays : Event → Bool
  | .transaction _ call =>
    match call.instruction with
    | .stablecoin (.repayDebt _) => true
    | _ => false
  | .environment _ => false

/-- The supply that vanishes in an event that is not a repayment. -/
def burnedOutside (platform : Platform) (w : Accounts) (event : Event) : ℕ :=
  if repays event then 0 else stablecoinSupply w - stablecoinSupply (event.apply platform w)

theorem invokes_of_repays (event : Event) (h : repays event = true) : Invokes event := by
  cases event with
  | environment change => cases h
  | transaction authority call =>
    cases hi : call.instruction with
    | stablecoin instruction => exact ⟨authority, call, instruction, rfl, hi⟩
    | _ => simp [repays, hi] at h

section
variable (platform : Platform) (w : Accounts) (event : Event)

/-- The events account for the losses of the ledger. -/
theorem shortfall_measured (s s' : Instance) (loss : Shortfall) (h : Represents w s)
    (h' : Represents (event.apply platform w) s')
    (he : EventShortfall platform w event s s' loss) :
    loss.accruals ≤ accruals platform w event ∧ loss.used ≤ convertedRate platform w event ∧
      loss.burned ≤ burnedOutside platform w event := by
  cases he with
  | elsewhere _ hidle =>
    refine ⟨Nat.zero_le _, Nat.zero_le _, ?_⟩
    rw [burnedOutside, ← h.stablecoinSupply, ← h'.stablecoinSupply]
    split
    · rename_i hr
      rw [hidle (invokes_of_repays event hr), Nat.sub_self]
    · exact le_rfl
  | invoked authority call instruction v calls heq ht =>
    subst heq
    refine ⟨le_of_eq ?_, le_of_eq ?_, Nat.zero_le _⟩
    · simp only [accruals, ht.called, ht.succeeds, Instruction.shortfall]
    · simp only [convertedRate, ht.called, ht.succeeds, Instruction.shortfall, h'.accumulatedRate]

/-- An event widens the gap between the scaled debt and the supply by its dust and burns. -/
theorem event_gap (hs : Sound w) :
    totalNormalizedDebt (event.apply platform w) * accumulatedRate (event.apply platform w)
        + stablecoinSupply w * fixedPointOne.val ≤
      totalNormalizedDebt w * accumulatedRate w
        + stablecoinSupply (event.apply platform w) * fixedPointOne.val
        + ((fixedPointOne.val - 1) * accruals platform w event + convertedRate platform w event
          + fixedPointOne.val * burnedOutside platform w event) := by
  rcases hs with hu | ⟨s, hr, -⟩
  · obtain ⟨-, -, -, ht, hrate, hsup⟩ := hu.views w
    rcases hu.event platform w event with hu' | ⟨s', hr', he⟩
    · obtain ⟨-, -, -, ht', -, hsup'⟩ := hu'.views _
      rw [ht, hsup, ht', hsup']
      simp only [Nat.zero_mul, Nat.zero_add, Nat.zero_le]
    · rw [ht, hsup, hr'.totalNormalizedDebt, hr'.stablecoinSupply, he]
      simp only [emptyLedger, Nat.zero_mul, Nat.zero_add, Nat.zero_le]
  · obtain ⟨s', loss, hr', hstep, he⟩ := event_refines platform w event s hr
    obtain ⟨h1, h2, h3⟩ := shortfall_measured platform w event s s' loss hr hr' he
    have hgap := hstep.shortfall _ _ _ Compounding.fixedPointOne_pos
    have hacc := Nat.mul_le_mul_left (fixedPointOne.val - 1) h1
    have hburn := Nat.mul_le_mul_left fixedPointOne.val h3
    have hone : fixedPointOne.val * loss.accruals
        = (fixedPointOne.val - 1) * loss.accruals + loss.accruals := by
      rw [Nat.sub_one_mul, Nat.sub_add_cancel (Nat.le_mul_of_pos_left _ Compounding.fixedPointOne_pos)]
    rw [hr.totalNormalizedDebt, hr.accumulatedRate, hr.stablecoinSupply, hr'.totalNormalizedDebt,
      hr'.accumulatedRate, hr'.stablecoinSupply]
    omega

end

theorem sound_backed (w : Accounts) (h : Sound w) :
    stablecoinSupply w * fixedPointOne.val ≤ totalNormalizedDebt w * accumulatedRate w := by
  rcases h with hu | ⟨s, hr, hb, -⟩
  · obtain ⟨-, -, -, -, -, hs⟩ := hu.views w
    rw [hs, Nat.zero_mul]
    exact Nat.zero_le _
  · rw [hr.stablecoinSupply, hr.totalNormalizedDebt, hr.accumulatedRate]
    exact hb

/-- After every run the supply is backed by the scaled debt, and the debt exceeds it by at most
the dust of the accruals and conversions and what was burned outside repayments. -/
theorem supply_backed_within_dust (platform : Platform) (genesis : Genesis) (events : List Event) :
    stablecoinSupply (run platform genesis.world events) * fixedPointOne.val ≤
        totalNormalizedDebt (run platform genesis.world events)
          * accumulatedRate (run platform genesis.world events) ∧
      totalNormalizedDebt (run platform genesis.world events)
          * accumulatedRate (run platform genesis.world events)
          + tally platform (accruals platform) genesis.world events ≤
        stablecoinSupply (run platform genesis.world events) * fixedPointOne.val
          + fixedPointOne.val * tally platform (accruals platform) genesis.world events
          + tally platform (convertedRate platform) genesis.world events
          + fixedPointOne.val * tally platform (burnedOutside platform) genesis.world events := by
  refine ⟨sound_backed _ (run_sound platform genesis events), ?_⟩
  obtain ⟨-, -, -, ht, -, hs⟩ := (genesis_uninitialized genesis).views
  have hrun := run_bounded platform Sound
    (fun w => totalNormalizedDebt w * accumulatedRate w)
    (fun w => stablecoinSupply w * fixedPointOne.val) _
    (fun w event hw => ⟨event_sound platform w event hw, event_gap platform w event hw⟩)
    genesis.world (Or.inl (genesis_uninitialized genesis)) events
  rw [tally_linear, ht, hs] at hrun
  have hone : fixedPointOne.val * tally platform (accruals platform) genesis.world events
      = (fixedPointOne.val - 1) * tally platform (accruals platform) genesis.world events
        + tally platform (accruals platform) genesis.world events := by
    rw [Nat.sub_one_mul, Nat.sub_add_cancel (Nat.le_mul_of_pos_left _ Compounding.fixedPointOne_pos)]
  omega

def firstFreeze : Event :=
  .transaction [.key 61] ⟨stablecoinProgramId, [.key 61, parametersId], .stablecoin .freeze, []⟩

/-- Before the first accrual both sides of the dust bound are zero. -/
theorem dust_not_strict_before_accrual :
    (storedParameters (run tablePlatform (clockedGenesis 0).world
        (firstInitialization ++ [firstFreeze]))).isSome = true ∧
      (storedParameters (run tablePlatform (clockedGenesis 0).world
        (firstInitialization ++ [firstFreeze]))).any ProtocolParameters.isFrozen = true ∧
      tally tablePlatform (burnedOutside tablePlatform) (clockedGenesis 0).world
        (firstInitialization ++ [firstFreeze]) = 0 ∧
      ¬ totalNormalizedDebt (run tablePlatform (clockedGenesis 0).world
            (firstInitialization ++ [firstFreeze]))
          * accumulatedRate (run tablePlatform (clockedGenesis 0).world
            (firstInitialization ++ [firstFreeze]))
          - stablecoinSupply (run tablePlatform (clockedGenesis 0).world
            (firstInitialization ++ [firstFreeze])) * fixedPointOne.val <
        fixedPointOne.val * tally tablePlatform (accruals tablePlatform) (clockedGenesis 0).world
            (firstInitialization ++ [firstFreeze])
          + tally tablePlatform (convertedRate tablePlatform) (clockedGenesis 0).world
            (firstInitialization ++ [firstFreeze]) := by
  decide +kernel

end LezPrograms.Stablecoin
