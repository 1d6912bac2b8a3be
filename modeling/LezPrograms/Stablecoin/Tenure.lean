import LezPrograms.Lee.Histories
import LezPrograms.Stablecoin.Transactions
import LezPrograms.Stablecoin.Vaults

/-! # Positions rest without their owners

Nobody but the owner of a position changes what it records, and nobody but the
owner takes from its vault. Without the owner's signature a position goes
through any run as it is. -/

set_option autoImplicit false

namespace LezPrograms.Stablecoin
open LezPrograms.Checked LezPrograms.Lee LezPrograms.Token

section
variable (w v : Accounts) (authority ids : List AccountId) (instruction : Instruction)
  (calls : List ChainedCall)

/-- A step writes the globals, fresh accounts and the positions of those who sign it. -/
theorem Step.position_kept (h : Step stablecoinProgramId w authority ids instruction v calls)
    (id : AccountId) (x : Position) (hx : Holds stablecoinProgramId (w id) (.position x))
    (ho : x.ownerAccountId ∉ authority) : v id = w id := by
  -- what a write finds at its target tells it from the position
  have hother : ∀ (u : Accounts) (target : AccountId) (found new : Data),
      (w target).data = found → (∀ y, found ≠ .position y) → u id = w id →
      put stablecoinProgramId u target new id = w id := by
    intro u target found new hfound hne hu
    refine (put_other _ _ _ _ _ ?_).trans hu
    rintro rfl
    exact hne x (hfound.symm.trans hx.2)
  have hfresh : ∀ (u : Accounts) (target : AccountId) (new : Data), w target = default →
      u id = w id → put stablecoinProgramId u target new id = w id := by
    intro u target new hfound hu
    exact hother u target .empty new (by rw [hfound]; rfl) (fun _ => Data.noConfusion) hu
  have hown : ∀ (owner target : AccountId) (data : Position) (new : Data),
      PositionReads stablecoinProgramId w authority owner target data →
      put stablecoinProgramId w target new id = w id := by
    intro owner target data new reads
    refine put_other _ _ _ _ _ ?_
    rintro rfl
    obtain rfl := Data.position.inj (reads.stored.2.symm.trans hx.2)
    exact ho (reads.owner ▸ reads.authorized)
  cases h with
  | initializeProgram _ _ _ _ _ _ _ hp ha hr =>
    exact hfresh _ _ _ hr (hfresh _ _ _ ha (hfresh w _ _ hp rfl))
  | accrueStabilityFee _ _ _ _ _ _ _ _ reads =>
    exact hother w _ _ _ reads.accumulates.2 (fun _ => Data.noConfusion) rfl
  | updateRedemptionRate _ _ _ _ _ _ _ _ _ _ hr =>
    exact hother w _ _ _ hr.2 (fun _ => Data.noConfusion) rfl
  | refreshFee _ _ _ _ _ _ _ _ _ reads =>
    exact hother w _ _ _ reads.accumulates.2 (fun _ => Data.noConfusion) rfl
  | refreshBoth _ _ _ _ _ _ _ _ _ _ _ _ reads hr =>
    exact hother _ _ _ _ hr.2 (fun _ => Data.noConfusion)
      (hother w _ _ _ reads.accumulates.2 (fun _ => Data.noConfusion) rfl)
  | resetRedemptionRateController _ _ _ _ _ _ _ hr =>
    exact hother w _ _ _ hr.2 (fun _ => Data.noConfusion) rfl
  | openPosition _ _ _ _ _ _ _ _ _ _ hposition => exact hfresh w _ _ hposition rfl
  | depositCollateral owner position _ _ data _ _ _ _ _ reads => exact hown owner position data _ reads
  | closePosition owner position _ data _ reads => exact hown owner position data _ reads
  | generateDebt owner position _ _ _ data _ _ _ _ _ _ _ _ reads accrues =>
    exact hother _ _ _ _ accrues.accumulates.2 (fun _ => Data.noConfusion)
      (hown owner position data _ reads)
  | repayDebt owner position _ _ _ data _ _ _ _ _ _ _ reads _ accrues =>
    exact hother _ _ _ _ accrues.accumulates.2 (fun _ => Data.noConfusion)
      (hown owner position data _ reads)
  | withdrawCollateral owner position _ _ data _ _ _ _ _ _ _ reads =>
    exact hown owner position data _ reads
  | setStabilityFeePerMillisecond _ _ _ _ _ _ _ _ _ _ accrues =>
    exact hother _ _ _ _ accrues.accumulates.2 (fun _ => Data.noConfusion)
      (hother w _ _ _ accrues.parameters.2 (fun _ => Data.noConfusion) rfl)
  | setParameters _ _ _ _ _ _ _ hp => exact hother w _ _ _ hp.2 (fun _ => Data.noConfusion) rfl

end

section
variable (platform : Platform) (w : Accounts) (id : AccountId) (x : Position)

/-- Nobody but the owner touches a position and takes from its vault. -/
structure Rests (vault : ℕ) (w : Accounts) : Prop where
  sound : Sound w
  position : positionAt w id = some x
  vault : vault ≤ unitsAt w x.vaultAccountId

theorem rests_event (event : Event) (vault : ℕ) (h : Rests id x vault w)
    (hs : ¬SignedIn x.ownerAccountId [event]) : Rests id x vault (event.apply platform w) := by
  have hunsigned : ∀ authority call, event = .transaction authority call →
      x.ownerAccountId ∉ authority :=
    fun authority call he ha => hs ⟨authority, call, he ▸ List.mem_singleton_self _, ha⟩
  refine ⟨event_sound platform w event h.sound, ?_, ?_⟩
  · have hstored := (positionAt_eq_some w id x).mp h.position
    rw [positionAt_eq_some]
    rcases event_cases platform w event with
      ⟨he, -⟩ | ⟨authority, call, instruction, v, calls, rfl, ht⟩
    · rw [elsewhere_stored w _ he, hstored]
    · have hkept := ht.step.position_kept w v authority _ instruction calls id x
        ((owned_eq_some _ _ _ _).mp hstored) (hunsigned authority call rfl)
      rw [ht.invoked.stored_eq, owned_congr _ _ _ id hkept, hstored]
  · by_contra hlt
    obtain ⟨authority, call, amount, hw⟩ := sound_drained platform w h.sound event id x h.position
      (by have := h.vault; omega)
    exact hunsigned authority call hw.transaction hw.owner

theorem rests_run (later : List Event) (vault : ℕ) (h : Rests id x vault w)
    (hs : ¬SignedIn x.ownerAccountId later) : Rests id x vault (run platform w later) := by
  induction later generalizing w with
  | nil => exact h
  | cons event later ih =>
    refine ih _ (rests_event platform w id x event vault h ?_) ?_
    · rintro ⟨authority, call, hm, ha⟩
      exact hs ⟨authority, call, List.mem_singleton.mp hm ▸ List.mem_cons_self .., ha⟩
    · rintro ⟨authority, call, hm, ha⟩
      exact hs ⟨authority, call, List.mem_cons_of_mem _ hm, ha⟩

end

/-- In a run that the owner of a position does not sign, the position stays exactly what it is,
and its vault loses nothing. -/
theorem positions_rest_without_their_owners (platform : Platform) (genesis : Genesis)
    (events later : List Event) (id : AccountId) (x : Position)
    (hx : positionAt (run platform genesis.world events) id = some x)
    (hs : ¬SignedIn x.ownerAccountId later) :
    positionAt (run platform genesis.world (events ++ later)) id = some x ∧
      unitsAt (run platform genesis.world events) x.vaultAccountId ≤
        unitsAt (run platform genesis.world (events ++ later)) x.vaultAccountId := by
  rw [run_append]
  have h := rests_run platform _ id x later _ ⟨run_sound platform genesis events, hx, le_rfl⟩ hs
  exact ⟨h.position, h.vault⟩

def firstPosition : Position := ⟨.key 30, 0, vaultId firstPositionId, 2000, 0, 0⟩

def intrusion : Event :=
  .transaction [.key 21] ⟨stablecoinProgramId, [.key 30, firstPositionId, vaultId firstPositionId,
    .key 21, accumulatorId, redemptionId, parametersId, clock01ProgramAccountId],
    .stablecoin (.withdrawCollateral 500), []⟩

theorem first_position_rests :
    positionAt (run tablePlatform (clockedGenesis 0).world
      ((firstInitialization ++ firstOpening) ++ [intrusion])) firstPositionId
        = some firstPosition := by
  refine (positions_rest_without_their_owners tablePlatform (clockedGenesis 0)
    (firstInitialization ++ firstOpening) [intrusion] firstPositionId firstPosition
    (by decide +kernel) ?_).1
  rintro ⟨authority, call, hm, ha⟩
  obtain ⟨rfl, -⟩ := Event.transaction.inj (List.mem_singleton.mp hm)
  revert ha
  decide

end LezPrograms.Stablecoin
