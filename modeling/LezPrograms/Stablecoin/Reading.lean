import LezPrograms.Stablecoin.Program

/-! # When the shared checks succeed

One lemma for each helper of the handlers: what it found in the accounts and
what it returns. -/

set_option autoImplicit false

namespace LezPrograms.Stablecoin
open LezPrograms.Checked LezPrograms.Checked.Unsigned LezPrograms.Lee
open LezPrograms.Stablecoin.Math LezPrograms.Stablecoin.Controller

theorem decodeGlobal_eq_ok (account : InputAccount) (expectedId self : AccountId) (label : String)
    (data : Data) : decodeGlobal account expectedId self label = .ok data ↔
      account.account ≠ default ∧ account.accountId = expectedId ∧
        Holds self account.account data := by
  simp only [decodeGlobal, bind_eq_ok, ensure_eq_ok, exists_const, pure_eq_ok, Holds]
  constructor
  · rintro ⟨h1, h2, h3, h4⟩
    exact ⟨h1, h3, h2, h4⟩
  · rintro ⟨h1, h3, h2, h4⟩
    exact ⟨h1, h2, h3, h4⟩

theorem decodeProtocolParameters_eq_ok (account : InputAccount) (self : AccountId)
    (parameters : ProtocolParameters) :
    decodeProtocolParameters account self = .ok parameters ↔
      account.account ≠ default ∧ account.accountId = computeProtocolParametersPda self ∧
        Holds self account.account (.protocolParameters parameters) := by
  simp only [decodeProtocolParameters, bind_eq_ok, decodeGlobal_eq_ok, expect_eq_ok,
    tryFrom_parameters]
  constructor
  · rintro ⟨data, ⟨h1, h2, h3⟩, rfl⟩
    exact ⟨h1, h2, h3⟩
  · rintro ⟨h1, h2, h3⟩
    exact ⟨_, ⟨h1, h2, h3⟩, rfl⟩

theorem decodeStabilityFeeAccumulator_eq_ok (account : InputAccount) (self : AccountId)
    (accumulator : StabilityFeeAccumulator) :
    decodeStabilityFeeAccumulator account self = .ok accumulator ↔
      account.account ≠ default ∧ account.accountId = computeStabilityFeeAccumulatorPda self ∧
        Holds self account.account (.stabilityFeeAccumulator accumulator) := by
  simp only [decodeStabilityFeeAccumulator, bind_eq_ok, decodeGlobal_eq_ok, expect_eq_ok,
    tryFrom_accumulator]
  constructor
  · rintro ⟨data, ⟨h1, h2, h3⟩, rfl⟩
    exact ⟨h1, h2, h3⟩
  · rintro ⟨h1, h2, h3⟩
    exact ⟨_, ⟨h1, h2, h3⟩, rfl⟩

theorem decodeRedemptionPriceState_eq_ok (account : InputAccount) (self : AccountId)
    (redemption : RedemptionPriceState) :
    decodeRedemptionPriceState account self = .ok redemption ↔
      account.account ≠ default ∧ account.accountId = computeRedemptionPriceStatePda self ∧
        Holds self account.account (.redemptionPriceState redemption) := by
  simp only [decodeRedemptionPriceState, bind_eq_ok, decodeGlobal_eq_ok, expect_eq_ok,
    tryFrom_redemption]
  constructor
  · rintro ⟨data, ⟨h1, h2, h3⟩, rfl⟩
    exact ⟨h1, h2, h3⟩
  · rintro ⟨h1, h2, h3⟩
    exact ⟨_, ⟨h1, h2, h3⟩, rfl⟩

theorem decodeFeeAccrualInputs_eq_ok (params accumulator : InputAccount) (self : AccountId)
    (p : ProtocolParameters) (a : StabilityFeeAccumulator) :
    decodeFeeAccrualInputs params accumulator self = .ok (p, a) ↔
      (params.account ≠ default ∧ Holds self params.account (.protocolParameters p)) ∧
        (accumulator.account ≠ default ∧
          accumulator.accountId = computeStabilityFeeAccumulatorPda self ∧
          Holds self accumulator.account (.stabilityFeeAccumulator a)) := by
  simp only [decodeFeeAccrualInputs, bind_eq_ok, ensure_eq_ok, exists_const, expect_eq_ok,
    pure_eq_ok, tryFrom_parameters, tryFrom_accumulator, Prod.mk.injEq, Holds]
  constructor
  · rintro ⟨h1, h2, h3, h4, h5, _, h6, _, h7, rfl, rfl⟩
    exact ⟨⟨h1, h2, h6⟩, h3, h5, h4, h7⟩
  · rintro ⟨⟨h1, h2, h6⟩, h3, h5, h4, h7⟩
    exact ⟨h1, h2, h3, h4, h5, _, h6, _, h7, rfl, rfl⟩

theorem decodeRedemptionInputs_eq_ok (params redemption : InputAccount) (self : AccountId)
    (p : ProtocolParameters) (r : RedemptionPriceState) :
    decodeRedemptionInputs params redemption self = .ok (p, r) ↔
      (params.account ≠ default ∧ Holds self params.account (.protocolParameters p)) ∧
        (redemption.account ≠ default ∧
          redemption.accountId = computeRedemptionPriceStatePda self ∧
          Holds self redemption.account (.redemptionPriceState r)) := by
  simp only [decodeRedemptionInputs, bind_eq_ok, ensure_eq_ok, exists_const, expect_eq_ok,
    pure_eq_ok, tryFrom_parameters, tryFrom_redemption, Prod.mk.injEq, Holds]
  constructor
  · rintro ⟨h1, h2, h3, h4, h5, _, h6, _, h7, rfl, rfl⟩
    exact ⟨⟨h1, h2, h6⟩, h3, h5, h4, h7⟩
  · rintro ⟨⟨h1, h2, h6⟩, h3, h5, h4, h7⟩
    exact ⟨h1, h2, h3, h4, h5, _, h6, _, h7, rfl, rfl⟩

theorem verifyPositionAndGetSeed_eq_ok (position owner : InputAccount) (nonce : U64)
    (self : AccountId) (seed : PdaSeed) :
    verifyPositionAndGetSeed position owner nonce self = .ok seed ↔
      position.accountId = computePositionPda self owner.accountId nonce ∧
        seed = computePositionPdaSeed owner.accountId nonce := by
  simp only [verifyPositionAndGetSeed, bind_eq_ok, ensure_eq_ok, exists_const, pure_eq_ok,
    computePositionPda]
  exact and_congr_right fun _ => eq_comm

theorem verifyPositionVaultAndGetSeed_eq_ok (vault : InputAccount) (positionId self : AccountId)
    (seed : PdaSeed) :
    verifyPositionVaultAndGetSeed vault positionId self = .ok seed ↔
      vault.accountId = computePositionVaultPda self positionId ∧
        seed = computePositionVaultPdaSeed positionId := by
  simp only [verifyPositionVaultAndGetSeed, bind_eq_ok, ensure_eq_ok, exists_const, pure_eq_ok,
    computePositionVaultPda]
  exact and_congr_right fun _ => eq_comm

theorem decodePosition_eq_ok (position owner : InputAccount) (self : AccountId) (p : Position) :
    decodePosition position owner self = .ok p ↔
      position.account ≠ default ∧ Holds self position.account (.position p) ∧
        position.accountId = computePositionPda self owner.accountId p.positionNonce ∧
        p.ownerAccountId = owner.accountId := by
  simp only [decodePosition, bind_eq_ok, ensure_eq_ok, exists_const, expect_eq_ok, pure_eq_ok,
    tryFrom_position, verifyPositionAndGetSeed_eq_ok, Holds]
  constructor
  · rintro ⟨h1, h2, q, h3, seed, ⟨h4, -⟩, h5, rfl⟩
    exact ⟨h1, ⟨h2, h3⟩, h4, h5⟩
  · rintro ⟨h1, ⟨h2, h3⟩, h4, h5⟩
    exact ⟨h1, h2, p, h3, _, ⟨h4, rfl⟩, h5, rfl⟩

theorem readClock_eq_ok (clock : InputAccount) (now : U64) :
    readClock clock = .ok now ↔ clock.accountId = clock01ProgramAccountId ∧
      clock.account.data = .clock now := by
  simp only [readClock, bind_eq_ok, ensure_eq_ok, exists_const, clockTimestamp_eq_ok]
  constructor
  · rintro ⟨h1, -, h2⟩
    exact ⟨h1, h2⟩
  · rintro ⟨h1, h2⟩
    refine ⟨h1, ?_, h2⟩
    intro h
    rw [h] at h2
    cases h2

def surplusCalls (tokenProgram definitionId self : AccountId) (accruedFees : U128) :
    List ChainedCall :=
  if 0 < accruedFees.val then
    [(ChainedCall.new tokenProgram [definitionId, computeStablecoinMasterHoldingPda self]
      (.token (.mint accruedFees))).withPdaSeeds [computeStablecoinDefinitionPdaSeed]]
  else []

theorem surplusMintCall_eq_ok (definition master : InputAccount) (p : ProtocolParameters)
    (self : AccountId) (fees : U128) (call : Option ChainedCall) :
    surplusMintCall definition master p self fees = .ok call ↔
      definition.accountId = p.stablecoinDefinitionId ∧ definition.account ≠ default ∧
        master.accountId = computeStablecoinMasterHoldingPda self ∧ master.account ≠ default ∧
        master.account.programOwner = definition.account.programOwner ∧
        call.toList = surplusCalls definition.account.programOwner definition.accountId self fees := by
  simp only [surplusMintCall, bind_eq_ok, ensure_eq_ok, exists_const, pure_eq_ok, surplusCalls]
  refine and_congr_right fun _ => and_congr_right fun _ => and_congr_right fun hm =>
    and_congr_right fun _ => and_congr_right fun _ => ?_
  rw [hm]
  split
  · cases call <;> simp [eq_comm]
  · cases call <;> simp

end LezPrograms.Stablecoin
