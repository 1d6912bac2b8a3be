import LezPrograms.Stablecoin.Setters
import LezPrograms.StablecoinClient.Poking

/-! # Plans of the administration

The admin and the freeze authority plan their setters through the client. The client
accepts exactly what the program accepts, apart from fees that no longer fit. -/

set_option autoImplicit false

namespace LezPrograms.StablecoinClient
open LezPrograms.Checked LezPrograms.Checked.Unsigned LezPrograms.Lee LezPrograms.Stablecoin
open LezPrograms.Stablecoin.Math LezPrograms.Stablecoin.Controller LezPrograms.Stablecoin.Quotes
open LezPrograms.AmmClient (AccountRead parse readOf)
open LezPrograms.TwapOracle (OraclePriceAccount)

def parseU64 (value : Value) : Outcome U64 :=
  match value with
  | .number asU64 => expect asU64 "invalid_numeric_value"
  | .string raw => do
    let raw ← decimalText raw
    ensure (raw.toList.all Char.isDigit) "invalid_numeric_value"
    (parse raw).mapError fun _ => "invalid_numeric_value"
  | .other => .error "invalid_numeric_value"

inductive SignedValue where
  | number (asI64 : Option I64) (asU64 : Option U64)
  | string (raw : String)
  | other

def decimal (digits : List Char) : ℕ :=
  digits.foldl (fun value digit => value * 10 + (digit.toNat - 48)) 0

theorem number_width : 64 ≤ 128 := by decide

def parseI128 (value : SignedValue) : Outcome I128 :=
  match value with
  | .number asI64 asU64 => expect ((asI64.map fun number => Signed.widen number number_width).or
      (asU64.bind fun number => Signed.tryFrom 128 number.val)) "invalid_numeric_value"
  | .string raw => do
    let raw ← decimalText raw
    let negative := raw.toList.head? = some '-'
    let digits := if negative then raw.toList.tail else raw.toList
    ensure (digits ≠ [] ∧ digits.all Char.isDigit) "invalid_numeric_value"
    expect (Signed.tryFrom 128 (if negative then -decimal digits else decimal digits))
      "invalid_numeric_value"
  | .other => .error "invalid_numeric_value"

def parseAccountIdValue (value : Option AccountId) : Outcome AccountId :=
  expect value "invalid_account_id"

structure AdminPlanContext where
  stablecoinProgramId : Option AccountId
  adminId : Option AccountId
  protocolParameters : AccountRead

structure ValidatedAdmin where
  programId : AccountId
  admin : AccountId
  parametersId : AccountId
  parameters : ProtocolParameters

def ValidatedAdmin.read (context : AdminPlanContext) : Outcome ValidatedAdmin := do
  let programId ← parseStablecoinProgramId context.stablecoinProgramId
  let admin ← parseAccountId context.adminId
  let (parametersId, parameters) ← validatedProtocolParameters programId context.protocolParameters
  ensure (admin = parameters.adminAccountId) "admin_mismatch"
  pure ⟨programId, admin, parametersId, parameters⟩

def ValidatedAdmin.plan (context : ValidatedAdmin) (instruction : Stablecoin.Instruction) : Plan :=
  ⟨context.programId, [context.admin, context.parametersId], [true, false], instruction⟩

structure SetStabilityFeePerMillisecondPlanRequest where
  context : AdminPlanContext
  newRate : Value
  stabilityFeeAccumulator : AccountRead
  clock : AccountRead

def setStabilityFeePerMillisecondPlan (request : SetStabilityFeePerMillisecondPlanRequest) :
    Outcome Plan := do
  let context ← ValidatedAdmin.read request.context
  let newRate ← parseU128 request.newRate
  ensure (fixedPointOne.val ≤ newRate.val ∧ newRate.val ≤ maxStabilityFeePerMillisecond.val)
    "stability_fee_out_of_band"
  let (accumulatorId, accumulator) ← validatedStabilityFeeAccumulator context.programId
    request.stabilityFeeAccumulator
  let now ← clockTimestamp request.clock
  let _ ← expect (checkedAccumulator accumulator.accumulatedRateAtLastAccrual
    context.parameters.stabilityFeePerMillisecond accumulator.lastAccruedAt now)
    "stability_fee_arithmetic_error"
  pure ⟨context.programId, [context.admin, context.parametersId, accumulatorId,
    context.parameters.stablecoinDefinitionId, computeStablecoinMasterHoldingPda context.programId,
    clock01ProgramAccountId], [true, false, false, false, false, false],
    .setStabilityFeePerMillisecond newRate⟩

structure SetMinimumCollateralizationRatioPlanRequest where
  context : AdminPlanContext
  newRatio : Value

def setMinimumCollateralizationRatioPlan (request : SetMinimumCollateralizationRatioPlanRequest) :
    Outcome Plan := do
  let context ← ValidatedAdmin.read request.context
  let newRatio ← parseU128 request.newRatio
  ensure (minCollateralizationRatio.val ≤ newRatio.val ∧
    newRatio.val ≤ maxCollateralizationRatio.val) "collateralization_ratio_out_of_band"
  pure (context.plan (.setMinimumCollateralizationRatio newRatio))

structure SetControllerGainsPlanRequest where
  context : AdminPlanContext
  newProportionalGain : SignedValue
  newIntegralGain : SignedValue

def setControllerGainsPlan (request : SetControllerGainsPlanRequest) : Outcome Plan := do
  let context ← ValidatedAdmin.read request.context
  let newProportionalGain ← parseI128 request.newProportionalGain
  let newIntegralGain ← parseI128 request.newIntegralGain
  ensure ((0 ≤ newProportionalGain.val ∧
      newProportionalGain.val ≤ maximumControllerProportionalGain.val) ∧
    0 ≤ newIntegralGain.val ∧ newIntegralGain.val ≤ maximumControllerIntegralGain.val)
    "controller_gains_out_of_band"
  pure (context.plan (.setControllerGains newProportionalGain newIntegralGain))

structure SetTimingParametersPlanRequest where
  context : AdminPlanContext
  newMinimumMillisecondsBetweenRateUpdates : Value
  newMaximumOraclePriceAgeMilliseconds : Value

def setTimingParametersPlan (request : SetTimingParametersPlanRequest) : Outcome Plan := do
  let context ← ValidatedAdmin.read request.context
  let newMinimum ← parseU64 request.newMinimumMillisecondsBetweenRateUpdates
  let newMaximum ← parseU64 request.newMaximumOraclePriceAgeMilliseconds
  ensure ((1 ≤ newMinimum.val ∧ newMinimum.val ≤ maxTimingMilliseconds.val) ∧
    1 ≤ newMaximum.val ∧ newMaximum.val ≤ maxTimingMilliseconds.val)
    "timing_parameters_out_of_band"
  pure (context.plan (.setTimingParameters newMinimum newMaximum))

structure SetAdminPlanRequest where
  context : AdminPlanContext
  newAdminId : Option AccountId

def setAdminPlan (request : SetAdminPlanRequest) : Outcome Plan := do
  let context ← ValidatedAdmin.read request.context
  let newAdminAccountId ← parseAccountIdValue request.newAdminId
  pure (context.plan (.setAdmin newAdminAccountId))

structure SetFreezeAuthorityPlanRequest where
  context : AdminPlanContext
  newFreezeAuthorityId : Option AccountId

def setFreezeAuthorityPlan (request : SetFreezeAuthorityPlanRequest) : Outcome Plan := do
  let context ← ValidatedAdmin.read request.context
  let newFreezeAuthorityAccountId ← parseAccountIdValue request.newFreezeAuthorityId
  pure (context.plan (.setFreezeAuthority newFreezeAuthorityAccountId))

structure SetMarketPriceOraclePlanRequest where
  context : AdminPlanContext
  newOracleId : Option AccountId
  newOracle : AccountRead

def checkNewOracle (account : Account AccountId Data) (parameters : ProtocolParameters) :
    Outcome Unit :=
  if account = default then pure ()
  else do
    let oracle : OraclePriceAccount ← expect (tryFrom account.data) "invalid_market_price_oracle"
    ensure (oracle.baseAsset = parameters.stablecoinDefinitionId ∧
      oracle.quoteAsset = parameters.collateralDefinitionId) "oracle_asset_mismatch"

def setMarketPriceOraclePlan (request : SetMarketPriceOraclePlanRequest) : Outcome Plan := do
  let context ← ValidatedAdmin.read request.context
  let newOracleId ← parseAccountId request.newOracleId
  let (readId, account) ← requiredAccount request.newOracle
  ensure (readId = newOracleId) "market_price_oracle_mismatch"
  checkNewOracle account context.parameters
  ensure (newOracleId ≠ context.admin) "invalid_market_price_oracle"
  pure ⟨context.programId, [context.admin, context.parametersId, newOracleId], [true, false, false],
    .setMarketPriceOracle⟩

structure FreezeAuthorityPlanRequest where
  stablecoinProgramId : Option AccountId
  freezeAuthorityId : Option AccountId
  protocolParameters : AccountRead

def freezeAuthorityPlan (request : FreezeAuthorityPlanRequest)
    (instruction : Stablecoin.Instruction) : Outcome Plan := do
  let programId ← parseStablecoinProgramId request.stablecoinProgramId
  let authority ← parseAccountId request.freezeAuthorityId
  let (parametersId, parameters) ← validatedProtocolParameters programId request.protocolParameters
  ensure (authority = parameters.freezeAuthorityAccountId) "freeze_authority_mismatch"
  pure ⟨programId, [authority, parametersId], [true, false], instruction⟩

def freezePlan (request : FreezeAuthorityPlanRequest) : Outcome Plan :=
  freezeAuthorityPlan request .freeze

def unfreezePlan (request : FreezeAuthorityPlanRequest) : Outcome Plan :=
  freezeAuthorityPlan request .unfreeze

def adminContext (w : Accounts) (caller : AccountId) : AdminPlanContext :=
  ⟨some stablecoinProgramId, some caller, readOf w parametersId⟩

def setterCall (caller : AccountId) (others : List AccountId) (instruction : Stablecoin.Instruction) :
    ChainedCall :=
  .new stablecoinProgramId (caller :: parametersId :: others) (.stablecoin instruction)

/-- The client plans the call exactly if the program accepts it and the identifiers `named` are not
zero; then the caller signs, and `params` become the parameters. -/
structure Agrees (platform : Platform) (w : Accounts) (authority : List AccountId)
    (caller : AccountId) (named : List AccountId) (planned : Outcome Plan) (call : ChainedCall)
    (params : ProtocolParameters) : Prop where
  accepted : (∃ plan, planned = .ok plan) ↔
    default ∉ named ∧ ∃ w', transact platform w authority call = .ok w'
  planned : ∀ plan, planned = .ok plan → plan.call = call ∧ plan.signers = [caller]
  stored : ∀ w', transact platform w authority call = .ok w' →
    w' = put stablecoinProgramId w parametersId (.protocolParameters params)

theorem Agrees.of_iff (platform : Platform) (w : Accounts) (authority : List AccountId)
    (caller : AccountId) (named : List AccountId) (planned : Outcome Plan) (call : ChainedCall)
    (params : ProtocolParameters) (P : Prop) (plan : Plan) (hcall : plan.call = call)
    (hsigners : plan.signers = [caller])
    (hplanned : ∀ plan', planned = .ok plan' ↔ (default ∉ named ∧ P) ∧ plan' = plan)
    (htransact : ∀ w', transact platform w authority call = .ok w' ↔
      P ∧ w' = put stablecoinProgramId w parametersId (.protocolParameters params)) :
    Agrees platform w authority caller named planned call params := by
  refine ⟨?_, ?_, fun w' h => ((htransact w').mp h).2⟩
  · constructor
    · rintro ⟨plan', h⟩
      obtain ⟨⟨hnamed, hP⟩, -⟩ := (hplanned plan').mp h
      exact ⟨hnamed, _, (htransact _).mpr ⟨hP, rfl⟩⟩
    · rintro ⟨hnamed, w', h⟩
      exact ⟨plan, (hplanned plan).mpr ⟨⟨hnamed, ((htransact w').mp h).1⟩, rfl⟩⟩
  · intro plan' h
    obtain ⟨-, rfl⟩ := (hplanned plan').mp h
    exact ⟨hcall, hsigners⟩

/-- The client and the program make the same checks of a new oracle. -/
theorem checkNewOracle_eq_ok (oracle : InputAccount) (parameters : ProtocolParameters)
    (decodeText baseText quoteText : String) :
    assertOracleQuotes oracle parameters.stablecoinDefinitionId parameters.collateralDefinitionId
        decodeText baseText quoteText = .ok () ↔ checkNewOracle oracle.account parameters = .ok () := by
  unfold assertOracleQuotes checkNewOracle
  split
  · rfl
  · simp only [bind_eq_ok, expect_eq_ok, ensure_eq_ok, exists_const]

section
variable (platform : Platform) (hcalls : platform.callDepth ≠ 0) (w : Accounts)
  (authority : List AccountId) (hgranted : Granted authority) (caller : AccountId)
  (hsigns : caller ∈ authority) (params : ProtocolParameters)
  (hparams : Holds stablecoinProgramId (w parametersId) (.protocolParameters params))

section
include hparams

theorem validatedProtocolParameters_readOf :
    validatedProtocolParameters stablecoinProgramId (readOf w parametersId)
      = .ok (parametersId, params) :=
  validatedAccount_readOf w _ _ _ _ _ hparams.1 ((tryFrom_parameters _ _).mpr hparams.2)

theorem read_adminContext (context : ValidatedAdmin) :
    ValidatedAdmin.read (adminContext w caller) = .ok context ↔
      (caller ≠ default ∧ caller = params.adminAccountId) ∧
        context = ⟨stablecoinProgramId, caller, parametersId, params⟩ := by
  simp only [ValidatedAdmin.read, adminContext, parseStablecoinProgramId, parseAccountId,
    bind_eq_ok, parseId_eq_ok, ensure_eq_ok, exists_const, pure_eq_ok, Prod.exists,
    Option.some.injEq]
  constructor
  · rintro ⟨_, ⟨rfl, -⟩, _, ⟨rfl, hcaller⟩, id, p, hp, hadmin, rfl⟩
    rw [validatedProtocolParameters_readOf w params hparams] at hp
    obtain ⟨rfl, rfl⟩ := Prod.mk.inj (Except.ok.inj hp)
    exact ⟨⟨hcaller, hadmin⟩, rfl⟩
  · rintro ⟨⟨hcaller, hadmin⟩, rfl⟩
    exact ⟨_, ⟨rfl, by decide⟩, _, ⟨rfl, hcaller⟩, _, _,
      validatedProtocolParameters_readOf w params hparams, hadmin, rfl⟩

end

section
include hcalls hgranted hsigns hparams

/-- A setter of the admin that names two accounts. -/
theorem setter_iff (instruction : Stablecoin.Instruction)
    (mutate : ProtocolParameters → Outcome ProtocolParameters)
    (hmain : ∀ a p, main stablecoinProgramId [a, p] instruction
      = updateParameters a p stablecoinProgramId mutate) (P : Prop) (params' : ProtocolParameters)
    (hmutate : ∀ q, mutate params = .ok q ↔ P ∧ params' = q) (w' : Accounts) :
    transact platform w authority (setterCall caller [] instruction) = .ok w' ↔
      (caller = params.adminAccountId ∧ P) ∧
        w' = put stablecoinProgramId w parametersId (.protocolParameters params') := by
  have hmain' : ∀ calls diffs, main stablecoinProgramId
      ([caller, parametersId].map (view w authority)) instruction = .ok (diffs, calls) ↔
      Rewriting w authority calls (fun q q' => caller = q.adminAccountId ∧ mutate q = .ok q') []
        caller parametersId diffs := by
    intro calls diffs
    rw [List.map_cons, List.map_cons, List.map_nil, hmain]
    exact updateParameters_eq_ok w authority calls caller parametersId mutate diffs
  have hne : caller ≠ parametersId := caller_ne_derived authority hgranted caller _ hsigns rfl
  rw [setterCall, setter_transacts platform w w' authority hgranted params hparams hcalls _ _ _ _ _
    hmain' fun _ => rfl]
  constructor
  · rintro ⟨-, -, q, ⟨hadmin, hq⟩, rfl⟩
    obtain ⟨hP, rfl⟩ := (hmutate q).mp hq
    exact ⟨⟨hadmin, hP⟩, rfl⟩
  · rintro ⟨⟨hadmin, hP⟩, rfl⟩
    exact ⟨by simpa using hne, hsigns, params', ⟨hadmin, (hmutate _).mpr ⟨hP, rfl⟩⟩, rfl⟩

theorem setter_agrees (instruction : Stablecoin.Instruction)
    (mutate : ProtocolParameters → Outcome ProtocolParameters)
    (hmain : ∀ a p, main stablecoinProgramId [a, p] instruction
      = updateParameters a p stablecoinProgramId mutate) (P : Prop) (params' : ProtocolParameters)
    (hmutate : ∀ q, mutate params = .ok q ↔ P ∧ params' = q) (plans : ValidatedAdmin → Outcome Plan)
    (hplans : ∀ context plan, plans context = .ok plan ↔ P ∧ context.plan instruction = plan) :
    Agrees platform w authority caller [caller]
      (ValidatedAdmin.read (adminContext w caller) >>= plans) (setterCall caller [] instruction)
      params' := by
  refine Agrees.of_iff _ _ _ _ _ _ _ _ _ ⟨stablecoinProgramId, [caller, parametersId], [true, false],
    instruction⟩ rfl rfl (fun plan => ?_) (setter_iff platform hcalls w authority hgranted caller
      hsigns params hparams instruction mutate hmain P params' hmutate)
  simp only [bind_eq_ok, read_adminContext w caller params hparams, hplans, List.mem_singleton,
    @eq_comm _ default caller]
  constructor
  · rintro ⟨_, ⟨⟨hcaller, hadmin⟩, rfl⟩, hP, rfl⟩
    exact ⟨⟨hcaller, hadmin, hP⟩, rfl⟩
  · rintro ⟨⟨hcaller, hadmin, hP⟩, rfl⟩
    exact ⟨_, ⟨⟨hcaller, hadmin⟩, rfl⟩, hP, rfl⟩

theorem ratio_agrees (value : Value) (newRatio : U128) (hvalue : parseU128 value = .ok newRatio) :
    Agrees platform w authority caller [caller]
      (setMinimumCollateralizationRatioPlan ⟨adminContext w caller, value⟩)
      (setterCall caller [] (.setMinimumCollateralizationRatio newRatio))
      { params with minimumCollateralizationRatio := newRatio } := by
  refine setter_agrees platform hcalls w authority hgranted caller hsigns params hparams _ _
    (fun _ _ => rfl) (minCollateralizationRatio.val ≤ newRatio.val ∧
      newRatio.val ≤ maxCollateralizationRatio.val) _ (fun q => ?_) _ fun context plan => ?_
  · simp only [assertCollateralizationRatioInBand, bind_eq_ok, ensure_eq_ok, exists_const, pure_eq_ok,
      and_assoc]
  · simp only [hvalue, bind_eq_ok, Except.ok.injEq, exists_eq_left', ensure_eq_ok, exists_const,
      pure_eq_ok]

theorem gains_agree (proportional integral : SignedValue) (newProportional newIntegral : I128)
    (hproportional : parseI128 proportional = .ok newProportional)
    (hintegral : parseI128 integral = .ok newIntegral) :
    Agrees platform w authority caller [caller]
      (setControllerGainsPlan ⟨adminContext w caller, proportional, integral⟩)
      (setterCall caller [] (.setControllerGains newProportional newIntegral))
      { params with
        controllerProportionalGain := newProportional, controllerIntegralGain := newIntegral } := by
  refine setter_agrees platform hcalls w authority hgranted caller hsigns params hparams _ _
    (fun _ _ => rfl) ((0 ≤ newProportional.val ∧
        newProportional.val ≤ maximumControllerProportionalGain.val) ∧
      0 ≤ newIntegral.val ∧ newIntegral.val ≤ maximumControllerIntegralGain.val) _ (fun q => ?_) _
    fun context plan => ?_
  · simp only [assertControllerGainsInBand, bind_eq_ok, ensure_eq_ok, exists_const, pure_eq_ok,
      and_assoc]
  · simp only [hproportional, hintegral, bind_eq_ok, Except.ok.injEq, exists_eq_left', ensure_eq_ok,
      exists_const, pure_eq_ok]

theorem timing_agrees (minimum maximum : Value) (newMinimum newMaximum : U64)
    (hminimum : parseU64 minimum = .ok newMinimum) (hmaximum : parseU64 maximum = .ok newMaximum) :
    Agrees platform w authority caller [caller]
      (setTimingParametersPlan ⟨adminContext w caller, minimum, maximum⟩)
      (setterCall caller [] (.setTimingParameters newMinimum newMaximum))
      { params with
        minimumMillisecondsBetweenRateUpdates := newMinimum
        maximumOraclePriceAgeMilliseconds := newMaximum } := by
  refine setter_agrees platform hcalls w authority hgranted caller hsigns params hparams _ _
    (fun _ _ => rfl) ((1 ≤ newMinimum.val ∧ newMinimum.val ≤ maxTimingMilliseconds.val) ∧
      1 ≤ newMaximum.val ∧ newMaximum.val ≤ maxTimingMilliseconds.val) _ (fun q => ?_) _
    fun context plan => ?_
  · simp only [assertTimingMillisecondsInBand, bind_eq_ok, ensure_eq_ok, exists_const, pure_eq_ok,
      and_assoc]
  · simp only [hminimum, hmaximum, bind_eq_ok, Except.ok.injEq, exists_eq_left', ensure_eq_ok,
      exists_const, pure_eq_ok]

theorem admin_agrees (new : AccountId) :
    Agrees platform w authority caller [caller] (setAdminPlan ⟨adminContext w caller, some new⟩)
      (setterCall caller [] (.setAdmin new)) { params with adminAccountId := new } := by
  refine setter_agrees platform hcalls w authority hgranted caller hsigns params hparams _ _
    (fun _ _ => rfl) True _ (fun q => ?_) _ fun context plan => ?_
  · rw [pure_eq_ok, true_and]
  · simp only [parseAccountIdValue, bind_eq_ok, expect_eq_ok, Option.some.injEq, exists_eq_left',
      pure_eq_ok, true_and]

theorem freezeAuthority_agrees (new : AccountId) :
    Agrees platform w authority caller [caller]
      (setFreezeAuthorityPlan ⟨adminContext w caller, some new⟩)
      (setterCall caller [] (.setFreezeAuthority new))
      { params with freezeAuthorityAccountId := new } := by
  refine setter_agrees platform hcalls w authority hgranted caller hsigns params hparams _ _
    (fun _ _ => rfl) True _ (fun q => ?_) _ fun context plan => ?_
  · rw [pure_eq_ok, true_and]
  · simp only [parseAccountIdValue, bind_eq_ok, expect_eq_ok, Option.some.injEq, exists_eq_left',
      pure_eq_ok, true_and]

theorem freezing_agrees (isFrozen : Bool) (instruction : Stablecoin.Instruction)
    (hmain : ∀ a p, main stablecoinProgramId [a, p] instruction
      = setFrozen a p stablecoinProgramId isFrozen) :
    Agrees platform w authority caller [caller]
      (freezeAuthorityPlan ⟨some stablecoinProgramId, some caller, readOf w parametersId⟩ instruction)
      (setterCall caller [] instruction) { params with isFrozen := isFrozen } := by
  have hmain' : ∀ calls diffs, main stablecoinProgramId
      ([caller, parametersId].map (view w authority)) instruction = .ok (diffs, calls) ↔
      Rewriting w authority calls (fun q q' => caller = q.freezeAuthorityAccountId ∧
        q' = { q with isFrozen := isFrozen }) [] caller parametersId diffs := by
    intro calls diffs
    rw [List.map_cons, List.map_cons, List.map_nil, hmain]
    exact setFrozen_eq_ok w authority calls caller parametersId isFrozen diffs
  have hne : caller ≠ parametersId := caller_ne_derived authority hgranted caller _ hsigns rfl
  refine Agrees.of_iff _ _ _ _ _ _ _ _ (caller = params.freezeAuthorityAccountId)
    ⟨stablecoinProgramId, [caller, parametersId], [true, false], instruction⟩ rfl rfl (fun plan => ?_)
    fun w' => ?_
  · simp only [freezeAuthorityPlan, parseStablecoinProgramId, parseAccountId, bind_eq_ok,
      parseId_eq_ok, ensure_eq_ok, exists_const, pure_eq_ok, Prod.exists, Option.some.injEq,
      List.mem_singleton, @eq_comm _ default caller]
    constructor
    · rintro ⟨_, ⟨rfl, -⟩, _, ⟨rfl, hcaller⟩, id, p, hp, hfreezer, rfl⟩
      rw [validatedProtocolParameters_readOf w params hparams] at hp
      obtain ⟨rfl, rfl⟩ := Prod.mk.inj (Except.ok.inj hp)
      exact ⟨⟨hcaller, hfreezer⟩, rfl⟩
    · rintro ⟨⟨hcaller, hfreezer⟩, rfl⟩
      exact ⟨_, ⟨rfl, by decide⟩, _, ⟨rfl, hcaller⟩, _, _,
        validatedProtocolParameters_readOf w params hparams, hfreezer, rfl⟩
  · rw [setterCall, setter_transacts platform w w' authority hgranted params hparams hcalls _ _ _ _ _
      hmain' fun _ => rfl]
    constructor
    · rintro ⟨-, -, _, ⟨hfreezer, rfl⟩, rfl⟩
      exact ⟨hfreezer, rfl⟩
    · rintro ⟨hfreezer, rfl⟩
      exact ⟨by simpa using hne, hsigns, _, ⟨hfreezer, rfl⟩, rfl⟩

theorem oracle_agrees (oracle : AccountId) :
    Agrees platform w authority caller [caller, oracle]
      (setMarketPriceOraclePlan ⟨adminContext w caller, some oracle, readOf w oracle⟩)
      (setterCall caller [oracle] .setMarketPriceOracle)
      { params with marketPriceOracleId := oracle } := by
  have hmain : ∀ calls diffs, main stablecoinProgramId
      ([caller, parametersId, oracle].map (view w authority)) .setMarketPriceOracle
        = .ok (diffs, calls) ↔ _ := fun calls diffs =>
    setMarketPriceOracle_eq_ok w authority calls caller parametersId oracle diffs
  have hne : caller ≠ parametersId := caller_ne_derived authority hgranted caller _ hsigns rfl
  have hread : requiredAccount (readOf w oracle) = .ok (oracle, w oracle) :=
    (requiredAccount_eq_ok _ _ _).mpr ⟨rfl, rfl, rfl⟩
  refine Agrees.of_iff _ _ _ _ _ _ _ _ (caller = params.adminAccountId ∧
      checkNewOracle (w oracle) params = .ok () ∧ oracle ≠ caller)
    ⟨stablecoinProgramId, [caller, parametersId, oracle], [true, false, false],
      .setMarketPriceOracle⟩ rfl rfl (fun plan => ?_) fun w' => ?_
  · simp only [setMarketPriceOraclePlan, parseAccountId, bind_eq_ok, parseId_eq_ok,
      read_adminContext w caller params hparams, Prod.exists, hread, Except.ok.injEq,
      Prod.mk.injEq, ensure_eq_ok, exists_const, pure_eq_ok, Option.some.injEq, List.mem_cons,
      List.not_mem_nil, or_false, not_or, @eq_comm _ default caller, @eq_comm _ default oracle]
    constructor
    · rintro ⟨_, ⟨⟨hcaller, hadmin⟩, rfl⟩, _, ⟨rfl, horacle⟩, _, _, ⟨rfl, rfl⟩, -, _, hcheck, hapart,
        rfl⟩
      exact ⟨⟨⟨hcaller, horacle⟩, hadmin, hcheck, hapart⟩, rfl⟩
    · rintro ⟨⟨⟨hcaller, horacle⟩, hadmin, hcheck, hapart⟩, rfl⟩
      exact ⟨_, ⟨⟨hcaller, hadmin⟩, rfl⟩, _, ⟨rfl, horacle⟩, _, _, ⟨rfl, rfl⟩, rfl, _, hcheck, hapart,
        rfl⟩
  · rw [setterCall, setter_transacts platform w w' authority hgranted params hparams hcalls _ _ _ _ _
      hmain fun _ => rfl]
    simp only [checkNewOracle_eq_ok, view_account]
    constructor
    · rintro ⟨hn, -, _, ⟨hadmin, hcheck, rfl⟩, rfl⟩
      refine ⟨⟨hadmin, hcheck, ?_⟩, rfl⟩
      rintro rfl
      simp at hn
    · rintro ⟨⟨hadmin, hcheck, hapart⟩, rfl⟩
      have hpo : parametersId ≠ oracle := by
        rintro rfl
        rw [checkNewOracle, if_neg (Holds.ne_default _ _ _ hparams Data.noConfusion)] at hcheck
        simp only [bind_eq_ok, expect_eq_ok, hparams.2] at hcheck
        obtain ⟨_, hdecoded, -⟩ := hcheck
        cases hdecoded
      exact ⟨by simp [hne, hpo, hapart.symm], hsigns, _, ⟨hadmin, hcheck, rfl⟩, rfl⟩

end

end

def setStabilityFeeCall (caller : AccountId) (newRate : U128) : ChainedCall :=
  .new stablecoinProgramId [caller, parametersId, accumulatorId, definitionId, masterId,
    clock01ProgramAccountId] (.stablecoin (.setStabilityFeePerMillisecond newRate))

def setStabilityFeeRequest (w : Accounts) (caller : AccountId) (value : Value) :
    SetStabilityFeePerMillisecondPlanRequest :=
  ⟨adminContext w caller, value, readOf w accumulatorId, readOf w clock01ProgramAccountId⟩

section
variable (w : Accounts) (he : Established w) (params : ProtocolParameters)
  (hparams : storedParameters w = some params) (caller : AccountId)
include he hparams

theorem feePlan_eq_ok (value : Value) (newRate : U128)
    (hvalue : parseU128 value = .ok newRate) (plan : Plan) :
    setStabilityFeePerMillisecondPlan (setStabilityFeeRequest w caller value) = .ok plan ↔
      (caller ≠ default ∧ caller = params.adminAccountId ∧ (fixedPointOne.val ≤ newRate.val ∧
        newRate.val ≤ maxStabilityFeePerMillisecond.val) ∧ ∃ rate, CurrentRate w rate) ∧
      plan = ⟨stablecoinProgramId, [caller, parametersId, accumulatorId, definitionId, masterId,
        clock01ProgramAccountId], [true, false, false, false, false, false],
        .setStabilityFeePerMillisecond newRate⟩ := by
  obtain ⟨s, hr, rfl⟩ := he.represents w params hparams
  have hp := (owned_eq_some _ _ _ _).mp hr.records.parameters
  have ha := (owned_eq_some _ _ _ _).mp hr.records.accumulator
  have hread : validatedStabilityFeeAccumulator stablecoinProgramId (readOf w accumulatorId)
      = .ok (accumulatorId, s.accumulator) :=
    validatedAccount_readOf w _ _ _ _ _ ha.1 ((tryFrom_accumulator _ _).mpr ha.2)
  have hclock : ∀ now, clockTimestamp (readOf w clock01ProgramAccountId) = .ok now ↔
      (w clock01ProgramAccountId).data = .clock now := fun now =>
    ⟨(readOf_truthful w _).clock w _ now, clockTimestamp_readOf w now⟩
  simp only [setStabilityFeePerMillisecondPlan, setStabilityFeeRequest, bind_eq_ok,
    read_adminContext w caller s.parameters hp, hvalue, Except.ok.injEq, exists_eq_left',
    ensure_eq_ok, exists_const, Prod.exists, hclock, expect_eq_ok, checkedAccumulator_eq, pure_eq_ok]
  constructor
  · rintro ⟨_, ⟨⟨hcaller, hadmin⟩, rfl⟩, hband, _, accumulator, hacc, now, hnow, rate, hrate, rfl⟩
    obtain ⟨rfl, rfl⟩ := Prod.mk.inj (Except.ok.inj (hread.symm.trans hacc))
    exact ⟨⟨hcaller, hadmin, hband, rate, s.parameters, s.accumulator, now, hparams,
      hr.storedAccumulator, hnow, hrate⟩, by simp only [hr.named]⟩
  · rintro ⟨⟨hcaller, hadmin, hband, rate, p, accumulator, now, hp', ha', hnow, hrate⟩, rfl⟩
    obtain rfl := Option.some.inj (hparams.symm.trans hp')
    obtain rfl := Option.some.inj (hr.storedAccumulator.symm.trans ha')
    exact ⟨_, ⟨⟨hcaller, hadmin⟩, rfl⟩, hband, _, _, hread, now, hnow, rate, hrate,
      by simp only [hr.named]⟩

theorem fee_transacts (platform : Platform) (hcalls : 2 ≤ platform.callDepth)
    (hc : Token.Conserved w) (authority : List AccountId) (hgranted : Granted authority)
    (hsigns : caller ∈ authority) (newRate : U128) :
    (∃ w', transact platform w authority (setStabilityFeeCall caller newRate) = .ok w') ↔
      (caller = params.adminAccountId ∧ (fixedPointOne.val ≤ newRate.val ∧
        newRate.val ≤ maxStabilityFeePerMillisecond.val) ∧ ∃ rate, CurrentRate w rate) ∧
      caller ≠ clock01ProgramAccountId ∧ SupplyFits w 0 := by
  obtain ⟨-, -, hdne, hmne⟩ := he.tokens w _ hparams
  have hband : assertStabilityFeeInBand newRate "new_stability_fee_per_millisecond" = .ok () ↔
      fixedPointOne.val ≤ newRate.val ∧ newRate.val ≤ maxStabilityFeePerMillisecond.val := by
    simp only [assertStabilityFeeInBand, bind_eq_ok, ensure_eq_ok, exists_const]
  constructor
  · rintro ⟨w', h⟩
    obtain ⟨v, calls, hperf, hs⟩ := transact_settled platform w w' authority _ h _ rfl
    obtain ⟨hn, -, -, -, -, hnew, params', accumulator, now, accrual, hadmin, reads, -, rfl⟩ :=
      (performs_setStabilityFee w v authority calls _ _ _ _ _ _ newRate).mp hperf
    obtain rfl := Option.some.inj
      (hparams.symm.trans (Holds.storedParameters w params' reads.parameters))
    obtain ⟨hrate, hfits⟩ := fits_of_accrual w he params hparams _ w' authority _ accumulator now
      accrual reads (owned_frame tokenProgramId stablecoinProgramId _ _ hperf.frame (by decide)
        (by decide)) hs
    refine ⟨⟨hadmin, hband.mp hnew, hrate⟩, ?_, hfits⟩
    rintro rfl
    simp at hn
  · rintro ⟨⟨hadmin, hnew, rate, hrate⟩, hclock, hfits⟩
    obtain ⟨accumulator, now, accrual, reads, hmint⟩ :=
      accrual_of_fits w he params hparams hc rate hrate hfits
    have hderived := caller_ne_derived authority hgranted caller
    have hn : [caller, parametersId, accumulatorId, definitionId, masterId,
        clock01ProgramAccountId].Nodup := by
      refine List.nodup_cons.mpr ⟨?_, by decide⟩
      simp only [List.mem_cons, List.not_mem_nil, or_false, not_or]
      exact ⟨hderived _ hsigns rfl, hderived _ hsigns rfl, hderived _ hsigns rfl,
        hderived _ hsigns rfl, hclock⟩
    have hperf := (performs_setStabilityFee w _ authority _ caller parametersId accumulatorId
      definitionId masterId clock01ProgramAccountId newRate).mpr ⟨hn, ⟨rfl, rfl, rfl, rfl⟩, hsigns,
        hdne, hmne, hband.mpr hnew, params, accumulator, now, accrual, hadmin, reads, rfl, rfl⟩
    obtain ⟨depth, hdepth⟩ := Nat.exists_eq_add_of_le' hcalls
    obtain ⟨w', hw'⟩ := hmint platform.tickMath depth authority _
      (owned_frame tokenProgramId stablecoinProgramId _ _ hperf.frame (by decide) (by decide))
    exact ⟨w', (transact_eq_ok platform w w' authority _ _ rfl).mpr
      ⟨hgranted, rfl, depth + 1, _, _, hdepth, hperf, hw'⟩⟩

end

/-- In every reachable world, for a caller who read its accounts and signs: the client plans a
setter, a freeze or an unfreeze exactly if the program accepts it and neither the caller nor the
new oracle is zero, and the program rewrites just the requested parameters. A new fee is planned
and accepted likewise, but for a caller that is the clock and fees that do not fit. -/
theorem administration_agrees (platform : Platform) (hcalls : 2 ≤ platform.callDepth)
    (genesis : Genesis) (events : List Event) (authority : List AccountId)
    (hgranted : Granted authority) (caller : AccountId) (hsigns : caller ∈ authority)
    (params : ProtocolParameters)
    (hparams : storedParameters (run platform genesis.world events) = some params) :
    let w := run platform genesis.world events
    let agrees := Agrees platform w authority caller [caller]
    (∀ value newRatio, parseU128 value = .ok newRatio →
      agrees (setMinimumCollateralizationRatioPlan ⟨adminContext w caller, value⟩)
        (setterCall caller [] (.setMinimumCollateralizationRatio newRatio))
        { params with minimumCollateralizationRatio := newRatio }) ∧
    (∀ proportional integral newProportional newIntegral,
      parseI128 proportional = .ok newProportional → parseI128 integral = .ok newIntegral →
      agrees (setControllerGainsPlan ⟨adminContext w caller, proportional, integral⟩)
        (setterCall caller [] (.setControllerGains newProportional newIntegral))
        { params with
          controllerProportionalGain := newProportional, controllerIntegralGain := newIntegral }) ∧
    (∀ minimum maximum newMinimum newMaximum,
      parseU64 minimum = .ok newMinimum → parseU64 maximum = .ok newMaximum →
      agrees (setTimingParametersPlan ⟨adminContext w caller, minimum, maximum⟩)
        (setterCall caller [] (.setTimingParameters newMinimum newMaximum))
        { params with
          minimumMillisecondsBetweenRateUpdates := newMinimum
          maximumOraclePriceAgeMilliseconds := newMaximum }) ∧
    (∀ new, agrees (setAdminPlan ⟨adminContext w caller, some new⟩)
      (setterCall caller [] (.setAdmin new)) { params with adminAccountId := new }) ∧
    (∀ new, agrees (setFreezeAuthorityPlan ⟨adminContext w caller, some new⟩)
      (setterCall caller [] (.setFreezeAuthority new))
      { params with freezeAuthorityAccountId := new }) ∧
    (∀ oracle, Agrees platform w authority caller [caller, oracle]
        (setMarketPriceOraclePlan ⟨adminContext w caller, some oracle, readOf w oracle⟩)
        (setterCall caller [oracle] .setMarketPriceOracle)
        { params with marketPriceOracleId := oracle }) ∧
    (∀ request, request = ⟨some stablecoinProgramId, some caller, readOf w parametersId⟩ →
      agrees (freezePlan request) (setterCall caller [] .freeze) { params with isFrozen := true } ∧
      agrees (unfreezePlan request) (setterCall caller [] .unfreeze)
        { params with isFrozen := false }) ∧
    ∀ value newRate, parseU128 value = .ok newRate →
      (caller ≠ default ∧
        (∃ w', transact platform w authority (setStabilityFeeCall caller newRate) = .ok w') ↔
        (∃ plan, setStabilityFeePerMillisecondPlan (setStabilityFeeRequest w caller value)
          = .ok plan ∧ plan.call = setStabilityFeeCall caller newRate) ∧
        caller ≠ clock01ProgramAccountId ∧ SupplyFits w 0) := by
  have he := run_established platform genesis events
  have hc := (Token.run_conserved platform genesis events).2
  have hp := (storedParameters_eq_some _ _).mp hparams
  have hdepth : platform.callDepth ≠ 0 := by omega
  refine ⟨ratio_agrees platform hdepth _ authority hgranted caller hsigns params hp,
    gains_agree platform hdepth _ authority hgranted caller hsigns params hp,
    timing_agrees platform hdepth _ authority hgranted caller hsigns params hp,
    admin_agrees platform hdepth _ authority hgranted caller hsigns params hp,
    freezeAuthority_agrees platform hdepth _ authority hgranted caller hsigns params hp,
    oracle_agrees platform hdepth _ authority hgranted caller hsigns params hp, ?_, ?_⟩
  · rintro _ rfl
    have hfreezing := freezing_agrees platform hdepth _ authority hgranted caller hsigns params
      hp
    exact ⟨hfreezing true .freeze fun _ _ => rfl, hfreezing false .unfreeze fun _ _ => rfl⟩
  · intro value newRate hvalue
    rw [fee_transacts _ he params hparams caller platform hcalls hc authority hgranted hsigns newRate]
    simp only [feePlan_eq_ok _ he params hparams caller value newRate hvalue]
    constructor
    · rintro ⟨hcaller, hplanned, hrest⟩
      exact ⟨⟨_, ⟨⟨hcaller, hplanned⟩, rfl⟩, rfl⟩, hrest⟩
    · rintro ⟨⟨_, ⟨⟨hcaller, hplanned⟩, -⟩, -⟩, hrest⟩
      exact ⟨hcaller, hplanned, hrest⟩

/-- The admin doubles the required collateral. -/
theorem first_ratio_is_set : ∃ w', transact tablePlatform firstDebtWorld [.key 60]
      (setterCall (.key 60) [] (.setMinimumCollateralizationRatio 2000000000000000000000000000))
        = .ok w' ∧
    storedParameters w'
      = some { firstParameters with minimumCollateralizationRatio := 2000000000000000000000000000 } := by
  have hagrees := (administration_agrees tablePlatform le_rfl (clockedGenesis 0) firstDebtEvents
    [.key 60] (by unfold Granted; decide) (.key 60) (by decide) firstParameters
    (by decide +kernel)).1 (.string "2000000000000000000000000000") 2000000000000000000000000000
    (by decide +kernel)
  obtain ⟨-, w', hw'⟩ := hagrees.accepted.mp ⟨⟨stablecoinProgramId, [.key 60, parametersId],
    [true, false], .setMinimumCollateralizationRatio 2000000000000000000000000000⟩, by decide +kernel⟩
  have howned : (firstDebtWorld parametersId).programOwner = stablecoinProgramId := by decide +kernel
  refine ⟨w', hw', ?_⟩
  rw [hagrees.stored w' hw']
  refine (storedParameters_eq_some _ _).mpr ((owned_eq_some _ _ _ _).mp ?_)
  rw [← firstDebtWorld, owned_put _ _ _ _ (Or.inl howned), Function.update_self]

end LezPrograms.StablecoinClient
