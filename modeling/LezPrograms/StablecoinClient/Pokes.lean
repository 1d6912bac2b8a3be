import LezPrograms.StablecoinClient.Execution

/-! # Quotes and plans for the pokes

A caller asks the client whether an update of the redemption rate can be submitted.
The quote repeats the checks and the controller of the program on the accounts that
were read. The other pokes are planned without a quote. -/

set_option autoImplicit false

namespace LezPrograms.StablecoinClient
open LezPrograms.Checked LezPrograms.Checked.Unsigned LezPrograms.Lee LezPrograms.Stablecoin
open LezPrograms.Stablecoin.Math LezPrograms.Stablecoin.Controller
open LezPrograms.AmmClient (AccountRead decodeAccount readOf)
open LezPrograms.TwapOracle (OraclePriceAccount)

structure RedemptionRateUpdateQuoteRequest where
  stablecoinProgramId : Option AccountId
  protocolParameters : AccountRead
  redemptionPriceState : AccountRead
  marketPriceOracle : AccountRead
  clock : AccountRead

/-- Why an update cannot be submitted, with the details that are reported. -/
inductive Blocker where
  | oracleUnavailable
  | oracleStale (oracleAgeMilliseconds maximumOraclePriceAgeMilliseconds : U64)
  | oraclePriceZero
  | rateUpdateTooSoon (elapsedMilliseconds minimumMillisecondsBetweenRateUpdates : U64)
deriving DecidableEq

def Blocker.code : Blocker → String
  | .oracleUnavailable => "oracle_unavailable"
  | .oracleStale .. => "oracle_stale"
  | .oraclePriceZero => "oracle_price_zero"
  | .rateUpdateTooSoon .. => "rate_update_too_soon"

structure ClampMetadata where
  integralMinimum : I128
  integralMaximum : I128
  rateDeltaMinimum : I128
  rateDeltaMaximum : I128
deriving DecidableEq

def clampMetadata : ClampMetadata :=
  ⟨integralMagnitude.negate, integralClamp, rateDeltaMagnitude.negate, rateDeltaClamp⟩

structure RedemptionRateUpdateQuote where
  canSubmit : Bool
  code : String
  currentRedemptionPrice : U128
  marketPrice : Option U128
  elapsedMilliseconds : U64
  nextRedemptionRatePerMillisecond : Option U128
  nextControllerIntegralTerm : Option I128
  clampMetadata : ClampMetadata
  errors : List Blocker
deriving DecidableEq

def usableMarketPriceOracle (read : AccountRead) (parameters : ProtocolParameters) :
    Outcome (Option OraclePriceAccount) := do
  let (accountId, account) ← requiredAccount read
  ensure (accountId = parameters.marketPriceOracleId) "market_price_oracle_mismatch"
  if account = default then pure none
  else
    let oracle : Option OraclePriceAccount := tryFrom account.data
    pure (oracle.filter fun oracle => oracle.baseAsset = parameters.stablecoinDefinitionId ∧
      oracle.quoteAsset = parameters.collateralDefinitionId)

def oracleBlockers (parameters : ProtocolParameters) (oracle : Option OraclePriceAccount)
    (now : U64) : List Blocker :=
  match oracle with
  | none => [.oracleUnavailable]
  | some oracle =>
    let oracleAgeMilliseconds := now.saturatingSub oracle.timestamp
    (if oracleAgeMilliseconds.val > parameters.maximumOraclePriceAgeMilliseconds.val then
      [.oracleStale oracleAgeMilliseconds parameters.maximumOraclePriceAgeMilliseconds] else [])
      ++ if oracle.price.val = 0 then [.oraclePriceZero] else []

def intervalBlockers (parameters : ProtocolParameters) (elapsedMilliseconds : U64) : List Blocker :=
  if elapsedMilliseconds.val < parameters.minimumMillisecondsBetweenRateUpdates.val then
    [.rateUpdateTooSoon elapsedMilliseconds parameters.minimumMillisecondsBetweenRateUpdates]
  else []

def redemptionRateUpdateQuote (request : RedemptionRateUpdateQuoteRequest) :
    Outcome RedemptionRateUpdateQuote := do
  let programId ← parseStablecoinProgramId request.stablecoinProgramId
  let (_, parameters) ← validatedProtocolParameters programId request.protocolParameters
  let (_, redemption) ← validatedRedemptionPriceState programId request.redemptionPriceState
  let oracle ← usableMarketPriceOracle request.marketPriceOracle parameters
  let now ← clockTimestamp request.clock
  let elapsedMilliseconds := now.saturatingSub redemption.lastUpdatedAt
  let currentRedemptionPrice := boundRedemptionPrice (computeCurrentRedemptionPriceWide
    redemption.redemptionPriceAtLastUpdate redemption.redemptionRatePerMillisecond
    redemption.lastUpdatedAt now)
  let errors := oracleBlockers parameters oracle now ++ intervalBlockers parameters elapsedMilliseconds
  let canSubmit := errors.isEmpty
  let next : Option ControllerOutput ← (match canSubmit, oracle with
    | true, some oracle => do
      let output ← runControllerTick currentRedemptionPrice (oraclePriceToFixedPoint oracle.price)
        redemption.controllerIntegralTerm parameters.controllerProportionalGain
        parameters.controllerIntegralGain elapsedMilliseconds
      pure (some output)
    | _, _ => pure none)
  pure {
    canSubmit := canSubmit
    code := if canSubmit then "ready" else "blocked"
    currentRedemptionPrice := currentRedemptionPrice
    marketPrice := oracle.map fun oracle => oraclePriceToFixedPoint oracle.price
    elapsedMilliseconds := elapsedMilliseconds
    nextRedemptionRatePerMillisecond := next.map (·.redemptionRatePerMillisecond)
    nextControllerIntegralTerm := next.map (·.controllerIntegralTerm)
    clampMetadata := clampMetadata
    errors := errors }

structure AccrueStabilityFeePlanRequest where
  stablecoinProgramId : Option AccountId
  callerId : Option AccountId
  protocolParameters : AccountRead
  stabilityFeeAccumulator : AccountRead
  clock : AccountRead

structure UpdateRedemptionRatePlanRequest where
  stablecoinProgramId : Option AccountId
  callerId : Option AccountId
  protocolParameters : AccountRead
  redemptionPriceState : AccountRead
  marketPriceOracle : AccountRead
  clock : AccountRead

structure RefreshGlobalsPlanRequest where
  stablecoinProgramId : Option AccountId
  callerId : Option AccountId
  protocolParameters : AccountRead
  stabilityFeeAccumulator : AccountRead
  redemptionPriceState : AccountRead
  marketPriceOracle : AccountRead
  clock : AccountRead

def accrueStabilityFeePlan (request : AccrueStabilityFeePlanRequest) : Outcome Plan := do
  let programId ← parseStablecoinProgramId request.stablecoinProgramId
  let caller ← parseAccountId request.callerId
  let (_, parameters) ← validatedProtocolParameters programId request.protocolParameters
  let _ ← validatedStabilityFeeAccumulator programId request.stabilityFeeAccumulator
  let _ ← clockTimestamp request.clock
  pure ⟨programId, [caller, computeProtocolParametersPda programId,
    computeStabilityFeeAccumulatorPda programId, parameters.stablecoinDefinitionId,
    computeStablecoinMasterHoldingPda programId, clock01ProgramAccountId],
    [true, false, false, false, false, false], .accrueStabilityFee⟩

def requireReadyQuote (quote : RedemptionRateUpdateQuote) : Outcome Unit :=
  if quote.canSubmit then pure ()
  else
    match quote.errors with
    | blocker :: _ => .error blocker.code
    | [] => .error "backend_error"

def updateRedemptionRatePlan (request : UpdateRedemptionRatePlanRequest) : Outcome Plan := do
  let programId ← parseStablecoinProgramId request.stablecoinProgramId
  let caller ← parseAccountId request.callerId
  let (_, parameters) ← validatedProtocolParameters programId request.protocolParameters
  let quote ← redemptionRateUpdateQuote ⟨request.stablecoinProgramId, request.protocolParameters,
    request.redemptionPriceState, request.marketPriceOracle, request.clock⟩
  requireReadyQuote quote
  pure ⟨programId, [caller, computeProtocolParametersPda programId,
    computeRedemptionPriceStatePda programId, parameters.marketPriceOracleId,
    clock01ProgramAccountId], [true, false, false, false, false], .updateRedemptionRate⟩

def refreshGlobalsPlan (request : RefreshGlobalsPlanRequest) : Outcome Plan := do
  let programId ← parseStablecoinProgramId request.stablecoinProgramId
  let caller ← parseAccountId request.callerId
  let (_, parameters) ← validatedProtocolParameters programId request.protocolParameters
  let _ ← validatedStabilityFeeAccumulator programId request.stabilityFeeAccumulator
  let _ ← validatedRedemptionPriceState programId request.redemptionPriceState
  let _ ← usableMarketPriceOracle request.marketPriceOracle parameters
  let _ ← clockTimestamp request.clock
  pure ⟨programId, [caller, computeProtocolParametersPda programId,
    computeStabilityFeeAccumulatorPda programId, parameters.stablecoinDefinitionId,
    computeStablecoinMasterHoldingPda programId, computeRedemptionPriceStatePda programId,
    parameters.marketPriceOracleId, clock01ProgramAccountId],
    [true, false, false, false, false, false, false, false], .refreshGlobals⟩

theorem blockers_eq_nil (parameters : ProtocolParameters) (redemption : RedemptionPriceState)
    (reading : Option OraclePriceAccount) (now : U64) :
    oracleBlockers parameters reading now
        ++ intervalBlockers parameters (now.saturatingSub redemption.lastUpdatedAt) = [] ↔
      ∃ oracle, reading = some oracle ∧
        (now.saturatingSub oracle.timestamp).val ≤ parameters.maximumOraclePriceAgeMilliseconds.val ∧
        0 < oracle.price.val ∧ parameters.minimumMillisecondsBetweenRateUpdates.val
          ≤ (now.saturatingSub redemption.lastUpdatedAt).val := by
  rw [List.append_eq_nil_iff, intervalBlockers, ite_eq_right_iff]
  cases reading with
  | none => simp [oracleBlockers]
  | some oracle =>
    simp only [oracleBlockers, List.append_eq_nil_iff, ite_eq_right_iff, imp_false,
      not_lt, Option.some.injEq, exists_eq_left', gt_iff_lt, Nat.pos_iff_ne_zero, List.cons_ne_nil,
      and_assoc, ne_eq]

/-- The oracle reading of the client is that of the program. -/
theorem usableMarketPriceOracle_eq_ok (w : Accounts) (read : AccountRead)
    (parameters : ProtocolParameters) (reading : Option OraclePriceAccount)
    (hread : requiredAccount read
      = .ok (parameters.marketPriceOracleId, w parameters.marketPriceOracleId)) :
    usableMarketPriceOracle read parameters = .ok reading ↔
      readOracle (view w [] parameters.marketPriceOracleId) parameters = .ok reading := by
  simp only [usableMarketPriceOracle, readOracle, hread, ok_bind, view_accountId, view_account,
    ensure_pos _ _ trivial]
  exact Iff.rfl

theorem usableMarketPriceOracle_read (w : Accounts) (read : AccountRead) (ht : Truthful w read)
    (parameters : ProtocolParameters) (reading : Option OraclePriceAccount)
    (h : usableMarketPriceOracle read parameters = .ok reading) :
    requiredAccount read = .ok (parameters.marketPriceOracleId, w parameters.marketPriceOracleId) := by
  simp only [usableMarketPriceOracle, bind_eq_ok, Prod.exists, ensure_eq_ok, exists_const] at h
  obtain ⟨id, account, hread, rfl, -⟩ := h
  rw [hread, ht.required w read _ account hread]

theorem advanceRedemptionPrice_eq_ok (parameters : ProtocolParameters)
    (redemption redemption' : RedemptionPriceState) (price : U128) (now : U64) :
    advanceRedemptionPrice parameters redemption price now = .ok redemption' ↔
      ∃ output, runControllerTick (boundRedemptionPrice (computeCurrentRedemptionPriceWide
          redemption.redemptionPriceAtLastUpdate redemption.redemptionRatePerMillisecond
          redemption.lastUpdatedAt now)) (oraclePriceToFixedPoint price)
          redemption.controllerIntegralTerm parameters.controllerProportionalGain
          parameters.controllerIntegralGain (now.saturatingSub redemption.lastUpdatedAt)
            = .ok output ∧
        redemption' = ⟨boundRedemptionPrice (computeCurrentRedemptionPriceWide
          redemption.redemptionPriceAtLastUpdate redemption.redemptionRatePerMillisecond
          redemption.lastUpdatedAt now), output.redemptionRatePerMillisecond,
          output.controllerIntegralTerm, now⟩ := by
  simp only [advanceRedemptionPrice, bind_eq_ok, pure_eq_ok]
  exact exists_congr fun _ => and_congr_right fun _ => eq_comm

structure RedemptionRateUpdateQuote.Announces (quote : RedemptionRateUpdateQuote)
    (redemption' : RedemptionPriceState) : Prop where
  ready : quote.canSubmit = true
  price : quote.currentRedemptionPrice = redemption'.redemptionPriceAtLastUpdate
  rate : quote.nextRedemptionRatePerMillisecond = some redemption'.redemptionRatePerMillisecond
  integral : quote.nextControllerIntegralTerm = some redemption'.controllerIntegralTerm

/-- The client announces what the program would store. -/
theorem announces_iff (request : RedemptionRateUpdateQuoteRequest) (parameters : ProtocolParameters)
    (redemption : RedemptionPriceState)
    (reading : Option OraclePriceAccount) (now : U64) (p r : AccountId)
    (hparameters : validatedProtocolParameters stablecoinProgramId request.protocolParameters
      = .ok (p, parameters))
    (hredemption : validatedRedemptionPriceState stablecoinProgramId request.redemptionPriceState
      = .ok (r, redemption))
    (horacle : usableMarketPriceOracle request.marketPriceOracle parameters = .ok reading)
    (hnow : clockTimestamp request.clock = .ok now) (redemption' : RedemptionPriceState)
    (hprogram : request.stablecoinProgramId = some stablecoinProgramId) :
    (∃ quote, redemptionRateUpdateQuote request = .ok quote ∧ quote.Announces redemption' ∧
        redemption'.lastUpdatedAt = now) ↔
      ∃ oracle, reading = some oracle ∧
        (now.saturatingSub oracle.timestamp).val ≤ parameters.maximumOraclePriceAgeMilliseconds.val ∧
        0 < oracle.price.val ∧ parameters.minimumMillisecondsBetweenRateUpdates.val
          ≤ (now.saturatingSub redemption.lastUpdatedAt).val ∧
        advanceRedemptionPrice parameters redemption oracle.price now = .ok redemption' := by
  have hid : parseStablecoinProgramId (some stablecoinProgramId) = .ok stablecoinProgramId := rfl
  simp only [redemptionRateUpdateQuote, hprogram, hid, hparameters, hredemption, horacle, hnow,
    ok_bind]
  generalize hblockers : oracleBlockers parameters reading now
    ++ intervalBlockers parameters (now.saturatingSub redemption.lastUpdatedAt) = blockers
  cases blockers with
  | nil =>
    obtain ⟨oracle, rfl, hfresh, hpositive, hdue⟩ := (blockers_eq_nil _ _ _ _).mp hblockers
    simp only [List.isEmpty_nil, bind_eq_ok, pure_eq_ok, Option.some.injEq, exists_eq_left', hfresh,
      hpositive, hdue, true_and, advanceRedemptionPrice_eq_ok]
    constructor
    · rintro ⟨_, ⟨_, ⟨output, houtput, rfl⟩, rfl⟩, ⟨-, hprice, hrate, hintegral⟩, hlast⟩
      refine ⟨output, houtput, ?_⟩
      obtain ⟨price, rate, integral, last⟩ := redemption'
      simp only [Option.map_some, Option.some.injEq] at hprice hrate hintegral hlast
      rw [← hprice, ← hrate, ← hintegral, hlast]
    · rintro ⟨output, houtput, rfl⟩
      exact ⟨_, ⟨_, ⟨output, houtput, rfl⟩, rfl⟩, ⟨rfl, rfl, rfl, rfl⟩, rfl⟩
  | cons blocker rest =>
    have hne : ¬∃ oracle, reading = some oracle ∧ (now.saturatingSub oracle.timestamp).val
        ≤ parameters.maximumOraclePriceAgeMilliseconds.val ∧ 0 < oracle.price.val ∧
        parameters.minimumMillisecondsBetweenRateUpdates.val
          ≤ (now.saturatingSub redemption.lastUpdatedAt).val := by
      rw [← blockers_eq_nil, hblockers]
      exact List.cons_ne_nil _ _
    simp only [List.isEmpty_cons, bind_eq_ok, pure_eq_ok]
    constructor
    · rintro ⟨_, ⟨_, -, rfl⟩, ⟨hready, -⟩, -⟩
      cases hready
    · rintro ⟨oracle, hread, hfresh, hpositive, hdue, -⟩
      exact absurd ⟨oracle, hread, hfresh, hpositive, hdue⟩ hne

/-- A ready quote has read all its accounts and announces a redemption state. -/
theorem ready_announces (request : RedemptionRateUpdateQuoteRequest)
    (quote : RedemptionRateUpdateQuote)
    (hprogram : request.stablecoinProgramId = some stablecoinProgramId)
    (h : redemptionRateUpdateQuote request = .ok quote) (hready : quote.canSubmit = true) :
    ∃ p parameters r redemption reading now redemption',
      validatedProtocolParameters stablecoinProgramId request.protocolParameters
        = .ok (p, parameters) ∧
      validatedRedemptionPriceState stablecoinProgramId request.redemptionPriceState
        = .ok (r, redemption) ∧
      usableMarketPriceOracle request.marketPriceOracle parameters = .ok reading ∧
      clockTimestamp request.clock = .ok now ∧ quote.Announces redemption' ∧
      redemption'.lastUpdatedAt = now := by
  have hid : parseStablecoinProgramId (some stablecoinProgramId) = .ok stablecoinProgramId := rfl
  simp only [redemptionRateUpdateQuote, hprogram, hid, ok_bind] at h
  simp only [bind_eq_ok, pure_eq_ok, Prod.exists] at h
  obtain ⟨p, parameters, hp, r, redemption, hr, reading, hreading, now, hnow, next, hnext, rfl⟩ := h
  refine ⟨p, parameters, r, redemption, reading, now, ?_⟩
  cases hblockers : oracleBlockers parameters reading now
      ++ intervalBlockers parameters (now.saturatingSub redemption.lastUpdatedAt) with
  | nil =>
    obtain ⟨oracle, rfl, -⟩ := (blockers_eq_nil _ _ _ _).mp hblockers
    rw [hblockers] at hnext
    simp only [List.isEmpty_nil, bind_eq_ok, pure_eq_ok] at hnext
    obtain ⟨output, -, rfl⟩ := hnext
    exact ⟨⟨_, output.redemptionRatePerMillisecond, output.controllerIntegralTerm, now⟩, hp, hr,
      hreading, hnow, ⟨rfl, rfl, rfl, rfl⟩, rfl⟩
  | cons blocker rest =>
    rw [hblockers] at hready
    cases hready

end LezPrograms.StablecoinClient
