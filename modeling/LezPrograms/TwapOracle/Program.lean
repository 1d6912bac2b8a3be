import LezPrograms.Lee.Platform
import LezPrograms.TwapOracle.Observations

/-! # TWAP oracle handlers

Each handler checks the derived addresses, the owner of what it only reads and
the canonical clock, and answers with one diff for each account. The program
makes no chained calls. -/

set_option autoImplicit false

namespace LezPrograms.TwapOracle
open LezPrograms.Checked LezPrograms.Lee

def createPriceObservations (priceObservations priceSource clock : InputAccount)
    (initialTick : I32) (windowDuration : U64) (oracleProgramId : AccountId) :
    Outcome (List StateDiff) := do
  ensure (priceObservations.accountId
      = computePriceObservationsPda oracleProgramId priceSource.accountId windowDuration)
    "CreatePriceObservations: price observations account ID does not match expected PDA"
  ensure (priceObservations.account = default)
    "CreatePriceObservations: price observations account must be uninitialized"
  ensure (priceSource.isAuthorized = true)
    ("CreatePriceObservations: price source account must be authorized "
      ++ "(caller must control it via a PDA)")
  ensure (clock.accountId = clock01ProgramAccountId)
    "CreatePriceObservations: clock account must be the canonical 1-block LEZ clock account"
  ensure (observationsCapacity ≤ windowDuration.val)
    ("CreatePriceObservations: window_duration must be >= OBSERVATIONS_CAPACITY so the "
      ++ "RecordTick sampling interval (window_duration / OBSERVATIONS_CAPACITY) is at least "
      ++ "one millisecond")
  let timestamp ← clockTimestamp clock.account.data
  pure [.new priceObservations
      (.priceObservations (initialObservations priceSource.accountId initialTick timestamp)),
    .unchanged priceSource, .unchanged clock]

def createOraclePriceAccount (oraclePriceAccount priceSource clock : InputAccount)
    (baseAsset quoteAsset : AccountId) (initialPrice : U128) (windowDuration : U64)
    (oracleProgramId : AccountId) : Outcome (List StateDiff) := do
  ensure (oraclePriceAccount.accountId
      = computeOraclePriceAccountPda oracleProgramId priceSource.accountId windowDuration)
    "CreateOraclePriceAccount: oracle price account ID does not match expected PDA"
  ensure (oraclePriceAccount.account = default)
    "CreateOraclePriceAccount: oracle price account must be uninitialized"
  ensure (priceSource.isAuthorized = true)
    ("CreateOraclePriceAccount: price source account must be authorized "
      ++ "(caller must control it via a PDA)")
  ensure (clock.accountId = clock01ProgramAccountId)
    "CreateOraclePriceAccount: clock account must be the canonical 1-block LEZ clock account"
  ensure (observationsCapacity ≤ windowDuration.val)
    ("CreateOraclePriceAccount: window_duration must be >= OBSERVATIONS_CAPACITY so a matching "
      ++ "PriceObservations account can exist and PublishPrice can update this price account")
  let timestamp ← clockTimestamp clock.account.data
  ensure (initialPrice.val ≠ 0) "CreateOraclePriceAccount: initial price must be non-zero"
  ensure (timestamp.val ≠ 0) "CreateOraclePriceAccount: clock timestamp must be non-zero"
  pure [.new oraclePriceAccount (.oraclePrice
      { baseAsset := baseAsset
        quoteAsset := quoteAsset
        price := initialPrice
        timestamp := timestamp
        sourceId := priceSource.accountId
        confidenceInterval := Unsigned.zero 128 }),
    .unchanged priceSource, .unchanged clock]

def createCurrentTickAccount (tickMath : TickMath)
    (currentTickAccount priceSource clock : InputAccount) (initialPrice : U128)
    (oracleProgramId : AccountId) : Outcome (List StateDiff) := do
  ensure (currentTickAccount.accountId
      = computeCurrentTickAccountPda oracleProgramId priceSource.accountId)
    "CreateCurrentTickAccount: current tick account ID does not match expected PDA"
  ensure (currentTickAccount.account = default)
    "CreateCurrentTickAccount: current tick account must be uninitialized"
  ensure (priceSource.isAuthorized = true)
    "CreateCurrentTickAccount: price source account must be authorized"
  ensure (clock.accountId = clock01ProgramAccountId)
    "CreateCurrentTickAccount: clock account must be the canonical 1-block LEZ clock account"
  let timestamp ← clockTimestamp clock.account.data
  let tick ← priceToTick tickMath initialPrice
  pure [.new currentTickAccount (.currentTick ⟨tick, timestamp⟩), .unchanged priceSource,
    .unchanged clock]

def updateCurrentTick (tickMath : TickMath) (currentTickAccount priceSource clock : InputAccount)
    (price : U128) (oracleProgramId : AccountId) : Outcome (List StateDiff) := do
  ensure (currentTickAccount.accountId
      = computeCurrentTickAccountPda oracleProgramId priceSource.accountId)
    "UpdateCurrentTick: current tick account ID does not match expected PDA"
  ensure (priceSource.isAuthorized = true)
    "UpdateCurrentTick: price source account must be authorized"
  ensure (clock.accountId = clock01ProgramAccountId)
    "UpdateCurrentTick: clock account must be the canonical 1-block LEZ clock account"
  let stored : CurrentTickAccount ← expect (tryFrom currentTickAccount.account.data)
    "UpdateCurrentTick: current tick account must be initialized"
  let timestamp ← clockTimestamp clock.account.data
  let tick ← priceToTick tickMath price
  let stored := { stored with tick := tick, lastUpdated := timestamp }
  pure [.new currentTickAccount (.currentTick stored), .unchanged priceSource, .unchanged clock]

def publishPrice (tickMath : TickMath)
    (priceObservations oraclePriceAccount currentTickAccount clock : InputAccount)
    (priceSourceId : AccountId) (windowDuration : U64) (oracleProgramId : AccountId) :
    Outcome (List StateDiff) := do
  ensure (priceObservations.accountId
      = computePriceObservationsPda oracleProgramId priceSourceId windowDuration)
    "PublishPrice: price observations account ID does not match expected PDA"
  ensure (oraclePriceAccount.accountId
      = computeOraclePriceAccountPda oracleProgramId priceSourceId windowDuration)
    "PublishPrice: oracle price account ID does not match expected PDA"
  ensure (currentTickAccount.accountId = computeCurrentTickAccountPda oracleProgramId priceSourceId)
    "PublishPrice: current tick account ID does not match expected PDA"
  ensure (priceObservations.account.programOwner = oracleProgramId)
    "PublishPrice: price observations account must be owned by the oracle program"
  ensure (currentTickAccount.account.programOwner = oracleProgramId)
    "PublishPrice: current tick account must be owned by the oracle program"
  ensure (clock.accountId = clock01ProgramAccountId)
    "PublishPrice: clock account must be the canonical 1-block LEZ clock account"
  let now ← clockTimestamp clock.account.data
  let observations : PriceObservations ← expect (tryFrom priceObservations.account.data)
    "PublishPrice: price observations account must be initialized"
  let priceAccount : OraclePriceAccount ← expect (tryFrom oraclePriceAccount.account.data)
    "PublishPrice: oracle price account must be initialized"
  let current : CurrentTickAccount ← expect (tryFrom currentTickAccount.account.data)
    "PublishPrice: current tick account must be initialized"
  if observations.totalEntries.val < 2 then
    pure [.unchanged priceObservations, .unchanged oraclePriceAccount,
      .unchanged currentTickAccount, .unchanged clock]
  else do
    let tick ← twapTick observations current now windowDuration
    let price ← tickToOraclePrice tickMath tick
    pure [.unchanged priceObservations,
      .new oraclePriceAccount (.oraclePrice { priceAccount with price := price, timestamp := now }),
      .unchanged currentTickAccount, .unchanged clock]

def recordTick (priceObservations currentTickAccount clock : InputAccount)
    (priceSourceId : AccountId) (windowDuration : U64) (oracleProgramId : AccountId) :
    Outcome (List StateDiff) := do
  ensure (currentTickAccount.accountId = computeCurrentTickAccountPda oracleProgramId priceSourceId)
    "RecordTick: current tick account ID does not match expected PDA"
  ensure (priceObservations.accountId
      = computePriceObservationsPda oracleProgramId priceSourceId windowDuration)
    "RecordTick: price observations account ID does not match expected PDA"
  ensure (currentTickAccount.account.programOwner = oracleProgramId)
    "RecordTick: current tick account must be owned by the oracle program"
  ensure (clock.accountId = clock01ProgramAccountId)
    "RecordTick: clock account must be the canonical 1-block LEZ clock account"
  let now ← clockTimestamp clock.account.data
  let current : CurrentTickAccount ← expect (tryFrom currentTickAccount.account.data)
    "RecordTick: current tick account must be initialized"
  let observations : PriceObservations ← expect (tryFrom priceObservations.account.data)
    "RecordTick: price observations account must be initialized"
  let recorded ← recordObservation observations current.tick now windowDuration
  match recorded with
  | none =>
    pure [.unchanged priceObservations, .unchanged currentTickAccount, .unchanged clock]
  | some observations =>
    pure [.new priceObservations (.priceObservations observations),
      .unchanged currentTickAccount, .unchanged clock]

def main (tickMath : TickMath) (self : AccountId) (accounts : List InputAccount)
    (instruction : Instruction) : Outcome (List StateDiff) :=
  match instruction, accounts with
  | .createPriceObservations initialTick windowDuration, [priceObservations, priceSource, clock] =>
    createPriceObservations priceObservations priceSource clock initialTick windowDuration self
  | .createOraclePriceAccount baseAsset quoteAsset initialPrice windowDuration,
      [oraclePriceAccount, priceSource, clock] =>
    createOraclePriceAccount oraclePriceAccount priceSource clock baseAsset quoteAsset initialPrice
      windowDuration self
  | .createCurrentTickAccount initialPrice, [currentTickAccount, priceSource, clock] =>
    createCurrentTickAccount tickMath currentTickAccount priceSource clock initialPrice self
  | .updateCurrentTick price, [currentTickAccount, priceSource, clock] =>
    updateCurrentTick tickMath currentTickAccount priceSource clock price self
  | .publishPrice priceSourceId windowDuration,
      [priceObservations, oraclePriceAccount, currentTickAccount, clock] =>
    publishPrice tickMath priceObservations oraclePriceAccount currentTickAccount clock
      priceSourceId windowDuration self
  | .recordTick priceSourceId windowDuration, [priceObservations, currentTickAccount, clock] =>
    recordTick priceObservations currentTickAccount clock priceSourceId windowDuration self
  | _, _ => .error "wrong number of accounts"

end LezPrograms.TwapOracle
