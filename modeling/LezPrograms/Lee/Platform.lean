import LezPrograms.Amm.Core
import LezPrograms.Stablecoin.State
import LezPrograms.Token.Core
import LezPrograms.TokenMintAuthority.Core
import LezPrograms.TwapOracle.Core

/-! # Data and instructions of the platform

Account data is a tagged value of one of the stored types; decoding succeeds
only on a value of the type asked for. `foreign` stands for the data of every
program that is not modelled. -/

set_option autoImplicit false

namespace LezPrograms.Lee
open LezPrograms.Checked

inductive Data where
  | empty
  | tokenDefinition (value : Token.TokenDefinition AccountId)
  | tokenHolding (value : Token.TokenHolding AccountId)
  | tokenMetadata (value : Token.TokenMetadata AccountId)
  | currentTick (value : TwapOracle.CurrentTickAccount)
  | oraclePrice (value : TwapOracle.OraclePriceAccount)
  | priceObservations (value : TwapOracle.PriceObservations)
  | ammConfig (value : Amm.AmmConfig)
  | poolDefinition (value : Amm.PoolDefinition)
  | protocolParameters (value : Stablecoin.ProtocolParameters)
  | stabilityFeeAccumulator (value : Stablecoin.StabilityFeeAccumulator)
  | redemptionPriceState (value : Stablecoin.RedemptionPriceState)
  | position (value : Stablecoin.Position)
  | mintAllowance (value : TokenMintAuthority.MintAllowance)
  | clock (timestamp : U64)
  | foreign (n : ℕ)
deriving DecidableEq

instance : Inhabited Data := ⟨.empty⟩

inductive Instruction where
  | token (instruction : Token.Instruction AccountId)
  | twapOracle (instruction : TwapOracle.Instruction)
  | amm (instruction : Amm.Instruction)
  | stablecoin (instruction : Stablecoin.Instruction)
deriving DecidableEq

structure ChainedCall where
  programId : AccountId
  accountIds : List AccountId
  instruction : Instruction
  pdaSeeds : List PdaSeed
deriving DecidableEq

def ChainedCall.new (programId : AccountId) (accountIds : List AccountId)
    (instruction : Instruction) : ChainedCall := ⟨programId, accountIds, instruction, []⟩

def ChainedCall.withPdaSeeds (call : ChainedCall) (seeds : List PdaSeed) : ChainedCall :=
  { call with pdaSeeds := seeds }

abbrev Accounts := World AccountId Data

abbrev InputAccount := AccountWithMetadata AccountId Data

abbrev StateDiff := AccountStateDiff AccountId Data

abbrev HandlerResult := Outcome (List StateDiff × List ChainedCall)

def Holds (program : AccountId) (account : Account AccountId Data) (data : Data) : Prop :=
  account.programOwner = program ∧ account.data = data

instance : AccountType Data (Token.TokenDefinition AccountId) where
  data := .tokenDefinition
  tryFrom | .tokenDefinition v => some v | _ => none
  tryFrom_data _ := rfl

instance : AccountType Data (Token.TokenHolding AccountId) where
  data := .tokenHolding
  tryFrom | .tokenHolding v => some v | _ => none
  tryFrom_data _ := rfl

instance : AccountType Data (Token.TokenMetadata AccountId) where
  data := .tokenMetadata
  tryFrom | .tokenMetadata v => some v | _ => none
  tryFrom_data _ := rfl

instance : AccountType Data TwapOracle.CurrentTickAccount where
  data := .currentTick
  tryFrom | .currentTick v => some v | _ => none
  tryFrom_data _ := rfl

instance : AccountType Data TwapOracle.OraclePriceAccount where
  data := .oraclePrice
  tryFrom | .oraclePrice v => some v | _ => none
  tryFrom_data _ := rfl

instance : AccountType Data TwapOracle.PriceObservations where
  data := .priceObservations
  tryFrom | .priceObservations v => some v | _ => none
  tryFrom_data _ := rfl

instance : AccountType Data Amm.AmmConfig where
  data := .ammConfig
  tryFrom | .ammConfig v => some v | _ => none
  tryFrom_data _ := rfl

instance : AccountType Data Amm.PoolDefinition where
  data := .poolDefinition
  tryFrom | .poolDefinition v => some v | _ => none
  tryFrom_data _ := rfl

instance : AccountType Data Stablecoin.ProtocolParameters where
  data := .protocolParameters
  tryFrom | .protocolParameters v => some v | _ => none
  tryFrom_data _ := rfl

instance : AccountType Data Stablecoin.StabilityFeeAccumulator where
  data := .stabilityFeeAccumulator
  tryFrom | .stabilityFeeAccumulator v => some v | _ => none
  tryFrom_data _ := rfl

instance : AccountType Data Stablecoin.RedemptionPriceState where
  data := .redemptionPriceState
  tryFrom | .redemptionPriceState v => some v | _ => none
  tryFrom_data _ := rfl

instance : AccountType Data Stablecoin.Position where
  data := .position
  tryFrom | .position v => some v | _ => none
  tryFrom_data _ := rfl

instance : AccountType Data TokenMintAuthority.MintAllowance where
  data := .mintAllowance
  tryFrom | .mintAllowance v => some v | _ => none
  tryFrom_data _ := rfl

theorem tryFrom_definition (d : Data) (v : Token.TokenDefinition AccountId) :
    tryFrom d = some v ↔ d = .tokenDefinition v := by
  cases d <;> simp [tryFrom]

theorem tryFrom_holding (d : Data) (v : Token.TokenHolding AccountId) :
    tryFrom d = some v ↔ d = .tokenHolding v := by
  cases d <;> simp [tryFrom]

theorem tryFrom_currentTick (d : Data) (v : TwapOracle.CurrentTickAccount) :
    tryFrom d = some v ↔ d = .currentTick v := by
  cases d <;> simp [tryFrom]

theorem tryFrom_oraclePrice (d : Data) (v : TwapOracle.OraclePriceAccount) :
    tryFrom d = some v ↔ d = .oraclePrice v := by
  cases d <;> simp [tryFrom]

theorem tryFrom_priceObservations (d : Data) (v : TwapOracle.PriceObservations) :
    tryFrom d = some v ↔ d = .priceObservations v := by
  cases d <;> simp [tryFrom]

theorem tryFrom_ammConfig (d : Data) (v : Amm.AmmConfig) :
    tryFrom d = some v ↔ d = .ammConfig v := by
  cases d <;> simp [tryFrom]

theorem tryFrom_poolDefinition (d : Data) (v : Amm.PoolDefinition) :
    tryFrom d = some v ↔ d = .poolDefinition v := by
  cases d <;> simp [tryFrom]

theorem tryFrom_parameters (d : Data) (v : Stablecoin.ProtocolParameters) :
    tryFrom d = some v ↔ d = .protocolParameters v := by
  cases d <;> simp [tryFrom]

theorem tryFrom_accumulator (d : Data) (v : Stablecoin.StabilityFeeAccumulator) :
    tryFrom d = some v ↔ d = .stabilityFeeAccumulator v := by
  cases d <;> simp [tryFrom]

theorem tryFrom_redemption (d : Data) (v : Stablecoin.RedemptionPriceState) :
    tryFrom d = some v ↔ d = .redemptionPriceState v := by
  cases d <;> simp [tryFrom]

theorem tryFrom_position (d : Data) (v : Stablecoin.Position) :
    tryFrom d = some v ↔ d = .position v := by
  cases d <;> simp [tryFrom]

theorem tryFrom_mintAllowance (d : Data) (v : TokenMintAuthority.MintAllowance) :
    tryFrom d = some v ↔ d = .mintAllowance v := by
  cases d <;> simp [tryFrom]

def tokenProgramId : AccountId := .key 1
def ammProgramId : AccountId := .key 2
def stablecoinProgramId : AccountId := .key 3
def twapOracleProgramId : AccountId := .key 4

def clock01ProgramAccountId : AccountId := .key 5

/-- `ClockAccountData::from_bytes(..).timestamp` -/
def clockTimestamp (data : Data) : Outcome U64 :=
  match data with
  | .clock timestamp => pure timestamp
  | _ => .error "clock account must hold clock data"

theorem clockTimestamp_eq_ok (d : Data) (t : U64) : clockTimestamp d = .ok t ↔ d = .clock t := by
  cases d <;> simp [clockTimestamp, pure_eq_ok]

end LezPrograms.Lee
