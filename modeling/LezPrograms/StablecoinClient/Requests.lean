import LezPrograms.AmmClient.Requests
import LezPrograms.Stablecoin.Quotes
import LezPrograms.Stablecoin.Transactions

/-! # Requests to the client of the stablecoin

A plan checks accounts that were read before and answers with the instruction to
submit. Identifiers arrive decoded, if their text decodes; amounts are parsed. -/

set_option autoImplicit false

namespace LezPrograms.StablecoinClient
open LezPrograms.Checked LezPrograms.Checked.Unsigned LezPrograms.Lee LezPrograms.Stablecoin
open LezPrograms.AmmClient (AccountRead decodeAccount parse readOf)

/-- A value in a request; of a number it matters which unsigned integer it is, if any. -/
inductive Value where
  | number (asU64 : Option U64)
  | string (raw : String)
  | other

/-- `char::is_whitespace` -/
def isWhitespace (c : Char) : Bool :=
  decide (9 ≤ c.toNat ∧ c.toNat ≤ 13 ∨ 8192 ≤ c.toNat ∧ c.toNat ≤ 8202 ∨
    c.toNat ∈ [32, 133, 160, 5760, 8232, 8233, 8239, 8287, 12288])

def trim (raw : List Char) : List Char :=
  ((raw.dropWhile isWhitespace).reverse.dropWhile isWhitespace).reverse

def decimalText (value : String) : Outcome String := do
  let mark := Char.ofNat 34
  let trimmed := trim value.toList
  let unquoted := if 2 ≤ trimmed.length ∧ trimmed.head? = some mark ∧ trimmed.getLast? = some mark
    then trim trimmed.tail.dropLast else trimmed
  ensure (unquoted ≠ []) "invalid_numeric_value"
  pure (String.ofList unquoted)

def parseU128 (value : Value) : Outcome U128 :=
  match value with
  | .number asU64 => expect (asU64.map fun number => widen number (by decide))
      "invalid_numeric_value"
  | .string raw => do
    let raw ← decimalText raw
    ensure (raw.toList.all Char.isDigit) "invalid_numeric_value"
    (parse raw).mapError fun _ => "invalid_numeric_value"
  | .other => .error "invalid_numeric_value"

def parseDecimalU64 (value : String) : Outcome U64 := do
  ensure (value ≠ "" ∧ value.toList.all Char.isDigit) "invalid_numeric_value"
  (parse value).mapError fun _ => "invalid_numeric_value"

def parseId (value : Option AccountId) (error : String) : Outcome AccountId := do
  let accountId ← expect value error
  ensure (accountId ≠ default) error
  pure accountId

def parseAccountId (value : Option AccountId) : Outcome AccountId := parseId value "invalid_account_id"

def parseStablecoinProgramId (value : Option AccountId) : Outcome AccountId :=
  parseId value "invalid_program_id"

def requiredAccount (read : AccountRead) : Outcome (AccountId × Account AccountId Data) :=
  (decodeAccount read).mapError fun _ => "account_read_failed"

def validatedAccount {T : Type} [AccountType Data T] (expectedId programId : AccountId)
    (read : AccountRead) (misplaced undecodable : String) : Outcome (AccountId × T) := do
  let (accountId, account) ← requiredAccount read
  ensure (accountId = expectedId) misplaced
  ensure (account.programOwner = programId) "stablecoin_program_mismatch"
  let value : T ← expect (tryFrom account.data) undecodable
  pure (accountId, value)

def validatedProtocolParameters (programId : AccountId) (read : AccountRead) :
    Outcome (AccountId × ProtocolParameters) :=
  validatedAccount (computeProtocolParametersPda programId) programId read
    "protocol_parameters_pda_mismatch" "invalid_protocol_parameters_data"

def validatedStabilityFeeAccumulator (programId : AccountId) (read : AccountRead) :
    Outcome (AccountId × StabilityFeeAccumulator) :=
  validatedAccount (computeStabilityFeeAccumulatorPda programId) programId read
    "stability_fee_accumulator_pda_mismatch" "invalid_stability_fee_accumulator_data"

def validatedRedemptionPriceState (programId : AccountId) (read : AccountRead) :
    Outcome (AccountId × RedemptionPriceState) :=
  validatedAccount (computeRedemptionPriceStatePda programId) programId read
    "redemption_price_state_pda_mismatch" "invalid_redemption_price_state_data"

def validatedPosition (programId owner : AccountId) (nonce : U64) (read : AccountRead) :
    Outcome (AccountId × Position) := do
  let (positionId, position) ← validatedAccount (computePositionPda programId owner nonce) programId
    read "position_pda_mismatch" "invalid_position_data"
  ensure (position.ownerAccountId = owner) "position_owner_mismatch"
  ensure (position.positionNonce = nonce) "position_nonce_mismatch"
  pure (positionId, position)

def clockTimestamp (read : AccountRead) : Outcome U64 := do
  let (accountId, account) ← requiredAccount read
  ensure (accountId = clock01ProgramAccountId) "invalid_clock"
  (Lee.clockTimestamp account.data).mapError fun _ => "invalid_clock"

def holdingBalance (data : Data) (definitionId : AccountId) (mismatch invalid : String) :
    Outcome U128 := do
  let holding : Token.TokenHolding AccountId ← expect (tryFrom data) invalid
  match holding with
  | .fungible held balance => do
    ensure (held = definitionId) mismatch
    pure balance
  | .nftMaster .. => .error invalid
  | .nftPrintedCopy .. => .error invalid

structure Plan where
  programId : AccountId
  accountIds : List AccountId
  signingRequirements : List Bool
  instruction : Stablecoin.Instruction
deriving DecidableEq

def Plan.signers (plan : Plan) : List AccountId :=
  ((plan.accountIds.zip plan.signingRequirements).filter Prod.snd).map Prod.fst

def Plan.call (plan : Plan) : ChainedCall :=
  .new plan.programId plan.accountIds (.stablecoin plan.instruction)

def Truthful (w : Accounts) (read : AccountRead) : Prop :=
  ∀ account, read.account = some account → account = w read.id

theorem readOf_truthful (w : Accounts) (id : AccountId) : Truthful w (readOf w id) := by
  rintro account h
  exact (Option.some.inj h).symm

theorem parseId_eq_ok (value : Option AccountId) (error : String) (accountId : AccountId) :
    parseId value error = .ok accountId ↔ value = some accountId ∧ accountId ≠ default := by
  simp only [parseId, bind_eq_ok, expect_eq_ok, ensure_eq_ok, exists_const, pure_eq_ok]
  constructor
  · rintro ⟨_, h, hne, rfl⟩
    exact ⟨h, hne⟩
  · rintro ⟨h, hne⟩
    exact ⟨_, h, hne, rfl⟩

theorem requiredAccount_eq_ok (read : AccountRead) (accountId : AccountId)
    (account : Account AccountId Data) : requiredAccount read = .ok (accountId, account) ↔
      read.status = "ok" ∧ read.account = some account ∧ read.id = accountId := by
  simp only [requiredAccount, decodeAccount, mapError_eq_ok, bind_eq_ok, ensure_eq_ok, exists_const,
    expect_eq_ok, pure_eq_ok, Prod.mk.injEq]
  constructor
  · rintro ⟨hstatus, _, haccount, hid, rfl⟩
    exact ⟨hstatus, haccount, hid⟩
  · rintro ⟨hstatus, haccount, hid⟩
    exact ⟨hstatus, _, haccount, hid, rfl⟩

theorem holdingBalance_eq_ok (data : Data) (definitionId : AccountId) (mismatch invalid : String)
    (balance : U128) : holdingBalance data definitionId mismatch invalid = .ok balance ↔
      data = .tokenHolding (.fungible definitionId balance) := by
  simp only [holdingBalance, bind_eq_ok, expect_eq_ok, tryFrom_holding]
  constructor
  · rintro ⟨holding, rfl, h⟩
    cases holding with
    | fungible held balance =>
      simp only [bind_eq_ok, ensure_eq_ok, exists_const, pure_eq_ok] at h
      rw [h.1, h.2]
    | nftMaster => cases h
    | nftPrintedCopy => cases h
  · rintro rfl
    refine ⟨_, rfl, ?_⟩
    simp only [bind_eq_ok, ensure_eq_ok, exists_const, pure_eq_ok, and_self]

section
variable (w : Accounts) (read : AccountRead) (ht : Truthful w read)
include ht

theorem Truthful.required (accountId : AccountId) (account : Account AccountId Data)
    (h : requiredAccount read = .ok (accountId, account)) : account = w accountId := by
  obtain ⟨-, haccount, rfl⟩ := (requiredAccount_eq_ok _ _ _).mp h
  exact ht account haccount

theorem Truthful.validated {T : Type} [AccountType Data T] (expectedId programId accountId : AccountId)
    (misplaced undecodable : String) (value : T)
    (h : validatedAccount expectedId programId read misplaced undecodable = .ok (accountId, value)) :
    accountId = expectedId ∧ (w accountId).programOwner = programId ∧
      tryFrom (w accountId).data = some value := by
  simp only [validatedAccount, bind_eq_ok, Prod.exists, ensure_eq_ok, exists_const, expect_eq_ok,
    pure_eq_ok, Prod.mk.injEq] at h
  obtain ⟨id, account, hread, hid, howner, _, hvalue, rfl, rfl⟩ := h
  obtain rfl := ht.required w read id account hread
  exact ⟨hid, howner, hvalue⟩

theorem Truthful.parameters (programId accountId : AccountId) (parameters : ProtocolParameters)
    (h : validatedProtocolParameters programId read = .ok (accountId, parameters)) :
    accountId = computeProtocolParametersPda programId ∧
      Holds programId (w accountId) (.protocolParameters parameters) := by
  obtain ⟨hid, howner, hvalue⟩ := ht.validated w read _ _ _ _ _ _ h
  exact ⟨hid, howner, (tryFrom_parameters _ _).mp hvalue⟩

theorem Truthful.accumulator (programId accountId : AccountId)
    (accumulator : StabilityFeeAccumulator)
    (h : validatedStabilityFeeAccumulator programId read = .ok (accountId, accumulator)) :
    accountId = computeStabilityFeeAccumulatorPda programId ∧
      Holds programId (w accountId) (.stabilityFeeAccumulator accumulator) := by
  obtain ⟨hid, howner, hvalue⟩ := ht.validated w read _ _ _ _ _ _ h
  exact ⟨hid, howner, (tryFrom_accumulator _ _).mp hvalue⟩

theorem Truthful.redemption (programId accountId : AccountId) (redemption : RedemptionPriceState)
    (h : validatedRedemptionPriceState programId read = .ok (accountId, redemption)) :
    accountId = computeRedemptionPriceStatePda programId ∧
      Holds programId (w accountId) (.redemptionPriceState redemption) := by
  obtain ⟨hid, howner, hvalue⟩ := ht.validated w read _ _ _ _ _ _ h
  exact ⟨hid, howner, (tryFrom_redemption _ _).mp hvalue⟩

theorem Truthful.position (programId owner accountId : AccountId) (nonce : U64) (position : Position)
    (h : validatedPosition programId owner nonce read = .ok (accountId, position)) :
    accountId = computePositionPda programId owner position.positionNonce ∧
      position.ownerAccountId = owner ∧ Holds programId (w accountId) (.position position) := by
  simp only [validatedPosition, bind_eq_ok, Prod.exists, ensure_eq_ok, exists_const, pure_eq_ok,
    Prod.mk.injEq] at h
  obtain ⟨id, x, hread, howned, hnonce, rfl, rfl⟩ := h
  obtain ⟨hid, howner, hvalue⟩ := ht.validated w read _ _ _ _ _ _ hread
  exact ⟨by rw [hnonce, hid], howned, howner, (tryFrom_position _ _).mp hvalue⟩

theorem Truthful.clock (now : U64) (h : clockTimestamp read = .ok now) :
    (w clock01ProgramAccountId).data = .clock now := by
  simp only [clockTimestamp, bind_eq_ok, Prod.exists, ensure_eq_ok, exists_const, mapError_eq_ok,
    clockTimestamp_eq_ok] at h
  obtain ⟨id, account, hread, rfl, hclock⟩ := h
  rw [← ht.required w read _ account hread, hclock]

end

end LezPrograms.StablecoinClient
