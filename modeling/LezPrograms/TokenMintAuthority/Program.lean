import LezPrograms.Lee.OpenPlatform

/-! # The faucet

It checks the recipient, the token and the cooldown of the pair, records the time of
the mint, and has the token program mint the fixed amount. -/

set_option autoImplicit false

namespace LezPrograms.TokenMintAuthority
open LezPrograms.Checked LezPrograms.Lee

def verifyMintAuthorityAndGetSeed (mintAuthority : InputAccount)
    (tokenMintAuthorityProgramId : AccountId) : Outcome PdaSeed := do
  let seed := computeMintAuthorityPdaSeed
  let expectedId := AccountId.forPublicPda tokenMintAuthorityProgramId seed
  ensure (mintAuthority.accountId = expectedId)
    "Mint authority account ID does not match expected PDA derivation"
  pure seed

def verifyMintAllowanceAndGetSeed (mintAllowance : InputAccount) (recipientId definitionId
    tokenMintAuthorityProgramId : AccountId) : Outcome PdaSeed := do
  let seed := computeMintAllowancePdaSeed recipientId definitionId
  let expectedId := AccountId.forPublicPda tokenMintAuthorityProgramId seed
  ensure (mintAllowance.accountId = expectedId)
    "Mint allowance account ID does not match expected PDA derivation"
  pure seed

def readClock (clock : InputAccount) : Outcome U64 := do
  ensure (clock.accountId = clock01ProgramAccountId)
    "Clock account must be the system CLOCK_01 account"
  ensure (clock.account ≠ default) "Clock account must be initialized"
  clockTimestamp clock.account.data

def faucetAuthority (definition : Token.TokenDefinition AccountId) : Outcome AccountId :=
  match definition with
  | .fungible _ _ _ authority =>
    expect authority "Faucet token has a renounced mint authority (fixed supply)"
  | .nonFungible _ _ _ => .error "Faucet token definition must be Fungible"

/-- Topping up a holding is open to anyone; a fresh one needs the consent of its address. -/
def assertUserHolding (userHolding : InputAccount) (tokenProgramId : AccountId) : Outcome Unit :=
  if userHolding.account ≠ default then
    ensure (userHolding.account.programOwner = tokenProgramId)
      "User holding must be owned by the same Token Program as the token definition"
  else ensure userHolding.isAuthorized "A fresh user holding must be authorized by its owner"

/-- A default allowance is one that was never used, so there is nothing to throttle yet. -/
def assertCooldown (mintAllowance : InputAccount) (now : U64)
    (tokenMintAuthorityProgramId : AccountId) : Outcome Unit :=
  if mintAllowance.account ≠ default then do
    ensure (mintAllowance.account.programOwner = tokenMintAuthorityProgramId)
      "Mint allowance account is not owned by this program"
    let previous : MintAllowance ← expect (tryFrom mintAllowance.account.data)
      "Mint allowance account must decode as a MintAllowance"
    ensure (mintCooldownMs.val ≤ (Unsigned.saturatingSub now previous.lastMintMs).val)
      "FaucetMint cooldown has not elapsed"
  else pure ()

def faucetMint (recipient mintAllowance userHolding tokenDefinition mintAuthority clock :
    InputAccount) (tokenMintAuthorityProgramId : AccountId) : OpenResult := do
  ensure recipient.isAuthorized "Recipient authorization is missing"
  ensure (tokenDefinition.account ≠ default) "Faucet token definition must be initialized"
  let tokenProgramId := tokenDefinition.account.programOwner
  assertUserHolding userHolding tokenProgramId
  let definitionId := tokenDefinition.accountId
  let authoritySeed ← verifyMintAuthorityAndGetSeed mintAuthority tokenMintAuthorityProgramId
  let definition : Token.TokenDefinition AccountId ← expect (tryFrom tokenDefinition.account.data)
    "Faucet token definition must decode as a TokenDefinition"
  let authority ← faucetAuthority definition
  ensure (authority = mintAuthority.accountId)
    "Faucet token mint authority is not this program's mint-authority PDA"
  let now ← readClock clock
  let _allowanceSeed ← verifyMintAllowanceAndGetSeed mintAllowance recipient.accountId definitionId
    tokenMintAuthorityProgramId
  assertCooldown mintAllowance now tokenMintAuthorityProgramId
  let updated : MintAllowance := ⟨recipient.accountId, definitionId, now⟩
  pure ([.unchanged recipient, .new mintAllowance (.mintAllowance updated), .unchanged userHolding,
      .unchanged tokenDefinition, .unchanged mintAuthority, .unchanged clock],
    [OpenCall.new tokenProgramId [definitionId, userHolding.accountId, mintAuthority.accountId]
      (.token (.mintWithAuthority faucetMintAmount)) [authoritySeed]])

def main (self : AccountId) (accounts : List InputAccount) (instruction : Instruction) :
    OpenResult :=
  match instruction, accounts with
  | .faucetMint, [recipient, mintAllowance, userHolding, tokenDefinition, mintAuthority, clock] =>
    faucetMint recipient mintAllowance userHolding tokenDefinition mintAuthority clock self
  | _, _ => .error "wrong number of accounts"

def program (self : AccountId) (accounts : List InputAccount) (message : Message) : OpenResult :=
  match message with
  | .tokenMintAuthority instruction => main self accounts instruction
  | _ => .error "not an instruction of this program"

structure Granted (faucetId : AccountId) (w : Accounts) (authority : List AccountId)
    (r k d : AccountId) (now : U64) (w' : Accounts) (calls : List OpenCall) : Prop where
  authorized : r ∈ authority
  clock : (w clock01ProgramAccountId).data = .clock now
  cooled : w (computeMintAllowancePda faucetId r d) = default ∨
    ((w (computeMintAllowancePda faucetId r d)).programOwner = faucetId ∧ ∃ previous,
      (w (computeMintAllowancePda faucetId r d)).data = .mintAllowance previous ∧
      previous.lastMintMs.val + mintCooldownMs.val ≤ now.val)
  written : w' = put faucetId w (computeMintAllowancePda faucetId r d) (.mintAllowance ⟨r, d, now⟩)
  called : calls = [OpenCall.new (w d).programOwner [d, k, computeMintAuthorityPda faucetId]
    (.token (.mintWithAuthority faucetMintAmount)) [computeMintAuthorityPdaSeed]]

section
variable (self : AccountId) (w w' : Accounts) (authority : List AccountId) (diffs : List StateDiff)
  (calls : List OpenCall)

theorem readClock_eq_ok (clock : InputAccount) (now : U64) :
    readClock clock = .ok now ↔ clock.accountId = clock01ProgramAccountId ∧
      clock.account ≠ default ∧ clock.account.data = .clock now := by
  simp only [readClock, bind_eq_ok, ensure_eq_ok, exists_const, clockTimestamp_eq_ok]

theorem assertCooldown_eq_ok (allowance : InputAccount) (now : U64) (u : Unit) :
    assertCooldown allowance now self = .ok u ↔ allowance.account = default ∨
      (allowance.account.programOwner = self ∧ ∃ previous,
        allowance.account.data = .mintAllowance previous ∧
        mintCooldownMs.val ≤ now.val - previous.lastMintMs.val) := by
  unfold assertCooldown
  split
  · rename_i hne
    simp only [bind_eq_ok, ensure_eq_ok, exists_const, expect_eq_ok, tryFrom_mintAllowance, hne,
      false_or]
    simp only [Unsigned.saturatingSub_val]
  · rename_i he
    exact iff_of_true rfl (Or.inl (not_not.mp he))

theorem faucetMint_granted (r x k d a c : AccountId)
    (h : faucetMint (view w authority r) (view w authority x) (view w authority k)
      (view w authority d) (view w authority a) (view w authority c) self = .ok (diffs, calls))
    (ha : applyDiffs self w diffs = .ok w') :
    x = computeMintAllowancePda self r d ∧ a = computeMintAuthorityPda self ∧
      c = clock01ProgramAccountId ∧ ∃ now, Granted self w authority r k d now w' calls := by
  simp only [faucetMint, bind_eq_ok, ensure_eq_ok, exists_const, expect_eq_ok, pure_eq_ok,
    Prod.mk.injEq, verifyMintAuthorityAndGetSeed, verifyMintAllowanceAndGetSeed,
    readClock_eq_ok, assertCooldown_eq_ok] at h
  simp only [view_account, view_isAuthorized, view_accountId] at h
  obtain ⟨hr, -, _, -, _, ⟨rfl, rfl⟩, _, -, _, -, -, now, ⟨rfl, -, hclock⟩, _, ⟨rfl, -⟩, hcooled,
    rfl, rfl⟩ := h
  simp only [applyDiffs_unchanged, applyDiffs_new, applyDiffs_nil, view_accountId,
    Except.ok.injEq] at ha
  refine ⟨rfl, rfl, rfl, now, hr, hclock, hcooled.imp_right ?_, ha.2.symm, rfl⟩
  rintro ⟨howner, previous, hdata, hle⟩
  refine ⟨howner, previous, hdata, ?_⟩
  rw [mintCooldownMs_val] at hle ⊢
  omega

end

/-- What a call to the program does. -/
theorem program_turn (programs : OpenPrograms) (t : OpenTurn)
    (hp : programs t.pending.call.programId = program t.pending.call.programId)
    (h : t.Valid programs) :
    ∃ r k d now, t.pending.call.accountIds = [r,
        computeMintAllowancePda t.pending.call.programId r d, k, d,
        computeMintAuthorityPda t.pending.call.programId, clock01ProgramAccountId] ∧
      Granted t.pending.call.programId t.before t.pending.authority r k d now t.after t.calls := by
  obtain ⟨-, diffs, hh, ha⟩ := (execute_eq_ok _ _ _ _ _ _ _).mp h
  rw [hp] at hh
  generalize t.pending.call.accountIds = ids at hh ⊢
  unfold program at hh
  split at hh
  · rename_i instruction _
    cases instruction
    rcases ids with _ | ⟨r, _ | ⟨x, _ | ⟨k, _ | ⟨d, _ | ⟨a, _ | ⟨c, _ | ⟨e, ids⟩⟩⟩⟩⟩⟩⟩
    case cons.cons.cons.cons.cons.cons.nil =>
      obtain ⟨rfl, rfl, rfl, now, hgranted⟩ := faucetMint_granted _ _ _ _ _ _ r x k d a c hh ha
      exact ⟨r, k, d, now, rfl, hgranted⟩
    all_goals exact absurd hh (error_ne_ok _ _)
  · exact absurd hh (error_ne_ok _ _)

end LezPrograms.TokenMintAuthority
