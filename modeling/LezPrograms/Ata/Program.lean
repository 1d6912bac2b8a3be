import LezPrograms.Lee.OpenPlatform

/-! # The associated token account program

It creates the account of an owner and a definition, and transfers or burns from it
when the owner has authorized the instruction. The balances move in a chained call to
the token program that the caller names. -/

set_option autoImplicit false

namespace LezPrograms.Ata
open LezPrograms.Checked LezPrograms.Lee

def verifyAtaAndGetSeed (ataAccount owner : InputAccount) (tokenProgramId definitionId
    ataProgramId : AccountId) : Outcome PdaSeed := do
  let seed := computeAtaSeed tokenProgramId owner.accountId definitionId
  let expectedId := getAssociatedTokenAccountId ataProgramId seed
  ensure (ataAccount.accountId = expectedId) "ATA account ID does not match expected derivation"
  pure seed

def createAssociatedTokenAccount (owner tokenDefinition ataAccount : InputAccount)
    (ataProgramId tokenProgramId : AccountId) : OpenResult := do
  ensure (tokenDefinition.account.programOwner = tokenProgramId)
    "Token definition must be owned by expected token program"
  let _definition : Token.TokenDefinition AccountId ← expect (tryFrom tokenDefinition.account.data)
    "Token definition must be valid"
  let seed ← verifyAtaAndGetSeed ataAccount owner tokenProgramId tokenDefinition.accountId
    ataProgramId
  if ataAccount.account ≠ default then do
    ensure (ataAccount.account.programOwner = tokenProgramId)
      "Existing ATA must be owned by expected token program"
    let holding : Token.TokenHolding AccountId ← expect (tryFrom ataAccount.account.data)
      "Existing ATA must hold a valid token"
    ensure (holding.definitionId = tokenDefinition.accountId)
      "Existing ATA token definition does not match"
    pure ([.unchanged owner, .unchanged tokenDefinition, .unchanged ataAccount], [])
  else
    pure ([.unchanged owner, .unchanged tokenDefinition, .unchanged ataAccount],
      [OpenCall.new tokenProgramId [tokenDefinition.accountId, ataAccount.accountId]
        (.token .initializeAccount) [seed]])

def transferFromAssociatedTokenAccount (owner senderAta recipient : InputAccount)
    (ataProgramId tokenProgramId : AccountId) (amount : U128) : OpenResult := do
  ensure owner.isAuthorized "Owner authorization is missing"
  ensure (senderAta.account.programOwner = tokenProgramId)
    "Sender ATA must be owned by expected token program"
  let sender : Token.TokenHolding AccountId ← expect (tryFrom senderAta.account.data)
    "Sender ATA must hold a valid token"
  let senderDefinitionId := sender.definitionId
  let senderSeed ← verifyAtaAndGetSeed senderAta owner tokenProgramId senderDefinitionId
    ataProgramId
  ensure (recipient.account ≠ default) "Recipient token holding must be initialized"
  ensure (recipient.account.programOwner = tokenProgramId)
    "Recipient must be owned by the same token program as the sender ATA"
  let holding : Token.TokenHolding AccountId ← expect (tryFrom recipient.account.data)
    "Recipient must hold a valid token"
  ensure (holding.definitionId = senderDefinitionId)
    "Recipient and sender token definitions do not match"
  pure ([.unchanged owner, .unchanged senderAta, .unchanged recipient],
    [OpenCall.new tokenProgramId [senderAta.accountId, recipient.accountId]
      (.token (.transfer amount)) [senderSeed]])

def burnFromAssociatedTokenAccount (owner holderAta tokenDefinition : InputAccount)
    (ataProgramId tokenProgramId : AccountId) (amount : U128) : OpenResult := do
  ensure owner.isAuthorized "Owner authorization is missing"
  ensure (holderAta.account.programOwner = tokenProgramId)
    "Holder ATA must be owned by expected token program"
  ensure (tokenDefinition.account.programOwner = tokenProgramId)
    "Token definition must be owned by expected token program"
  let holding : Token.TokenHolding AccountId ← expect (tryFrom holderAta.account.data)
    "Holder ATA must hold a valid token"
  let definitionId := holding.definitionId
  ensure (definitionId = tokenDefinition.accountId) "Holder ATA token definition does not match"
  let seed ← verifyAtaAndGetSeed holderAta owner tokenProgramId definitionId ataProgramId
  pure ([.unchanged owner, .unchanged holderAta, .unchanged tokenDefinition],
    [OpenCall.new tokenProgramId [tokenDefinition.accountId, holderAta.accountId]
      (.token (.burn amount)) [seed]])

def main (self : AccountId) (accounts : List InputAccount) (instruction : Instruction) :
    OpenResult :=
  match instruction, accounts with
  | .create tokenProgramId, [owner, tokenDefinition, ataAccount] =>
    createAssociatedTokenAccount owner tokenDefinition ataAccount self tokenProgramId
  | .transfer tokenProgramId amount, [owner, senderAta, recipient] =>
    transferFromAssociatedTokenAccount owner senderAta recipient self tokenProgramId amount
  | .burn tokenProgramId amount, [owner, holderAta, tokenDefinition] =>
    burnFromAssociatedTokenAccount owner holderAta tokenDefinition self tokenProgramId amount
  | _, _ => .error "wrong number of accounts"

def program (self : AccountId) (accounts : List InputAccount) (message : Message) : OpenResult :=
  match message with
  | .ata instruction => main self accounts instruction
  | _ => .error "not an instruction of this program"

/-- The only calls that the program chains, with whose authority and for which account. -/
inductive Chains (self : AccountId) (authority : List AccountId) :
    List AccountId → Instruction → OpenCall → Prop
  | create (p o d : AccountId) :
      Chains self authority [o, d, getAssociatedTokenAccountId self (computeAtaSeed p o d)]
        (.create p)
        (.new p [d, getAssociatedTokenAccountId self (computeAtaSeed p o d)]
          (.token .initializeAccount) [computeAtaSeed p o d])
  | transfer (p o d r : AccountId) (amount : U128) (authorized : o ∈ authority) :
      Chains self authority [o, getAssociatedTokenAccountId self (computeAtaSeed p o d), r]
        (.transfer p amount)
        (.new p [getAssociatedTokenAccountId self (computeAtaSeed p o d), r]
          (.token (.transfer amount)) [computeAtaSeed p o d])
  | burn (p o d : AccountId) (amount : U128) (authorized : o ∈ authority) :
      Chains self authority [o, getAssociatedTokenAccountId self (computeAtaSeed p o d), d]
        (.burn p amount)
        (.new p [d, getAssociatedTokenAccountId self (computeAtaSeed p o d)]
          (.token (.burn amount)) [computeAtaSeed p o d])

theorem verifyAtaAndGetSeed_eq_ok (ataAccount owner : InputAccount) (p d self : AccountId)
    (seed : PdaSeed) : verifyAtaAndGetSeed ataAccount owner p d self = .ok seed ↔
      ataAccount.accountId = getAssociatedTokenAccountId self (computeAtaSeed p owner.accountId d) ∧
        computeAtaSeed p owner.accountId d = seed := by
  simp only [verifyAtaAndGetSeed, bind_eq_ok, ensure_eq_ok, exists_const, pure_eq_ok]

section
variable (self : AccountId) (w : Accounts) (authority : List AccountId) (diffs : List StateDiff)
  (calls : List OpenCall)

theorem createAssociatedTokenAccount_chains (o d x p : AccountId)
    (h : createAssociatedTokenAccount (view w authority o) (view w authority d)
      (view w authority x) self p = .ok (diffs, calls)) :
    ∀ call ∈ calls, Chains self authority [o, d, x] (.create p) call := by
  simp only [createAssociatedTokenAccount, bind_eq_ok, ensure_eq_ok, exists_const, expect_eq_ok,
    verifyAtaAndGetSeed_eq_ok] at h
  simp only [view_accountId] at h
  obtain ⟨-, _, -, _, ⟨rfl, rfl⟩, h⟩ := h
  split at h
  · simp only [bind_eq_ok, ensure_eq_ok, exists_const, expect_eq_ok, pure_eq_ok,
      Prod.mk.injEq] at h
    obtain ⟨-, _, -, _, -, -, rfl⟩ := h
    exact fun call hc => absurd hc List.not_mem_nil
  · simp only [pure_eq_ok, Prod.mk.injEq] at h
    obtain ⟨-, rfl⟩ := h
    exact List.forall_mem_singleton.mpr (.create p o d)

theorem transferFromAssociatedTokenAccount_chains (o x r p : AccountId) (amount : U128)
    (h : transferFromAssociatedTokenAccount (view w authority o) (view w authority x)
      (view w authority r) self p amount = .ok (diffs, calls)) :
    ∀ call ∈ calls, Chains self authority [o, x, r] (.transfer p amount) call := by
  simp only [transferFromAssociatedTokenAccount, bind_eq_ok, ensure_eq_ok, exists_const,
    expect_eq_ok, verifyAtaAndGetSeed_eq_ok, pure_eq_ok, Prod.mk.injEq] at h
  simp only [view_accountId, view_isAuthorized] at h
  obtain ⟨ho, -, sender, -, _, ⟨rfl, rfl⟩, -, -, _, -, -, -, rfl⟩ := h
  exact List.forall_mem_singleton.mpr (.transfer p o sender.definitionId r amount ho)

theorem burnFromAssociatedTokenAccount_chains (o x d p : AccountId) (amount : U128)
    (h : burnFromAssociatedTokenAccount (view w authority o) (view w authority x)
      (view w authority d) self p amount = .ok (diffs, calls)) :
    ∀ call ∈ calls, Chains self authority [o, x, d] (.burn p amount) call := by
  simp only [burnFromAssociatedTokenAccount, bind_eq_ok, ensure_eq_ok, exists_const,
    expect_eq_ok, verifyAtaAndGetSeed_eq_ok, pure_eq_ok, Prod.mk.injEq] at h
  simp only [view_accountId, view_isAuthorized] at h
  obtain ⟨ho, -, -, holding, -, rfl, _, ⟨rfl, rfl⟩, -, rfl⟩ := h
  exact List.forall_mem_singleton.mpr (.burn p o _ amount ho)

theorem main_chains (ids : List AccountId) (instruction : Instruction)
    (h : main self (ids.map (view w authority)) instruction = .ok (diffs, calls)) :
    ∀ call ∈ calls, Chains self authority ids instruction call := by
  rcases ids with _ | ⟨i, _ | ⟨j, _ | ⟨k, _ | ⟨l, ids⟩⟩⟩⟩
  · cases instruction <;> exact absurd h (error_ne_ok _ _)
  · cases instruction <;> exact absurd h (error_ne_ok _ _)
  · cases instruction <;> exact absurd h (error_ne_ok _ _)
  · cases instruction with
    | create p => exact createAssociatedTokenAccount_chains self w authority diffs calls i j k p h
    | transfer p amount =>
      exact transferFromAssociatedTokenAccount_chains self w authority diffs calls i j k p amount h
    | burn p amount =>
      exact burnFromAssociatedTokenAccount_chains self w authority diffs calls i j k p amount h
  · cases instruction <;> exact absurd h (error_ne_ok _ _)

end

/-- What a call to the program chains. -/
theorem program_turn (programs : OpenPrograms) (t : OpenTurn)
    (hp : programs t.pending.call.programId = program t.pending.call.programId)
    (h : t.Valid programs) :
    ∃ instruction, t.pending.call.instruction = .ata instruction ∧
      ∀ call ∈ t.calls, Chains t.pending.call.programId t.pending.authority
        t.pending.call.accountIds instruction call := by
  obtain ⟨-, diffs, hh, -⟩ := (execute_eq_ok _ _ _ _ _ _ _).mp h
  rw [hp] at hh
  unfold program at hh
  split at hh
  · rename_i instruction hi
    exact ⟨instruction, hi, main_chains _ _ _ _ _ _ _ hh⟩
  · exact absurd hh (error_ne_ok _ _)

end LezPrograms.Ata
