import LezPrograms.Lee.Account

/-! # Token program data

Definitions, holdings and metadata, and the effect of each instruction on the
decoded values alone. The handlers wrap these operations in account checks. -/

set_option autoImplicit false

namespace LezPrograms.Token
open LezPrograms.Checked LezPrograms.Lee

inductive TokenDefinition (Id : Type) where
  | fungible (name : String) (totalSupply : U128) (metadataId : Option Id) (authority : Option Id)
  | nonFungible (name : String) (printableSupply : U128) (metadataId : Id)
deriving DecidableEq

inductive TokenHolding (Id : Type) where
  | fungible (definitionId : Id) (balance : U128)
  | nftMaster (definitionId : Id) (printBalance : U128)
  | nftPrintedCopy (definitionId : Id) (owned : Bool)
deriving DecidableEq

inductive HoldingKind where
  | fungible
  | nftMaster
  | nftPrintedCopy
deriving DecidableEq

inductive MetadataStandard where
  | simple
  | expanded
deriving DecidableEq

structure TokenMetadata (Id : Type) where
  definitionId : Id
  standard : MetadataStandard
  uri : String
  creators : String
  primarySaleDate : U64
deriving DecidableEq

inductive NewTokenDefinition (Id : Type) where
  | fungible (name : String) (totalSupply : U128) (mintAuthority : Option Id)
  | nonFungible (name : String) (printableSupply : U128)
deriving DecidableEq

structure NewTokenMetadata where
  standard : MetadataStandard
  uri : String
  creators : String
deriving DecidableEq

inductive Instruction (Id : Type) where
  | transfer (amountToTransfer : U128)
  | newFungibleDefinition (name : String) (totalSupply : U128) (mintAuthority : Option Id)
  | newDefinitionWithMetadata (newDefinition : NewTokenDefinition Id) (metadata : NewTokenMetadata)
  | initializeAccount
  | burn (amountToBurn : U128)
  | mint (amountToMint : U128)
  | mintWithAuthority (amountToMint : U128)
  | printNft
  | setAuthority (newAuthority : Option Id)
  | setAuthorityWithAuthority (newAuthority : Option Id)
deriving DecidableEq

section
variable {Id : Type}

namespace TokenHolding

def zeroizedCloneFrom : TokenHolding Id → TokenHolding Id
  | .fungible definitionId _ => .fungible definitionId (Unsigned.zero 128)
  | .nftMaster definitionId _ => .nftMaster definitionId (Unsigned.zero 128)
  | .nftPrintedCopy definitionId _ => .nftPrintedCopy definitionId false

def zeroizedFromDefinition (definitionId : Id) : TokenDefinition Id → TokenHolding Id
  | .fungible .. => .fungible definitionId (Unsigned.zero 128)
  | .nonFungible .. => .nftPrintedCopy definitionId false

def definitionId : TokenHolding Id → Id
  | .fungible definitionId _ => definitionId
  | .nftMaster definitionId _ => definitionId
  | .nftPrintedCopy definitionId _ => definitionId

def units : TokenHolding Id → ℕ
  | .fungible _ balance => balance.val
  | .nftMaster _ printBalance => printBalance.val
  | .nftPrintedCopy _ owned => if owned then 1 else 0

def kind : TokenHolding Id → HoldingKind
  | .fungible .. => .fungible
  | .nftMaster .. => .nftMaster
  | .nftPrintedCopy .. => .nftPrintedCopy

@[simp] theorem zeroizedCloneFrom_units (h : TokenHolding Id) : h.zeroizedCloneFrom.units = 0 := by
  cases h <;> rfl

@[simp] theorem zeroizedFromDefinition_units (id : Id) (d : TokenDefinition Id) :
    (zeroizedFromDefinition id d).units = 0 := by
  cases d <;> rfl

@[simp] theorem zeroizedFromDefinition_definitionId (id : Id) (d : TokenDefinition Id) :
    (zeroizedFromDefinition id d).definitionId = id := by
  cases d <;> rfl

theorem eq_fungible_of_kind (h : TokenHolding Id) (hk : h.kind = .fungible) :
    ∃ b, h = .fungible h.definitionId b := by
  cases h with
  | fungible d b => exact ⟨b, rfl⟩
  | nftMaster d b => cases hk
  | nftPrintedCopy d o => cases hk

end TokenHolding

namespace TokenDefinition

def supply : TokenDefinition Id → ℕ
  | .fungible _ totalSupply _ _ => totalSupply.val
  | .nonFungible _ printableSupply _ => printableSupply.val

def mintAuthority : TokenDefinition Id → Option Id
  | .fungible _ _ _ authority => authority
  | .nonFungible .. => none

def isFungible : TokenDefinition Id → Prop
  | .fungible .. => True
  | .nonFungible .. => False

instance (definition : TokenDefinition Id) : Decidable definition.isFungible :=
  match definition with
  | .fungible .. => isTrue trivial
  | .nonFungible .. => isFalse id

end TokenDefinition

def moveBalance (sender recipient : TokenHolding Id) (balanceToMove : U128) :
    Outcome (TokenHolding Id × TokenHolding Id) :=
  match sender, recipient with
  | .fungible senderId senderBalance, .fungible recipientId recipientBalance => do
    let senderBalance ← expect (senderBalance.checkedSub balanceToMove) "Insufficient balance"
    let recipientBalance ← expect (recipientBalance.checkedAdd balanceToMove)
      "Recipient balance overflow"
    pure (.fungible senderId senderBalance, .fungible recipientId recipientBalance)
  | .nftMaster senderId senderPrintBalance, .nftMaster recipientId recipientPrintBalance => do
    ensure (recipientPrintBalance.val = 0) "Invalid balance in recipient account for NFT transfer"
    ensure (senderPrintBalance = balanceToMove) "Invalid balance for NFT Master transfer"
    pure (.nftMaster senderId recipientPrintBalance, .nftMaster recipientId senderPrintBalance)
  | .nftPrintedCopy senderId senderOwned, .nftPrintedCopy recipientId recipientOwned => do
    ensure (balanceToMove.val = 1) "Invalid balance for NFT Printed Copy transfer"
    ensure (senderOwned = true) "Sender does not own the NFT Printed Copy"
    ensure (recipientOwned = false) "Recipient already owns the NFT Printed Copy"
    pure (.nftPrintedCopy senderId false, .nftPrintedCopy recipientId true)
  | _, _ => .error "Mismatched token holding types for transfer"

def burnBalance (definition : TokenDefinition Id) (holding : TokenHolding Id)
    (amountToBurn : U128) : Outcome (TokenDefinition Id × TokenHolding Id) :=
  match definition, holding with
  | .fungible name totalSupply metadataId authority, .fungible definitionId balance => do
    let balance ← expect (balance.checkedSub amountToBurn) "Insufficient balance to burn"
    let totalSupply ← expect (totalSupply.checkedSub amountToBurn) "Total supply underflow"
    pure (.fungible name totalSupply metadataId authority, .fungible definitionId balance)
  | .nonFungible name printableSupply metadataId, .nftMaster definitionId printBalance => do
    let printableSupply ← expect (printableSupply.checkedSub amountToBurn)
      "Printable supply underflow"
    let printBalance ← expect (printBalance.checkedSub amountToBurn) "Insufficient balance to burn"
    pure (.nonFungible name printableSupply metadataId, .nftMaster definitionId printBalance)
  | .nonFungible name printableSupply metadataId, .nftPrintedCopy definitionId owned => do
    ensure (amountToBurn.val = 1) "Invalid balance to burn for NFT Printed Copy"
    ensure (owned = true) "Cannot burn unowned NFT Printed Copy"
    let printableSupply ← expect (printableSupply.checkedSub ⟨1, by norm_num⟩)
      "Printable supply underflow"
    pure (.nonFungible name printableSupply metadataId, .nftPrintedCopy definitionId false)
  | _, _ => .error "Mismatched Token Definition and Token Holding types"

def mintBalance (definition : TokenDefinition Id) (holding : TokenHolding Id)
    (amountToMint : U128) : Outcome (TokenDefinition Id × TokenHolding Id) :=
  match definition, holding with
  | .fungible name totalSupply metadataId authority, .fungible definitionId balance => do
    let balance ← expect (balance.checkedAdd amountToMint) "Balance overflow on minting"
    let totalSupply ← expect (totalSupply.checkedAdd amountToMint) "Total supply overflow"
    pure (.fungible name totalSupply metadataId authority, .fungible definitionId balance)
  | .nonFungible .., .nftMaster .. =>
    .error "Cannot mint additional supply for Non-Fungible Tokens"
  | .nonFungible .., .nftPrintedCopy .. =>
    .error "Cannot mint additional supply for Non-Fungible Tokens"
  | _, _ => .error "Mismatched Token Definition and Token Holding types"

open TokenHolding TokenDefinition

/-- A transfer moves units between holdings and keeps their tokens and variants. -/
theorem moveBalance_spec (s r s' r' : TokenHolding Id) (n : U128)
    (h : moveBalance s r n = .ok (s', r')) :
    (s'.definitionId = s.definitionId ∧ s'.kind = s.kind ∧ s'.units + n.val = s.units) ∧
      (r'.definitionId = r.definitionId ∧ r'.kind = r.kind ∧ r'.units = r.units + n.val) ∧
      s.kind = r.kind := by
  unfold moveBalance at h
  split at h
  · simp only [bind_eq_ok, expect_eq_ok, Unsigned.checkedSub_eq_some,
      Unsigned.checkedAdd_eq_some, pure_eq_ok, Prod.mk.injEq] at h
    obtain ⟨sb, hs, rb, hr, rfl, rfl⟩ := h
    exact ⟨⟨rfl, rfl, hs⟩, ⟨rfl, rfl, hr⟩, rfl⟩
  · simp only [bind_eq_ok, ensure_eq_ok, exists_const, pure_eq_ok, Prod.mk.injEq] at h
    obtain ⟨hz, rfl, rfl, rfl⟩ := h
    simp only [units, definitionId, kind, and_self, hz, Nat.zero_add]
  · simp only [bind_eq_ok, ensure_eq_ok, exists_const, pure_eq_ok, Prod.mk.injEq] at h
    obtain ⟨hn, rfl, rfl, rfl, rfl⟩ := h
    simp [units, definitionId, kind, hn]
  · exact absurd h (error_ne_ok _ _)

/-- A burn removes the same units from the holding and from the supply. -/
theorem burnBalance_spec (d d' : TokenDefinition Id) (h h' : TokenHolding Id) (n : U128)
    (hb : burnBalance d h n = .ok (d', h')) :
    (d'.supply + n.val = d.supply ∧ d'.mintAuthority = d.mintAuthority) ∧
      (h'.definitionId = h.definitionId ∧ h'.kind = h.kind ∧ h'.units + n.val = h.units) := by
  unfold burnBalance at hb
  split at hb
  · simp only [bind_eq_ok, expect_eq_ok, Unsigned.checkedSub_eq_some, pure_eq_ok,
      Prod.mk.injEq] at hb
    obtain ⟨b, hb, s, hs, rfl, rfl⟩ := hb
    exact ⟨⟨hs, rfl⟩, rfl, rfl, hb⟩
  · simp only [bind_eq_ok, expect_eq_ok, Unsigned.checkedSub_eq_some, pure_eq_ok,
      Prod.mk.injEq] at hb
    obtain ⟨s, hs, b, hb, rfl, rfl⟩ := hb
    exact ⟨⟨hs, rfl⟩, rfl, rfl, hb⟩
  · simp only [bind_eq_ok, ensure_eq_ok, exists_const, expect_eq_ok,
      Unsigned.checkedSub_eq_some, pure_eq_ok, Prod.mk.injEq] at hb
    obtain ⟨hn, rfl, s, hs, rfl, rfl⟩ := hb
    refine ⟨⟨by rw [hn]; exact hs, rfl⟩, rfl, rfl, by simp [units, hn]⟩
  · exact absurd hb (error_ne_ok _ _)

/-- A mint adds the same units to a fungible holding and to the supply. -/
theorem mintBalance_spec (d d' : TokenDefinition Id) (h h' : TokenHolding Id) (n : U128)
    (hm : mintBalance d h n = .ok (d', h')) :
    (d'.supply = d.supply + n.val ∧ d'.mintAuthority = d.mintAuthority) ∧
      (h'.definitionId = h.definitionId ∧ h'.kind = h.kind ∧ h'.units = h.units + n.val) := by
  unfold mintBalance at hm
  split at hm
  · simp only [bind_eq_ok, expect_eq_ok, Unsigned.checkedAdd_eq_some, pure_eq_ok,
      Prod.mk.injEq] at hm
    obtain ⟨b, hb, s, hs, rfl, rfl⟩ := hm
    exact ⟨⟨hs, rfl⟩, rfl, rfl, hb⟩
  · exact absurd hm (error_ne_ok _ _)
  · exact absurd hm (error_ne_ok _ _)
  · exact absurd hm (error_ne_ok _ _)

end

end LezPrograms.Token
