import LezPrograms.Token.Core

/-! # Token program handlers

Each handler checks its accounts, decodes them, applies the operation of
`Token.Core` and answers with one diff for each account. The program makes no
chained calls. -/

set_option autoImplicit false

namespace LezPrograms.Token
open LezPrograms.Checked LezPrograms.Lee

section
variable {Id D : Type} [DecidableEq Id] [DecidableEq D] [Inhabited Id] [Inhabited D]
variable [AccountType D (TokenDefinition Id)] [AccountType D (TokenHolding Id)]
variable [AccountType D (TokenMetadata Id)]

/-- The holding stored in a credited account; a default account counts as an empty one. -/
def creditedHolding (account : Account Id D) (empty : TokenHolding Id) (message : String) :
    Outcome (TokenHolding Id) :=
  if account = default then pure empty else expect (tryFrom account.data) message

def transfer (sender recipient : AccountWithMetadata Id D) (balanceToMove : U128) :
    Outcome (List (AccountStateDiff Id D)) := do
  ensure (sender.isAuthorized = true) "Sender authorization is missing"
  let senderHolding : TokenHolding Id ← expect (tryFrom sender.account.data) "Invalid sender data"
  let recipientHolding ← creditedHolding recipient.account senderHolding.zeroizedCloneFrom
    "Invalid recipient data"
  ensure (senderHolding.definitionId = recipientHolding.definitionId)
    "Sender and recipient definition id mismatch"
  let (senderHolding, recipientHolding) ← moveBalance senderHolding recipientHolding balanceToMove
  pure [.new sender (AccountType.data senderHolding),
    .new recipient (AccountType.data recipientHolding)]

def burn (definitionAccount userHoldingAccount : AccountWithMetadata Id D) (amountToBurn : U128) :
    Outcome (List (AccountStateDiff Id D)) := do
  ensure (userHoldingAccount.isAuthorized = true) "Authorization is missing"
  let definition : TokenDefinition Id ← expect (tryFrom definitionAccount.account.data)
    "Token Definition account must be valid"
  let holding : TokenHolding Id ← expect (tryFrom userHoldingAccount.account.data)
    "Token Holding account must be valid"
  ensure (definitionAccount.accountId = holding.definitionId)
    "Mismatch Token Definition and Token Holding"
  let (definition, holding) ← burnBalance definition holding amountToBurn
  pure [.new definitionAccount (AccountType.data definition),
    .new userHoldingAccount (AccountType.data holding)]

/-- The account that proves the mint authority of a fungible definition: the external
authority when there is one, otherwise the definition account itself. -/
def requireAuthority (definition : TokenDefinition Id)
    (definitionAccount : AccountWithMetadata Id D)
    (authorityAccount : Option (AccountWithMetadata Id D)) (revoked wrong : String) :
    Outcome Unit :=
  match definition with
  | .fungible _ _ _ authority => do
    let mintAuthority ← expect authority revoked
    let authorityRef := authorityAccount.getD definitionAccount
    ensure (authorityRef.isAuthorized = true) "Mint authority must authorize the transaction"
    ensure (authorityRef.accountId = mintAuthority) wrong
  | .nonFungible .. => pure ()

def mintInner (definitionAccount userHoldingAccount : AccountWithMetadata Id D)
    (authorityAccount : Option (AccountWithMetadata Id D)) (amountToMint : U128)
    (tokenProgramId : Id) : Outcome (List (AccountStateDiff Id D)) := do
  ensure (definitionAccount.account.programOwner = tokenProgramId)
    "Token definition must be owned by token program"
  let definition : TokenDefinition Id ← expect (tryFrom definitionAccount.account.data)
    "Token Definition account must be valid"
  requireAuthority definition definitionAccount authorityAccount
    "Mint authority check failed: authority revoked, supply is fixed"
    "Mint authority check failed: signer is not the current authority"
  let holding ← creditedHolding userHoldingAccount.account
    (.zeroizedFromDefinition definitionAccount.accountId definition)
    "Token Holding account must be valid"
  ensure (definitionAccount.accountId = holding.definitionId)
    "Mismatch Token Definition and Token Holding"
  let (definition, holding) ← mintBalance definition holding amountToMint
  pure ([.new definitionAccount (AccountType.data definition),
    .new userHoldingAccount (AccountType.data holding)]
      ++ (authorityAccount.map AccountStateDiff.unchanged).toList)

def mint (definitionAccount userHoldingAccount : AccountWithMetadata Id D) (amountToMint : U128)
    (tokenProgramId : Id) : Outcome (List (AccountStateDiff Id D)) :=
  mintInner definitionAccount userHoldingAccount none amountToMint tokenProgramId

def mintWithAuthority
    (definitionAccount userHoldingAccount authorityAccount : AccountWithMetadata Id D)
    (amountToMint : U128) (tokenProgramId : Id) : Outcome (List (AccountStateDiff Id D)) :=
  mintInner definitionAccount userHoldingAccount (some authorityAccount) amountToMint tokenProgramId

def initializeAccount (definitionAccount accountToInitialize : AccountWithMetadata Id D)
    (tokenProgramId : Id) : Outcome (List (AccountStateDiff Id D)) := do
  ensure (accountToInitialize.account = default) "Only Uninitialized accounts can be initialized"
  ensure (accountToInitialize.isAuthorized = true) "Account to initialize must be authorized"
  ensure (definitionAccount.account.programOwner = tokenProgramId)
    "Token definition must be owned by token program"
  let definition : TokenDefinition Id ← expect (tryFrom definitionAccount.account.data)
    "Definition account must be valid"
  let holding := TokenHolding.zeroizedFromDefinition definitionAccount.accountId definition
  pure [.unchanged definitionAccount, .new accountToInitialize (AccountType.data holding)]

def validateMintAuthority (mintAuthority : Option Id) : Outcome (Option Id) := do
  ensure (mintAuthority ≠ some default) "Mint authority must be a valid non-zero account ID"
  pure mintAuthority

def newFungibleDefinition (definitionTargetAccount holdingTargetAccount : AccountWithMetadata Id D)
    (name : String) (totalSupply : U128) (mintAuthority : Option Id) :
    Outcome (List (AccountStateDiff Id D)) := do
  ensure (definitionTargetAccount.account = default)
    "Definition target account must have default values"
  ensure (holdingTargetAccount.account = default) "Holding target account must have default values"
  ensure (definitionTargetAccount.isAuthorized = true)
    "Definition target account must be authorized"
  ensure (holdingTargetAccount.isAuthorized = true) "Holding target account must be authorized"
  let authority ← validateMintAuthority mintAuthority
  let tokenDefinition : TokenDefinition Id := .fungible name totalSupply none authority
  let tokenHolding := TokenHolding.fungible definitionTargetAccount.accountId totalSupply
  pure [.new definitionTargetAccount (AccountType.data tokenDefinition),
    .new holdingTargetAccount (AccountType.data tokenHolding)]

def describedToken (definitionId metadataId : Id) (newDefinition : NewTokenDefinition Id) :
    Outcome (TokenDefinition Id × TokenHolding Id) :=
  match newDefinition with
  | .fungible name totalSupply mintAuthority => do
    let authority ← validateMintAuthority mintAuthority
    pure (.fungible name totalSupply (some metadataId) authority,
      .fungible definitionId totalSupply)
  | .nonFungible name printableSupply =>
    pure (.nonFungible name printableSupply metadataId, .nftMaster definitionId printableSupply)

def newDefinitionWithMetadata
    (definitionTargetAccount holdingTargetAccount metadataTargetAccount : AccountWithMetadata Id D)
    (newDefinition : NewTokenDefinition Id) (metadata : NewTokenMetadata) :
    Outcome (List (AccountStateDiff Id D)) := do
  ensure (definitionTargetAccount.account = default)
    "Definition target account must have default values"
  ensure (holdingTargetAccount.account = default) "Holding target account must have default values"
  ensure (metadataTargetAccount.account = default)
    "Metadata target account must have default values"
  ensure (definitionTargetAccount.isAuthorized = true)
    "Definition target account must be authorized"
  ensure (holdingTargetAccount.isAuthorized = true) "Holding target account must be authorized"
  ensure (metadataTargetAccount.isAuthorized = true) "Metadata target account must be authorized"
  let (tokenDefinition, tokenHolding) ← describedToken definitionTargetAccount.accountId
    metadataTargetAccount.accountId newDefinition
  let tokenMetadata : TokenMetadata Id := {
    definitionId := definitionTargetAccount.accountId
    standard := metadata.standard
    uri := metadata.uri
    creators := metadata.creators
    primarySaleDate := Unsigned.zero 64 }
  pure [.new definitionTargetAccount (AccountType.data tokenDefinition),
    .new holdingTargetAccount (AccountType.data tokenHolding),
    .new metadataTargetAccount (AccountType.data tokenMetadata)]

def printNft (masterAccount printedAccount : AccountWithMetadata Id D) :
    Outcome (List (AccountStateDiff Id D)) := do
  ensure (masterAccount.isAuthorized = true) "Master NFT Account must be authorized"
  ensure (printedAccount.account = default) "Printed Account must be uninitialized"
  ensure (printedAccount.isAuthorized = true) "Printed Account must be authorized"
  let masterAccountData : TokenHolding Id ← expect (tryFrom masterAccount.account.data)
    "Invalid Token Holding data"
  match masterAccountData with
  | .nftMaster definitionId printBalance => do
    ensure (1 < printBalance.val) "Insufficient balance to print another NFT copy"
    let printBalance ← expect (printBalance.checkedSub ⟨1, one_lt_u128⟩)
      "print balance must be greater than one after validation"
    pure [.new masterAccount (AccountType.data (TokenHolding.nftMaster definitionId printBalance)),
      .new printedAccount (AccountType.data (TokenHolding.nftPrintedCopy definitionId true))]
  | _ => .error "Invalid Token Holding provided as NFT Master Account"

/-- The definition with its authority replaced; only fungible definitions have one. -/
def replaceAuthority (definition : TokenDefinition Id) (newAuthority : Option Id) :
    Outcome (TokenDefinition Id) :=
  match definition with
  | .fungible name totalSupply metadataId _ => do
    ensure (newAuthority ≠ some default) "New mint authority must be a valid non-zero account ID"
    pure (.fungible name totalSupply metadataId newAuthority)
  | .nonFungible .. => .error "SetAuthority is not supported for Non-Fungible Tokens"

def setAuthorityInner (definitionAccount : AccountWithMetadata Id D)
    (authorityAccount : Option (AccountWithMetadata Id D)) (newAuthority : Option Id)
    (tokenProgramId : Id) : Outcome (List (AccountStateDiff Id D)) := do
  ensure (definitionAccount.account.programOwner = tokenProgramId)
    "Token definition must be owned by token program"
  let definition : TokenDefinition Id ← expect (tryFrom definitionAccount.account.data)
    "Token Definition account must be valid"
  requireAuthority definition definitionAccount authorityAccount
    "SetAuthority failed: authority already revoked"
    "SetAuthority failed: signer is not the current authority"
  let definition ← replaceAuthority definition newAuthority
  pure (.new definitionAccount (AccountType.data definition)
    :: (authorityAccount.map AccountStateDiff.unchanged).toList)

def setAuthority (definitionAccount : AccountWithMetadata Id D) (newAuthority : Option Id)
    (tokenProgramId : Id) : Outcome (List (AccountStateDiff Id D)) :=
  setAuthorityInner definitionAccount none newAuthority tokenProgramId

def setAuthorityWithAuthority (definitionAccount authorityAccount : AccountWithMetadata Id D)
    (newAuthority : Option Id) (tokenProgramId : Id) : Outcome (List (AccountStateDiff Id D)) :=
  setAuthorityInner definitionAccount (some authorityAccount) newAuthority tokenProgramId

def main (self : Id) (accounts : List (AccountWithMetadata Id D)) (instruction : Instruction Id) :
    Outcome (List (AccountStateDiff Id D)) :=
  match instruction, accounts with
  | .transfer n, [sender, recipient] => transfer sender recipient n
  | .newFungibleDefinition name supply authority, [definition, holding] =>
    newFungibleDefinition definition holding name supply authority
  | .newDefinitionWithMetadata new metadata, [definition, holding, metadataAccount] =>
    newDefinitionWithMetadata definition holding metadataAccount new metadata
  | .initializeAccount, [definition, account] => initializeAccount definition account self
  | .burn n, [definition, holding] => burn definition holding n
  | .mint n, [definition, holding] => mint definition holding n self
  | .mintWithAuthority n, [definition, holding, authority] =>
    mintWithAuthority definition holding authority n self
  | .printNft, [master, printed] => printNft master printed
  | .setAuthority new, [definition] => setAuthority definition new self
  | .setAuthorityWithAuthority new, [definition, authority] =>
    setAuthorityWithAuthority definition authority new self
  | _, _ => .error "wrong number of accounts"

end

end LezPrograms.Token
