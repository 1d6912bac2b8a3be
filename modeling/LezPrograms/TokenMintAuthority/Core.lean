import LezPrograms.Checked
import LezPrograms.Lee.Identifier

/-! # Faucet data

A faucet mint grants a fixed amount, at most once per cooldown and pair of
recipient and token. The allowance of the pair records the time of the last mint. -/

set_option autoImplicit false

namespace LezPrograms.TokenMintAuthority
open LezPrograms.Checked LezPrograms.Lee

def oneToken : U128 := ⟨1000000000000000000, by norm_num⟩

def faucetMintAmount : U128 := ⟨10000 * oneToken.val, by norm_num [oneToken]⟩

def mintCooldownMs : U64 := ⟨24 * 60 * 60 * 1000, by norm_num⟩

@[simp] theorem mintCooldownMs_val : mintCooldownMs.val = 86400000 := rfl

inductive Instruction where
  | faucetMint
deriving DecidableEq

structure MintAllowance where
  recipientId : AccountId
  definitionId : AccountId
  lastMintMs : U64
deriving DecidableEq

def computeMintAuthorityPdaSeed : PdaSeed := .tag .mintAuthority

def computeMintAuthorityPda (tokenMintAuthorityProgramId : AccountId) : AccountId :=
  .forPublicPda tokenMintAuthorityProgramId computeMintAuthorityPdaSeed

def computeMintAllowancePdaSeed (recipientId definitionId : AccountId) : PdaSeed :=
  .account recipientId (.account definitionId (.tag .mintAllowance))

def computeMintAllowancePda (tokenMintAuthorityProgramId recipientId definitionId : AccountId) :
    AccountId :=
  .forPublicPda tokenMintAuthorityProgramId (computeMintAllowancePdaSeed recipientId definitionId)

end LezPrograms.TokenMintAuthority
