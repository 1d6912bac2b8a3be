import LezPrograms.Checked
import LezPrograms.Lee.Identifier

/-! # Associated token accounts

The address of an associated token account is derived from the token program, the
owner and the definition. -/

set_option autoImplicit false

namespace LezPrograms.Ata
open LezPrograms.Checked LezPrograms.Lee

inductive Instruction where
  | create (tokenProgramId : AccountId)
  | transfer (tokenProgramId : AccountId) (amount : U128)
  | burn (tokenProgramId : AccountId) (amount : U128)
deriving DecidableEq

def computeAtaSeed (tokenProgramId ownerId definitionId : AccountId) : PdaSeed :=
  .account tokenProgramId (.account ownerId (.account definitionId .nil))

def getAssociatedTokenAccountId (ataProgramId : AccountId) (seed : PdaSeed) : AccountId :=
  .forPublicPda ataProgramId seed

theorem computeAtaSeed_inj (p q o u d e : AccountId)
    (h : computeAtaSeed p o d = computeAtaSeed q u e) : p = q ∧ o = u ∧ d = e := by
  cases h
  exact ⟨rfl, rfl, rfl⟩

end LezPrograms.Ata
