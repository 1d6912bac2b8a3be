import LezPrograms.Ata.Core
import LezPrograms.Lee.Machine
import LezPrograms.Lee.Ownership
import LezPrograms.Token.Step
import LezPrograms.TokenMintAuthority.Core

/-! # An open platform

Anybody may deploy programs beside the token programs, the associated token account
program and the faucet. A message is an instruction of one of these or of a program
that is not modelled. -/

set_option autoImplicit false

namespace LezPrograms.Lee
open LezPrograms.Checked

inductive Message where
  | token (instruction : Token.Instruction AccountId)
  | ata (instruction : Ata.Instruction)
  | tokenMintAuthority (instruction : TokenMintAuthority.Instruction)
  | foreign (n : ℕ)
deriving DecidableEq

abbrev OpenCall := Machine.Call AccountId PdaSeed Message

abbrev OpenPrograms := Machine.Programs AccountId Data PdaSeed Message

abbrev OpenTurn := Machine.Turn AccountId Data PdaSeed Message

abbrev OpenResult := Outcome (List StateDiff × List OpenCall)

/-- `ChainedCall::new(..).with_pda_seeds(..)` -/
def OpenCall.new (programId : AccountId) (accountIds : List AccountId) (message : Message)
    (pdaSeeds : List PdaSeed) : OpenCall := ⟨programId, accountIds, message, pdaSeeds⟩

def tokenProgram (self : AccountId) (accounts : List InputAccount) (message : Message) :
    OpenResult :=
  match message with
  | .token instruction => do
    let diffs ← Token.main self accounts instruction
    pure (diffs, [])
  | _ => .error "not an instruction of this program"

abbrev OpenRun (programs : OpenPrograms) (signable : AccountId → Prop) (start : Accounts)
    (history : List OpenTurn) (w : Accounts) : Prop :=
  Machine.Run AccountId.forPublicPda programs signable start history w

/-- Where the token program is deployed, a call is one step of it and chains nothing. -/
theorem tokenProgram_turn (programs : OpenPrograms) (t : OpenTurn)
    (hp : programs t.pending.call.programId = tokenProgram t.pending.call.programId)
    (h : t.Valid programs) :
    t.calls = [] ∧ ∃ instruction, t.pending.call.instruction = .token instruction ∧
      t.pending.call.accountIds.Nodup ∧
      Token.Step t.pending.call.programId t.pending.authority t.before t.pending.call.accountIds
        instruction t.after := by
  obtain ⟨hn, diffs, hh, ha⟩ := (execute_eq_ok _ _ _ _ _ _ _).mp h
  rw [hp] at hh
  unfold tokenProgram at hh
  split at hh
  · rename_i instruction hi
    simp only [bind_eq_ok, pure_eq_ok, Prod.mk.injEq] at hh
    obtain ⟨_, hm, rfl, hcalls⟩ := hh
    exact ⟨hcalls.symm, instruction, hi, hn, Token.step_of_main _ _ _ _ _ _ _ hn hm ha⟩
  · exact absurd hh (error_ne_ok _ _)

end LezPrograms.Lee
