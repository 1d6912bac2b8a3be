import LezPrograms.Token.Tallies
import Mathlib.Algebra.BigOperators.Group.Finset.Piecewise

/-! # Conservation of printable editions

An edition of a non-fungible token is printable, counted in a master holding,
or printed, a copy that is owned. Printing turns one into the other, burning
takes an edition and lowers the printable supply, everything else moves them. -/

set_option autoImplicit false

namespace LezPrograms.Token
open LezPrograms.Checked LezPrograms.Lee TokenHolding

/-- The editions of the token `d` that a holding counts for. -/
def editions (d : AccountId) : Holding → ℕ
  | .fungible _ _ => 0
  | .nftMaster definitionId printBalance => if definitionId = d then printBalance.val else 0
  | .nftPrintedCopy definitionId owned => if definitionId = d then owned.toNat else 0

def printableSupply : Definition → ℕ
  | .fungible _ _ _ _ => 0
  | .nonFungible _ printableSupply _ => printableSupply.val

def editionTally : Tally := ⟨editions, printableSupply⟩

def printBalanceAt (w : Accounts) (d id : AccountId) : ℕ :=
  match owned tokenProgramId w id with
  | some (.tokenHolding (.nftMaster definitionId printBalance)) =>
    if definitionId = d then printBalance.val else 0
  | _ => 0

def ownsCopy (w : Accounts) (d id : AccountId) : Bool :=
  match owned tokenProgramId w id with
  | some (.tokenHolding (.nftPrintedCopy definitionId owned)) => decide (definitionId = d) && owned
  | _ => false

theorem moveBalance_editions (s r s' r' : Holding) (n : U128)
    (h : moveBalance s r n = .ok (s', r')) (hd : s.definitionId = r.definitionId) (d : AccountId) :
    editions d s' + editions d r' = editions d s + editions d r := by
  unfold moveBalance at h
  split at h
  · simp only [bind_eq_ok, expect_eq_ok, pure_eq_ok, Prod.mk.injEq] at h
    obtain ⟨_, -, _, -, rfl, rfl⟩ := h
    rfl
  · simp only [bind_eq_ok, ensure_eq_ok, exists_const, pure_eq_ok, Prod.mk.injEq] at h
    obtain ⟨-, -, rfl, rfl⟩ := h
    simp only [TokenHolding.definitionId] at hd
    rw [hd]
    exact Nat.add_comm _ _
  · simp only [bind_eq_ok, ensure_eq_ok, exists_const, pure_eq_ok, Prod.mk.injEq] at h
    obtain ⟨-, rfl, rfl, rfl, rfl⟩ := h
    simp only [TokenHolding.definitionId] at hd
    rw [hd]
    exact Nat.add_comm _ _
  · exact absurd h (error_ne_ok _ _)

theorem burnBalance_editions (x x' : Definition) (k k' : Holding) (n : U128)
    (h : burnBalance x k n = .ok (x', k')) (d : AccountId) :
    editions d k' + editionTally.recordedAt d k.definitionId (.tokenDefinition x)
      = editions d k + editionTally.recordedAt d k.definitionId (.tokenDefinition x') := by
  unfold burnBalance at h
  split at h
  · simp only [bind_eq_ok, expect_eq_ok, pure_eq_ok, Prod.mk.injEq] at h
    obtain ⟨_, -, _, -, rfl, rfl⟩ := h
    rfl
  · rename_i _ _ _ id _
    simp only [bind_eq_ok, expect_eq_ok, Unsigned.checkedSub_eq_some, pure_eq_ok,
      Prod.mk.injEq] at h
    obtain ⟨s, hs, b, hb, rfl, rfl⟩ := h
    change _ + editionTally.recordedAt d id _ = _ + editionTally.recordedAt d id _
    by_cases hd : id = d
    · simp only [editions, Tally.recordedAt, Tally.recorded, editionTally, printableSupply,
        if_pos hd]
      omega
    · simp only [editions, Tally.recordedAt, if_neg hd]
  · rename_i _ _ _ id _
    simp only [bind_eq_ok, ensure_eq_ok, exists_const, expect_eq_ok, Unsigned.checkedSub_eq_some,
      pure_eq_ok, Prod.mk.injEq] at h
    obtain ⟨-, rfl, s, hs, rfl, rfl⟩ := h
    change _ + editionTally.recordedAt d id _ = _ + editionTally.recordedAt d id _
    by_cases hd : id = d
    · simp only [editions, Tally.recordedAt, Tally.recorded, editionTally, printableSupply,
        Bool.toNat_false, Bool.toNat_true, if_pos hd]
      omega
    · simp only [editions, Tally.recordedAt, if_neg hd]
  · exact absurd h (error_ne_ok _ _)

theorem editionTally_lawful : editionTally.Lawful where
  zeroizedClone d k := by
    cases k with
    | fungible y balance => rfl
    | nftMaster y balance => exact ite_self 0
    | nftPrintedCopy y owned => exact ite_self 0
  zeroizedFrom d id x := by
    cases x with
    | fungible name supply metadata authority => rfl
    | nonFungible name supply metadata => exact ite_self 0
  move := moveBalance_editions
  burn := burnBalance_editions
  mint x x' k k' n h d := by
    unfold mintBalance at h
    split at h
    · simp only [bind_eq_ok, expect_eq_ok, pure_eq_ok, Prod.mk.injEq] at h
      obtain ⟨_, -, _, -, rfl, rfl⟩ := h
      rfl
    all_goals exact absurd h (error_ne_ok _ _)
  fungible d y name supply authority := (ite_self 0).symm
  described y m new x k h d := by
    cases new with
    | fungible name supply authority =>
      simp only [describedToken, bind_eq_ok, pure_eq_ok, Prod.mk.injEq] at h
      obtain ⟨_, -, rfl, rfl⟩ := h
      exact (ite_self 0).symm
    | nonFungible name supply =>
      simp only [describedToken, pure_eq_ok, Prod.mk.injEq] at h
      obtain ⟨rfl, rfl⟩ := h
      rfl
  print y balance balance' h d := by
    simp only [editionTally, editions, Bool.toNat_true]
    split_ifs <;> omega
  rotate x x' new h := by
    cases x with
    | fungible name supply metadata authority =>
      simp only [replaceAuthority, bind_eq_ok, ensure_eq_ok, exists_const, pure_eq_ok] at h
      obtain ⟨-, rfl⟩ := h
      rfl
    | nonFungible name supply metadata => exact absurd h (error_ne_ok _ _)

/-- The editions of an account are its print balance, or one if it is an owned copy. -/
theorem editionTally_heldAt (w : Accounts) (d id : AccountId) :
    editionTally.heldAt w d id = printBalanceAt w d id + if ownsCopy w d id then 1 else 0 := by
  rw [Tally.heldAt, printBalanceAt, ownsCopy]
  cases owned tokenProgramId w id with
  | none => rfl
  | some data =>
    cases data with
    | tokenHolding holding =>
      cases holding with
      | fungible y balance => rfl
      | nftMaster y balance => rfl
      | nftPrintedCopy y owned =>
        by_cases hy : y = d <;> cases owned <;> simp [editionTally, editions, Tally.held, hy]
    | _ => rfl

/-- In every reachable world the print balances of the masters of a non-fungible token and the
number of its owned copies add up to its printable supply. -/
theorem editions_add_up_to_printable_supply (platform : Platform) (genesis : Genesis)
    (events : List Event) :
    let w := run platform genesis.world events
    ∃ accounts, Covers w accounts ∧ ∀ d name printableSupply metadataId,
      DefinitionAt w d (.nonFungible name printableSupply metadataId) →
        ∑ id ∈ accounts, printBalanceAt w d id + {id ∈ accounts | ownsCopy w d id}.card
          = printableSupply.val := by
  intro w
  obtain ⟨-, accounts, hcovers, htotal⟩ := run_balanced editionTally editionTally_lawful platform
    genesis events
  refine ⟨accounts, hcovers, fun d name supply metadataId hd => ?_⟩
  have hsum : editionTally.total w accounts d
      = ∑ id ∈ accounts, printBalanceAt w d id + {id ∈ accounts | ownsCopy w d id}.card := by
    rw [Finset.card_filter, ← Finset.sum_add_distrib]
    exact Finset.sum_congr rfl fun id _ => editionTally_heldAt w d id
  rw [← hsum, htotal d, Tally.suppliedOf, hd]
  rfl

end LezPrograms.Token
