import LezPrograms.Token.Tallies

/-! # Conservation of fungible tokens

The supply that a fungible definition records is the sum of the balances of its
fungible holdings, in every reachable world. -/

set_option autoImplicit false

namespace LezPrograms.Token
open LezPrograms.Checked LezPrograms.Lee TokenHolding

def fungibleUnits (d : AccountId) : Data → ℕ
  | .tokenHolding (.fungible definitionId balance) => if definitionId = d then balance.val else 0
  | _ => 0

def fungibleSupply : Data → ℕ
  | .tokenDefinition (.fungible _ totalSupply _ _) => totalSupply.val
  | _ => 0

def suppliedAt (d id : AccountId) (data : Data) : ℕ := if id = d then fungibleSupply data else 0

def unitsOf (w : Accounts) (d id : AccountId) : ℕ :=
  (owned tokenProgramId w id).elim 0 (fungibleUnits d)

def supplyOf (w : Accounts) (d : AccountId) : ℕ := (owned tokenProgramId w d).elim 0 fungibleSupply

def totalUnits (w : Accounts) (accounts : Finset AccountId) (d : AccountId) : ℕ :=
  ∑ id ∈ accounts, unitsOf w d id

/-- The holdings of every token add up to its supply. -/
def Conserved (w : Accounts) : Prop :=
  ∃ accounts, Covers w accounts ∧ ∀ d, totalUnits w accounts d = supplyOf w d

def fungibleTally : Tally where
  units d holding := fungibleUnits d (.tokenHolding holding)
  supply definition := fungibleSupply (.tokenDefinition definition)

theorem fungibleTally_held (d : AccountId) : fungibleTally.held d = fungibleUnits d := by
  funext data
  cases data <;> rfl

theorem fungibleTally_recorded : fungibleTally.recorded = fungibleSupply := by
  funext data
  cases data <;> rfl

theorem fungibleTally_recordedAt (d id : AccountId) (data : Data) :
    fungibleTally.recordedAt d id data = suppliedAt d id data := by
  rw [Tally.recordedAt, fungibleTally_recorded, suppliedAt]

theorem conserved_iff (w : Accounts) : Conserved w ↔ fungibleTally.Balanced w := by
  simp only [Conserved, Tally.Balanced, totalUnits, Tally.total, unitsOf, Tally.heldAt, supplyOf,
    Tally.suppliedOf, fungibleTally_held, fungibleTally_recorded]

theorem moveBalance_conserves (s r s' r' : Holding) (n : U128)
    (h : moveBalance s r n = .ok (s', r')) (hd : s.definitionId = r.definitionId) (d : AccountId) :
    fungibleUnits d (.tokenHolding s') + fungibleUnits d (.tokenHolding r')
      = fungibleUnits d (.tokenHolding s) + fungibleUnits d (.tokenHolding r) := by
  unfold moveBalance at h
  split at h
  · simp only [bind_eq_ok, expect_eq_ok, Unsigned.checkedSub_eq_some, Unsigned.checkedAdd_eq_some,
      pure_eq_ok, Prod.mk.injEq] at h
    obtain ⟨sb, hs, rb, hr, rfl, rfl⟩ := h
    simp only [TokenHolding.definitionId] at hd
    subst hd
    simp only [fungibleUnits]
    split <;> omega
  · simp only [bind_eq_ok, ensure_eq_ok, exists_const, pure_eq_ok, Prod.mk.injEq] at h
    obtain ⟨-, -, rfl, rfl⟩ := h
    rfl
  · simp only [bind_eq_ok, ensure_eq_ok, exists_const, pure_eq_ok, Prod.mk.injEq] at h
    obtain ⟨-, -, -, rfl, rfl⟩ := h
    rfl
  · exact absurd h (error_ne_ok _ _)

theorem burnBalance_conserves (x x' : Definition) (k k' : Holding) (n : U128)
    (h : burnBalance x k n = .ok (x', k')) (d : AccountId) :
    fungibleUnits d (.tokenHolding k') + suppliedAt d k.definitionId (.tokenDefinition x)
      = fungibleUnits d (.tokenHolding k) + suppliedAt d k.definitionId (.tokenDefinition x') := by
  unfold burnBalance at h
  split at h
  · rename_i _ _ _ _ id _
    simp only [bind_eq_ok, expect_eq_ok, Unsigned.checkedSub_eq_some, pure_eq_ok,
      Prod.mk.injEq] at h
    obtain ⟨b, hb, t, ht, rfl, rfl⟩ := h
    change _ + suppliedAt d id _ = _ + suppliedAt d id _
    simp only [fungibleUnits, suppliedAt, fungibleSupply]
    by_cases hd : id = d
    · simp only [if_pos hd]
      omega
    · simp only [if_neg hd]
  · simp only [bind_eq_ok, expect_eq_ok, pure_eq_ok, Prod.mk.injEq] at h
    obtain ⟨_, _, _, _, rfl, rfl⟩ := h
    rfl
  · simp only [bind_eq_ok, ensure_eq_ok, exists_const, expect_eq_ok, pure_eq_ok,
      Prod.mk.injEq] at h
    obtain ⟨_, _, _, _, rfl, rfl⟩ := h
    rfl
  · exact absurd h (error_ne_ok _ _)

theorem mintBalance_conserves (x x' : Definition) (k k' : Holding) (n : U128)
    (h : mintBalance x k n = .ok (x', k')) (d : AccountId) :
    fungibleUnits d (.tokenHolding k') + suppliedAt d k.definitionId (.tokenDefinition x)
      = fungibleUnits d (.tokenHolding k) + suppliedAt d k.definitionId (.tokenDefinition x') := by
  unfold mintBalance at h
  split at h
  · rename_i _ _ _ _ id _
    simp only [bind_eq_ok, expect_eq_ok, Unsigned.checkedAdd_eq_some, pure_eq_ok,
      Prod.mk.injEq] at h
    obtain ⟨b, hb, t, ht, rfl, rfl⟩ := h
    change _ + suppliedAt d id _ = _ + suppliedAt d id _
    simp only [fungibleUnits, suppliedAt, fungibleSupply]
    by_cases hd : id = d
    · simp only [if_pos hd]
      omega
    · simp only [if_neg hd]
  · exact absurd h (error_ne_ok _ _)
  · exact absurd h (error_ne_ok _ _)
  · exact absurd h (error_ne_ok _ _)

theorem fungibleUnits_zeroizedCloneFrom (d : AccountId) (k : Holding) :
    fungibleUnits d (.tokenHolding k.zeroizedCloneFrom) = 0 := by
  cases k with
  | fungible definitionId balance => exact ite_self 0
  | nftMaster definitionId balance => rfl
  | nftPrintedCopy definitionId owned => rfl

theorem fungibleUnits_zeroizedFromDefinition (d id : AccountId) (x : Definition) :
    fungibleUnits d (.tokenHolding (zeroizedFromDefinition id x)) = 0 := by
  cases x with
  | fungible name supply metadata authority => exact ite_self 0
  | nonFungible name supply metadata => rfl

/-- A new definition and its first holding count for the same amount. -/
theorem describedToken_conserves (y m d : AccountId) (new : NewTokenDefinition AccountId)
    (x : Definition) (k : Holding) (h : describedToken y m new = .ok (x, k)) :
    fungibleUnits d (.tokenHolding k) = suppliedAt d y (.tokenDefinition x) := by
  cases new with
  | fungible name supply authority =>
    simp only [describedToken, bind_eq_ok, pure_eq_ok, Prod.mk.injEq] at h
    obtain ⟨_, -, rfl, rfl⟩ := h
    rfl
  | nonFungible name supply =>
    simp only [describedToken, pure_eq_ok, Prod.mk.injEq] at h
    obtain ⟨rfl, rfl⟩ := h
    exact (ite_self 0).symm

theorem replaceAuthority_supply (x x' : Definition) (new : Option AccountId)
    (h : replaceAuthority x new = .ok x') :
    fungibleSupply (.tokenDefinition x') = fungibleSupply (.tokenDefinition x) := by
  cases x with
  | fungible name supply metadata authority =>
    simp only [replaceAuthority, bind_eq_ok, ensure_eq_ok, exists_const, pure_eq_ok] at h
    obtain ⟨-, rfl⟩ := h
    rfl
  | nonFungible name supply metadata => exact absurd h (error_ne_ok _ _)

theorem fungibleTally_lawful : fungibleTally.Lawful where
  zeroizedClone := fungibleUnits_zeroizedCloneFrom
  zeroizedFrom := fungibleUnits_zeroizedFromDefinition
  move := moveBalance_conserves
  burn x x' k k' n h d := by
    rw [fungibleTally_recordedAt, fungibleTally_recordedAt]
    exact burnBalance_conserves x x' k k' n h d
  mint x x' k k' n h d := by
    rw [fungibleTally_recordedAt, fungibleTally_recordedAt]
    exact mintBalance_conserves x x' k k' n h d
  fungible _ _ _ _ _ := rfl
  described y m new x k h d := by
    rw [fungibleTally_recordedAt]
    exact describedToken_conserves y m d new x k h
  print _ _ _ _ _ := rfl
  rotate := replaceAuthority_supply

theorem run_conserved (platform : Platform) (genesis : Genesis) (events : List Event) :
    Bare (run platform genesis.world events) ∧ Conserved (run platform genesis.world events) := by
  rw [conserved_iff]
  exact run_balanced fungibleTally fungibleTally_lawful platform genesis events

def CreditBase (w : Accounts) (d id : AccountId) (balance : U128) : Prop :=
  (w id = default ∧ balance = Unsigned.zero 128) ∨ HoldingAt w id (.fungible d balance)

theorem HoldingAt.unitsOf_eq (w : Accounts) (d id : AccountId) (balance : U128)
    (h : HoldingAt w id (.fungible d balance)) : unitsOf w d id = balance.val := by
  rw [unitsOf, h, Option.elim_some, fungibleUnits, if_pos rfl]

theorem CreditBase.le_unitsOf (w : Accounts) (d id : AccountId) (balance : U128)
    (h : CreditBase w d id balance) : balance.val ≤ unitsOf w d id := by
  rcases h with ⟨-, rfl⟩ | h
  · exact Nat.zero_le _
  · exact (h.unitsOf_eq w d id balance).ge

section
variable (w : Accounts) (accounts : Finset AccountId) (d : AccountId) (hc : Covers w accounts)
include hc

theorem Covers.unitsOf_le (id : AccountId) : unitsOf w d id ≤ totalUnits w accounts d := by
  by_cases hid : id ∈ accounts
  · exact Finset.single_le_sum (fun x _ => Nat.zero_le (unitsOf w d x)) hid
  · have hnone : owned tokenProgramId w id = none :=
      Option.eq_none_iff_forall_ne_some.mpr fun data ho => hid (hc id data ho)
    rw [unitsOf, hnone]
    exact Nat.zero_le _

theorem Covers.unitsOf_add_le (s r : AccountId) (hs : s ∈ accounts) (hne : s ≠ r) :
    unitsOf w d s + unitsOf w d r ≤ totalUnits w accounts d := by
  by_cases hr : r ∈ accounts
  · rw [← Finset.sum_pair hne]
    exact Finset.sum_le_sum_of_subset
      (Finset.insert_subset hs (Finset.singleton_subset_iff.mpr hr))
  · have hnone : owned tokenProgramId w r = none :=
      Option.eq_none_iff_forall_ne_some.mpr fun data ho => hr (hc r data ho)
    have hr0 : unitsOf w d r = 0 := by rw [unitsOf, hnone, Option.elim_none]
    rw [hr0, Nat.add_zero]
    exact Covers.unitsOf_le w accounts d hc s

end

/-- In every reachable world the balances of a fungible token add up to its supply. Hence a
transfer the sender covers and a mint the definition accepts never overflow the recipient, and
a burn the holding covers never underflows the supply. -/
theorem balances_add_up_to_supply (platform : Platform) (genesis : Genesis)
    (events : List Event) :
    let w := run platform genesis.world events
    ∃ accounts, Covers w accounts ∧ ∀ d name supply metadataId authority,
      DefinitionAt w d (.fungible name supply metadataId authority) →
        totalUnits w accounts d = supply.val ∧
        (∀ s r x y n, s ≠ r → HoldingAt w s (.fungible d x) → CreditBase w d r y →
          n.val ≤ x.val → ∃ moved, moveBalance (.fungible d x) (.fungible d y) n = .ok moved) ∧
        (∀ r y n, CreditBase w d r y → (supply.checkedAdd n).isSome →
          ∃ minted, mintBalance (.fungible name supply metadataId authority) (.fungible d y) n
            = .ok minted) ∧
        (∀ h x n, HoldingAt w h (.fungible d x) → n.val ≤ x.val →
          ∃ burned, burnBalance (.fungible name supply metadataId authority) (.fungible d x) n
            = .ok burned) := by
  intro w
  obtain ⟨-, accounts, hcovers, htotal⟩ := run_conserved platform genesis events
  refine ⟨accounts, hcovers, fun d name supply metadataId authority hd => ?_⟩
  have hsupply : totalUnits w accounts d = supply.val := by
    rw [htotal d, supplyOf, hd]
    rfl
  refine ⟨hsupply, ?_, ?_, ?_⟩
  · intro s r x y n hne hs hr hn
    have hsum := hcovers.unitsOf_add_le w accounts d s r (hcovers s _ hs) hne
    have hx := hs.unitsOf_eq w d s x
    have hy := hr.le_unitsOf w d r y
    have hfits : y.val + n.val < 2 ^ 128 := by
      have := supply.isLt
      omega
    rw [moveBalance, Unsigned.checkedSub_of_le x n hn, Unsigned.checkedAdd_of_lt y n hfits]
    exact ⟨_, rfl⟩
  · intro r y n hr hn
    have hy := (hr.le_unitsOf w d r y).trans (hcovers.unitsOf_le w accounts d r)
    obtain ⟨t, ht⟩ := Option.isSome_iff_exists.mp hn
    have hfits : y.val + n.val < 2 ^ 128 := by
      have := t.isLt
      have := (Unsigned.checkedAdd_eq_some _ _ _).mp ht
      omega
    rw [mintBalance, Unsigned.checkedAdd_of_lt y n hfits, ht]
    exact ⟨_, rfl⟩
  · intro h x n hh hn
    have hx := (hh.unitsOf_eq w d h x).ge.trans (hcovers.unitsOf_le w accounts d h)
    rw [burnBalance, Unsigned.checkedSub_of_le x n hn,
      Unsigned.checkedSub_of_le supply n (by omega)]
    exact ⟨_, rfl⟩

end LezPrograms.Token
