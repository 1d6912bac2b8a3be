import Mathlib.Algebra.BigOperators.Group.Finset.Basic
import Mathlib.Algebra.Order.BigOperators.Group.Finset
import Mathlib.Tactic.Linarith
import Mathlib.Tactic.Ring

/-! # The ledger of a debt-backed token

Debt is recorded in normalized units that a growing rate turns into tokens.
Every rounding goes against the borrower, so the outstanding supply never
exceeds the scaled debt and falls short of it only by a bounded dust. -/

set_option autoImplicit false

namespace LezPrograms.Stablecoin

/-- What the ledger records: the rate, the normalized debt with its total, the supply of the
token, and the collateral of each position with the contents of its vault. -/
structure Ledger (Id : Type) where
  rate : ℕ
  total : ℕ
  supply : ℕ
  live : Finset Id
  debt : Id → ℕ
  collateral : Id → ℕ
  vault : Id → ℕ

structure Shortfall where
  accruals : ℕ
  used : ℕ
  burned : ℕ

namespace Ledger
variable {Id : Type} (scale : ℕ)

structure Accrues (L : Ledger Id) (rate fees : ℕ) : Prop where
  grows : L.rate ≤ rate
  charged : fees = L.total * (rate - L.rate) / scale

def Keeps (L : Ledger Id) (vault : Id → ℕ) (id : Id) : Prop :=
  ∀ x ∈ L.live, x ≠ id → L.vault x ≤ vault x

variable [DecidableEq Id]

inductive Step (L : Ledger Id) : Shortfall → Ledger Id → Prop
  | elsewhere (supply burned : ℕ) (vault : Id → ℕ) (burns : supply + burned = L.supply)
      (kept : ∀ x ∈ L.live, L.vault x ≤ vault x) :
      Step L ⟨0, 0, burned⟩ { L with supply := supply, vault := vault }
  | accrue (rate fees : ℕ) (vault : Id → ℕ) (accrues : Accrues scale L rate fees)
      (kept : ∀ x ∈ L.live, L.vault x ≤ vault x) :
      Step L ⟨1, 0, 0⟩ { L with rate := rate, supply := L.supply + fees, vault := vault }
  | generate (rate fees amount delta : ℕ) (vault : Id → ℕ) (id : Id)
      (accrues : Accrues scale L rate fees) (kept : ∀ x ∈ L.live, L.vault x ≤ vault x)
      (live : id ∈ L.live) (covers : amount * scale ≤ delta * rate)
      (tight : delta * rate < amount * scale + rate) :
      Step L ⟨1, rate, 0⟩ { L with
        rate := rate, supply := L.supply + fees + amount, total := L.total + delta
        debt := Function.update L.debt id (L.debt id + delta), vault := vault }
  | repay (rate fees amount delta debt total supply : ℕ) (vault : Id → ℕ) (id : Id)
      (accrues : Accrues scale L rate fees) (kept : ∀ x ∈ L.live, L.vault x ≤ vault x)
      (live : id ∈ L.live) (covers : delta * rate ≤ amount * scale)
      (tight : amount * scale < delta * rate + rate) (settles : debt + delta = L.debt id)
      (reduces : total + delta = L.total) (burns : supply + amount = L.supply + fees) :
      Step L ⟨1, rate, 0⟩ { L with
        rate := rate, supply := supply, total := total
        debt := Function.update L.debt id debt, vault := vault }
  | opening (amount : ℕ) (vault : Id → ℕ) (id : Id) (fresh : id ∉ L.live)
      (kept : ∀ x ∈ L.live, L.vault x ≤ vault x) (filled : vault id = amount) :
      Step L ⟨0, 0, 0⟩ { L with
        live := insert id L.live, debt := Function.update L.debt id 0
        collateral := Function.update L.collateral id amount, vault := vault }
  | deposit (amount : ℕ) (vault : Id → ℕ) (id : Id) (live : id ∈ L.live)
      (kept : Keeps L vault id) (filled : vault id = L.vault id + amount) :
      Step L ⟨0, 0, 0⟩ { L with
        collateral := Function.update L.collateral id (L.vault id + amount), vault := vault }
  | closing (id : Id) (live : id ∈ L.live) (settled : L.debt id = 0)
      (empty : L.collateral id = 0) : Step L ⟨0, 0, 0⟩ { L with live := L.live.erase id }
  | withdraw (amount collateral : ℕ) (vault : Id → ℕ) (id : Id) (live : id ∈ L.live)
      (kept : Keeps L vault id) (rest : collateral + amount = L.collateral id)
      (drained : vault id + amount = L.vault id) :
      Step L ⟨0, 0, 0⟩ { L with
        collateral := Function.update L.collateral id collateral, vault := vault }

/-- The scaled debt covers the supply. -/
def Backed (L : Ledger Id) : Prop := L.supply * scale ≤ L.total * L.rate

variable {scale}

omit [DecidableEq Id] in
theorem Accrues.bounds (L : Ledger Id) (rate fees : ℕ) (hs : 0 < scale)
    (h : Accrues scale L rate fees) :
    L.total * L.rate + fees * scale ≤ L.total * rate ∧
      L.total * rate < L.total * L.rate + fees * scale + scale := by
  have hsplit : L.total * rate = L.total * L.rate + L.total * (rate - L.rate) := by
    rw [← Nat.mul_add, Nat.add_sub_cancel' h.grows]
  have hdm := Nat.div_add_mod (L.total * (rate - L.rate)) scale
  have hlt := Nat.mod_lt (L.total * (rate - L.rate)) hs
  rw [← h.charged, Nat.mul_comm] at hdm
  omega

theorem Step.rate_le (L L' : Ledger Id) (loss : Shortfall) (h : Step scale L loss L') :
    L.rate ≤ L'.rate := by
  cases h with
  | accrue _ _ _ ha => exact ha.grows
  | generate _ _ _ _ _ _ ha => exact ha.grows
  | repay _ _ _ _ _ _ _ _ _ ha => exact ha.grows
  | _ => exact le_rfl

/-- A step never lets the supply outgrow the scaled debt. -/
theorem Step.backed (L L' : Ledger Id) (loss : Shortfall) (hs : 0 < scale)
    (h : Step scale L loss L') (hb : Backed scale L) : Backed scale L' := by
  unfold Backed at hb ⊢
  cases h with
  | elsewhere supply burned vault hburn =>
    have hle : supply ≤ L.supply := by omega
    exact le_trans (Nat.mul_le_mul_right scale hle) hb
  | accrue rate fees vault ha =>
    obtain ⟨h1, -⟩ := ha.bounds L rate fees hs
    simp only [Nat.add_mul]
    omega
  | generate rate fees amount delta vault id ha _ _ hcovers =>
    obtain ⟨h1, -⟩ := ha.bounds L rate fees hs
    simp only [Nat.add_mul]
    omega
  | repay rate fees amount delta debt total supply vault id ha _ _ hcovers _ _ htotal hsupply =>
    obtain ⟨h1, -⟩ := ha.bounds L rate fees hs
    have hT : total * rate + delta * rate = L.total * rate := by rw [← Nat.add_mul, htotal]
    have hS : supply * scale + amount * scale = L.supply * scale + fees * scale := by
      rw [← Nat.add_mul, hsupply, Nat.add_mul]
    simp only
    omega
  | opening => exact hb
  | deposit => exact hb
  | closing => exact hb
  | withdraw => exact hb

/-- What one step adds to the shortfall of the supply: below one unit of scale for the floor
of an accrual, below the rate for a conversion, and what was burned. -/
theorem Step.shortfall (L L' : Ledger Id) (loss : Shortfall) (hs : 0 < scale)
    (h : Step scale L loss L') :
    L'.total * L'.rate + L.supply * scale + loss.accruals ≤
      L.total * L.rate + L'.supply * scale + scale * loss.accruals + loss.used
        + scale * loss.burned := by
  cases h with
  | elsewhere supply burned vault hburn =>
    have hS : supply * scale + scale * burned = L.supply * scale := by
      rw [← hburn, Nat.add_mul, Nat.mul_comm burned]
    simp only
    omega
  | accrue rate fees vault ha =>
    obtain ⟨-, h2⟩ := ha.bounds L rate fees hs
    simp only [Nat.add_mul]
    omega
  | generate rate fees amount delta vault id ha _ _ _ htight =>
    obtain ⟨-, h2⟩ := ha.bounds L rate fees hs
    simp only [Nat.add_mul]
    omega
  | repay rate fees amount delta debt total supply vault id ha _ _ _ htight _ htotal hsupply =>
    obtain ⟨-, h2⟩ := ha.bounds L rate fees hs
    have hT : total * rate + delta * rate = L.total * rate := by rw [← Nat.add_mul, htotal]
    have hS : supply * scale + amount * scale = L.supply * scale + fees * scale := by
      rw [← Nat.add_mul, hsupply, Nat.add_mul]
    simp only
    omega
  | opening => simp only; omega
  | deposit => simp only; omega
  | closing => simp only; omega
  | withdraw => simp only; omega

def Balanced (L : Ledger Id) : Prop := L.total = ∑ id ∈ L.live, L.debt id

omit [DecidableEq Id] in
theorem Balanced.debt_le (L : Ledger Id) (h : Balanced L) (id : Id) (hid : id ∈ L.live) :
    L.debt id ≤ L.total := by
  rw [h]
  exact Finset.single_le_sum (fun _ _ => Nat.zero_le _) hid

theorem sum_update (live : Finset Id) (debt : Id → ℕ) (id : Id) (value : ℕ) (hid : id ∈ live) :
    (∑ x ∈ live, Function.update debt id value x) + debt id = (∑ x ∈ live, debt x) + value := by
  have herase : ∑ x ∈ live.erase id, Function.update debt id value x = ∑ x ∈ live.erase id, debt x :=
    Finset.sum_congr rfl fun x hx => Function.update_of_ne (Finset.ne_of_mem_erase hx) _ _
  rw [← Finset.add_sum_erase live _ hid, ← Finset.add_sum_erase live debt hid,
    Function.update_self, herase]
  omega

theorem Step.balanced (L L' : Ledger Id) (loss : Shortfall) (h : Step scale L loss L')
    (hb : Balanced L) : Balanced L' := by
  unfold Balanced at hb ⊢
  cases h with
  | elsewhere => exact hb
  | accrue => exact hb
  | generate rate fees amount delta vault id _ _ hid =>
    have hsum := sum_update L.live L.debt id (L.debt id + delta) hid
    simp only
    omega
  | repay rate fees amount delta debt total supply vault id _ _ hid _ _ hdebt htotal =>
    have hsum := sum_update L.live L.debt id debt hid
    simp only
    omega
  | opening amount vault id hfresh =>
    simp only
    rw [Finset.sum_insert hfresh, Function.update_self, Nat.zero_add, hb]
    apply Finset.sum_congr rfl
    intro x hx
    rw [Function.update_of_ne]
    rintro rfl
    exact hfresh hx
  | deposit => exact hb
  | closing id hid hzero =>
    have hsum := Finset.add_sum_erase L.live L.debt hid
    simp only
    omega
  | withdraw => exact hb

def Covered (L : Ledger Id) : Prop := ∀ id ∈ L.live, L.collateral id ≤ L.vault id

omit [DecidableEq Id] in
theorem Covered.kept (L : Ledger Id) (h : Covered L) (vault : Id → ℕ)
    (hk : ∀ x ∈ L.live, L.vault x ≤ vault x) (id : Id) (hid : id ∈ L.live) :
    L.collateral id ≤ vault id := (h id hid).trans (hk id hid)

theorem Step.covered (L L' : Ledger Id) (loss : Shortfall) (h : Step scale L loss L')
    (hc : Covered L) : Covered L' := by
  intro x hx
  cases h with
  | elsewhere _ _ vault _ hk => exact hc.kept L vault hk x hx
  | accrue _ _ vault _ hk => exact hc.kept L vault hk x hx
  | generate _ _ _ _ vault _ _ hk => exact hc.kept L vault hk x hx
  | repay _ _ _ _ _ _ _ vault _ _ hk => exact hc.kept L vault hk x hx
  | opening amount vault id hfresh hk hfill =>
    rcases Finset.mem_insert.mp hx with rfl | hx
    · simp only [Function.update_self, hfill, le_refl]
    · have hne : x ≠ id := fun he => hfresh (he ▸ hx)
      simp only [Function.update_of_ne hne]
      exact hc.kept L vault hk x hx
  | deposit amount vault id _ hk hfill =>
    by_cases he : x = id
    · subst he
      simp only [Function.update_self, hfill, le_refl]
    · simp only [Function.update_of_ne he]
      exact (hc x hx).trans (hk x hx he)
  | closing id => exact hc x (Finset.mem_of_mem_erase hx)
  | withdraw amount collateral vault id hid hk hrest hdrain =>
    by_cases he : x = id
    · subst he
      have hcx := hc x hid
      simp only [Function.update_self]
      omega
    · simp only [Function.update_of_ne he]
      exact (hc x hx).trans (hk x hx he)

end Ledger

end LezPrograms.Stablecoin
