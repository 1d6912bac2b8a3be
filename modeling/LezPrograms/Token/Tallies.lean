import LezPrograms.Token.Balances
import Mathlib.Algebra.BigOperators.Group.Finset.Basic
import Mathlib.Algebra.Order.BigOperators.Group.Finset
import Mathlib.Tactic.SplitIfs

/-! # Totals that the token program conserves

A tally counts units in holdings and supply in definitions. If every operation
on decoded values changes both alike, the units of a token add up to its supply
in every reachable world. -/

set_option autoImplicit false

namespace LezPrograms.Token
open LezPrograms.Checked LezPrograms.Lee TokenHolding

/-- What the holdings of a token and its definition count for. -/
structure Tally where
  units : AccountId → Holding → ℕ
  supply : Definition → ℕ

namespace Tally

def held (T : Tally) (d : AccountId) : Data → ℕ
  | .tokenHolding holding => T.units d holding
  | _ => 0

def recorded (T : Tally) : Data → ℕ
  | .tokenDefinition definition => T.supply definition
  | _ => 0

def recordedAt (T : Tally) (d id : AccountId) (data : Data) : ℕ := if id = d then T.recorded data else 0

def heldAt (T : Tally) (w : Accounts) (d id : AccountId) : ℕ :=
  (owned tokenProgramId w id).elim 0 (T.held d)

def suppliedOf (T : Tally) (w : Accounts) (d : AccountId) : ℕ :=
  (owned tokenProgramId w d).elim 0 T.recorded

def total (T : Tally) (w : Accounts) (accounts : Finset AccountId) (d : AccountId) : ℕ :=
  ∑ id ∈ accounts, T.heldAt w d id

end Tally

def Covers (w : Accounts) (accounts : Finset AccountId) : Prop :=
  ∀ id data, owned tokenProgramId w id = some data → id ∈ accounts

def Tally.Balanced (T : Tally) (w : Accounts) : Prop :=
  ∃ accounts, Covers w accounts ∧ ∀ d, T.total w accounts d = T.suppliedOf w d

structure Tally.Lawful (T : Tally) : Prop where
  zeroizedClone : ∀ d (k : Holding), T.units d k.zeroizedCloneFrom = 0
  zeroizedFrom : ∀ d id (x : Definition), T.units d (zeroizedFromDefinition id x) = 0
  move : ∀ (s r s' r' : Holding) (n : U128), moveBalance s r n = .ok (s', r') →
    s.definitionId = r.definitionId → ∀ d, T.units d s' + T.units d r' = T.units d s + T.units d r
  burn : ∀ (x x' : Definition) (k k' : Holding) (n : U128), burnBalance x k n = .ok (x', k') →
    ∀ d, T.units d k' + T.recordedAt d k.definitionId (.tokenDefinition x)
      = T.units d k + T.recordedAt d k.definitionId (.tokenDefinition x')
  mint : ∀ (x x' : Definition) (k k' : Holding) (n : U128), mintBalance x k n = .ok (x', k') →
    ∀ d, T.units d k' + T.recordedAt d k.definitionId (.tokenDefinition x)
      = T.units d k + T.recordedAt d k.definitionId (.tokenDefinition x')
  fungible : ∀ d y name supply authority,
    T.units d (.fungible y supply)
      = T.recordedAt d y (.tokenDefinition (.fungible name supply none authority))
  described : ∀ (y m : AccountId) (new : NewTokenDefinition AccountId) (x : Definition) (k : Holding),
    describedToken y m new = .ok (x, k) →
    ∀ d, T.units d k = T.recordedAt d y (.tokenDefinition x)
  print : ∀ (y : AccountId) (balance balance' : U128), balance'.val + 1 = balance.val →
    ∀ d, T.units d (.nftMaster y balance') + T.units d (.nftPrintedCopy y true)
      = T.units d (.nftMaster y balance)
  rotate : ∀ (x x' : Definition) (new : Option AccountId), replaceAuthority x new = .ok x' →
    T.supply x' = T.supply x

section
variable (w : Accounts) (id : AccountId) (data : Data)

theorem put_frame (h : MayWrite tokenProgramId (w id) data) :
    Frame tokenProgramId w (put tokenProgramId w id data) := by
  intro x
  by_cases hx : x = id
  · subst hx
    rw [put_same]
    by_cases hd : data = (w x).data
    · exact Or.inl (by rw [hd, writeData_same])
    · exact Or.inr ⟨h.resolve_left hd, writeData_owner_of_ne _ _ _ hd⟩
  · exact Or.inl (put_other _ _ _ _ _ hx)

theorem bare_put (hbare : Bare w) (h : MayWrite tokenProgramId (w id) data) :
    Bare (put tokenProgramId w id data) :=
  hbare.frame tokenProgramId _ _ (put_frame w id data h) (by decide)

/-- What an account counts for moves with the data that is written to it. -/
theorem counted_put (measure : Data → ℕ) (hzero : measure .empty = 0) (hbare : Bare w)
    (h : MayWrite tokenProgramId (w id) data) (hdata : data ≠ .empty) :
    (owned tokenProgramId (put tokenProgramId w id data) id).elim 0 measure + measure (w id).data
      = (owned tokenProgramId w id).elim 0 measure + measure data := by
  by_cases ho : (w id).programOwner = tokenProgramId
  · rw [owned_put _ _ _ _ (Or.inl ho), Function.update_self, Option.elim_some, owned, if_pos ho,
      Option.elim_some, Nat.add_comm]
  · rcases h with h | h | h
    · subst h
      have hsame : put tokenProgramId w id (w id).data id = w id := by rw [put_same, writeData_same]
      rw [owned_congr _ _ _ _ hsame]
    · exact absurd h ho
    · have hempty : (w id).data = .empty := hbare id h
      rw [owned_put _ _ _ _ (Or.inr (by rw [hempty]; exact hdata)), Function.update_self,
        Option.elim_some, owned, if_neg ho, Option.elim_none, hempty, hzero, Nat.zero_add,
        Nat.add_zero]

theorem Covers.put (accounts : Finset AccountId) (h : Covers w accounts) (hid : id ∈ accounts) :
    Covers (put tokenProgramId w id data) accounts := by
  intro x value hx
  by_cases he : x = id
  · exact he ▸ hid
  · rw [owned_congr _ _ _ _ (put_other tokenProgramId w id x data he)] at hx
    exact h x value hx

end

namespace Tally
variable (T : Tally)

section
variable (w : Accounts) (id : AccountId) (data : Data) (hbare : Bare w)
  (h : MayWrite tokenProgramId (w id) data) (hdata : data ≠ .empty)
include hbare h hdata

theorem total_put (accounts : Finset AccountId) (hid : id ∈ accounts) (d : AccountId) :
    T.total (put tokenProgramId w id data) accounts d + T.held d (w id).data
      = T.total w accounts d + T.held d data := by
  have hone := counted_put w id data (T.held d) rfl hbare h hdata
  have hrest : ∑ x ∈ accounts.erase id, T.heldAt (put tokenProgramId w id data) d x
      = ∑ x ∈ accounts.erase id, T.heldAt w d x := by
    apply Finset.sum_congr rfl
    intro x hx
    rw [heldAt, heldAt, owned_congr _ _ _ _
      (put_other tokenProgramId w id x data (Finset.ne_of_mem_erase hx))]
  rw [total, total, ← Finset.add_sum_erase accounts _ hid,
    ← Finset.add_sum_erase accounts (T.heldAt w d) hid, hrest]
  simp only [heldAt]
  omega

theorem suppliedOf_put (d : AccountId) :
    T.suppliedOf (put tokenProgramId w id data) d + T.recordedAt d id (w id).data
      = T.suppliedOf w d + T.recordedAt d id data := by
  rw [recordedAt, recordedAt]
  split
  · rename_i he
    subst he
    exact counted_put w id data T.recorded rfl hbare h hdata
  · rename_i hne
    rw [suppliedOf, suppliedOf, owned_congr _ _ _ _ (put_other tokenProgramId w id d data
      (Ne.symm hne))]

end

/-- Any larger set of accounts gives the same totals. -/
theorem Balanced.covering {T : Tally} {w : Accounts} (h : T.Balanced w)
    (more : Finset AccountId) :
    ∃ accounts, more ⊆ accounts ∧ Covers w accounts ∧
      ∀ d, T.total w accounts d = T.suppliedOf w d := by
  obtain ⟨accounts, hcovers, htotal⟩ := h
  refine ⟨accounts ∪ more, Finset.subset_union_right,
    fun id data hid => Finset.mem_union_left _ (hcovers id data hid), fun d => ?_⟩
  rw [← htotal d, total, total]
  symm
  apply Finset.sum_subset Finset.subset_union_left
  intro id _ hid
  have hnone : owned tokenProgramId w id = none := by
    cases ho : owned tokenProgramId w id with
    | none => rfl
    | some data => exact absurd (hcovers id data ho) hid
  rw [heldAt, hnone, Option.elim_none]

section
variable {T : Tally} {w : Accounts} (hc : T.Balanced w) (hbare : Bare w)
include hc hbare

/-- One write that changes a balance and the supply alike, if at all. -/
theorem Balanced.put_one (id : AccountId) (data : Data)
    (h : MayWrite tokenProgramId (w id) data) (hdata : data ≠ .empty)
    (hsame : ∀ d, T.held d data + T.recordedAt d id (w id).data
      = T.held d (w id).data + T.recordedAt d id data) :
    T.Balanced (put tokenProgramId w id data) := by
  obtain ⟨accounts, hsub, hcovers, htotal⟩ := hc.covering {id}
  have hid : id ∈ accounts := hsub (Finset.mem_singleton_self id)
  refine ⟨accounts, hcovers.put w id data accounts hid, fun d => ?_⟩
  have h1 := T.total_put w id data hbare h hdata accounts hid d
  have h2 := T.suppliedOf_put w id data hbare h hdata d
  have h3 := htotal d
  have h4 := hsame d
  omega

/-- A fresh account that counts for nothing. -/
theorem Balanced.put_fresh (id : AccountId) (data : Data) (h : w id = default)
    (hdata : data ≠ .empty) (hunits : ∀ d, T.held d data = 0)
    (hsupply : ∀ d, T.recordedAt d id data = 0) : T.Balanced (put tokenProgramId w id data) := by
  refine hc.put_one hbare id data (by rw [h]; exact Or.inr (Or.inr rfl)) hdata fun d => ?_
  rw [h, hunits, hsupply]
  exact congrArg _ (ite_self 0)

/-- Two writes that change the balances and the supply alike. -/
theorem Balanced.put_two (a b : AccountId) (x y : Data) (hab : a ≠ b)
    (ha : MayWrite tokenProgramId (w a) x) (hb : MayWrite tokenProgramId (w b) y)
    (hx : x ≠ .empty) (hy : y ≠ .empty)
    (hsame : ∀ d, T.held d x + T.held d y + T.recordedAt d a (w a).data
        + T.recordedAt d b (w b).data
      = T.held d (w a).data + T.held d (w b).data + T.recordedAt d a x + T.recordedAt d b y) :
    T.Balanced (put tokenProgramId (put tokenProgramId w a x) b y) := by
  obtain ⟨accounts, hsub, hcovers, htotal⟩ := hc.covering {a, b}
  have hma : a ∈ accounts := hsub (Finset.mem_insert_self a {b})
  have hmb : b ∈ accounts := hsub (Finset.mem_insert_of_mem (Finset.mem_singleton_self b))
  have hother : put tokenProgramId w a x b = w b := put_other _ _ _ _ _ hab.symm
  have hb' : MayWrite tokenProgramId (put tokenProgramId w a x b) y := by rwa [hother]
  have hbare' := bare_put w a x hbare ha
  refine ⟨accounts, (hcovers.put w a x accounts hma).put _ b y accounts hmb, fun d => ?_⟩
  have h1 := T.total_put w a x hbare ha hx accounts hma d
  have h2 := T.suppliedOf_put w a x hbare ha hx d
  have h3 := T.total_put _ b y hbare' hb' hy accounts hmb d
  have h4 := T.suppliedOf_put _ b y hbare' hb' hy d
  have h5 := htotal d
  have h6 := hsame d
  rw [hother] at h3 h4
  omega

end

theorem recordedAt_holding (d id : AccountId) (k : Holding) :
    T.recordedAt d id (.tokenHolding k) = 0 := ite_self 0

theorem held_holding (d : AccountId) (k : Holding) : T.held d (.tokenHolding k) = T.units d k := rfl

theorem held_definition (d : AccountId) (x : Definition) : T.held d (.tokenDefinition x) = 0 := rfl

theorem recordedAt_empty (d id : AccountId) : T.recordedAt d id .empty = 0 := ite_self 0

/-- What an account counts for that a credit reads. -/
theorem held_credited (account : Account AccountId Data) (empty holding : Holding)
    (h : Credits account empty holding) (d : AccountId) (hempty : T.units d empty = 0)
    (id : AccountId) :
    T.held d account.data = T.units d holding ∧ T.recordedAt d id account.data = 0 := by
  rcases h with ⟨rfl, rfl⟩ | ⟨-, h⟩
  · rw [hempty]
    exact ⟨rfl, ite_self 0⟩
  · rw [tryFrom_holding] at h
    rw [h]
    exact ⟨rfl, ite_self 0⟩

end Tally

/-- Every token instruction keeps every lawful tally. -/
theorem Transition.balanced (T : Tally) (hT : T.Lawful) (authority ids : List AccountId)
    (instruction : Instruction AccountId) (w w' : Accounts)
    (h : Transition authority ids instruction w w') (hbare : Bare w) (hc : T.Balanced w) :
    T.Balanced w' := by
  have hempty : ∀ id, w id = default → ∀ data, MayWrite tokenProgramId (w id) data := by
    intro id hid data
    rw [hid]
    exact Or.inr (Or.inr rfl)
  have hnew : ∀ y k x held, y ≠ k → w y = default → w k = default →
      (∀ d, T.units d held = T.recordedAt d y (.tokenDefinition x)) →
      T.Balanced (put tokenProgramId (put tokenProgramId w y (definitionData x)) k
        (holdingData held)) := by
    intro y k x held hne hy hk hsame
    refine hc.put_two hbare y k _ _ hne (hempty y hy _) (hempty k hk _) Data.noConfusion
      Data.noConfusion fun d => ?_
    rw [hy, hk, definitionData_eq, holdingData_eq]
    change 0 + T.units d held + T.recordedAt d y .empty + T.recordedAt d k .empty
      = 0 + 0 + T.recordedAt d y (.tokenDefinition x) + T.recordedAt d k (.tokenHolding held)
    rw [T.recordedAt_empty, T.recordedAt_empty, T.recordedAt_holding, hsame d]
  cases h.step with
  | transfer s r n sender recipient sender' recipient' _ hne hs hr hsame hmove hws hwr =>
    rw [tryFrom_holding] at hs
    refine hc.put_two hbare s r _ _ hne hws hwr Data.noConfusion Data.noConfusion fun d => ?_
    obtain ⟨hunits, hsupply⟩ := T.held_credited _ _ _ hr d (hT.zeroizedClone d sender) r
    have hmoved := hT.move _ _ _ _ _ hmove hsame d
    simp only [holdingData_eq, hs, T.recordedAt_holding, hunits, hsupply, T.held_holding]
    omega
  | burn y k n definition definition' holding holding' _ hne hy hk hsame hburn hwy hwk =>
    rw [tryFrom_definition] at hy
    rw [tryFrom_holding] at hk
    refine hc.put_two hbare y k _ _ hne hwy hwk Data.noConfusion Data.noConfusion fun d => ?_
    have hburned := hT.burn _ _ _ _ _ hburn d
    rw [← hsame] at hburned
    simp only [holdingData_eq, definitionData_eq, hy, hk, T.recordedAt_holding, T.held_holding,
      T.held_definition]
    omega
  | mint y k a n _ _ definition definition' holding holding' _ hne _ hy _ _ hk hsame hmint hwy
      hwk =>
    rw [tryFrom_definition] at hy
    refine hc.put_two hbare y k _ _ hne hwy hwk Data.noConfusion Data.noConfusion fun d => ?_
    obtain ⟨hunits, hsupply⟩ := T.held_credited _ _ _ hk d (hT.zeroizedFrom d y definition) k
    have hminted := hT.mint _ _ _ _ _ hmint d
    rw [← hsame] at hminted
    simp only [holdingData_eq, definitionData_eq, hy, T.recordedAt_holding, hunits, hsupply,
      T.held_holding, T.held_definition]
    omega
  | initializeAccount y k definition hfresh =>
    exact hc.put_fresh hbare k _ hfresh Data.noConfusion
      (fun d => hT.zeroizedFrom d y definition) (fun d => T.recordedAt_holding d k _)
  | newFungibleDefinition y k name supply mintAuthority hy hk _ _ hne =>
    exact hnew y k _ _ hne hy hk fun d => hT.fungible d y name supply mintAuthority
  | newDefinitionWithMetadata y k m new metadata definition holding hy hk hm _ _ _ hne hdescribed =>
    simp only [List.nodup_cons, List.mem_cons, List.not_mem_nil, or_false, not_or] at hne
    obtain ⟨⟨hyk, hym⟩, hkm, -⟩ := hne
    have htwo := hnew y k _ _ hyk hy hk (hT.described y m new _ _ hdescribed)
    have hbare' := bare_put _ k (holdingData holding)
      (bare_put w y (definitionData definition) hbare (hempty y hy _))
      (by rw [put_other _ _ _ _ _ (Ne.symm hyk)]; exact hempty k hk _)
    have hm' : put tokenProgramId (put tokenProgramId w y (definitionData definition)) k
        (holdingData holding) m = default := by
      rw [put_other _ _ _ _ _ (Ne.symm hkm), put_other _ _ _ _ _ (Ne.symm hym), hm]
    exact htwo.put_fresh hbare' m _ hm' Data.noConfusion (fun d => rfl) (fun d => ite_self 0)
  | printNft m p y balance balance' _ _ hp hne hm hprinted hwm =>
    rw [tryFrom_holding] at hm
    refine hc.put_two hbare m p _ _ hne hwm (hempty p hp _) Data.noConfusion Data.noConfusion
      fun d => ?_
    rw [hm, hp, holdingData_eq, holdingData_eq]
    change T.units d _ + T.units d _ + _ + T.recordedAt d p .empty = T.units d _ + 0 + _ + _
    rw [hT.print y balance balance' hprinted d, T.recordedAt_holding, T.recordedAt_holding,
      T.recordedAt_holding, T.recordedAt_empty]
  | setAuthority y a new _ _ definition definition' _ howned hy _ _ hrep =>
    rw [tryFrom_definition] at hy
    refine hc.put_one hbare y _ (Or.inr (Or.inl howned)) Data.noConfusion fun d => ?_
    rw [definitionData_eq, hy, Tally.recordedAt, Tally.recordedAt, Tally.recorded, Tally.recorded,
      hT.rotate _ _ _ hrep]
    rfl

theorem Tally.Balanced.of_owned {T : Tally} {w : Accounts} (hc : T.Balanced w) (w' : Accounts)
    (h : owned tokenProgramId w' = owned tokenProgramId w) : T.Balanced w' := by
  simpa only [Balanced, Covers, total, heldAt, suppliedOf, h] using hc

section
variable (T : Tally)

theorem event_balanced (hT : T.Lawful) (platform : Platform) (w : Accounts) (event : Event)
    (h : Bare w ∧ T.Balanced w) :
    Bare (event.apply platform w) ∧ T.Balanced (event.apply platform w) := by
  refine Event.preserves (fun w => Bare w ∧ T.Balanced w) ?_ ?_ ?_ platform w event h
  · rintro authority ids instruction w w' ht ⟨hbare, hc⟩
    exact ⟨hbare.frame _ _ _ ht.frame (by decide),
      ht.balanced T hT authority ids instruction w w' hbare hc⟩
  · rintro program w w' hne hd hf ⟨hbare, hc⟩
    exact ⟨hbare.frame _ _ _ hf hd,
      hc.of_owned _ (owned_frame _ _ _ _ hf hne (by decide))⟩
  · rintro w change ⟨hbare, hc⟩
    exact ⟨hbare.environment w change,
      hc.of_owned _ (owned_environment tokenProgramId w change (by decide))⟩

theorem genesis_balanced (genesis : Genesis) : Bare genesis.world ∧ T.Balanced genesis.world := by
  have hnone : ∀ id, owned tokenProgramId genesis.world id = none := by
    intro id
    rw [owned, if_neg]
    intro he
    exact genesis.unowned id (by rw [he]; decide)
  refine ⟨genesis.bare, ∅, ?_, ?_⟩
  · intro id data h
    rw [hnone] at h
    cases h
  · intro d
    rw [Tally.total, Finset.sum_empty, Tally.suppliedOf, hnone, Option.elim_none]

/-- A lawful tally is balanced in every reachable world. -/
theorem run_balanced (hT : T.Lawful) (platform : Platform) (genesis : Genesis)
    (events : List Event) :
    Bare (run platform genesis.world events) ∧ T.Balanced (run platform genesis.world events) :=
  run_preserves platform (fun w => Bare w ∧ T.Balanced w) (event_balanced T hT platform) _
    (genesis_balanced T genesis) events

end

end LezPrograms.Token
