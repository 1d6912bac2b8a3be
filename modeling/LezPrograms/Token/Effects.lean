import LezPrograms.Lee.Platform
import LezPrograms.Token.Step

/-! # What a token instruction does to one account

Without the authority of an account, the token program can only credit the
holding in it; a definition keeps its shape, and only its mint authority can
raise the supply or rotate the authority. -/

set_option autoImplicit false

namespace LezPrograms.Token
open LezPrograms.Checked LezPrograms.Lee TokenHolding

abbrev Holding := TokenHolding AccountId
abbrev Definition := TokenDefinition AccountId

@[simp] theorem holdingData_eq (holding : Holding) :
    (holdingData holding : Data) = .tokenHolding holding := rfl

@[simp] theorem definitionData_eq (definition : Definition) :
    (definitionData definition : Data) = .tokenDefinition definition := rfl

@[simp] theorem metadataData_eq (metadata : TokenMetadata AccountId) :
    (metadataData metadata : Data) = .tokenMetadata metadata := rfl

theorem put_data (program : AccountId) (w : Accounts) (id x : AccountId) (data : Data) :
    (put program w id data x).data = if x = id then data else (w x).data := by
  split
  · rename_i h
    rw [h, put_same, writeData_data]
  · rename_i h
    rw [put_other _ _ _ _ _ h]

/-- A credit to an account that holds something starts from what it holds. -/
theorem Credits.eq_of_data (account : Account AccountId Data) (empty holding held : Holding)
    (hc : Credits account empty holding) (hd : account.data = .tokenHolding held) :
    holding = held := by
  rcases hc with ⟨rfl, -⟩ | ⟨-, hc⟩
  · cases hd
  · rw [tryFrom_holding, hd] at hc
    cases hc
    rfl

theorem data_ne_default (account : Account AccountId Data) (h : account.data ≠ .empty) :
    account ≠ default := by
  rintro rfl
  exact h rfl

def credit (x : AccountId) (ids : List AccountId) (instruction : Instruction AccountId) : ℕ :=
  match instruction, ids with
  | .transfer n, [_, r] => if x = r then n.val else 0
  | .mint n, [_, h] => if x = h then n.val else 0
  | .mintWithAuthority n, [_, h, _] => if x = h then n.val else 0
  | _, _ => 0

def debit (x : AccountId) (ids : List AccountId) (instruction : Instruction AccountId) : ℕ :=
  match instruction, ids with
  | .transfer n, [s, _] => if x = s then n.val else 0
  | .burn n, [_, h] => if x = h then n.val else 0
  | .printNft, [m, _] => if x = m then 1 else 0
  | _, _ => 0

section
variable (self : AccountId) (authority ids : List AccountId) (w w' : Accounts)
  (instruction : Instruction AccountId) (h : Step self authority w ids instruction w')
include h

/-- Only the key of a holding lets an instruction debit it. -/
theorem Step.debit_eq_zero (x : AccountId) (hx : x ∉ authority) : debit x ids instruction = 0 := by
  have hne : ∀ y ∈ authority, x ≠ y := fun y hy he => hx (he ▸ hy)
  cases h with
  | transfer s _ _ _ _ _ _ ha => exact if_neg (hne s ha)
  | burn _ k _ _ _ _ _ ha => exact if_neg (hne k ha)
  | mint _ _ _ _ _ _ _ _ _ _ hcalled => rcases hcalled with ⟨rfl, rfl, -⟩ | ⟨rfl, rfl⟩ <;> rfl
  | initializeAccount => rfl
  | newFungibleDefinition => rfl
  | newDefinitionWithMetadata => rfl
  | printNft m _ _ _ _ ha => exact if_neg (hne m ha)
  | setAuthority _ _ _ _ _ _ _ hcalled => rcases hcalled with ⟨rfl, rfl, -⟩ | ⟨rfl, rfl⟩ <;> rfl

/-- The balance of a holding after an instruction. -/
theorem Step.holding_flows (x : AccountId) (held : Holding) (hd : (w x).data = .tokenHolding held) :
    ∃ held' : Holding, (w' x).data = .tokenHolding held' ∧
      held'.definitionId = held.definitionId ∧ held'.kind = held.kind ∧
      held'.units + debit x ids instruction = held.units + credit x ids instruction := by
  have hne : w x ≠ default := data_ne_default _ (by rw [hd]; exact Data.noConfusion)
  have hsame : ∃ held' : Holding, (w x).data = .tokenHolding held' ∧
      held'.definitionId = held.definitionId ∧ held'.kind = held.kind ∧
      held'.units + 0 = held.units + 0 := ⟨held, hd, rfl, rfl, rfl⟩
  have hfresh : ∀ y, w y = default → x ≠ y := by
    rintro y hy rfl
    exact hne hy
  have hdefinition : ∀ (y : AccountId) (definition : Definition),
      tryFrom (w y).data = some definition → x ≠ y := by
    rintro y definition hy rfl
    rw [tryFrom_definition, hd] at hy
    cases hy
  cases h with
  | transfer s r n sender recipient sender' recipient' ha hsr hs hr hsame' hmove _ _ =>
    obtain ⟨⟨h1, h2, h3⟩, ⟨h4, h5, h6⟩, -⟩ := moveBalance_spec _ _ _ _ _ hmove
    simp only [put_data, debit, credit]
    by_cases hxr : x = r
    · subst hxr
      obtain rfl := hr.eq_of_data _ _ _ _ hd
      rw [if_pos rfl, if_neg hsr.symm, if_pos rfl]
      exact ⟨recipient', rfl, h4, h5, by omega⟩
    · rw [if_neg hxr, if_neg hxr]
      by_cases hxs : x = s
      · subst hxs
        rw [tryFrom_holding, hd] at hs
        cases hs
        rw [if_pos rfl, if_pos rfl]
        exact ⟨sender', rfl, h1, h2, by omega⟩
      · rw [if_neg hxs, if_neg hxs]
        exact hsame
  | burn d k n definition definition' holding holding' ha hdk hdef hhold _ hburn _ _ =>
    simp only [put_data, debit, credit]
    by_cases hxk : x = k
    · subst hxk
      rw [tryFrom_holding, hd] at hhold
      cases hhold
      obtain ⟨-, h1, h2, h3⟩ := burnBalance_spec _ _ _ _ _ hburn
      rw [if_pos rfl, if_pos rfl]
      exact ⟨holding', rfl, h1, h2, h3⟩
    · rw [if_neg hxk, if_neg hxk, if_neg (hdefinition d definition hdef)]
      exact hsame
  | mint d k a n _ _ definition definition' holding holding' hcalled hdk _ hdef _ _ hr _ hmint _ _ =>
    obtain ⟨-, h1, h2, h3⟩ := mintBalance_spec _ _ _ _ _ hmint
    have hflow : debit x ids instruction = 0 ∧
        credit x ids instruction = if x = k then n.val else 0 := by
      rcases hcalled with ⟨rfl, rfl, -⟩ | ⟨rfl, rfl⟩ <;> exact ⟨rfl, rfl⟩
    rw [hflow.1, hflow.2]
    simp only [put_data]
    by_cases hxk : x = k
    · subst hxk
      obtain rfl := hr.eq_of_data _ _ _ _ hd
      rw [if_pos rfl, if_pos rfl]
      exact ⟨holding', rfl, h1, h2, by omega⟩
    · rw [if_neg hxk, if_neg hxk, if_neg (hdefinition d definition hdef)]
      exact hsame
  | initializeAccount d k definition hk =>
    simp only [put_data, if_neg (hfresh k hk)]
    exact hsame
  | newFungibleDefinition d k name supply mintAuthority hfd hfk =>
    simp only [put_data, if_neg (hfresh k hfk), if_neg (hfresh d hfd)]
    exact hsame
  | newDefinitionWithMetadata d k m new metadata definition holding hfd hfk hfm =>
    simp only [put_data, if_neg (hfresh k hfk), if_neg (hfresh d hfd), if_neg (hfresh m hfm)]
    exact hsame
  | printNft m p d balance balance' _ _ hp hmp hread hprinted _ =>
    simp only [put_data, if_neg (hfresh p hp), debit, credit]
    by_cases hxm : x = m
    · subst hxm
      rw [tryFrom_holding, hd] at hread
      cases hread
      rw [if_pos rfl, if_pos rfl]
      exact ⟨_, rfl, rfl, rfl, hprinted⟩
    · rw [if_neg hxm, if_neg hxm]
      exact hsame
  | setAuthority d a new _ _ definition definition' hcalled _ hdef _ _ _ =>
    have hflow : debit x ids instruction = 0 ∧ credit x ids instruction = 0 := by
      rcases hcalled with ⟨rfl, rfl, -⟩ | ⟨rfl, rfl⟩ <;> exact ⟨rfl, rfl⟩
    rw [hflow.1, hflow.2]
    simp only [put_data, if_neg (hdefinition d definition hdef)]
    exact hsame

/-- A holding that was not authorized keeps its token and its variant and loses nothing. -/
theorem Step.holding_kept (x : AccountId) (hx : x ∉ authority) (held : Holding)
    (hd : (w x).data = .tokenHolding held) :
    ∃ held' : Holding, (w' x).data = .tokenHolding held' ∧
      held'.definitionId = held.definitionId ∧ held'.kind = held.kind ∧
      held.units ≤ held'.units := by
  obtain ⟨held', h1, h2, h3, h4⟩ := h.holding_flows self authority ids w w' instruction x held hd
  rw [h.debit_eq_zero self authority ids w w' instruction x hx] at h4
  exact ⟨held', h1, h2, h3, by omega⟩

end

def burnedOf (x : AccountId) (ids : List AccountId) (instruction : Instruction AccountId) : ℕ :=
  match instruction, ids with
  | .burn n, [d, _] => if d = x then n.val else 0
  | _, _ => 0

theorem burnBalance_shape (d d' : Definition) (h h' : Holding) (n : U128)
    (hb : burnBalance d h n = .ok (d', h')) : d'.isFungible ↔ d.isFungible := by
  unfold burnBalance at hb
  split at hb
  · simp only [bind_eq_ok, expect_eq_ok, pure_eq_ok, Prod.mk.injEq] at hb
    obtain ⟨_, _, _, _, rfl, -⟩ := hb
    exact Iff.rfl
  · simp only [bind_eq_ok, expect_eq_ok, pure_eq_ok, Prod.mk.injEq] at hb
    obtain ⟨_, _, _, _, rfl, -⟩ := hb
    exact Iff.rfl
  · simp only [bind_eq_ok, ensure_eq_ok, exists_const, expect_eq_ok, pure_eq_ok,
      Prod.mk.injEq] at hb
    obtain ⟨_, _, _, _, rfl, -⟩ := hb
    exact Iff.rfl
  · exact absurd hb (error_ne_ok _ _)

/-- What may happen to a definition: `burned` leaves its supply, and without its mint
authority nothing else changes. -/
structure DefinitionChange (authority : List AccountId) (burned : ℕ) (d d' : Definition) :
    Prop where
  shape : d'.isFungible ↔ d.isFungible
  guarded : (∀ a, d.mintAuthority = some a → a ∉ authority) →
    d'.mintAuthority = d.mintAuthority ∧ d'.supply + burned = d.supply

theorem DefinitionChange.refl (authority : List AccountId) (d : Definition) :
    DefinitionChange authority 0 d d := ⟨Iff.rfl, fun _ => ⟨rfl, rfl⟩⟩

theorem replaceAuthority_shape (d d' : Definition) (new : Option AccountId)
    (h : replaceAuthority d new = .ok d') : d'.isFungible ↔ d.isFungible := by
  unfold replaceAuthority at h
  split at h
  · simp only [bind_eq_ok, ensure_eq_ok, exists_const, pure_eq_ok] at h
    obtain ⟨-, rfl⟩ := h
    exact Iff.rfl
  · exact absurd h (error_ne_ok _ _)

theorem mintBalance_shape (d d' : Definition) (h h' : Holding) (n : U128)
    (hm : mintBalance d h n = .ok (d', h')) : d'.isFungible ↔ d.isFungible := by
  unfold mintBalance at hm
  split at hm
  · simp only [bind_eq_ok, expect_eq_ok, pure_eq_ok, Prod.mk.injEq] at hm
    obtain ⟨_, _, _, _, rfl, -⟩ := hm
    exact Iff.rfl
  · exact absurd hm (error_ne_ok _ _)
  · exact absurd hm (error_ne_ok _ _)
  · exact absurd hm (error_ne_ok _ _)

/-- A definition stays a definition; the instruction changes it only as its authority and
the burns allow. -/
theorem Step.definition_kept (self : AccountId) (authority ids : List AccountId)
    (w w' : Accounts) (instruction : Instruction AccountId)
    (h : Step self authority w ids instruction w') (x : AccountId) (d : Definition)
    (hd : (w x).data = .tokenDefinition d) :
    ∃ d', (w' x).data = .tokenDefinition d' ∧
      DefinitionChange authority (burnedOf x ids instruction) d d' := by
  have hne : w x ≠ default := data_ne_default _ (by rw [hd]; exact Data.noConfusion)
  have hsame : ∃ d', (w x).data = .tokenDefinition d' ∧ DefinitionChange authority 0 d d' :=
    ⟨d, hd, DefinitionChange.refl authority d⟩
  have hholding : ∀ (y : AccountId) (empty holding : Holding),
      Credits (w y) empty holding → x ≠ y := by
    rintro y empty holding (⟨hc, -⟩ | ⟨-, hc⟩) rfl
    · exact hne hc
    · rw [tryFrom_holding, hd] at hc
      cases hc
  have hread : ∀ (y : AccountId) (holding : Holding),
      tryFrom (w y).data = some holding → x ≠ y := by
    rintro y holding hc rfl
    rw [tryFrom_holding, hd] at hc
    cases hc
  have hfresh : ∀ y, w y = default → x ≠ y := by
    rintro y hy rfl
    exact hne hy
  cases h with
  | transfer s r n sender recipient sender' recipient' _ _ hs hr _ _ _ _ =>
    simpa only [put_data, burnedOf, if_neg (hread s _ hs), if_neg (hholding r _ _ hr)] using hsame
  | burn y k n definition definition' holding holding' _ _ hdef hk _ hburn _ _ =>
    simp only [put_data, if_neg (hread k _ hk), burnedOf]
    by_cases hxy : x = y
    · subst hxy
      rw [tryFrom_definition, hd] at hdef
      cases hdef
      obtain ⟨⟨h1, h2⟩, -⟩ := burnBalance_spec _ _ _ _ _ hburn
      rw [if_pos rfl, if_pos rfl]
      exact ⟨definition', rfl, burnBalance_shape _ _ _ _ _ hburn, fun _ => ⟨h2, h1⟩⟩
    · rw [if_neg hxy, if_neg (Ne.symm hxy)]
      exact hsame
  | mint y k a n _ _ definition definition' holding holding' hcalled _ _ hdef ha hcur hk _ hmint =>
    have hzero : burnedOf x ids instruction = 0 := by
      rcases hcalled with ⟨rfl, rfl, -⟩ | ⟨rfl, rfl⟩ <;> rfl
    simp only [put_data, if_neg (hholding k _ _ hk), hzero]
    split
    · rename_i hxy
      subst hxy
      rw [tryFrom_definition, hd] at hdef
      cases hdef
      exact ⟨definition', rfl, mintBalance_shape _ _ _ _ _ hmint,
        fun hguard => absurd ha (hguard a hcur)⟩
    · exact hsame
  | initializeAccount y k definition hk _ _ _ _ =>
    simpa only [put_data, burnedOf, if_neg (hfresh k hk)] using hsame
  | newFungibleDefinition y k name supply mintAuthority hy hk _ _ _ _ =>
    simpa only [put_data, burnedOf, if_neg (hfresh y hy), if_neg (hfresh k hk)] using hsame
  | newDefinitionWithMetadata y k m new metadata definition holding hy hk hm _ _ _ _ _ =>
    simpa only [put_data, burnedOf, if_neg (hfresh y hy), if_neg (hfresh k hk), if_neg (hfresh m hm)]
      using hsame
  | printNft m p y balance balance' _ _ hp _ hm _ _ =>
    simpa only [put_data, burnedOf, if_neg (hread m _ hm), if_neg (hfresh p hp)] using hsame
  | setAuthority y a new _ _ definition definition' hcalled _ hdef ha hcur hrep =>
    have hzero : burnedOf x ids instruction = 0 := by
      rcases hcalled with ⟨rfl, rfl, -⟩ | ⟨rfl, rfl⟩ <;> rfl
    simp only [put_data, hzero]
    split
    · rename_i hxy
      subst hxy
      rw [tryFrom_definition, hd] at hdef
      cases hdef
      exact ⟨definition', rfl, replaceAuthority_shape _ _ _ hrep,
        fun hguard => absurd ha (hguard a hcur)⟩
    · exact hsame

structure Transition (authority ids : List AccountId) (instruction : Instruction AccountId)
    (w w' : Accounts) : Prop where
  step : Step tokenProgramId authority w ids instruction w'
  frame : Frame tokenProgramId w w'

theorem Transition.transfer (authority : List AccountId) (s r : AccountId) (n : U128)
    (w w' : Accounts) (h : Transition authority [s, r] (.transfer n) w w') :
    ∃ sender recipient sender' recipient' : Holding,
      (s ∈ authority ∧ s ≠ r ∧ ∀ x, x ≠ s → x ≠ r → w' x = w x) ∧
      ((w s).data = .tokenHolding sender ∧ (w' s).data = .tokenHolding sender' ∧
        sender'.definitionId = sender.definitionId ∧ sender'.kind = sender.kind ∧
        sender'.units + n.val = sender.units) ∧
      (((w r = default ∧ recipient = sender.zeroizedCloneFrom) ∨
          (w r).data = .tokenHolding recipient) ∧
        (w' r).data = .tokenHolding recipient' ∧
        recipient'.definitionId = sender.definitionId ∧ recipient'.kind = sender.kind ∧
        recipient.definitionId = sender.definitionId ∧ recipient.kind = sender.kind ∧
        recipient'.units = recipient.units + n.val) := by
  cases h.step with
  | transfer _ _ _ sender recipient sender' recipient' ha hne hs hr hsame hmove _ _ =>
    obtain ⟨⟨h1, h2, h3⟩, ⟨h4, h5, h6⟩, hk⟩ := moveBalance_spec _ _ _ _ _ hmove
    refine ⟨sender, recipient, sender', recipient', ⟨ha, hne, ?_⟩, ⟨?_, ?_, h1, h2, h3⟩, ?_, ?_,
      h4.trans hsame.symm, h5.trans hk.symm, hsame.symm, hk.symm, h6⟩
    · intro x hxs hxr
      rw [put_other _ _ _ _ _ hxr, put_other _ _ _ _ _ hxs]
    · rwa [tryFrom_holding] at hs
    · rw [put_data, if_neg hne, put_data, if_pos rfl, holdingData_eq]
    · rcases hr with hr | ⟨-, hr⟩
      · exact Or.inl hr
      · exact Or.inr (by rwa [tryFrom_holding] at hr)
    · rw [put_data, if_pos rfl, holdingData_eq]
  | mint _ _ _ _ _ _ _ _ _ _ hcalled => rcases hcalled with ⟨-, h, -⟩ | ⟨-, h⟩ <;> cases h
  | setAuthority _ _ _ _ _ _ _ hcalled => rcases hcalled with ⟨-, h, -⟩ | ⟨-, h⟩ <;> cases h

theorem Transition.burn (authority : List AccountId) (d k : AccountId) (n : U128)
    (w w' : Accounts) (h : Transition authority [d, k] (.burn n) w w') :
    ∃ (definition definition' : Definition) (holding holding' : Holding),
      (k ∈ authority ∧ d ≠ k ∧ ∀ x, x ≠ d → x ≠ k → w' x = w x) ∧
      ((w d).data = .tokenDefinition definition ∧ (w' d).data = .tokenDefinition definition' ∧
        definition'.mintAuthority = definition.mintAuthority ∧
        (definition'.isFungible ↔ definition.isFungible) ∧
        definition'.supply + n.val = definition.supply) ∧
      ((w k).data = .tokenHolding holding ∧ (w' k).data = .tokenHolding holding' ∧
        holding.definitionId = d ∧ holding'.definitionId = d ∧ holding'.kind = holding.kind ∧
        holding'.units + n.val = holding.units) := by
  cases h.step with
  | burn _ _ _ definition definition' holding holding' ha hne hdef hk hsame hburn _ _ =>
    obtain ⟨⟨h1, h2⟩, h3, h4, h5⟩ := burnBalance_spec _ _ _ _ _ hburn
    rw [tryFrom_definition] at hdef
    rw [tryFrom_holding] at hk
    refine ⟨definition, definition', holding, holding', ⟨ha, hne, ?_⟩,
      ⟨hdef, ?_, h2, burnBalance_shape _ _ _ _ _ hburn, h1⟩, hk, ?_, hsame.symm,
      h3.trans hsame.symm, h4, h5⟩
    · intro x hxd hxk
      rw [put_other _ _ _ _ _ hxk, put_other _ _ _ _ _ hxd]
    · rw [put_data, if_neg hne, put_data, if_pos rfl, definitionData_eq]
    · rw [put_data, if_pos rfl, holdingData_eq]
  | mint _ _ _ _ _ _ _ _ _ _ hcalled => rcases hcalled with ⟨-, h, -⟩ | ⟨-, h⟩ <;> cases h
  | setAuthority _ _ _ _ _ _ _ hcalled => rcases hcalled with ⟨-, h, -⟩ | ⟨-, h⟩ <;> cases h

theorem Transition.mint (authority : List AccountId) (d k : AccountId) (n : U128)
    (w w' : Accounts) (h : Transition authority [d, k] (.mint n) w w') :
    ∃ (definition definition' : Definition) (holding holding' : Holding),
      (d ∈ authority ∧ d ≠ k ∧ (w d).programOwner = tokenProgramId ∧
        ∀ x, x ≠ d → x ≠ k → w' x = w x) ∧
      ((w d).data = .tokenDefinition definition ∧ (w' d).data = .tokenDefinition definition' ∧
        definition'.mintAuthority = definition.mintAuthority ∧
        (definition'.isFungible ↔ definition.isFungible) ∧
        definition'.supply = definition.supply + n.val) ∧
      (((w k = default ∧ holding = .zeroizedFromDefinition d definition) ∨
          (w k).data = .tokenHolding holding) ∧
        (w' k).data = .tokenHolding holding' ∧ holding.definitionId = d ∧
        holding'.definitionId = d ∧ holding'.kind = holding.kind ∧
        holding'.units = holding.units + n.val) := by
  cases h.step with
  | mint _ _ a m _ _ definition definition' holding holding' hcalled hne howned hdef ha _ hk hsame
      hmint _ _ =>
    rcases hcalled with ⟨hids, hi, rfl⟩ | ⟨-, hi⟩
    · cases hids
      cases hi
      obtain ⟨⟨h1, h2⟩, h3, h4, h5⟩ := mintBalance_spec _ _ _ _ _ hmint
      rw [tryFrom_definition] at hdef
      refine ⟨definition, definition', holding, holding', ⟨ha, hne, howned, ?_⟩,
        ⟨hdef, ?_, h2, mintBalance_shape _ _ _ _ _ hmint, h1⟩, ?_, ?_, hsame.symm,
        h3.trans hsame.symm, h4, h5⟩
      · intro x hxd hxk
        rw [put_other _ _ _ _ _ hxk, put_other _ _ _ _ _ hxd]
      · rw [put_data, if_neg hne, put_data, if_pos rfl, definitionData_eq]
      · rcases hk with hk | ⟨-, hk⟩
        · exact Or.inl hk
        · exact Or.inr (by rwa [tryFrom_holding] at hk)
      · rw [put_data, if_pos rfl, holdingData_eq]
    · cases hi
  | setAuthority _ _ _ _ _ _ _ hcalled => rcases hcalled with ⟨-, h, -⟩ | ⟨-, h⟩ <;> cases h

theorem Transition.initializeAccount (authority : List AccountId) (d k : AccountId)
    (w w' : Accounts) (h : Transition authority [d, k] .initializeAccount w w') :
    ∃ definition : Definition, (w d).data = .tokenDefinition definition ∧
      (w d).programOwner = tokenProgramId ∧ d ≠ k ∧ w k = default ∧
      (w' k).data = .tokenHolding (.zeroizedFromDefinition d definition) ∧
      ∀ x, x ≠ k → w' x = w x := by
  cases h.step with
  | initializeAccount _ _ definition hfresh _ hne howned hdef =>
    rw [tryFrom_definition] at hdef
    refine ⟨definition, hdef, howned, hne, hfresh, ?_, ?_⟩
    · rw [put_data, if_pos rfl, holdingData_eq]
    · intro x hx
      rw [put_other _ _ _ _ _ hx]
  | mint _ _ _ _ _ _ _ _ _ _ hcalled => rcases hcalled with ⟨-, h, -⟩ | ⟨-, h⟩ <;> cases h
  | setAuthority _ _ _ _ _ _ _ hcalled => rcases hcalled with ⟨-, h, -⟩ | ⟨-, h⟩ <;> cases h

theorem Transition.newFungibleDefinition (authority : List AccountId) (d k : AccountId)
    (name : String) (supply : U128) (mintAuthority : Option AccountId) (w w' : Accounts)
    (h : Transition authority [d, k] (.newFungibleDefinition name supply mintAuthority) w w') :
    (d ≠ k ∧ w d = default ∧ w k = default ∧ ∀ x, x ≠ d → x ≠ k → w' x = w x) ∧
      (w' d).data = .tokenDefinition (.fungible name supply none mintAuthority) ∧
      (w' k).data = .tokenHolding (.fungible d supply) := by
  cases h.step with
  | newFungibleDefinition _ _ _ _ _ hd hk _ _ hne _ =>
    refine ⟨⟨hne, hd, hk, ?_⟩, ?_, ?_⟩
    · intro x hxd hxk
      rw [put_other _ _ _ _ _ hxk, put_other _ _ _ _ _ hxd]
    · rw [put_data, if_neg hne, put_data, if_pos rfl, definitionData_eq]
    · rw [put_data, if_pos rfl, holdingData_eq]
  | mint _ _ _ _ _ _ _ _ _ _ hcalled => rcases hcalled with ⟨-, h, -⟩ | ⟨-, h⟩ <;> cases h
  | setAuthority _ _ _ _ _ _ _ hcalled => rcases hcalled with ⟨-, h, -⟩ | ⟨-, h⟩ <;> cases h

end LezPrograms.Token
