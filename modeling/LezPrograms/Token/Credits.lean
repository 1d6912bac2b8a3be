import LezPrograms.Lee.Footprint
import LezPrograms.Token.Balances

/-! # Credits without consent

A transfer or a mint may create the holding that it credits, whoever holds the
key of its address. Every other way to create an account needs that key. -/

set_option autoImplicit false

namespace LezPrograms.Token
open LezPrograms.Checked LezPrograms.Lee

def credited (ids : List AccountId) (instruction : Instruction AccountId) : List AccountId :=
  match instruction, ids with
  | .transfer _, [_, r] => [r]
  | .mint _, [_, h] => [h]
  | .mintWithAuthority _, [_, h, _] => [h]
  | _, _ => []

def TokenData (data : Data) : Prop :=
  (∃ held : Holding, data = .tokenHolding held) ∨ ∃ d : Definition, data = .tokenDefinition d

section
variable (authority ids : List AccountId) (instruction : Instruction AccountId) (w w' : Accounts)
  (h : Step tokenProgramId authority w ids instruction w')
include h

/-- An instruction changes holdings, definitions, and fresh accounts that it may create. -/
theorem Step.touched (x : AccountId) (hx : w' x ≠ w x) :
    TokenData (w x).data ∨
      (w x = default ∧ (x ∈ authority ∨ x ∈ credited ids instruction)) := by
  have hholding : ∀ held : Holding, tryFrom (w x).data = some held → TokenData (w x).data :=
    fun held hh => Or.inl ⟨held, (tryFrom_holding _ _).mp hh⟩
  have hdefinition : ∀ d : Definition, tryFrom (w x).data = some d → TokenData (w x).data :=
    fun d hd => Or.inr ⟨d, (tryFrom_definition _ _).mp hd⟩
  have hput : ∀ (v : Accounts) (id : AccountId) (data : Data), put tokenProgramId v id data x ≠ w x →
      x = id ∨ v x ≠ w x := by
    intro v id data hne
    by_cases hid : x = id
    · exact Or.inl hid
    · rw [put_other _ _ _ _ _ hid] at hne
      exact Or.inr hne
  have hend : w x ≠ w x → TokenData (w x).data ∨
      (w x = default ∧ (x ∈ authority ∨ x ∈ credited ids instruction)) := fun hne => absurd rfl hne
  cases h with
  | transfer s r n sender recipient sender' recipient' _ _ hs hr _ _ _ _ =>
    rcases hput _ _ _ hx with rfl | hx
    · rcases hr with ⟨hr, -⟩ | ⟨-, hr⟩
      · exact Or.inr ⟨hr, Or.inr (List.mem_singleton_self _)⟩
      · exact Or.inl (hholding _ hr)
    · rcases hput _ _ _ hx with rfl | hx
      · exact Or.inl (hholding _ hs)
      · exact hend hx
  | burn d k n definition definition' holding holding' _ _ hd hk =>
    rcases hput _ _ _ hx with rfl | hx
    · exact Or.inl (hholding _ hk)
    · rcases hput _ _ _ hx with rfl | hx
      · exact Or.inl (hdefinition _ hd)
      · exact hend hx
  | mint d k a n _ _ definition definition' holding holding' hcalled _ _ hd _ _ hk =>
    have hcredited : k ∈ credited ids instruction := by
      rcases hcalled with ⟨rfl, rfl, -⟩ | ⟨rfl, rfl⟩ <;> exact List.mem_singleton_self _
    rcases hput _ _ _ hx with rfl | hx
    · rcases hk with ⟨hk, -⟩ | ⟨-, hk⟩
      · exact Or.inr ⟨hk, Or.inr hcredited⟩
      · exact Or.inl (hholding _ hk)
    · rcases hput _ _ _ hx with rfl | hx
      · exact Or.inl (hdefinition _ hd)
      · exact hend hx
  | initializeAccount d k definition hfresh ha =>
    rcases hput _ _ _ hx with rfl | hx
    · exact Or.inr ⟨hfresh, Or.inl ha⟩
    · exact hend hx
  | newFungibleDefinition d k name supply mintAuthority hd hk had hak =>
    rcases hput _ _ _ hx with rfl | hx
    · exact Or.inr ⟨hk, Or.inl hak⟩
    · rcases hput _ _ _ hx with rfl | hx
      · exact Or.inr ⟨hd, Or.inl had⟩
      · exact hend hx
  | newDefinitionWithMetadata d k m new metadata definition holding hd hk hm had hak ham =>
    rcases hput _ _ _ hx with rfl | hx
    · exact Or.inr ⟨hm, Or.inl ham⟩
    · rcases hput _ _ _ hx with rfl | hx
      · exact Or.inr ⟨hk, Or.inl hak⟩
      · rcases hput _ _ _ hx with rfl | hx
        · exact Or.inr ⟨hd, Or.inl had⟩
        · exact hend hx
  | printNft m p d balance balance' _ hap hfresh _ hm =>
    rcases hput _ _ _ hx with rfl | hx
    · exact Or.inr ⟨hfresh, Or.inl hap⟩
    · rcases hput _ _ _ hx with rfl | hx
      · exact Or.inl (hholding _ hm)
      · exact hend hx
  | setAuthority d a new _ _ definition definition' _ _ hd =>
    rcases hput _ _ _ hx with rfl | hx
    · exact Or.inl (hdefinition _ hd)
    · exact hend hx

/-- An account stays fresh when its key takes no part and nobody credits it. -/
theorem Step.fresh_kept (x : AccountId) (hx : w x = default) (ha : x ∉ authority)
    (hc : x ∉ credited ids instruction) : w' x = default := by
  by_contra hne
  rcases h.touched authority ids instruction w w' x (fun he => hne (he.trans hx)) with
    (⟨held, hd⟩ | ⟨d, hd⟩) | ⟨-, hm | hm⟩
  · rw [hx] at hd
    cases hd
  · rw [hx] at hd
    cases hd
  · exact ha hm
  · exact hc hm

/-- What other programs keep in their accounts stays as it is. -/
theorem Step.others_kept (x : AccountId) (hx : w x ≠ default) (hd : ¬TokenData (w x).data) :
    w' x = w x := by
  by_contra hne
  rcases h.touched authority ids instruction w w' x hne with hd' | ⟨hx', -⟩
  · exact hd hd'
  · exact hx hx'

end

/-- A fresh account becomes the holding that the token program writes. -/
theorem holdingAt_created (w : Accounts) (k : AccountId) (held : Holding) (h : w k = default) :
    HoldingAt (put tokenProgramId w k (.tokenHolding held)) k held := by
  refine (owned_eq_some _ _ _ _).mpr ⟨?_, by rw [put_same, writeData_data]⟩
  rw [put_same]
  refine writeData_owner_of_ne _ _ _ ?_
  rw [h]
  exact Data.noConfusion

section
variable (tickMath : TwapOracle.TickMath) (depth : ℕ) (w : Accounts) (authority : List AccountId)
  (call : ChainedCall) (hp : call.programId = tokenProgramId)
include hp

theorem invoke_token_of_main (instruction : Instruction AccountId)
    (hi : call.instruction = .token instruction) (hn : call.accountIds.Nodup)
    (diffs : List StateDiff)
    (hm : Token.main tokenProgramId (call.accountIds.map (view w authority)) instruction = .ok diffs)
    (w' : Accounts) (ha : applyDiffs tokenProgramId w diffs = .ok w') :
    invoke tickMath (depth + 1) w authority call = .ok w' := by
  have hexecute : execute call.programId w authority call.accountIds
      (dispatch tickMath (blockTimestamp w) call.programId (.token instruction))
      = .ok (w', []) := by
    rw [execute_eq_ok]
    refine ⟨hn, diffs, ?_, hp ▸ ha⟩
    simp only [dispatch, hp, bind_eq_ok, ensure_eq_ok, exists_const, true_and, pure_eq_ok]
    exact ⟨diffs, hm, rfl⟩
  rw [invoke_token tickMath depth w authority call instruction hi, hexecute]
  rfl

theorem invoke_initializeAccount (d k : AccountId) (hids : call.accountIds = [d, k])
    (hi : call.instruction = .token .initializeAccount) (definition : Definition)
    (hd : DefinitionAt w d definition) (hk : w k = default) (hak : k ∈ authority) :
    invoke tickMath (depth + 1) w authority call
      = .ok (put tokenProgramId w k
        (.tokenHolding (.zeroizedFromDefinition d definition))) := by
  have hne : d ≠ k := by
    rintro rfl
    have hdata := hd.data
    rw [hk] at hdata
    cases hdata
  refine invoke_token_of_main tickMath depth w authority call hp _ hi (by simp [hids, hne])
    [.unchanged (view w authority d), .new (view w authority k)
      (.tokenHolding (.zeroizedFromDefinition d definition))] ?_ _ ?_
  · rw [hids]
    simp only [List.map_cons, List.map_nil, Token.main, initializeAccount, bind_eq_ok, ensure_eq_ok,
      exists_const, expect_eq_ok, pure_eq_ok, tryFrom_definition]
    simp only [view_account, view_isAuthorized]
    exact ⟨hk, hak, hd.owner, definition, hd.data, rfl⟩
  · simp only [applyDiffs_unchanged, applyDiffs_new, view_accountId, applyDiffs_nil, and_true]
    exact Or.inr (Or.inr (by rw [hk]; rfl))

/-- A transfer between fungible holdings. -/
theorem invoke_transfer (s r : AccountId) (amount : U128) (hids : call.accountIds = [s, r])
    (hi : call.instruction = .token (.transfer amount)) (token : AccountId) (a b a' b' : U128)
    (hs : HoldingAt w s (.fungible token a)) (hr : HoldingAt w r (.fungible token b))
    (hne : s ≠ r) (has : s ∈ authority) (hsub : a'.val + amount.val = a.val)
    (hadd : b'.val = b.val + amount.val) :
    invoke tickMath (depth + 1) w authority call
      = .ok (put tokenProgramId (put tokenProgramId w s (.tokenHolding (.fungible token a'))) r
        (.tokenHolding (.fungible token b'))) := by
  refine invoke_token_of_main tickMath depth w authority call hp _ hi (by simp [hids, hne])
    [.new (view w authority s) (.tokenHolding (.fungible token a')),
      .new (view w authority r) (.tokenHolding (.fungible token b'))] ?_ _ ?_
  · rw [hids]
    have hcredit : creditedHolding (w r) (TokenHolding.fungible token a).zeroizedCloneFrom
        "Invalid recipient data" = .ok (.fungible token b) :=
      (creditedHolding_eq_ok _ _ _ _).mpr (Or.inr ⟨data_ne_default _ (by
        rw [hr.data]
        exact Data.noConfusion), (tryFrom_holding _ _).mpr hr.data⟩)
    simp only [List.map_cons, List.map_nil, Token.main, transfer, bind_eq_ok, ensure_eq_ok,
      exists_const, expect_eq_ok, pure_eq_ok, tryFrom_holding, view_account, view_isAuthorized,
      Prod.exists]
    refine ⟨has, _, hs.data, _, hcredit, rfl, .fungible token a', .fungible token b', ?_, rfl⟩
    simp only [moveBalance, bind_eq_ok, expect_eq_ok, Unsigned.checkedSub_eq_some,
      Unsigned.checkedAdd_eq_some, pure_eq_ok]
    exact ⟨a', hsub, b', hadd, rfl⟩
  · simp only [applyDiffs_new, view_accountId, applyDiffs_nil, and_true,
      put_other _ _ _ _ _ hne.symm]
    exact ⟨Or.inr (Or.inl hs.owner), Or.inr (Or.inl hr.owner)⟩

theorem invoke_newFungibleDefinition (d k : AccountId) (name : String) (supply : U128)
    (mintAuthority : Option AccountId) (hids : call.accountIds = [d, k])
    (hi : call.instruction = .token (.newFungibleDefinition name supply mintAuthority))
    (hd : w d = default) (hk : w k = default) (hne : d ≠ k) (had : d ∈ authority)
    (hak : k ∈ authority) (hvalid : mintAuthority ≠ some default) :
    invoke tickMath (depth + 1) w authority call
      = .ok (put tokenProgramId (put tokenProgramId w d
        (.tokenDefinition (.fungible name supply none mintAuthority))) k
        (.tokenHolding (.fungible d supply))) := by
  refine invoke_token_of_main tickMath depth w authority call hp _ hi (by simp [hids, hne])
    [.new (view w authority d) (.tokenDefinition (.fungible name supply none mintAuthority)),
      .new (view w authority k) (.tokenHolding (.fungible d supply))] ?_ _ ?_
  · rw [hids]
    simp only [List.map_cons, List.map_nil, Token.main, newFungibleDefinition, bind_eq_ok,
      ensure_eq_ok, exists_const, pure_eq_ok, validateMintAuthority]
    simp only [view_account, view_isAuthorized]
    exact ⟨hd, hk, had, hak, mintAuthority, ⟨hvalid, rfl⟩, rfl⟩
  · simp only [applyDiffs_new, view_accountId, applyDiffs_nil, and_true,
      put_other _ _ _ _ _ hne.symm]
    exact ⟨Or.inr (Or.inr (by rw [hd]; rfl)), Or.inr (Or.inr (by rw [hk]; rfl))⟩

end

end LezPrograms.Token

namespace LezPrograms.Lee
open LezPrograms.Token

structure Spares (callerId id : AccountId) (call : ChainedCall) : Prop where
  unseeded : ∀ seed ∈ call.pdaSeeds, id ≠ .forPublicPda callerId seed
  uncredited : ∃ instruction, call.instruction = .token instruction ∧
    id ∉ credited call.accountIds instruction

section
variable (callerId : AccountId) (authority : List AccountId) (w w' : Accounts)
  (calls : List ChainedCall)

theorem Settled.fresh_kept (x : AccountId) (ha : x ∉ authority)
    (hs : ∀ call ∈ calls, Spares callerId x call) (h : Settled callerId authority w calls w')
    (hx : w x = default) : w' x = default := by
  induction h with
  | nil w => exact hx
  | cons w v w' call calls first rest ih =>
    obtain ⟨hseeds, instruction, hi, hc⟩ := hs call (List.mem_cons_self ..)
    have hca : x ∉ callAuthority authority callerId call := by
      rw [callAuthority, List.mem_append, List.mem_map]
      rintro (hm | ⟨seed, hseed, hm⟩)
      · exact ha hm
      · exact hseeds seed hseed hm.symm
    obtain ⟨-, ht⟩ := first.transition _ _ _ _ instruction hi
    exact ih (fun c hc => hs c (List.mem_cons_of_mem _ hc))
      (ht.step.fresh_kept _ _ _ _ _ x hx hca hc)

theorem Settled.others_kept (x : AccountId) (hl : ∀ call ∈ calls, ∃ i, call.instruction = .token i)
    (h : Settled callerId authority w calls w') (hx : w x ≠ default)
    (hd : ¬TokenData (w x).data) : w' x = w x := by
  induction h with
  | nil w => rfl
  | cons w v w' call calls first rest ih =>
    obtain ⟨instruction, hi⟩ := hl call (List.mem_cons_self ..)
    obtain ⟨-, ht⟩ := first.transition _ _ _ _ instruction hi
    have hv := ht.step.others_kept _ _ _ _ _ x hx hd
    rw [ih (fun c hc => hl c (List.mem_cons_of_mem _ hc)) (by rwa [hv]) (by rwa [hv]), hv]

end

end LezPrograms.Lee
