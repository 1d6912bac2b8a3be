import LezPrograms.Token.Program

/-! # What one token instruction does to the world

`Step` lists the successful executions of the token program with everything
they checked and wrote. All later facts about the program are read from it. -/

set_option autoImplicit false
set_option linter.unusedSectionVars false

namespace LezPrograms.Token
open LezPrograms.Checked LezPrograms.Lee TokenHolding

section
variable {Id D : Type} [DecidableEq Id] [DecidableEq D] [Inhabited Id] [Inhabited D]
variable [AccountType D (TokenDefinition Id)] [AccountType D (TokenHolding Id)]
variable [AccountType D (TokenMetadata Id)]

def Credits (account : Account Id D) (empty holding : TokenHolding Id) : Prop :=
  (account = default ∧ holding = empty) ∨ (account ≠ default ∧ tryFrom account.data = some holding)

def definitionData (definition : TokenDefinition Id) : D := AccountType.data definition

def holdingData (holding : TokenHolding Id) : D := AccountType.data holding

def metadataData (metadata : TokenMetadata Id) : D := AccountType.data metadata

inductive Step (self : Id) (authority : List Id) (w : World Id D) :
    List Id → Instruction Id → World Id D → Prop
  | transfer (s r : Id) (n : U128) (sender recipient sender' recipient' : TokenHolding Id)
      (authorized : s ∈ authority) (distinct : s ≠ r)
      (readSender : tryFrom (w s).data = some sender)
      (readRecipient : Credits (w r) sender.zeroizedCloneFrom recipient)
      (sameToken : sender.definitionId = recipient.definitionId)
      (moved : moveBalance sender recipient n = .ok (sender', recipient'))
      (writeSender : MayWrite self (w s) (holdingData sender'))
      (writeRecipient : MayWrite self (w r) (holdingData recipient')) :
      Step self authority w [s, r] (.transfer n)
        (put self (put self w s (holdingData sender')) r (holdingData recipient'))
  | burn (d h : Id) (n : U128) (definition definition' : TokenDefinition Id)
      (holding holding' : TokenHolding Id)
      (authorized : h ∈ authority) (distinct : d ≠ h)
      (readDefinition : tryFrom (w d).data = some definition)
      (readHolding : tryFrom (w h).data = some holding)
      (sameToken : d = holding.definitionId)
      (burned : burnBalance definition holding n = .ok (definition', holding'))
      (writeDefinition : MayWrite self (w d) (definitionData definition'))
      (writeHolding : MayWrite self (w h) (holdingData holding')) :
      Step self authority w [d, h] (.burn n)
        (put self (put self w d (definitionData definition')) h (holdingData holding'))
  | mint (d h a : Id) (n : U128) (ids : List Id) (instruction : Instruction Id)
      (definition definition' : TokenDefinition Id) (holding holding' : TokenHolding Id)
      (called : (ids = [d, h] ∧ instruction = .mint n ∧ a = d) ∨
        (ids = [d, h, a] ∧ instruction = .mintWithAuthority n))
      (distinct : d ≠ h) (owned : (w d).programOwner = self)
      (readDefinition : tryFrom (w d).data = some definition)
      (authorized : a ∈ authority) (current : definition.mintAuthority = some a)
      (readHolding : Credits (w h) (zeroizedFromDefinition d definition) holding)
      (sameToken : d = holding.definitionId)
      (minted : mintBalance definition holding n = .ok (definition', holding'))
      (writeDefinition : MayWrite self (w d) (definitionData definition'))
      (writeHolding : MayWrite self (w h) (holdingData holding')) :
      Step self authority w ids instruction
        (put self (put self w d (definitionData definition')) h (holdingData holding'))
  | initializeAccount (d h : Id) (definition : TokenDefinition Id)
      (fresh : w h = default) (authorized : h ∈ authority) (distinct : d ≠ h)
      (owned : (w d).programOwner = self)
      (readDefinition : tryFrom (w d).data = some definition) :
      Step self authority w [d, h] .initializeAccount
        (put self w h (holdingData (zeroizedFromDefinition d definition)))
  | newFungibleDefinition (d h : Id) (name : String) (supply : U128) (mintAuthority : Option Id)
      (freshDefinition : w d = default) (freshHolding : w h = default)
      (authorizedDefinition : d ∈ authority) (authorizedHolding : h ∈ authority)
      (distinct : d ≠ h) (valid : mintAuthority ≠ some default) :
      Step self authority w [d, h] (.newFungibleDefinition name supply mintAuthority)
        (put self (put self w d (definitionData (.fungible name supply none mintAuthority)))
          h (holdingData (.fungible d supply)))
  | newDefinitionWithMetadata (d h m : Id) (new : NewTokenDefinition Id)
      (metadata : NewTokenMetadata) (definition : TokenDefinition Id) (holding : TokenHolding Id)
      (freshDefinition : w d = default) (freshHolding : w h = default)
      (freshMetadata : w m = default)
      (authorizedDefinition : d ∈ authority) (authorizedHolding : h ∈ authority)
      (authorizedMetadata : m ∈ authority) (distinct : [d, h, m].Nodup)
      (described : describedToken d m new = .ok (definition, holding)) :
      Step self authority w [d, h, m] (.newDefinitionWithMetadata new metadata)
        (put self (put self (put self w d (definitionData definition)) h (holdingData holding)) m
          (metadataData ⟨d, metadata.standard, metadata.uri, metadata.creators,
            Unsigned.zero 64⟩))
  | printNft (m p : Id) (d : Id) (balance balance' : U128)
      (authorizedMaster : m ∈ authority) (authorizedPrinted : p ∈ authority)
      (fresh : w p = default) (distinct : m ≠ p)
      (readMaster : tryFrom (w m).data = some (TokenHolding.nftMaster d balance))
      (printed : balance'.val + 1 = balance.val)
      (writeMaster : MayWrite self (w m) (holdingData (.nftMaster d balance'))) :
      Step self authority w [m, p] .printNft
        (put self (put self w m (holdingData (.nftMaster d balance'))) p
          (holdingData (.nftPrintedCopy d true)))
  | setAuthority (d a : Id) (new : Option Id) (ids : List Id) (instruction : Instruction Id)
      (definition definition' : TokenDefinition Id)
      (called : (ids = [d] ∧ instruction = .setAuthority new ∧ a = d) ∨
        (ids = [d, a] ∧ instruction = .setAuthorityWithAuthority new))
      (owned : (w d).programOwner = self)
      (readDefinition : tryFrom (w d).data = some definition)
      (authorized : a ∈ authority) (current : definition.mintAuthority = some a)
      (replaced : replaceAuthority definition new = .ok definition') :
      Step self authority w ids instruction (put self w d (definitionData definition'))

theorem creditedHolding_eq_ok (account : Account Id D) (empty holding : TokenHolding Id)
    (m : String) : creditedHolding account empty m = .ok holding ↔ Credits account empty holding := by
  unfold creditedHolding Credits
  rw [ite_eq_ok, pure_eq_ok, expect_eq_ok]
  constructor
  · rintro (⟨h, rfl⟩ | h)
    · exact Or.inl ⟨h, rfl⟩
    · exact Or.inr h
  · rintro (⟨h, rfl⟩ | h)
    · exact Or.inl ⟨h, rfl⟩
    · exact Or.inr h

theorem transfer_step (self : Id) (authority : List Id) (w w' : World Id D) (s r : Id) (n : U128)
    (diffs : List (AccountStateDiff Id D)) (hd : s ≠ r)
    (h : transfer (view w authority s) (view w authority r) n = .ok diffs)
    (ha : applyDiffs self w diffs = .ok w') :
    Step self authority w [s, r] (.transfer n) w' := by
  simp only [transfer, bind_eq_ok, ensure_eq_ok, exists_const, expect_eq_ok, pure_eq_ok,
    creditedHolding_eq_ok, Prod.exists] at h
  simp only [view_account, view_isAuthorized] at h
  obtain ⟨hauth, sender, hs, recipient, hr, hsame, sender', recipient', hmove, rfl⟩ := h
  simp only [applyDiffs_new, view_accountId, applyDiffs_nil, Except.ok.injEq,
    put_other _ _ _ _ _ hd.symm] at ha
  obtain ⟨hws, hwr, rfl⟩ := ha
  exact Step.transfer s r n sender recipient sender' recipient' hauth hd hs hr hsame hmove hws hwr

theorem burn_step (self : Id) (authority : List Id) (w w' : World Id D) (d k : Id) (n : U128)
    (diffs : List (AccountStateDiff Id D)) (hd : d ≠ k)
    (h : burn (view w authority d) (view w authority k) n = .ok diffs)
    (ha : applyDiffs self w diffs = .ok w') :
    Step self authority w [d, k] (.burn n) w' := by
  simp only [burn, bind_eq_ok, ensure_eq_ok, exists_const, expect_eq_ok, pure_eq_ok,
    Prod.exists] at h
  simp only [view_account, view_isAuthorized, view_accountId] at h
  obtain ⟨hauth, definition, hdef, holding, hh, hsame, definition', holding', hburn, rfl⟩ := h
  simp only [applyDiffs_new, view_accountId, applyDiffs_nil, Except.ok.injEq,
    put_other _ _ _ _ _ hd.symm] at ha
  obtain ⟨hwd, hwh, rfl⟩ := ha
  exact Step.burn d k n definition definition' holding holding' hauth hd hdef hh hsame hburn hwd hwh

theorem requireAuthority_eq_ok (definition : TokenDefinition Id)
    (definitionAccount : AccountWithMetadata Id D)
    (authorityAccount : Option (AccountWithMetadata Id D)) (revoked wrong : String) (u : Unit) :
    requireAuthority definition definitionAccount authorityAccount revoked wrong = .ok u ↔
      (∃ name supply metadata, definition = .fungible name supply metadata
          (some (authorityAccount.getD definitionAccount).accountId) ∧
        (authorityAccount.getD definitionAccount).isAuthorized = true) ∨
      (∃ name supply metadata, definition = .nonFungible name supply metadata) := by
  cases definition with
  | fungible name supply metadata authority =>
    simp only [requireAuthority, bind_eq_ok, expect_eq_ok, ensure_eq_ok, exists_const,
      TokenDefinition.fungible.injEq, reduceCtorEq, or_false]
    constructor
    · rintro ⟨a, rfl, hauth, rfl⟩
      exact ⟨name, supply, metadata, ⟨rfl, rfl, rfl, rfl⟩, hauth⟩
    · rintro ⟨_, _, _, ⟨-, -, -, rfl⟩, hauth⟩
      exact ⟨_, rfl, hauth, rfl⟩
  | nonFungible name supply metadata =>
    simp [requireAuthority, pure_eq_ok]

theorem mintInner_step (self : Id) (authority : List Id) (w w' : World Id D) (d k a : Id)
    (external : Option (AccountWithMetadata Id D)) (n : U128) (ids : List Id)
    (instruction : Instruction Id) (diffs : List (AccountStateDiff Id D)) (hd : d ≠ k)
    (hcalled : (ids = [d, k] ∧ instruction = .mint n ∧ a = d) ∨
      (ids = [d, k, a] ∧ instruction = .mintWithAuthority n))
    (hext : external.getD (view w authority d) = view w authority a)
    (h : mintInner (view w authority d) (view w authority k) external n self = .ok diffs)
    (ha : applyDiffs self w diffs = .ok w') :
    Step self authority w ids instruction w' := by
  simp only [mintInner, bind_eq_ok, ensure_eq_ok, exists_const, expect_eq_ok, pure_eq_ok,
    creditedHolding_eq_ok, requireAuthority_eq_ok, hext, Prod.exists] at h
  simp only [view_account, view_isAuthorized, view_accountId] at h
  obtain ⟨howned, definition, hdef, hreq, holding, hh, hsame, definition', holding', hmint, rfl⟩ := h
  have hw : MayWrite self (w d) (definitionData definition') ∧
      MayWrite self (w k) (holdingData holding') ∧
      w' = put self (put self w d (definitionData definition')) k (holdingData holding') := by
    cases external with
    | none =>
      simp only [Option.map_none, Option.toList_none, List.append_nil, applyDiffs_new,
        view_accountId, applyDiffs_nil, Except.ok.injEq, put_other _ _ _ _ _ hd.symm] at ha
      exact ⟨ha.1, ha.2.1, ha.2.2.symm⟩
    | some account =>
      simp only [Option.map_some, Option.toList_some, List.cons_append, List.nil_append,
        applyDiffs_new, applyDiffs_unchanged, view_accountId, applyDiffs_nil, Except.ok.injEq,
        put_other _ _ _ _ _ hd.symm] at ha
      exact ⟨ha.1, ha.2.1, ha.2.2.symm⟩
  obtain ⟨hwd, hwk, rfl⟩ := hw
  rcases hreq with ⟨name, supply, metadata, rfl, hauth⟩ | ⟨name, supply, metadata, rfl⟩
  · exact Step.mint d k a n ids instruction _ definition' holding holding' hcalled hd howned hdef
      hauth rfl hh hsame hmint hwd hwk
  · cases holding <;> exact absurd hmint (error_ne_ok _ _)

theorem newFungibleDefinition_step (self : Id) (authority : List Id) (w w' : World Id D)
    (d k : Id) (name : String) (supply : U128) (mintAuthority : Option Id)
    (diffs : List (AccountStateDiff Id D)) (hd : d ≠ k)
    (h : newFungibleDefinition (view w authority d) (view w authority k) name supply mintAuthority
      = .ok diffs)
    (ha : applyDiffs self w diffs = .ok w') :
    Step self authority w [d, k] (.newFungibleDefinition name supply mintAuthority) w' := by
  simp only [newFungibleDefinition, validateMintAuthority, bind_eq_ok, ensure_eq_ok, exists_const,
    pure_eq_ok] at h
  simp only [view_account, view_isAuthorized, view_accountId] at h
  obtain ⟨hfd, hfk, had, hak, authority', ⟨hvalid, rfl⟩, rfl⟩ := h
  simp only [applyDiffs_new, view_accountId, applyDiffs_nil, Except.ok.injEq] at ha
  obtain ⟨-, -, rfl⟩ := ha
  exact Step.newFungibleDefinition d k name supply mintAuthority hfd hfk had hak hd hvalid

theorem newDefinitionWithMetadata_step (self : Id) (authority : List Id) (w w' : World Id D)
    (d k m : Id) (new : NewTokenDefinition Id) (metadata : NewTokenMetadata)
    (diffs : List (AccountStateDiff Id D)) (hd : [d, k, m].Nodup)
    (h : newDefinitionWithMetadata (view w authority d) (view w authority k) (view w authority m)
      new metadata = .ok diffs)
    (ha : applyDiffs self w diffs = .ok w') :
    Step self authority w [d, k, m] (.newDefinitionWithMetadata new metadata) w' := by
  simp only [newDefinitionWithMetadata, bind_eq_ok, ensure_eq_ok, exists_const, pure_eq_ok,
    Prod.exists] at h
  simp only [view_account, view_isAuthorized, view_accountId] at h
  obtain ⟨hfd, hfk, hfm, had, hak, ham, definition, holding, hdescribed, rfl⟩ := h
  simp only [applyDiffs_new, view_accountId, applyDiffs_nil, Except.ok.injEq] at ha
  obtain ⟨-, -, -, rfl⟩ := ha
  exact Step.newDefinitionWithMetadata d k m new metadata definition holding hfd hfk hfm had hak
    ham hd hdescribed

theorem initializeAccount_step (self : Id) (authority : List Id) (w w' : World Id D) (d k : Id)
    (diffs : List (AccountStateDiff Id D)) (hd : d ≠ k)
    (h : initializeAccount (view w authority d) (view w authority k) self = .ok diffs)
    (ha : applyDiffs self w diffs = .ok w') :
    Step self authority w [d, k] .initializeAccount w' := by
  simp only [initializeAccount, bind_eq_ok, ensure_eq_ok, exists_const, expect_eq_ok,
    pure_eq_ok] at h
  simp only [view_account, view_isAuthorized, view_accountId] at h
  obtain ⟨hfresh, hauth, howned, definition, hdef, rfl⟩ := h
  simp only [applyDiffs_new, applyDiffs_unchanged, view_accountId, applyDiffs_nil,
    Except.ok.injEq] at ha
  obtain ⟨-, rfl⟩ := ha
  exact Step.initializeAccount d k definition hfresh hauth hd howned hdef

theorem printNft_step (self : Id) (authority : List Id) (w w' : World Id D) (m p : Id)
    (diffs : List (AccountStateDiff Id D)) (hd : m ≠ p)
    (h : printNft (view w authority m) (view w authority p) = .ok diffs)
    (ha : applyDiffs self w diffs = .ok w') :
    Step self authority w [m, p] .printNft w' := by
  simp only [printNft, bind_eq_ok, ensure_eq_ok, exists_const, expect_eq_ok] at h
  simp only [view_account, view_isAuthorized] at h
  obtain ⟨ham, hfresh, hap, holding, hread, h⟩ := h
  split at h
  · simp only [bind_eq_ok, ensure_eq_ok, exists_const, expect_eq_ok, pure_eq_ok,
      Unsigned.checkedSub_eq_some] at h
    obtain ⟨-, balance', hb, rfl⟩ := h
    simp only [applyDiffs_new, view_accountId, applyDiffs_nil, Except.ok.injEq] at ha
    obtain ⟨hwm, -, rfl⟩ := ha
    exact Step.printNft m p _ _ balance' ham hap hfresh hd hread hb hwm
  · exact absurd h (error_ne_ok _ _)

theorem setAuthorityInner_step (self : Id) (authority : List Id) (w w' : World Id D) (d a : Id)
    (external : Option (AccountWithMetadata Id D)) (new : Option Id) (ids : List Id)
    (instruction : Instruction Id) (diffs : List (AccountStateDiff Id D))
    (hcalled : (ids = [d] ∧ instruction = .setAuthority new ∧ a = d) ∨
      (ids = [d, a] ∧ instruction = .setAuthorityWithAuthority new))
    (hext : external.getD (view w authority d) = view w authority a)
    (h : setAuthorityInner (view w authority d) external new self = .ok diffs)
    (ha : applyDiffs self w diffs = .ok w') :
    Step self authority w ids instruction w' := by
  simp only [setAuthorityInner, bind_eq_ok, ensure_eq_ok, exists_const, expect_eq_ok, pure_eq_ok,
    requireAuthority_eq_ok, hext] at h
  simp only [view_account, view_isAuthorized, view_accountId] at h
  obtain ⟨howned, definition, hdef, hreq, definition', hrep, rfl⟩ := h
  have hw : w' = put self w d (definitionData definition') := by
    cases external with
    | none =>
      simp only [Option.map_none, Option.toList_none, applyDiffs_new, view_accountId,
        applyDiffs_nil, Except.ok.injEq] at ha
      exact ha.2.symm
    | some account =>
      simp only [Option.map_some, Option.toList_some, applyDiffs_new, applyDiffs_unchanged,
        view_accountId, applyDiffs_nil, Except.ok.injEq] at ha
      exact ha.2.symm
  subst hw
  rcases hreq with ⟨name, supply, metadata, rfl, hauth⟩ | ⟨name, supply, metadata, rfl⟩
  · exact Step.setAuthority d a new ids instruction _ definition' hcalled howned hdef hauth rfl hrep
  · exact absurd hrep (error_ne_ok _ _)

/-- Every successful execution of the token program is one of the listed steps. -/
theorem step_of_main (self : Id) (authority ids : List Id) (w w' : World Id D)
    (instruction : Instruction Id) (diffs : List (AccountStateDiff Id D)) (hn : ids.Nodup)
    (h : main self (ids.map (view w authority)) instruction = .ok diffs)
    (ha : applyDiffs self w diffs = .ok w') :
    Step self authority w ids instruction w' := by
  rcases ids with _ | ⟨i, _ | ⟨j, _ | ⟨k, _ | ⟨l, ids⟩⟩⟩⟩
  · cases instruction <;> exact absurd h (error_ne_ok _ _)
  · cases instruction with
    | setAuthority new =>
      exact setAuthorityInner_step self authority w w' i i none new _ _ diffs
        (Or.inl ⟨rfl, rfl, rfl⟩) rfl h ha
    | _ => exact absurd h (error_ne_ok _ _)
  · have hij : i ≠ j := by
      simp only [List.nodup_cons, List.mem_singleton] at hn
      exact hn.1
    cases instruction with
    | transfer n => exact transfer_step self authority w w' i j n diffs hij h ha
    | newFungibleDefinition name supply mintAuthority =>
      exact newFungibleDefinition_step self authority w w' i j name supply mintAuthority diffs hij
        h ha
    | initializeAccount => exact initializeAccount_step self authority w w' i j diffs hij h ha
    | burn n => exact burn_step self authority w w' i j n diffs hij h ha
    | mint n =>
      exact mintInner_step self authority w w' i j i none n _ _ diffs hij
        (Or.inl ⟨rfl, rfl, rfl⟩) rfl h ha
    | printNft => exact printNft_step self authority w w' i j diffs hij h ha
    | setAuthorityWithAuthority new =>
      exact setAuthorityInner_step self authority w w' i j (some (view w authority j)) new _ _
        diffs (Or.inr ⟨rfl, rfl⟩) rfl h ha
    | _ => exact absurd h (error_ne_ok _ _)
  · have hij : i ≠ j := by
      simp only [List.nodup_cons, List.mem_cons, not_or] at hn
      exact hn.1.1
    cases instruction with
    | newDefinitionWithMetadata new metadata =>
      exact newDefinitionWithMetadata_step self authority w w' i j k new metadata diffs hn h ha
    | mintWithAuthority n =>
      exact mintInner_step self authority w w' i j k (some (view w authority k)) n _ _ diffs hij
        (Or.inr ⟨rfl, rfl⟩) rfl h ha
    | _ => exact absurd h (error_ne_ok _ _)
  · cases instruction <;> exact absurd h (error_ne_ok _ _)

end

end LezPrograms.Token
