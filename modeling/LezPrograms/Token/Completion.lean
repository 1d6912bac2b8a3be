import LezPrograms.Token.Conservation
import LezPrograms.Token.Credits
import LezPrograms.Token.Editions
import LezPrograms.Token.Flows

/-! # When token calls succeed

A transfer, a mint or a burn of fungible tokens succeeds when it is authorized, covered
and fits, and it changes the two accounts that it names. Conservation gives the room:
the balances of a token never exceed its supply. -/

set_option autoImplicit false

namespace LezPrograms.Token
open LezPrograms.Checked LezPrograms.Checked.Unsigned LezPrograms.Lee TokenHolding

theorem supplyOf_lt (w : Accounts) (d : AccountId) : supplyOf w d < 2 ^ 128 := by
  rw [supplyOf]
  cases owned tokenProgramId w d with
  | none => exact Nat.two_pow_pos 128
  | some data =>
    cases data with
    | tokenDefinition definition =>
      cases definition with
      | fungible name supply metadata authority => exact supply.isLt
      | nonFungible name supply metadata => exact Nat.two_pow_pos 128
    | _ => exact Nat.two_pow_pos 128

section
variable (w : Accounts) (hc : Conserved w) (token : AccountId)
include hc

theorem Conserved.le_supply (id : AccountId) (balance : U128) (h : CreditBase w token id balance) :
    balance.val ≤ supplyOf w token := by
  obtain ⟨accounts, hcovers, htotal⟩ := hc
  rw [← htotal token]
  exact (h.le_unitsOf w token id balance).trans (hcovers.unitsOf_le w accounts token id)

theorem Conserved.le_recorded (name : String) (supply : U128) (metadata authority : Option AccountId)
    (hd : DefinitionAt w token (.fungible name supply metadata authority)) (id : AccountId)
    (balance : U128) (h : CreditBase w token id balance) : balance.val ≤ supply.val := by
  have hle := hc.le_supply w token id balance h
  rwa [supplyOf, hd, Option.elim_some] at hle

/-- Two holdings of a token fit into one. -/
theorem Conserved.room (s r : AccountId) (x y : U128) (hs : HoldingAt w s (.fungible token x))
    (hr : CreditBase w token r y) (hne : s ≠ r) : x.val + y.val < 2 ^ 128 := by
  obtain ⟨accounts, hcovers, htotal⟩ := hc
  have hsum := hcovers.unitsOf_add_le w accounts token s r (hcovers s _ hs) hne
  rw [htotal token, hs.unitsOf_eq w token s x] at hsum
  have hy := hr.le_unitsOf w token r y
  have := supplyOf_lt w token
  omega

/-- A token that somebody holds has a fungible definition. -/
theorem Conserved.defined (id : AccountId) (balance : U128)
    (h : HoldingAt w id (.fungible token balance)) (hb : balance.val ≠ 0) :
    ∃ d, DefinitionAt w token d ∧ d.isFungible := by
  have hle := hc.le_supply w token id balance (Or.inr h)
  rw [supplyOf] at hle
  cases ho : owned tokenProgramId w token with
  | none =>
    rw [ho, Option.elim_none] at hle
    omega
  | some data =>
    rw [ho, Option.elim_some] at hle
    cases data with
    | tokenDefinition definition =>
      cases definition with
      | fungible name supply metadata authority => exact ⟨_, ho, trivial⟩
      | nonFungible name supply metadata => exact absurd (Nat.le_zero.mp hle) hb
    | _ => exact absurd (Nat.le_zero.mp hle) hb

end

/-- Who holds units of a fungible token holds a fungible balance. -/
theorem holding_fungible (w : Accounts) (hb : editionTally.Balanced w) (token : AccountId)
    (d : Definition) (hd : DefinitionAt w token d) (hf : d.isFungible) (id : AccountId)
    (held : Holding) (hh : HoldingAt w id held) (ht : held.definitionId = token)
    (hu : held.units ≠ 0) : ∃ balance, held = .fungible token balance := by
  obtain ⟨accounts, hcovers, htotal⟩ := hb
  have hnone : editionTally.suppliedOf w token = 0 := by
    rw [Tally.suppliedOf, hd, Option.elim_some]
    cases d with
    | fungible name supply metadata authority => rfl
    | nonFungible name supply metadata => exact hf.elim
  have hsum := htotal token
  rw [hnone, Tally.total, Finset.sum_eq_zero_iff] at hsum
  have hzero := hsum id (hcovers id _ hh)
  rw [Tally.heldAt, hh, Option.elim_some] at hzero
  change editions token held = 0 at hzero
  cases held with
  | fungible definitionId balance => exact ⟨balance, by rw [← ht]; rfl⟩
  | nftMaster definitionId printBalance =>
    rw [TokenHolding.definitionId] at ht
    rw [editions, if_pos ht] at hzero
    exact absurd hzero hu
  | nftPrintedCopy definitionId owned =>
    rw [TokenHolding.definitionId] at ht
    rw [editions, if_pos ht] at hzero
    cases owned with
    | true => cases hzero
    | false => exact absurd rfl hu

def Touches (w w' : Accounts) (a b : AccountId) : Prop := ∀ id, id ≠ a → id ≠ b → w' id = w id

theorem Touches.holdingAt (w w' : Accounts) (a b id : AccountId) (held : Holding)
    (h : Touches w w' a b) (ha : id ≠ a) (hb : id ≠ b) (hh : HoldingAt w id held) :
    HoldingAt w' id held := by rwa [HoldingAt, owned_congr _ _ _ _ (h id ha hb)]

theorem mayWrite_of_owner (w : Accounts) (id : AccountId) (data : Data)
    (h : (w id).programOwner = tokenProgramId) : MayWrite tokenProgramId (w id) data :=
  Or.inr (Or.inl h)

/-- What a credit may start from can be written. -/
theorem CreditBase.mayWrite (w : Accounts) (d id : AccountId) (balance : U128) (data : Data)
    (h : CreditBase w d id balance) : MayWrite tokenProgramId (w id) data := by
  rcases h with ⟨hfresh, -⟩ | hheld
  · rw [hfresh]
    exact Or.inr (Or.inr rfl)
  · exact mayWrite_of_owner w id data hheld.owner

theorem CreditBase.owned_put (w : Accounts) (d id : AccountId) (balance : U128) (held : Holding)
    (h : CreditBase w d id balance) : HoldingAt (put tokenProgramId w id (.tokenHolding held)) id held := by
  rw [HoldingAt, Lee.owned_put, Function.update_self]
  rcases h with ⟨hfresh, -⟩ | hheld
  · rw [hfresh]
    exact Or.inr Data.noConfusion
  · exact Or.inl hheld.owner

theorem CreditBase.congr (w w' : Accounts) (d id : AccountId) (balance : U128)
    (h : CreditBase w d id balance) (he : w' id = w id) : CreditBase w' d id balance := by
  rwa [CreditBase, he, HoldingAt, owned_congr _ _ _ _ he]

/-- What a transfer from a fungible holding has credited was fresh or a holding of its token. -/
theorem Transition.credit_base (authority : List AccountId) (s r : AccountId) (n : U128)
    (w w' : Accounts) (hbare : Bare w) (h : Transition authority [s, r] (.transfer n) w w')
    (hn : n.val ≠ 0) (token : AccountId) (x : U128) (hs : HoldingAt w s (.fungible token x)) :
    ∃ y, CreditBase w token r y := by
  obtain ⟨sender, recipient, _, recipient', -, ⟨hs', -⟩, hr, hr', -, -, htoken, hkind, hunits⟩ :=
    h.transfer
  rw [hs.data, Data.tokenHolding.injEq] at hs'
  subst hs'
  obtain ⟨y, rfl⟩ : ∃ y, recipient = .fungible token y := by
    obtain ⟨y, hy⟩ := eq_fungible_of_kind recipient hkind
    rw [htoken] at hy
    exact ⟨y, hy⟩
  rcases hr with ⟨hr, -⟩ | hr
  · exact ⟨zero 128, Or.inl ⟨hr, rfl⟩⟩
  · refine ⟨y, Or.inr ?_⟩
    rcases holdingAt_or_same w w' hbare h.frame r _ _ hr hr' with he | ⟨hheld, -⟩
    · rw [he, hr, Data.tokenHolding.injEq] at hr'
      rw [← hr'] at hunits
      omega
    · exact hheld

section
variable (w : Accounts) (d id : AccountId) (balance : U128) (h : CreditBase w d id balance)
include h

theorem CreditBase.creditedHolding (message : String) :
    creditedHolding (w id) (.fungible d (zero 128)) message = .ok (.fungible d balance) := by
  rw [creditedHolding_eq_ok]
  rcases h with ⟨hfresh, rfl⟩ | hheld
  · exact Or.inl ⟨hfresh, rfl⟩
  · refine Or.inr ⟨fun he => ?_, (tryFrom_holding _ _).mpr hheld.data⟩
    have hdata := hheld.data
    rw [he] at hdata
    cases hdata

end

section
variable (tickMath : TwapOracle.TickMath) (depth : ℕ) (w : Accounts) (authority : List AccountId)

variable (a b : AccountId) (n : U128) (seeds : List PdaSeed) (hab : a ≠ b)
include hab

theorem transfer_succeeds (token : AccountId) (x y : U128) (hx : HoldingAt w a (.fungible token x))
    (hy : CreditBase w token b y) (hauth : a ∈ authority) (hle : n.val ≤ x.val)
    (hfits : y.val + n.val < 2 ^ 128) :
    ∃ w' x' y', invoke tickMath (depth + 1) w authority
        ⟨tokenProgramId, [a, b], .token (.transfer n), seeds⟩ = .ok w' ∧
      Touches w w' a b ∧ HoldingAt w' a (.fungible token x') ∧ HoldingAt w' b (.fungible token y') ∧
      x'.val + n.val = x.val ∧ y'.val = y.val + n.val := by
  let x' : U128 := ⟨x.val - n.val, lt_of_le_of_lt (Nat.sub_le _ _) x.isLt⟩
  let y' : U128 := ⟨y.val + n.val, hfits⟩
  refine ⟨put tokenProgramId (put tokenProgramId w a (.tokenHolding (.fungible token x'))) b
    (.tokenHolding (.fungible token y')), x', y', ?_, ?_, ?_, ?_, Nat.sub_add_cancel hle, rfl⟩
  · refine invoke_token_of_main tickMath depth w authority _ rfl (.transfer n) rfl (by simpa using hab)
      [.new (view w authority a) (.tokenHolding (.fungible token x')),
        .new (view w authority b) (.tokenHolding (.fungible token y'))] ?_ _ ?_
    · simp only [List.map_cons, List.map_nil, main, transfer, bind_eq_ok, ensure_eq_ok,
        exists_const, expect_eq_ok, pure_eq_ok, Prod.exists]
      simp only [view_isAuthorized, view_account]
      refine ⟨hauth, _, (tryFrom_holding _ _).mpr hx.data, _, hy.creditedHolding _ _ _ _ _, rfl,
        .fungible token x', .fungible token y', ?_, rfl⟩
      simp only [moveBalance, bind_eq_ok, expect_eq_ok, checkedSub_eq_some, checkedAdd_eq_some,
        pure_eq_ok]
      exact ⟨x', Nat.sub_add_cancel hle, y', rfl, rfl⟩
    · simp only [applyDiffs_new, applyDiffs_nil, view_accountId, and_true]
      refine ⟨mayWrite_of_owner w a _ hx.owner, ?_⟩
      rw [put_other _ _ _ _ _ hab.symm]
      exact hy.mayWrite _ _ _ _ _
  · intro id ha hb
    rw [put_other _ _ _ _ _ hb, put_other _ _ _ _ _ ha]
  · rw [HoldingAt, owned_congr _ _ _ _ (put_other _ _ _ _ _ hab), Lee.owned_put _ _ _ _ (Or.inl hx.owner),
      Function.update_self]
  · exact (hy.congr _ _ _ _ _ (put_other _ _ _ _ _ hab.symm)).owned_put _ _ _ _ _

/-- A token with itself as authority mints to a holding or a fresh account. -/
theorem mint_succeeds (name : String) (supply : U128) (metadata : Option AccountId) (y : U128)
    (hd : DefinitionAt w a (.fungible name supply metadata (some a)))
    (hy : CreditBase w a b y) (hauth : a ∈ authority) (hsupply : supply.val + n.val < 2 ^ 128)
    (hfits : y.val + n.val < 2 ^ 128) :
    ∃ w' supply' y', invoke tickMath (depth + 1) w authority
        ⟨tokenProgramId, [a, b], .token (.mint n), seeds⟩ = .ok w' ∧
      Touches w w' a b ∧ DefinitionAt w' a (.fungible name supply' metadata (some a)) ∧
      HoldingAt w' b (.fungible a y') ∧ supply'.val = supply.val + n.val ∧
      y'.val = y.val + n.val := by
  let supply' : U128 := ⟨supply.val + n.val, hsupply⟩
  let y' : U128 := ⟨y.val + n.val, hfits⟩
  refine ⟨put tokenProgramId (put tokenProgramId w a
    (.tokenDefinition (.fungible name supply' metadata (some a)))) b
    (.tokenHolding (.fungible a y')), supply', y', ?_, ?_, ?_, ?_, rfl, rfl⟩
  · refine invoke_token_of_main tickMath depth w authority _ rfl (.mint n) rfl (by simpa using hab)
      [.new (view w authority a) (.tokenDefinition (.fungible name supply' metadata (some a))),
        .new (view w authority b) (.tokenHolding (.fungible a y'))] ?_ _ ?_
    · simp only [List.map_cons, List.map_nil, main, mint, mintInner, bind_eq_ok, ensure_eq_ok,
        exists_const, expect_eq_ok, pure_eq_ok, Prod.exists]
      simp only [view_account, view_accountId]
      refine ⟨hd.owner, _, (tryFrom_definition _ _).mpr hd.data, (), ?_, _,
        hy.creditedHolding _ _ _ _ _, rfl, .fungible name supply' metadata (some a),
        .fungible a y', ?_, rfl⟩
      · rw [requireAuthority_eq_ok]
        exact Or.inl ⟨name, supply, metadata, rfl, (view_isAuthorized _ _ _).mpr hauth⟩
      · simp only [mintBalance, bind_eq_ok, expect_eq_ok, checkedAdd_eq_some, pure_eq_ok]
        exact ⟨y', rfl, supply', rfl, rfl⟩
    · simp only [applyDiffs_new, applyDiffs_nil, view_accountId, and_true]
      refine ⟨mayWrite_of_owner w a _ hd.owner, ?_⟩
      rw [put_other _ _ _ _ _ hab.symm]
      exact hy.mayWrite _ _ _ _ _
  · intro id ha hb
    rw [put_other _ _ _ _ _ hb, put_other _ _ _ _ _ ha]
  · rw [DefinitionAt, owned_congr _ _ _ _ (put_other _ _ _ _ _ hab),
      Lee.owned_put _ _ _ _ (Or.inl hd.owner), Function.update_self]
  · exact (hy.congr _ _ _ _ _ (put_other _ _ _ _ _ hab.symm)).owned_put _ _ _ _ _

theorem burn_succeeds (name : String) (supply : U128) (metadata stored : Option AccountId) (y : U128)
    (hd : DefinitionAt w a (.fungible name supply metadata stored))
    (hy : HoldingAt w b (.fungible a y)) (hauth : b ∈ authority) (hsupply : n.val ≤ supply.val)
    (hle : n.val ≤ y.val) :
    ∃ w' supply' y', invoke tickMath (depth + 1) w authority
        ⟨tokenProgramId, [a, b], .token (.burn n), seeds⟩ = .ok w' ∧
      Touches w w' a b ∧ DefinitionAt w' a (.fungible name supply' metadata stored) ∧
      HoldingAt w' b (.fungible a y') ∧ supply'.val + n.val = supply.val ∧
      y'.val + n.val = y.val := by
  let supply' : U128 := ⟨supply.val - n.val, lt_of_le_of_lt (Nat.sub_le _ _) supply.isLt⟩
  let y' : U128 := ⟨y.val - n.val, lt_of_le_of_lt (Nat.sub_le _ _) y.isLt⟩
  refine ⟨put tokenProgramId (put tokenProgramId w a
    (.tokenDefinition (.fungible name supply' metadata stored))) b
    (.tokenHolding (.fungible a y')), supply', y', ?_, ?_, ?_, ?_, Nat.sub_add_cancel hsupply,
    Nat.sub_add_cancel hle⟩
  · refine invoke_token_of_main tickMath depth w authority _ rfl (.burn n) rfl (by simpa using hab)
      [.new (view w authority a) (.tokenDefinition (.fungible name supply' metadata stored)),
        .new (view w authority b) (.tokenHolding (.fungible a y'))] ?_ _ ?_
    · simp only [List.map_cons, List.map_nil, main, burn, bind_eq_ok, ensure_eq_ok, exists_const,
        expect_eq_ok, pure_eq_ok, Prod.exists]
      simp only [view_isAuthorized, view_account, view_accountId]
      refine ⟨hauth, _, (tryFrom_definition _ _).mpr hd.data, _, (tryFrom_holding _ _).mpr hy.data, rfl,
        .fungible name supply' metadata stored, .fungible a y', ?_, rfl⟩
      simp only [burnBalance, bind_eq_ok, expect_eq_ok, checkedSub_eq_some, pure_eq_ok]
      exact ⟨y', Nat.sub_add_cancel hle, supply', Nat.sub_add_cancel hsupply, rfl⟩
    · simp only [applyDiffs_new, applyDiffs_nil, view_accountId, and_true]
      refine ⟨mayWrite_of_owner w a _ hd.owner, ?_⟩
      rw [put_other _ _ _ _ _ hab.symm]
      exact mayWrite_of_owner w b _ hy.owner
  · intro id ha hb
    rw [put_other _ _ _ _ _ hb, put_other _ _ _ _ _ ha]
  · rw [DefinitionAt, owned_congr _ _ _ _ (put_other _ _ _ _ _ hab),
      Lee.owned_put _ _ _ _ (Or.inl hd.owner), Function.update_self]
  · rw [HoldingAt, Lee.owned_put, Function.update_self]
    rw [put_other _ _ _ _ _ hab.symm]
    exact Or.inl hy.owner

end

end LezPrograms.Token
