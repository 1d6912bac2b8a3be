import LezPrograms.Stablecoin.Squatting
import LezPrograms.StablecoinClient.Poking

/-! # Plans that open, fill and close a position

What the client checks before it plans an opening, a deposit or a closing, and when
the planned instruction executes. -/

set_option autoImplicit false

namespace LezPrograms.StablecoinClient
open LezPrograms.Checked LezPrograms.Checked.Unsigned LezPrograms.Lee LezPrograms.Stablecoin
open LezPrograms.Token (HoldingAt DefinitionAt unitsAt transfer_succeeds)
open LezPrograms.AmmClient (AccountRead parse readOf)

def parseDecimalU128 (value : String) : Outcome U128 := do
  ensure (value ≠ "" ∧ value.toList.all Char.isDigit) "invalid_numeric_value"
  (parse value).mapError fun _ => "invalid_numeric_value"

structure OpenPositionPlanRequest where
  stablecoinProgramId : Option AccountId
  ownerId : Option AccountId
  positionNonce : String
  initialCollateralAmount : String
  userCollateralHoldingId : Option AccountId
  collateralDefinition : AccountRead
  userCollateralHolding : AccountRead
  protocolParameters : AccountRead
  clock : AccountRead

def openPositionPlan (request : OpenPositionPlanRequest) : Outcome Plan := do
  let programId ← parseStablecoinProgramId request.stablecoinProgramId
  let owner ← parseAccountId request.ownerId
  let holdingId ← parseAccountId request.userCollateralHoldingId
  let positionNonce ← parseDecimalU64 request.positionNonce
  let initialCollateralAmount ← parseDecimalU128 request.initialCollateralAmount
  let (_, parameters) ← validatedProtocolParameters programId request.protocolParameters
  ensure (parameters.isFrozen = false) "protocol_frozen"
  let (collateralDefinitionId, collateralDefinitionAccount) ←
    requiredAccount request.collateralDefinition
  ensure (collateralDefinitionId = parameters.collateralDefinitionId) "collateral_definition_mismatch"
  let collateralDefinition : Token.TokenDefinition AccountId ← expect
    (tryFrom collateralDefinitionAccount.data) "invalid_collateral_definition"
  ensure collateralDefinition.isFungible "invalid_collateral_definition"
  let (readHoldingId, holdingAccount) ← requiredAccount request.userCollateralHolding
  ensure (readHoldingId = holdingId) "invalid_user_collateral_holding"
  let _ ← holdingBalance holdingAccount.data collateralDefinitionId
    "invalid_user_collateral_holding" "invalid_user_collateral_holding"
  ensure (holdingAccount.programOwner = collateralDefinitionAccount.programOwner)
    "token_program_mismatch"
  let (clockId, _) ← requiredAccount request.clock
  let _ ← clockTimestamp request.clock
  let positionId := computePositionPda programId owner positionNonce
  pure ⟨programId, [owner, positionId, computePositionVaultPda programId positionId, holdingId,
    collateralDefinitionId, computeProtocolParametersPda programId, clockId],
    [true, false, false, true, false, false, false],
    .openPosition positionNonce initialCollateralAmount⟩

structure DepositCollateralPlanRequest where
  stablecoinProgramId : Option AccountId
  ownerId : Option AccountId
  positionNonce : String
  amount : Value
  userCollateralHoldingId : Option AccountId
  position : AccountRead
  vault : AccountRead
  userCollateralHolding : AccountRead
  protocolParameters : AccountRead

def depositCollateralPlan (request : DepositCollateralPlanRequest) : Outcome Plan := do
  let programId ← parseStablecoinProgramId request.stablecoinProgramId
  let owner ← parseAccountId request.ownerId
  let positionNonce ← parseDecimalU64 request.positionNonce
  let amount ← parseU128 request.amount
  let holdingId ← parseAccountId request.userCollateralHoldingId
  let (parametersId, parameters) ← validatedProtocolParameters programId request.protocolParameters
  let (positionId, position) ← validatedPosition programId owner positionNonce request.position
  let expectedVaultId := computePositionVaultPda programId positionId
  ensure (position.vaultAccountId = expectedVaultId) "position_vault_mismatch"
  let (vaultId, vaultAccount) ← requiredAccount request.vault
  ensure (vaultId = expectedVaultId) "vault_pda_mismatch"
  let vaultBalance ← holdingBalance vaultAccount.data parameters.collateralDefinitionId
    "collateral_definition_mismatch" "invalid_position_vault"
  let (readHoldingId, holdingAccount) ← requiredAccount request.userCollateralHolding
  ensure (readHoldingId = holdingId) "invalid_user_collateral_holding"
  ensure (holdingAccount.programOwner = vaultAccount.programOwner) "token_program_mismatch"
  let sourceBalance ← holdingBalance holdingAccount.data parameters.collateralDefinitionId
    "collateral_definition_mismatch" "invalid_user_collateral_holding"
  ensure (amount.val ≤ sourceBalance.val) "insufficient_collateral_balance"
  let _ ← expect (vaultBalance.checkedAdd amount) "collateral_amount_overflow"
  pure ⟨programId, [owner, positionId, vaultId, holdingId, parametersId],
    [true, false, false, true, false], .depositCollateral amount⟩

structure ClosePositionPlanRequest where
  stablecoinProgramId : Option AccountId
  ownerId : Option AccountId
  positionNonce : String
  position : AccountRead
  vault : AccountRead
  protocolParameters : AccountRead

def vaultBalanceOf (data : Data) (invalid : String) : Outcome U128 := do
  let holding : Token.TokenHolding AccountId ← expect (tryFrom data) invalid
  match holding with
  | .fungible _ balance => pure balance
  | .nftMaster .. => .error invalid
  | .nftPrintedCopy .. => .error invalid

def closePositionPlan (request : ClosePositionPlanRequest) : Outcome Plan := do
  let programId ← parseStablecoinProgramId request.stablecoinProgramId
  let owner ← parseAccountId request.ownerId
  let nonce ← parseDecimalU64 request.positionNonce
  let (positionId, position) ← validatedPosition programId owner nonce request.position
  let (parametersId, _) ← validatedProtocolParameters programId request.protocolParameters
  ensure (position.normalizedDebtAmount.val = 0) "position_has_debt"
  ensure (position.collateralAmount.val = 0) "position_has_collateral"
  let expectedVaultId := computePositionVaultPda programId positionId
  ensure (position.vaultAccountId = expectedVaultId) "position_vault_mismatch"
  let (vaultId, vault) ← requiredAccount request.vault
  ensure (vaultId = expectedVaultId) "vault_pda_mismatch"
  let balance ← vaultBalanceOf vault.data "invalid_position_vault"
  ensure (balance.val = 0) "vault_not_empty"
  pure ⟨programId, [owner, positionId, vaultId, parametersId], [true, false, false, false],
    .closePosition⟩

def OpenPositionPlanRequest.reads (request : OpenPositionPlanRequest) : List AccountRead :=
  [request.collateralDefinition, request.userCollateralHolding, request.protocolParameters,
    request.clock]

def DepositCollateralPlanRequest.reads (request : DepositCollateralPlanRequest) :
    List AccountRead :=
  [request.position, request.vault, request.userCollateralHolding, request.protocolParameters]

def ClosePositionPlanRequest.reads (request : ClosePositionPlanRequest) : List AccountRead :=
  [request.position, request.vault, request.protocolParameters]

theorem vaultBalanceOf_eq_ok (data : Data) (invalid : String) (balance : U128) :
    vaultBalanceOf data invalid = .ok balance ↔
      ∃ token, data = .tokenHolding (.fungible token balance) := by
  simp only [vaultBalanceOf, bind_eq_ok, expect_eq_ok, tryFrom_holding]
  constructor
  · rintro ⟨holding, rfl, h⟩
    cases holding with
    | fungible token held =>
      rw [pure_eq_ok] at h
      exact ⟨token, h ▸ rfl⟩
    | nftMaster => cases h
    | nftPrintedCopy => cases h
  · rintro ⟨token, rfl⟩
    exact ⟨_, rfl, rfl⟩

def openPositionCall (o u c : AccountId) (nonce : U64) (amount : U128) : ChainedCall :=
  .new stablecoinProgramId [o, computePositionPda stablecoinProgramId o nonce,
    vaultId (computePositionPda stablecoinProgramId o nonce), u, c, parametersId,
    clock01ProgramAccountId] (.stablecoin (.openPosition nonce amount))

section
variable (w : Accounts) (plan : Plan)

theorem openPositionPlan_found (he : Established w) (request : OpenPositionPlanRequest)
    (hreads : ReadFrom w request.stablecoinProgramId request.reads)
    (h : openPositionPlan request = .ok plan) (o : AccountId) (ho : request.ownerId = some o)
    (nonce : U64) (hnonce : parseDecimalU64 request.positionNonce = .ok nonce) (amount : U128)
    (hamount : parseDecimalU128 request.initialCollateralAmount = .ok amount) :
    ∃ params balance now, storedParameters w = some params ∧ params.isFrozen = false ∧
      (w clock01ProgramAccountId).data = .clock now ∧
      HoldingAt w request.userCollateralHolding.id
        (.fungible params.collateralDefinitionId balance) ∧
      plan.call = openPositionCall o request.userCollateralHolding.id params.collateralDefinitionId
        nonce amount ∧ plan.signers = [o, request.userCollateralHolding.id] := by
  obtain ⟨hprogram, htruthful⟩ := hreads
  simp only [OpenPositionPlanRequest.reads, List.forall_mem_cons] at htruthful
  obtain ⟨hdefinition, hholding, hparameters, hclock, -⟩ := htruthful
  simp only [openPositionPlan, parseStablecoinProgramId, parseAccountId, parseId_eq_ok, hprogram, ho,
    hnonce, hamount, bind_eq_ok, ensure_eq_ok, exists_const, pure_eq_ok, Prod.exists, expect_eq_ok,
    holdingBalance_eq_ok, Option.some.injEq, Except.ok.injEq] at h
  obtain ⟨_, ⟨rfl, -⟩, _, ⟨rfl, -⟩, u, -, _, rfl, _, rfl, p, params, hp, hfrozen, c, definition, hc,
    rfl, _, -, -, u', holding, hu, rfl, balance, hbalance, hsame, t, clock, ht, now, hnow, rfl⟩ := h
  obtain ⟨rfl, hp⟩ := hparameters.parameters w _ _ _ _ hp
  have hstored := Holds.storedParameters w params hp
  obtain rfl := hdefinition.required w _ _ _ hc
  obtain rfl := hholding.required w _ _ _ hu
  obtain rfl : request.userCollateralHolding.id = u' := ((requiredAccount_eq_ok _ _ _).mp hu).2.2
  have hclockId : t = clock01ProgramAccountId := by
    have hread := hnow
    simp only [clockTimestamp, bind_eq_ok, Prod.exists, ensure_eq_ok, exists_const] at hread
    obtain ⟨_, _, hread, rfl, -⟩ := hread
    exact (Prod.mk.inj (Except.ok.inj (ht.symm.trans hread))).1
  obtain ⟨s, hr, rfl⟩ := he.represents w params hstored
  obtain ⟨d, hd, -⟩ := hr.tokens.collateral
  refine ⟨_, balance, now, hstored, hfrozen, hclock.clock w _ _ hnow,
    (owned_eq_some _ _ _ _).mpr ⟨hsame.trans hd.owner, hbalance⟩, ?_, rfl⟩
  rw [hclockId]
  rfl

theorem depositCollateralPlan_found (request : DepositCollateralPlanRequest)
    (hreads : ReadFrom w request.stablecoinProgramId request.reads)
    (h : depositCollateralPlan request = .ok plan) :
    ∃ o x u data params, ∃ vaultBalance balance amount : U128, request.ownerId = some o ∧
      request.userCollateralHoldingId = some u ∧
      x = computePositionPda stablecoinProgramId o data.positionNonce ∧ data.ownerAccountId = o ∧
      data.vaultAccountId = vaultId x ∧ Holds stablecoinProgramId (w x) (.position data) ∧
      Holds stablecoinProgramId (w parametersId) (.protocolParameters params) ∧
      (w (vaultId x)).data = .tokenHolding (.fungible params.collateralDefinitionId vaultBalance) ∧
      (w u).programOwner = (w (vaultId x)).programOwner ∧
      (w u).data = .tokenHolding (.fungible params.collateralDefinitionId balance) ∧
      amount.val ≤ balance.val ∧ vaultBalance.val + amount.val < 2 ^ 128 ∧
      plan.call = depositCollateralCall o x u amount ∧ plan.signers = [o, u] := by
  obtain ⟨hprogram, htruthful⟩ := hreads
  simp only [DepositCollateralPlanRequest.reads, List.forall_mem_cons] at htruthful
  obtain ⟨hposition, hvault, hholding, hparameters, -⟩ := htruthful
  simp only [depositCollateralPlan, parseStablecoinProgramId, parseAccountId, parseId_eq_ok,
    hprogram, bind_eq_ok, ensure_eq_ok, exists_const, pure_eq_ok, Prod.exists, expect_eq_ok,
    holdingBalance_eq_ok, checkedAdd_eq_some, Option.some.injEq] at h
  obtain ⟨_, ⟨rfl, -⟩, o, ⟨ho, -⟩, nonce, -, amount, -, u, ⟨hu, -⟩, p, params, hp, x, data, hx,
    hnamed, k, vault, hk, rfl, vaultBalance, hvaulted, u', holding, hread, rfl, hsame, balance,
    hbalance, hpays, sum, hsum, rfl⟩ := h
  obtain ⟨rfl, hp⟩ := hparameters.parameters w _ _ _ _ hp
  obtain ⟨hderived, howner, hheld⟩ := hposition.position w _ _ _ _ _ _ hx
  obtain rfl := hvault.required w _ _ _ hk
  obtain rfl := hholding.required w _ _ _ hread
  exact ⟨o, x, u', data, params, vaultBalance, balance, amount, ho, hu, hderived, howner, hnamed,
    hheld, hp, hvaulted, hsame, hbalance, hpays, hsum ▸ sum.isLt, rfl, rfl⟩

theorem closePositionPlan_found (request : ClosePositionPlanRequest)
    (hreads : ReadFrom w request.stablecoinProgramId request.reads)
    (h : closePositionPlan request = .ok plan) :
    ∃ o x data params token, ∃ balance : U128,
      x = computePositionPda stablecoinProgramId o data.positionNonce ∧ data.ownerAccountId = o ∧
      data.vaultAccountId = vaultId x ∧ Holds stablecoinProgramId (w x) (.position data) ∧
      Holds stablecoinProgramId (w parametersId) (.protocolParameters params) ∧
      data.normalizedDebtAmount.val = 0 ∧ data.collateralAmount.val = 0 ∧
      (w (vaultId x)).data = .tokenHolding (.fungible token balance) ∧ balance.val = 0 ∧
      plan.call = closePositionCall o x ∧ plan.signers = [o] := by
  obtain ⟨hprogram, htruthful⟩ := hreads
  simp only [ClosePositionPlanRequest.reads, List.forall_mem_cons] at htruthful
  obtain ⟨hposition, hvault, hparameters, -⟩ := htruthful
  simp only [closePositionPlan, parseStablecoinProgramId, parseAccountId, parseId_eq_ok, hprogram,
    bind_eq_ok, ensure_eq_ok, exists_const, pure_eq_ok, Prod.exists, vaultBalanceOf_eq_ok,
    Option.some.injEq] at h
  obtain ⟨_, ⟨rfl, -⟩, o, -, nonce, -, x, data, hx, p, params, hp, hdebt, hcollateral, hnamed, k,
    vault, hk, rfl, balance, ⟨token, hvaulted⟩, hempty, rfl⟩ := h
  obtain ⟨rfl, hp⟩ := hparameters.parameters w _ _ _ _ hp
  obtain ⟨hderived, howner, hheld⟩ := hposition.position w _ _ _ _ _ _ hx
  obtain rfl := hvault.required w _ _ _ hk
  exact ⟨o, x, data, params, token, balance, hderived, howner, hnamed, hheld, hp, hdebt, hcollateral,
    hvaulted, hempty, rfl, rfl⟩

end

section
variable (platform : Platform) (hcalls : 2 ≤ platform.callDepth) (w : Accounts)
  (authority : List AccountId) (hg : Granted authority) (o x u : AccountId) (data : Position)
  (params : ProtocolParameters) (ho : o ∈ authority)
  (hderived : x = computePositionPda stablecoinProgramId o data.positionNonce)
  (howner : data.ownerAccountId = o) (hnamed : data.vaultAccountId = vaultId x)
  (hposition : Holds stablecoinProgramId (w x) (.position data))
  (hparameters : Holds stablecoinProgramId (w parametersId) (.protocolParameters params))
include hcalls hg ho hderived howner hnamed hposition hparameters

/-- A deposit that another account signs and covers is carried out. -/
theorem deposit_succeeds (he : Established w) (hu : u ∈ authority) (hne : u ≠ o)
    (vaultBalance balance amount : U128)
    (hvault : (w (vaultId x)).data
      = .tokenHolding (.fungible params.collateralDefinitionId vaultBalance))
    (hsame : (w u).programOwner = (w (vaultId x)).programOwner)
    (hholding : (w u).data = .tokenHolding (.fungible params.collateralDefinitionId balance))
    (hpays : amount.val ≤ balance.val) (hfits : vaultBalance.val + amount.val < 2 ^ 128) :
    ∃ w', transact platform w authority (depositCollateralCall o x u amount) = .ok w' := by
  obtain ⟨s, hr, -⟩ := he.represents w params (Holds.storedParameters w params hparameters)
  have hlive := (hr.records.live x).mpr ⟨data, Holds.owned_eq _ _ _ _ hposition⟩
  obtain ⟨held, hheld, -⟩ := hr.tokens.vaults x hlive
  have hvaultAt : HoldingAt w (vaultId x) (.fungible params.collateralDefinitionId vaultBalance) :=
    (owned_eq_some _ _ _ _).mpr ⟨hheld.owner, hvault⟩
  have huserAt : HoldingAt w u (.fungible params.collateralDefinitionId balance) :=
    (owned_eq_some _ _ _ _).mpr ⟨hsame.trans hheld.owner, hholding⟩
  obtain ⟨depth, hdepth⟩ := Nat.exists_eq_add_of_le' hcalls
  obtain ⟨hperf, w', hw'⟩ := deposit_transfers platform.tickMath depth w authority hg o x u data params
    ⟨ho, hposition, hderived, howner⟩ hnamed hparameters hu hne vaultBalance balance amount ⟨_, hfits⟩
    hvaultAt huserAt hpays rfl
  refine ⟨w', (transact_eq_ok platform w w' authority _ _ rfl).mpr ⟨hg, rfl, depth + 1, _, _, hdepth,
    hperf, ?_⟩⟩
  simp only [settle, List.foldlM_cons, List.foldlM_nil, bind_pure]
  exact hw'

theorem close_succeeds (token : AccountId) (balance : U128)
    (hdebt : data.normalizedDebtAmount.val = 0) (hcollateral : data.collateralAmount.val = 0)
    (hvault : (w (vaultId x)).data = .tokenHolding (.fungible token balance))
    (hempty : balance.val = 0) :
    ∃ w', transact platform w authority (closePositionCall o x) = .ok w' := by
  obtain ⟨depth, hdepth⟩ := Nat.exists_eq_add_of_le' hcalls
  have hn := close_nodup authority hg o _ x hderived ho
  have hperf := (performs_close w _ authority _ o x (vaultId x) parametersId).mpr
    ⟨hn, rfl, data, params, token, balance, ⟨ho, hposition, hderived, howner⟩, hnamed, hparameters,
      hdebt, hcollateral, hvault, hempty, rfl, rfl⟩
  exact ⟨_, (transact_eq_ok platform w _ authority _ _ rfl).mpr ⟨hg, rfl, depth + 1, _, _, hdepth,
    hperf, rfl⟩⟩

end

section
variable (platform : Platform) (hcalls : 2 ≤ platform.callDepth) (w : Accounts) (he : Established w)
  (authority : List AccountId) (hg : Granted authority) (plan : Plan)
  (hsigned : ∀ id ∈ plan.signers, id ∈ authority)
include hcalls he hg hsigned

/-- What an opening finds besides the checks of the plan. -/
theorem opening_iff (request : OpenPositionPlanRequest)
    (hreads : ReadFrom w request.stablecoinProgramId request.reads)
    (h : openPositionPlan request = .ok plan) (o : AccountId) (ho : request.ownerId = some o)
    (nonce : U64) (hnonce : parseDecimalU64 request.positionNonce = .ok nonce) (amount : U128)
    (hamount : parseDecimalU128 request.initialCollateralAmount = .ok amount) :
    (∃ w', transact platform w authority plan.call = .ok w') ↔
      plan.accountIds.Nodup ∧ w (computePositionPda stablecoinProgramId o nonce) = default ∧
        w (vaultId (computePositionPda stablecoinProgramId o nonce)) = default ∧
        amount.val ≤ unitsAt w request.userCollateralHolding.id := by
  obtain ⟨params, balance, now, hstored, hopen, hclock, hholding, hcall, hsigners⟩ :=
    openPositionPlan_found w plan he request hreads h o ho nonce hnonce amount hamount
  simp only [hsigners, List.forall_mem_cons] at hsigned
  have hunits : unitsAt w request.userCollateralHolding.id = balance.val := hholding.unitsAt_eq
  have hids : plan.accountIds = plan.call.accountIds := rfl
  rw [hids, hunits, hcall]
  constructor
  · rintro ⟨w', hw'⟩
    obtain ⟨o', u', c', hopening, hfound⟩ :=
      opening_found platform w he authority _ nonce amount w' rfl hw'
    obtain ⟨hdistinct, haccounts⟩ := And.intro hopening.distinct hopening.accounts
    simp only [openPositionCall, ChainedCall.new, List.cons.injEq] at haccounts
    obtain ⟨rfl, -, -, rfl, -⟩ := haccounts
    obtain ⟨held, hheld, hpays⟩ := hfound.holding
    refine ⟨hdistinct, hfound.position, hfound.vault, ?_⟩
    rwa [← hunits, hheld.unitsAt_eq]
  · rintro ⟨hdistinct, hx, hk, hpays⟩
    exact OpeningCall.transacts platform w he authority _ nonce amount o
      request.userCollateralHolding.id params.collateralDefinitionId
      ⟨rfl, rfl, rfl, hdistinct, hg, hsigned.1, hsigned.2.1, hcalls⟩
      ⟨hx, hk, ⟨params, hstored, hopen, rfl⟩, ⟨now, hclock⟩, balance, hholding, hpays⟩

theorem deposit_iff (request : DepositCollateralPlanRequest)
    (hreads : ReadFrom w request.stablecoinProgramId request.reads)
    (h : depositCollateralPlan request = .ok plan) :
    (∃ w', transact platform w authority plan.call = .ok w') ↔
      request.userCollateralHoldingId ≠ request.ownerId := by
  obtain ⟨o, x, u, data, params, vaultBalance, balance, amount, howner, huser, hderived, howned,
    hnamed, hposition, hparameters, hvault, hsame, hholding, hpays, hfits, hcall, hsigners⟩ :=
    depositCollateralPlan_found w plan request hreads h
  simp only [hsigners, List.forall_mem_cons] at hsigned
  rw [hcall, howner, huser, ne_eq, Option.some.injEq]
  constructor
  · rintro ⟨w', hw'⟩ rfl
    obtain ⟨v, calls, hperf, -⟩ := transact_settled platform w w' authority _ hw' _ rfl
    have hn := hperf.1
    simp [depositCollateralCall, ChainedCall.new] at hn
  · intro hne
    exact deposit_succeeds platform hcalls w authority hg o x u data params hsigned.1 hderived howned
      hnamed hposition hparameters he hsigned.2.1 hne vaultBalance balance amount hvault hsame hholding
      hpays hfits

end

/-- In every reachable world an accepted closing executes, an accepted deposit exactly if the holding
is not the owner's own account, and an accepted opening exactly if its accounts are distinct, the
position and its vault are not in use and the holding has the collateral. -/
theorem accepted_settlements_execute_iff (platform : Platform) (hcalls : 2 ≤ platform.callDepth)
    (genesis : Genesis) (events : List Event) (authority : List AccountId)
    (hgranted : Granted authority) (plan : Plan) (hsigned : ∀ id ∈ plan.signers, id ∈ authority) :
    (∀ request : ClosePositionPlanRequest,
      ReadFrom (run platform genesis.world events) request.stablecoinProgramId request.reads →
      closePositionPlan request = .ok plan →
      Executes platform (run platform genesis.world events) authority plan) ∧
    (∀ request : DepositCollateralPlanRequest,
      ReadFrom (run platform genesis.world events) request.stablecoinProgramId request.reads →
      depositCollateralPlan request = .ok plan →
      (Executes platform (run platform genesis.world events) authority plan ↔
        request.userCollateralHoldingId ≠ request.ownerId)) ∧
    ∀ request : OpenPositionPlanRequest,
      ReadFrom (run platform genesis.world events) request.stablecoinProgramId request.reads →
      openPositionPlan request = .ok plan → ∀ o nonce amount, request.ownerId = some o →
      parseDecimalU64 request.positionNonce = .ok nonce →
      parseDecimalU128 request.initialCollateralAmount = .ok amount →
      (Executes platform (run platform genesis.world events) authority plan ↔
        plan.accountIds.Nodup ∧
          run platform genesis.world events (computePositionPda stablecoinProgramId o nonce)
            = default ∧
          run platform genesis.world events
            (vaultId (computePositionPda stablecoinProgramId o nonce)) = default ∧
          amount.val ≤ unitsAt (run platform genesis.world events)
            request.userCollateralHolding.id) := by
  have he := run_established platform genesis events
  generalize run platform genesis.world events = w at he
  simp only [executes_iff]
  refine ⟨fun request hreads h => ?_, fun request hreads h => ?_,
    fun request hreads h o nonce amount ho hnonce hamount => ?_⟩
  · obtain ⟨o, x, data, params, token, balance, hderived, howner, hnamed, hposition, hparameters,
      hdebt, hcollateral, hvault, hempty, hcall, hsigners⟩ :=
      closePositionPlan_found w plan request hreads h
    have ho : o ∈ authority := hsigned o (by rw [hsigners]; exact List.mem_singleton_self o)
    rw [hcall]
    exact close_succeeds platform hcalls w authority hgranted o x data params ho hderived howner hnamed
      hposition hparameters token balance hdebt hcollateral hvault hempty
  · exact deposit_iff platform hcalls w he authority hgranted plan hsigned request hreads h
  · exact opening_iff platform hcalls w he authority hgranted plan hsigned request hreads h o ho nonce
      hnonce amount hamount

def firstDeposit : DepositCollateralPlanRequest :=
  ⟨some stablecoinProgramId, some (.key 30), "0", .string "1", some (.key 21),
    readOf firstWorld firstPositionId, readOf firstWorld (vaultId firstPositionId),
    readOf firstWorld (.key 21), readOf firstWorld parametersId⟩

def firstDepositPlan : Plan :=
  ⟨stablecoinProgramId, [.key 30, firstPositionId, vaultId firstPositionId, .key 21, parametersId],
    [true, false, false, true, false], .depositCollateral 1⟩

theorem first_deposit_executes :
    Executes tablePlatform firstWorld [.key 30, .key 21] firstDepositPlan := by
  refine ((accepted_settlements_execute_iff tablePlatform le_rfl (clockedGenesis 0)
    (firstInitialization ++ firstOpening) [.key 30, .key 21] (by unfold Granted; decide)
    firstDepositPlan (by decide)).2.1 firstDeposit ⟨rfl, ?_⟩ (by decide +kernel)).mpr
    (by decide)
  simp only [DepositCollateralPlanRequest.reads, firstDeposit, List.forall_mem_cons]
  exact ⟨readOf_truthful _ _, readOf_truthful _ _, readOf_truthful _ _, readOf_truthful _ _,
    fun _ h => by cases h⟩

end LezPrograms.StablecoinClient
