import LezPrograms.Stablecoin.NormalizedDebt

/-! # Vaults over runs

Every live position is covered by its own vault, and only the owner's
withdrawals take tokens out of it. -/

set_option autoImplicit false

namespace LezPrograms.Stablecoin
open LezPrograms.Checked LezPrograms.Lee LezPrograms.Token LezPrograms.Stablecoin.Math

section
variable (w : Accounts) (authority : List AccountId)

/-- A call that carries the seed of a vault opens the position or withdraws for its owner. -/
theorem vault_seed_cases (ids : List AccountId) (instruction : Instruction) (v : Accounts)
    (calls : List ChainedCall) (step : Step stablecoinProgramId w authority ids instruction v calls)
    (id : AccountId) (call : ChainedCall) (hc : call ∈ calls)
    (hs : computePositionVaultPdaSeed id ∈ call.pdaSeeds) :
    w id = default ∨ ∃ owner user amount x rest, instruction = .withdrawCollateral amount ∧
      ids[1]? = some id ∧ PositionReads stablecoinProgramId w authority owner id x ∧
      rest.val + amount.val = x.collateralAmount.val ∧
      v = put stablecoinProgramId w id (.position { x with collateralAmount := rest }) ∧
      calls = [withdrawCall (w (vaultId id)).programOwner id (vaultId id) user amount] := by
  have hsurplus (tokenProgram d : AccountId) (fees : U128)
      (h : call ∈ surplusCalls tokenProgram d stablecoinProgramId fees) : False := by
    rw [surplusCalls_seeds _ _ _ call h, List.mem_singleton] at hs
    cases hs
  cases step with
  | initializeProgram =>
    rw [List.mem_singleton.mp hc] at hs
    rcases List.mem_cons.mp hs with hs | hs
    · cases hs
    · cases List.mem_singleton.mp hs
  | accrueStabilityFee => exact (hsurplus _ _ _ hc).elim
  | refreshFee => exact (hsurplus _ _ _ hc).elim
  | refreshBoth => exact (hsurplus _ _ _ hc).elim
  | setStabilityFeePerMillisecond => exact (hsurplus _ _ _ hc).elim
  | generateDebt =>
    rcases List.mem_append.mp hc with hc | hc
    · exact (hsurplus _ _ _ hc).elim
    · rw [List.mem_singleton.mp hc] at hs
      cases List.mem_singleton.mp hs
  | repayDebt =>
    rcases List.mem_append.mp hc with hc | hc
    · exact (hsurplus _ _ _ hc).elim
    · rw [List.mem_singleton.mp hc] at hs
      cases hs
  | openPosition owner user c nonce amount params now holding _ _ freshPosition =>
    rcases List.mem_cons.mp hc with rfl | hc
    · have he := (PdaSeed.account.inj (List.mem_singleton.mp hs)).1
      exact Or.inl (he ▸ freshPosition)
    · rw [List.mem_singleton.mp hc] at hs
      cases hs
  | depositCollateral =>
    rw [List.mem_singleton.mp hc] at hs
    cases hs
  | withdrawCollateral owner position user amount x params accumulator redemption now newCollateral
      vaultHolding userHolding reads _ _ _ _ _ derived _ _ _ _ hrest =>
    rw [List.mem_singleton.mp hc] at hs
    obtain rfl := (PdaSeed.account.inj (List.mem_singleton.mp hs)).1
    refine Or.inr ⟨owner, user, amount, x, newCollateral, rfl, rfl, reads, hrest, rfl, ?_⟩
    rw [derived]
  | _ => cases hc

end

section
variable (w : Accounts) (s : Instance) (h : Represents w s)
include h

theorem Represents.vaultUnits_eq (id : AccountId) (hid : id ∈ s.ledger.live) :
    vaultUnits w id = s.ledger.vault id := by
  obtain ⟨held, hheld, -, -, hunits⟩ := h.tokens.vaults id hid
  exact hheld.unitsAt_eq.trans hunits

theorem Represents.position (id : AccountId) (x : Position) (hx : positionAt w id = some x) :
    id ∈ s.ledger.live ∧ x.vaultAccountId = vaultId id ∧
      id = computePositionPda stablecoinProgramId x.ownerAccountId x.positionNonce ∧
      s.ledger.collateral id = x.collateralAmount.val := by
  rw [positionAt_eq_some] at hx
  exact ⟨(h.records.live id).mpr ⟨x, hx⟩, (h.records.placed id x hx).2,
    (h.records.placed id x hx).1, (h.records.amounts id x hx).2⟩

variable (authority : List AccountId) (v w' : Accounts) (calls : List ChainedCall)

/-- Calls without the seed of a vault leave it at least as full. -/
theorem Represents.vault_grows (i : Invoked authority w v calls w') (id : AccountId)
    (hid : id ∈ s.ledger.live)
    (hseeds : ∀ call ∈ calls, computePositionVaultPdaSeed id ∉ call.pdaSeeds) :
    vaultUnits w id ≤ vaultUnits w' id := by
  obtain ⟨held, hheld, -, -, hunits⟩ := h.tokens.vaults id hid
  obtain ⟨held', hheld', hgrown⟩ := i.settled.holding_grows _ _ (vaultId id)
    (fun hm => i.outside _ hm (derivedBy_vault id)) v w' calls
    (by
      intro call hc seed hs he
      rw [← (AccountId.pda.inj he).2] at hs
      exact hseeds call hc hs)
    held (by rwa [HoldingAt, i.tokens_eq])
  have hbefore : vaultUnits w id = held.units := hheld.unitsAt_eq
  have hafter : vaultUnits w' id = held'.units := hheld'.unitsAt_eq
  rw [hbefore, hafter]
  exact hgrown.units

/-- The call of a withdrawal takes its amount out of the vault. -/
theorem Represents.withdrawn (tokenProgram user id : AccountId) (amount : U128)
    (i : Invoked authority w v [withdrawCall tokenProgram id (vaultId id) user amount] w')
    (hid : id ∈ s.ledger.live) : vaultUnits w' id + amount.val = vaultUnits w id := by
  obtain ⟨held, hheld, -, -, hunits⟩ := h.tokens.vaults id hid
  have hl := (settled_singleton _ _ _ _ _).mp i.settled
  obtain ⟨held', hheld', -, -, hunits'⟩ := (hl.transition _ _ _ _ _ rfl).2.sent
    _ _ _ _ _ _ held (by rwa [HoldingAt, i.tokens_eq])
  have hbefore : vaultUnits w id = held.units := hheld.unitsAt_eq
  have hafter : vaultUnits w' id = held'.units := hheld'.unitsAt_eq
  rw [hbefore, hafter, hunits']

end

structure Withdraws (platform : Platform) (w : Accounts) (event : Event) (id : AccountId)
    (x : Position) (authority : List AccountId) (call : ChainedCall) (amount : U128) : Prop where
  transaction : event = .transaction authority call
  called : call.instruction = .stablecoin (.withdrawCollateral amount)
  position : call.accountIds[1]? = some id
  owner : x.ownerAccountId ∈ authority
  reduces : ∃ x', positionAt (event.apply platform w) id = some x' ∧
    x'.collateralAmount.val + amount.val = x.collateralAmount.val
  drains : unitsAt (event.apply platform w) x.vaultAccountId + amount.val
    = unitsAt w x.vaultAccountId

theorem unitsAt_le_of_data (w : Accounts) (id token : AccountId) (balance : U128)
    (h : (w id).data = .tokenHolding (.fungible token balance)) : unitsAt w id ≤ balance.val := by
  by_cases ho : (w id).programOwner = tokenProgramId
  · rw [unitsAt, (owned_eq_some _ _ _ _).mpr ⟨ho, h⟩]
    exact le_rfl
  · rw [unitsAt, owned, if_neg ho]
    exact Nat.zero_le _

section
variable (platform : Platform) (w : Accounts) (hs : Sound w)
include hs

theorem sound_covers (id : AccountId) (x : Position) (hx : positionAt w id = some x) :
    x.collateralAmount.val ≤ unitsAt w x.vaultAccountId := by
  rcases hs with hu | ⟨s, hr, -, -, hcov⟩
  · rw [hu.positionAt] at hx
    cases hx
  · obtain ⟨hid, hvault, -, hcollateral⟩ := hr.position w s id x hx
    have hunits := hr.vaultUnits_eq w s id hid
    have hle := hcov id hid
    rw [vaultUnits] at hunits
    rw [hvault, hunits, ← hcollateral]
    exact hle

/-- Only a withdrawal by the owner takes tokens out of the vault of a position. -/
theorem sound_drained (event : Event) (id : AccountId) (x : Position)
    (hx : positionAt w id = some x)
    (hlt : unitsAt (event.apply platform w) x.vaultAccountId < unitsAt w x.vaultAccountId) :
    ∃ authority call amount, Withdraws platform w event id x authority call amount := by
  rcases hs with hu | ⟨s, hr, -, -, -⟩
  · rw [hu.positionAt] at hx
    cases hx
  obtain ⟨hid, hvault, hplaced, -⟩ := hr.position w s id x hx
  rw [hvault] at hlt
  have hunits := hr.vaultUnits_eq w s id hid
  rcases event_cases platform w event with
    ⟨he, -⟩ | ⟨authority, call, instruction, v, calls, rfl, ht⟩
  · exfalso
    obtain ⟨supply, vault, -, hv, hr'⟩ := Elsewhere.represents w _ s hr he
    have hunits' := hr'.vaultUnits_eq _ _ id hid
    have hle := hv id hid
    simp only [vaultUnits] at hunits hunits'
    omega
  · by_cases hseeds : ∀ call ∈ calls, computePositionVaultPdaSeed id ∉ call.pdaSeeds
    · have hle := hr.vault_grows w s authority v _ calls ht.invoked id hid hseeds
      simp only [vaultUnits] at hle
      omega
    · simp only [not_forall, Classical.not_not] at hseeds
      obtain ⟨c, hc, hseed⟩ := hseeds
      rcases vault_seed_cases w authority _ instruction v calls ht.step id c hc hseed with
        hfresh | ⟨owner, user, amount, y, rest, rfl, hposition, hreads, hrest, rfl, rfl⟩
      · rw [positionAt_eq_some, owned_eq_some, hfresh] at hx
        cases hx.2
      · have hy := (positionAt_eq_some w id y).mpr (Holds.owned_eq _ _ _ _ hreads.stored)
        obtain rfl := Option.some.inj (hx.symm.trans hy)
        have hwithdrawn := hr.withdrawn w s authority _ _ _ user id amount ht.invoked hid
        refine ⟨authority, call, amount, rfl, ht.called, hposition,
          hreads.owner ▸ hreads.authorized, ⟨{ x with collateralAmount := rest }, ?_, hrest⟩,
          by rw [hvault]; exact hwithdrawn⟩
        rw [positionAt_eq_some, ht.invoked.stored_eq, owned_put _ _ _ _ (Or.inl hreads.stored.1),
          Function.update_self]

/-- A deposit records at least as much collateral as before. -/
theorem sound_deposit (w' : Accounts) (authority : List AccountId) (call : ChainedCall)
    (amount : U128) (hi : call.instruction = .stablecoin (.depositCollateral amount))
    (ht : transact platform w authority call = .ok w') (id : AccountId) (x : Position)
    (hx : positionAt w id = some x) :
    ∃ x', positionAt w' id = some x' ∧ x.collateralAmount.val ≤ x'.collateralAmount.val := by
  obtain ⟨v, calls, ht⟩ := transacted_of_ok platform w w' authority call _ hi ht
  have hcovers := sound_covers w hs
  have hstored := ht.invoked.stored_eq
  have hstep := ht.step
  generalize call.accountIds = ids at hstep
  cases hstep with
  | setParameters _ _ _ _ _ hsetter => cases hsetter
  | depositCollateral owner position user _ y params collateral balance newCollateral _ reads _ _
      vault sum =>
    rw [owned_put _ _ _ _ (Or.inl reads.stored.1)] at hstored
    by_cases he : id = position
    · subst he
      have hy := (positionAt_eq_some w id y).mpr (Holds.owned_eq _ _ _ _ reads.stored)
      obtain rfl := Option.some.inj (hx.symm.trans hy)
      refine ⟨_, (positionAt_eq_some _ _ _).mpr (by rw [hstored, Function.update_self]), ?_⟩
      have hle := (hcovers id x hx).trans (unitsAt_le_of_data _ _ _ _ vault)
      simp only
      omega
    · refine ⟨x, (positionAt_eq_some _ _ _).mpr ?_, le_rfl⟩
      rw [hstored, Function.update_of_ne he]
      exact (positionAt_eq_some _ _ _).mp hx

/-- The transfer of an accepted withdrawal takes no more than the vault holds. -/
theorem sound_withdrawal (v : Accounts) (authority ids : List AccountId) (amount : U128)
    (calls : List ChainedCall)
    (h : execute stablecoinProgramId w authority ids
      (fun accounts => main stablecoinProgramId accounts (.withdrawCollateral amount))
        = .ok (v, calls)) :
    ∃ tokenProgram id user token balance,
      calls = [withdrawCall tokenProgram id (vaultId id) user amount] ∧
      v (vaultId id) = w (vaultId id) ∧
      (w (vaultId id)).data = .tokenHolding (.fungible token balance) ∧
      amount.val ≤ balance.val := by
  obtain ⟨-, diffs, hmain, ha⟩ := (execute_eq_ok _ _ _ _ _ _ _).mp h
  have hstep := step_of_main _ _ _ _ _ _ _ _ hmain ha
  cases hstep with
  | setParameters _ _ _ _ _ hsetter => cases hsetter
  | withdrawCollateral owner position user _ x params accumulator redemption now newCollateral
      vaultHolding userHolding reads _ _ _ _ _ derived vault _ _ _ rest =>
    have hx := (positionAt_eq_some w position x).mpr (Holds.owned_eq _ _ _ _ reads.stored)
    have hle := sound_covers w hs position x hx
    rcases hs with hu | ⟨s, hr, -, -, -⟩
    · exact (hu.not_holds w _ _ reads.stored).elim
    obtain ⟨hid, hvault, -, -⟩ := hr.position w s position x hx
    obtain ⟨held, hheld, hkind, -, -⟩ := hr.tokens.vaults position hid
    have hheld' := hheld.unitsAt_eq
    rw [hvault] at derived vault hle ⊢
    rw [hheld'] at hle
    cases held with
    | fungible token balance =>
      refine ⟨_, position, user, token, balance, rfl, ?_, hheld.data, ?_⟩
      · rw [put_other]
        rw [reads.derived]
        exact fun he => by cases (PdaSeed.account.inj (AccountId.pda.inj he).2).2
      · have hunits : (TokenHolding.fungible token balance).units = balance.val := rfl
        omega
    | nftMaster => cases hkind
    | nftPrintedCopy => cases hkind

end

/-- After every run the vault of a live position covers its collateral; the transfer of an
accepted withdrawal is covered; a deposit never lowers the recorded collateral; and an event that
takes tokens out of the vault of a position is a withdrawal by its owner. -/
theorem vaults_cover_positions (platform : Platform) (genesis : Genesis) (events : List Event) :
    (∀ id x, positionAt (run platform genesis.world events) id = some x →
        x.collateralAmount.val ≤ unitsAt (run platform genesis.world events) x.vaultAccountId) ∧
      (∀ v authority ids amount calls,
        execute stablecoinProgramId (run platform genesis.world events) authority ids
          (fun accounts => main stablecoinProgramId accounts (.withdrawCollateral amount))
            = .ok (v, calls) →
        ∃ tokenProgram id user token balance,
          calls = [withdrawCall tokenProgram id (vaultId id) user amount] ∧
          v (vaultId id) = run platform genesis.world events (vaultId id) ∧
          (run platform genesis.world events (vaultId id)).data
            = .tokenHolding (.fungible token balance) ∧
          amount.val ≤ balance.val) ∧
      (∀ w' authority call amount, call.instruction = .stablecoin (.depositCollateral amount) →
        transact platform (run platform genesis.world events) authority call = .ok w' →
        ∀ id x, positionAt (run platform genesis.world events) id = some x →
          ∃ x', positionAt w' id = some x' ∧ x.collateralAmount.val ≤ x'.collateralAmount.val) ∧
      ∀ event id x, positionAt (run platform genesis.world events) id = some x →
        unitsAt (run platform genesis.world (events ++ [event])) x.vaultAccountId <
          unitsAt (run platform genesis.world events) x.vaultAccountId →
        ∃ authority call amount, Withdraws platform (run platform genesis.world events) event id x
          authority call amount := by
  have hs := run_sound platform genesis events
  refine ⟨sound_covers _ hs, ?_, ?_, ?_⟩
  · exact fun v authority ids amount calls h => sound_withdrawal _ hs v authority ids amount calls h
  · exact fun w' authority call amount hi ht id x hx =>
      sound_deposit platform _ hs w' authority call amount hi ht id x hx
  · intro event id x hx hlt
    rw [run_concat] at hlt
    exact sound_drained platform _ hs event id x hx hlt

end LezPrograms.Stablecoin
