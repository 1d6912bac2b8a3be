import LezPrograms.Stablecoin.Founding
import LezPrograms.Token.Credits

/-! # Squatting on the addresses of an opening

Opening a position and initializing the program insist on uninitialized accounts.
A transfer or a mint creates the account that it credits, so anybody can take such
an address. Nothing else that other parties do stands in the way of an opening. -/

set_option autoImplicit false

namespace LezPrograms.Stablecoin
open LezPrograms.Checked LezPrograms.Checked.Unsigned LezPrograms.Lee LezPrograms.Token
open LezPrograms.Stablecoin.Math

def ProtocolData (data : Data) : Prop :=
  (∃ p, data = .protocolParameters p) ∨ (∃ a, data = .stabilityFeeAccumulator a) ∨
    (∃ r, data = .redemptionPriceState r) ∨ ∃ x, data = .position x

section
variable (w v : Accounts) (authority ids : List AccountId) (instruction : Instruction)
  (calls : List ChainedCall)

/-- Once initialized, the program writes its own accounts and the positions it opens. -/
theorem Step.touched (hp : w parametersId ≠ default)
    (h : Step stablecoinProgramId w authority ids instruction v calls) (id : AccountId)
    (hx : v id ≠ w id) : ProtocolData (w id).data ∨
      ∃ o nonce, o ∈ authority ∧ id = computePositionPda stablecoinProgramId o nonce := by
  have hput : ∀ (u : Accounts) (x : AccountId) (data : Data),
      put stablecoinProgramId u x data id ≠ w id → id = x ∨ u id ≠ w id := by
    intro u x data hne
    by_cases hid : id = x
    · exact Or.inl hid
    · rw [put_other _ _ _ _ _ hid] at hne
      exact Or.inr hne
  have hparameters : ∀ (x : AccountId) p, Holds stablecoinProgramId (w x) (.protocolParameters p) →
      ProtocolData (w x).data := fun _ p h => Or.inl ⟨p, h.2⟩
  have haccumulator : ∀ (x : AccountId) a,
      Holds stablecoinProgramId (w x) (.stabilityFeeAccumulator a) → ProtocolData (w x).data :=
    fun _ a h => Or.inr (Or.inl ⟨a, h.2⟩)
  have hredemption : ∀ (x : AccountId) r,
      Holds stablecoinProgramId (w x) (.redemptionPriceState r) → ProtocolData (w x).data :=
    fun _ r h => Or.inr (Or.inr (Or.inl ⟨r, h.2⟩))
  have hposition : ∀ (x : AccountId) data, Holds stablecoinProgramId (w x) (.position data) →
      ProtocolData (w x).data := fun _ data h => Or.inr (Or.inr (Or.inr ⟨data, h.2⟩))
  cases h with
  | initializeProgram _ _ _ _ _ _ _ hfresh => exact absurd hfresh hp
  | accrueStabilityFee _ _ _ _ _ _ _ _ reads =>
    rcases hput _ _ _ hx with rfl | hx
    · exact Or.inl (haccumulator _ _ reads.accumulates)
    · exact absurd rfl hx
  | updateRedemptionRate _ _ _ _ _ _ _ _ _ _ stored =>
    rcases hput _ _ _ hx with rfl | hx
    · exact Or.inl (hredemption _ _ stored)
    · exact absurd rfl hx
  | refreshFee _ _ _ _ _ _ _ _ _ reads =>
    rcases hput _ _ _ hx with rfl | hx
    · exact Or.inl (haccumulator _ _ reads.accumulates)
    · exact absurd rfl hx
  | refreshBoth _ _ _ _ _ _ _ _ _ _ _ _ reads stored =>
    rcases hput _ _ _ hx with rfl | hx
    · exact Or.inl (hredemption _ _ stored)
    · rcases hput _ _ _ hx with rfl | hx
      · exact Or.inl (haccumulator _ _ reads.accumulates)
      · exact absurd rfl hx
  | resetRedemptionRateController _ _ _ _ _ _ _ stored =>
    rcases hput _ _ _ hx with rfl | hx
    · exact Or.inl (hredemption _ _ stored)
    · exact absurd rfl hx
  | openPosition owner _ _ nonce _ _ _ _ hauth =>
    rcases hput _ _ _ hx with rfl | hx
    · exact Or.inr ⟨owner, nonce, hauth, rfl⟩
    · exact absurd rfl hx
  | depositCollateral _ _ _ _ _ _ _ _ _ _ reads =>
    rcases hput _ _ _ hx with rfl | hx
    · exact Or.inl (hposition _ _ reads.stored)
    · exact absurd rfl hx
  | closePosition _ _ _ _ _ reads =>
    rcases hput _ _ _ hx with rfl | hx
    · exact Or.inl (hposition _ _ reads.stored)
    · exact absurd rfl hx
  | generateDebt _ _ _ _ _ _ _ _ _ _ _ _ _ _ reads accrues =>
    rcases hput _ _ _ hx with rfl | hx
    · exact Or.inl (haccumulator _ _ accrues.accumulates)
    · rcases hput _ _ _ hx with rfl | hx
      · exact Or.inl (hposition _ _ reads.stored)
      · exact absurd rfl hx
  | repayDebt _ _ _ _ _ _ _ _ _ _ _ _ _ reads _ accrues =>
    rcases hput _ _ _ hx with rfl | hx
    · exact Or.inl (haccumulator _ _ accrues.accumulates)
    · rcases hput _ _ _ hx with rfl | hx
      · exact Or.inl (hposition _ _ reads.stored)
      · exact absurd rfl hx
  | withdrawCollateral _ _ _ _ _ _ _ _ _ _ _ _ reads =>
    rcases hput _ _ _ hx with rfl | hx
    · exact Or.inl (hposition _ _ reads.stored)
    · exact absurd rfl hx
  | setStabilityFeePerMillisecond _ _ _ _ _ _ _ _ _ _ accrues =>
    rcases hput _ _ _ hx with rfl | hx
    · exact Or.inl (haccumulator _ _ accrues.accumulates)
    · rcases hput _ _ _ hx with rfl | hx
      · exact Or.inl (hparameters _ _ accrues.parameters)
      · exact absurd rfl hx
  | setParameters _ _ _ params _ _ _ parameters =>
    rcases hput _ _ _ hx with rfl | hx
    · exact Or.inl (hparameters _ _ parameters)
    · exact absurd rfl hx

/-- Nothing that others do with the program creates a position of `o` or its vault. -/
theorem Performs.spares (hp : w parametersId ≠ default) (o : AccountId) (nonce : U64)
    (ho : o ∉ authority) (hx : w (computePositionPda stablecoinProgramId o nonce) = default)
    (id : AccountId) (hid : id = computePositionPda stablecoinProgramId o nonce ∨
      id = vaultId (computePositionPda stablecoinProgramId o nonce)) (hfresh : w id = default)
    (h : Performs w authority ids instruction v calls) :
    ∀ call ∈ calls, Spares stablecoinProgramId id call := by
  have hdefinition : id ≠ definitionId := by
    rintro rfl
    rcases hid with he | he <;> cases (AccountId.pda.inj he).2
  have hmaster : id ≠ masterId := by
    rintro rfl
    rcases hid with he | he <;> cases (AccountId.pda.inj he).2
  have hvault : ∀ x, x ≠ computePositionPda stablecoinProgramId o nonce → id ≠ vaultId x := by
    rintro x hne rfl
    rcases hid with he | he
    · cases (AccountId.pda.inj he).2
    · exact hne (computePositionVaultPda_injective _ _ _ he)
  have hother : ∀ (y : AccountId) (data : Data), (w y).data = data → data ≠ .empty → id ≠ y := by
    rintro y data hd hne rfl
    rw [hfresh] at hd
    exact hne hd.symm
  have hstored : ∀ (y : AccountId) (data : Position),
      Holds stablecoinProgramId (w y) (.position data) →
      y ≠ computePositionPda stablecoinProgramId o nonce := by
    rintro y data hy rfl
    rw [hx] at hy
    cases hy.2
  have hsurplus : ∀ tokenProgram d fees, ∀ call ∈ surplusCalls tokenProgram d stablecoinProgramId
      fees, Spares stablecoinProgramId id call := by
    intro tokenProgram d fees call hc
    unfold surplusCalls at hc
    split at hc
    · rw [List.mem_singleton.mp hc]
      refine ⟨fun seed hs => ?_, _, rfl, fun hm => hmaster (List.mem_singleton.mp hm)⟩
      rw [List.mem_singleton.mp hs]
      exact hdefinition
    · cases hc
  intro call hc
  cases h.step with
  | initializeProgram _ _ _ _ _ _ _ hfresh' => exact absurd hfresh' hp
  | accrueStabilityFee => exact hsurplus _ _ _ call hc
  | refreshFee => exact hsurplus _ _ _ call hc
  | refreshBoth => exact hsurplus _ _ _ call hc
  | setStabilityFeePerMillisecond => exact hsurplus _ _ _ call hc
  | updateRedemptionRate => cases hc
  | resetRedemptionRateController => cases hc
  | closePosition => cases hc
  | setParameters => cases hc
  | openPosition owner _ _ nonce' _ _ _ _ hauth =>
    have hne : computePositionPda stablecoinProgramId owner nonce'
        ≠ computePositionPda stablecoinProgramId o nonce := fun he =>
      ho ((computePositionPda_injective _ _ _ _ _ he).1 ▸ hauth)
    rcases List.mem_cons.mp hc with rfl | hc
    · refine ⟨fun seed hs => ?_, _, rfl, fun hm => by cases hm⟩
      rw [List.mem_singleton.mp hs]
      exact hvault _ hne
    · rw [List.mem_singleton.mp hc]
      exact ⟨fun seed hs => (by cases hs), _, rfl,
        fun hm => hvault _ hne (List.mem_singleton.mp hm)⟩
  | depositCollateral _ _ _ _ _ _ _ _ _ _ _ _ _ vault =>
    rw [List.mem_singleton.mp hc]
    exact ⟨fun seed hs => (by cases hs), _, rfl,
      fun hm => hother _ _ vault Data.noConfusion (List.mem_singleton.mp hm)⟩
  | withdrawCollateral _ _ _ _ _ _ _ _ _ _ _ _ reads _ _ _ _ _ _ _ _ userData =>
    rw [List.mem_singleton.mp hc]
    refine ⟨fun seed hs => ?_, _, rfl,
      fun hm => hother _ _ userData Data.noConfusion (List.mem_singleton.mp hm)⟩
    rw [List.mem_singleton.mp hs]
    exact hvault _ (hstored _ _ reads.stored)
  | generateDebt owner position d user amount =>
    rcases List.mem_append.mp hc with hc | hc
    · exact hsurplus _ _ _ call hc
    · obtain ⟨-, -, _, _, _, _, _, _, _, _, _, reads, -⟩ :=
        (performs_generate _ _ _ _ _ _ _ _ _ _ _ _ _ _).mp h
      obtain ⟨held, hheld, -⟩ := reads.holding
      rw [List.mem_singleton.mp hc]
      refine ⟨fun seed hs => ?_, _, rfl,
        fun hm => hother _ _ hheld Data.noConfusion (List.mem_singleton.mp hm)⟩
      rw [List.mem_singleton.mp hs]
      exact hdefinition
  | repayDebt =>
    rcases List.mem_append.mp hc with hc | hc
    · exact hsurplus _ _ _ call hc
    · rw [List.mem_singleton.mp hc]
      exact ⟨fun seed hs => (by cases hs), _, rfl, fun hm => by cases hm⟩

end

section
variable (platform : Platform) (w w' : Accounts) (authority : List AccountId) (call : ChainedCall)
  (h : transact platform w authority call = .ok w')
include h

theorem transact_token (i : Token.Instruction AccountId) (hi : call.instruction = .token i) :
    Token.Transition authority call.accountIds i w w' := by
  cases (transact_performed platform w w' authority call h).2 with
  | token i' hi' ht =>
    rw [hi] at hi'
    cases hi'
    exact ht
  | oracle i' hi' => rw [hi] at hi'; cases hi'
  | amm i' _ _ hi' => rw [hi] at hi'; cases hi'
  | stablecoin i' _ _ hi' => rw [hi] at hi'; cases hi'

theorem transact_settled (i : Instruction) (hi : call.instruction = .stablecoin i) :
    ∃ v calls, Performs w authority call.accountIds i v calls ∧
      Settled stablecoinProgramId authority v calls w' := by
  obtain ⟨-, -, depth, v, calls, -, hperf, hs⟩ :=
    (transact_eq_ok platform w w' authority call i hi).mp h
  exact ⟨v, calls, hperf, settled_of_foldlM platform.tickMath depth stablecoinProgramId authority
    calls (stablecoin_leaf _ _ _ _ _ _ _ hperf.step) v w' hs⟩

theorem transact_granted : Granted authority := by
  have ho := (transact_performed platform w w' authority call h).1
  exact fun id hid program hp => ho program hp id hid

/-- Without the key of a holding nobody takes from it. -/
theorem holding_kept (hprogram : (∃ i, call.instruction = .token i) ∨
      ∃ i, call.instruction = .stablecoin i) (u : AccountId) (hu : u ∉ authority)
    (hd : ¬u.DerivedBy stablecoinProgramId) (held : Token.Holding) (hh : HoldingAt w u held) :
    ∃ held', HoldingAt w' u held' ∧ Grown held held' := by
  rcases hprogram with ⟨i, hi⟩ | ⟨i, hi⟩
  · exact (transact_token platform w w' authority call h i hi).holding_grows _ _ _ _ _ u hu held hh
  · obtain ⟨v, calls, hperf, hs⟩ := transact_settled platform w w' authority call h i hi
    have htokens := owned_frame tokenProgramId stablecoinProgramId w v hperf.frame (by decide)
      (by decide)
    refine hs.holding_grows _ _ u hu v w' calls ?_ held (by rwa [HoldingAt, htokens])
    rintro c - seed - rfl
    exact hd rfl

end

def OfPosition (o : AccountId) (nonce : U64) (id : AccountId) : Prop :=
  id = computePositionPda stablecoinProgramId o nonce ∨
    id = vaultId (computePositionPda stablecoinProgramId o nonce)

section
variable (platform : Platform) (w w' : Accounts) (authority : List AccountId) (call : ChainedCall)
  (h : transact platform w authority call = .ok w') (hp : w parametersId ≠ default)
  (hprogram : (∃ i, call.instruction = .token i) ∨ ∃ i, call.instruction = .stablecoin i)
  (o : AccountId) (nonce : U64) (ho : o ∉ authority)
  (hx : w (computePositionPda stablecoinProgramId o nonce) = default)
include h hp hprogram ho hx

theorem unopened_kept (id : AccountId) (hid : OfPosition o nonce id) (hfresh : w id = default)
    (hc : ∀ i, call.instruction = .token i → id ∉ credited call.accountIds i) :
    w' id = default := by
  have ha : id ∉ authority := by
    intro hm
    refine transact_granted platform w w' authority call h id hm stablecoinProgramId (by decide) ?_
    rcases hid with rfl | rfl <;> rfl
  rcases hprogram with ⟨i, hi⟩ | ⟨i, hi⟩
  · exact (transact_token platform w w' authority call h i hi).step.fresh_kept _ _ _ _ _ id hfresh
      ha (hc i hi)
  · obtain ⟨v, calls, hperf, hs⟩ := transact_settled platform w w' authority call h i hi
    refine hs.fresh_kept _ _ _ _ _ id ha
      (hperf.spares w v authority _ i calls hp o nonce ho hx id hid hfresh) ?_
    by_contra hne
    rcases hperf.step.touched w v authority _ i calls hp id (fun he => hne (he.trans hfresh)) with
      hd | ⟨o', nonce', ho', he⟩
    · rw [hfresh] at hd
      rcases hd with ⟨_, hd⟩ | ⟨_, hd⟩ | ⟨_, hd⟩ | ⟨_, hd⟩ <;> cases hd
    · rcases hid with rfl | rfl
      · exact ho ((computePositionPda_injective _ _ _ _ _ he).1 ▸ ho')
      · cases (AccountId.pda.inj he).2

theorem clock_kept (now : U64) (hclock : (w clock01ProgramAccountId).data = .clock now) :
    (w' clock01ProgramAccountId).data = .clock now := by
  have hne : w clock01ProgramAccountId ≠ default :=
    Token.data_ne_default _ (by rw [hclock]; exact Data.noConfusion)
  have hd : ¬TokenData (w clock01ProgramAccountId).data := by
    rw [hclock]
    rintro (⟨_, hd⟩ | ⟨_, hd⟩) <;> cases hd
  rcases hprogram with ⟨i, hi⟩ | ⟨i, hi⟩
  · rw [(transact_token platform w w' authority call h i hi).step.others_kept _ _ _ _ _ _ hne hd,
      hclock]
  · obtain ⟨v, calls, hperf, hs⟩ := transact_settled platform w w' authority call h i hi
    have hv : v clock01ProgramAccountId = w clock01ProgramAccountId := by
      by_contra hne'
      rcases hperf.step.touched w v authority _ i calls hp _ hne' with hd | ⟨o', nonce', -, he⟩
      · rw [hclock] at hd
        rcases hd with ⟨_, hd⟩ | ⟨_, hd⟩ | ⟨_, hd⟩ | ⟨_, hd⟩ <;> cases hd
      · cases he
    have htoken : ∀ c ∈ calls, ∃ i, c.instruction = .token i := by
      intro c hc
      obtain ⟨-, i', hi', -⟩ := hperf.spares w v authority _ i calls hp o nonce ho hx _ (Or.inl rfl)
        hx c hc
      exact ⟨i', hi'⟩
    rw [hs.others_kept _ _ _ _ _ _ htoken (by rwa [hv]) (by rwa [hv]), hv, hclock]

end

/-- A program that nobody freezes stays open, with the same collateral. -/
theorem open_kept (platform : Platform) (w w' : Accounts) (authority : List AccountId)
    (call : ChainedCall) (h : transact platform w authority call = .ok w') (he : Established w)
    (p : ProtocolParameters) (hp : storedParameters w = some p) (hopen : p.isFrozen = false)
    (hprogram : (∃ i, call.instruction = .token i) ∨ ∃ i, call.instruction = .stablecoin i)
    (hfreeze : call.instruction ≠ .stablecoin .freeze) :
    ∃ p', storedParameters w' = some p' ∧ p'.isFrozen = false ∧
      p'.collateralDefinitionId = p.collateralDefinitionId := by
  rcases hprogram with ⟨i, hi⟩ | ⟨i, hi⟩
  · have hstored := owned_frame stablecoinProgramId tokenProgramId w w'
      (transact_token platform w w' authority call h i hi).frame (by decide) (by decide)
    exact ⟨p, by rwa [storedParameters, hstored], hopen, rfl⟩
  · obtain ⟨v, calls, hperf, hs⟩ := transact_settled platform w w' authority call h i hi
    have hstored := hs.owned_eq _ _ stablecoinProgramId (by decide) (by decide)
    obtain ⟨s, hr, rfl⟩ := he.represents w p hp
    obtain ⟨p', hp', hgoverned⟩ := hr.step_governed w s authority _ i v calls hperf.step
    refine ⟨p', by rw [storedParameters, hstored, hp'], ?_, ?_⟩
    · cases hset : i.setsParameters with
      | false =>
        obtain ⟨rate, hrate⟩ := hr.step_parameters w s authority _ i v calls hset hperf.step
        rw [hp', Option.some.injEq, Data.protocolParameters.injEq] at hrate
        rw [hrate]
        exact hopen
      | true =>
        obtain ⟨q, q', hq, hsets, rfl⟩ := setter_sets w v authority calls _ i hset hperf
        obtain ⟨-, rfl⟩ := hr.reads_parameters w s _ q hq
        rw [owned_put_same _ _ _ _ (Holds.owned_eq _ _ _ _ hq), Function.update_self,
          Option.some.injEq, Data.protocolParameters.injEq] at hp'
        subst hp'
        rw [hsets.frozen, hopen]
        cases i <;> first | rfl | exact absurd hi hfreeze
    · rcases hgoverned with rfl | ⟨signer, -, -, hg⟩
      · rfl
      · exact hg.definitions_kept.2

structure Openable (w : Accounts) (o u c : AccountId) (nonce : U64) (amount : U128) : Prop where
  position : w (computePositionPda stablecoinProgramId o nonce) = default
  vault : w (vaultId (computePositionPda stablecoinProgramId o nonce)) = default
  stored : ∃ p, storedParameters w = some p ∧ p.isFrozen = false ∧ p.collateralDefinitionId = c
  clock : ∃ now, (w clock01ProgramAccountId).data = .clock now
  holding : ∃ balance, HoldingAt w u (.fungible c balance) ∧ amount.val ≤ balance.val

structure OpeningCall (platform : Platform) (authority : List AccountId) (call : ChainedCall)
    (o u c : AccountId) (nonce : U64) (amount : U128) : Prop where
  called : call.instruction = .stablecoin (.openPosition nonce amount)
  program : call.programId = stablecoinProgramId
  accounts : call.accountIds = [o, computePositionPda stablecoinProgramId o nonce,
    vaultId (computePositionPda stablecoinProgramId o nonce), u, c, parametersId,
    clock01ProgramAccountId]
  distinct : call.accountIds.Nodup
  granted : Granted authority
  owner : o ∈ authority
  user : u ∈ authority
  depth : 2 ≤ platform.callDepth

/-- The calls of an opening succeed on a fresh vault and a sufficient holding. -/
theorem opening_settles (tickMath : TwapOracle.TickMath) (depth : ℕ) (v : Accounts)
    (authority : List AccountId) (c x u tokenProgram : AccountId) (d : Token.Definition)
    (balance amount : U128) (hprogram : tokenProgram = tokenProgramId)
    (hdef : DefinitionAt v c d) (hfungible : d.isFungible) (hvault : v (vaultId x) = default)
    (hholding : HoldingAt v u (.fungible c balance)) (hle : amount.val ≤ balance.val)
    (hne : u ≠ vaultId x) (hu : u ∈ authority) :
    ∃ v', settle tickMath (depth + 1) stablecoinProgramId authority v
      [initializeVaultCall tokenProgram c x (vaultId x),
        depositCall tokenProgram u (vaultId x) amount] = .ok v' := by
  have hzero : TokenHolding.zeroizedFromDefinition c d = .fungible c (zero 128) := by
    cases d with
    | fungible => rfl
    | nonFungible => exact hfungible.elim
  have hinit := invoke_initializeAccount tickMath depth v
    (callAuthority authority stablecoinProgramId (initializeVaultCall tokenProgram c x (vaultId x)))
    (initializeVaultCall tokenProgram c x (vaultId x)) hprogram c (vaultId x) rfl rfl d hdef hvault
    (List.mem_append_right _ (List.mem_singleton_self _))
  rw [hzero] at hinit
  have hmove := invoke_transfer tickMath depth
    (put tokenProgramId v (vaultId x) (.tokenHolding (.fungible c (zero 128))))
    (callAuthority authority stablecoinProgramId (depositCall tokenProgram u (vaultId x) amount))
    (depositCall tokenProgram u (vaultId x) amount) hprogram u (vaultId x) amount rfl rfl c balance
    (zero 128) ⟨balance.val - amount.val, lt_of_le_of_lt (Nat.sub_le _ _) balance.isLt⟩ amount
    ((owned_congr _ _ _ _ (put_other _ _ _ _ _ hne)).trans hholding)
    (holdingAt_created v _ _ hvault) hne (List.mem_append_left _ hu) (Nat.sub_add_cancel hle)
    (Nat.zero_add _).symm
  rw [settle, List.foldlM_cons, hinit, ok_bind, List.foldlM_cons, hmove, ok_bind]
  exact ⟨_, rfl⟩

section
variable (platform : Platform) (w : Accounts) (he : Established w) (authority : List AccountId)
  (call : ChainedCall) (nonce : U64) (amount : U128)
include he

theorem opening_found (w' : Accounts)
    (hi : call.instruction = .stablecoin (.openPosition nonce amount))
    (h : transact platform w authority call = .ok w') :
    ∃ o u c, OpeningCall platform authority call o u c nonce amount ∧
      Openable w o u c nonce amount := by
  obtain ⟨hgranted, hprogram, depth, v, calls, hdepth, hperf, hsettle⟩ :=
    (transact_eq_ok platform w w' authority call _ hi).mp h
  have hs := settled_of_foldlM platform.tickMath depth stablecoinProgramId authority calls
    (stablecoin_leaf _ _ _ _ _ _ _ hperf.step) v w' hsettle
  have hn := hperf.1
  have hstep := hperf.step
  generalize hids : call.accountIds = ids at hn hstep
  cases hstep with
  | openPosition o u c _ _ p now holding ho hu hx hk hp hopen hc hclock hholding hsame hprog =>
    have hd : 2 ≤ platform.callDepth := by
      cases depth with
      | zero => cases hsettle
      | succ depth => omega
    refine ⟨o, u, c, ⟨hi, hprogram, hids, hids ▸ hn, hgranted, ho, hu, hd⟩, hx, hk,
      ⟨p, (storedParameters_eq_some w p).mpr hp, hopen, hc.symm⟩, ⟨now, hclock⟩, ?_⟩
    obtain ⟨s, hr, rfl⟩ := he.represents w p ((storedParameters_eq_some w p).mpr hp)
    obtain ⟨d, hdef, hfungible⟩ := hr.tokens.collateral
    rw [← hc] at hdef
    have hcx : c ≠ computePositionPda stablecoinProgramId o nonce := by
      rintro rfl
      simp at hn
    have hux : u ≠ computePositionPda stablecoinProgramId o nonce := by
      rintro rfl
      simp at hn
    have huk : u ≠ vaultId (computePositionPda stablecoinProgramId o nonce) := by
      rintro rfl
      simp at hn
    cases hs with
    | cons _ v₁ _ _ _ first rest =>
      obtain ⟨howner, hinit⟩ := first.transition _ _ _ _ _ rfl
      obtain ⟨-, hmove⟩ := ((settled_singleton _ _ _ _ _).mp rest).transition _ _ _ _ _ rfl
      obtain ⟨d', hd', -, -, -, hvault, hframe⟩ := hinit.initializeAccount
      rw [put_other _ _ _ _ _ hcx, hdef.data, Data.tokenDefinition.injEq] at hd'
      subst hd'
      obtain ⟨sender, recipient, sender', recipient', -, ⟨hsender, -, -, -, hunits⟩, hrecipient, -,
        -, -, -, hkind, -⟩ := hmove.transfer
      rw [hframe u huk, put_other _ _ _ _ _ hux, hholding, Data.tokenHolding.injEq] at hsender
      subst hsender
      have hrk : recipient = .zeroizedFromDefinition c d := by
        rcases hrecipient with ⟨hd, -⟩ | hd
        · rw [hd] at hvault
          cases hvault
        · rw [hvault, Data.tokenHolding.injEq] at hd
          exact hd.symm
      have hk : holding.kind = .fungible := by
        rw [← hkind, hrk]
        cases d with
        | fungible => rfl
        | nonFungible => exact hfungible.elim
      obtain ⟨balance, hb⟩ := holding.eq_fungible_of_kind hk
      rw [hsame] at hb
      refine ⟨balance, (owned_eq_some _ _ _ _).mpr ⟨howner, by rw [hholding, hb]⟩, ?_⟩
      rw [hb] at hunits
      simp only [TokenHolding.units] at hunits
      omega
  | setParameters _ _ _ _ _ hsetter => cases hsetter

theorem OpeningCall.transacts (o u c : AccountId)
    (hcall : OpeningCall platform authority call o u c nonce amount)
    (h : Openable w o u c nonce amount) : ∃ w', transact platform w authority call = .ok w' := by
  obtain ⟨p, hp, hopen, rfl⟩ := h.stored
  obtain ⟨now, hclock⟩ := h.clock
  obtain ⟨balance, hholding, hle⟩ := h.holding
  obtain ⟨s, hr, rfl⟩ := he.represents w p hp
  obtain ⟨d, hdef, hfungible⟩ := hr.tokens.collateral
  have hn := hcall.distinct
  rw [hcall.accounts] at hn
  obtain ⟨hfresh, hvault⟩ := And.intro h.position h.vault
  have hids := hcall.accounts
  generalize hx : computePositionPda stablecoinProgramId o nonce = x at hn hfresh hvault hids
  have hcx : s.parameters.collateralDefinitionId ≠ x := by
    rintro he
    simp [he] at hn
  have hux : u ≠ x := by
    rintro rfl
    simp at hn
  have huk : u ≠ vaultId x := by
    rintro rfl
    simp at hn
  have hkx : vaultId x ≠ x := by
    intro he
    simp [he] at hn
  obtain ⟨depth, hdepth⟩ := Nat.exists_eq_add_of_le' hcall.depth
  obtain ⟨w', hw'⟩ := opening_settles platform.tickMath depth
    (put stablecoinProgramId w x (.position ⟨o, nonce, vaultId x, amount, zero 128, now⟩)) authority
    s.parameters.collateralDefinitionId x u (w u).programOwner d balance amount hholding.owner
    ((owned_congr _ _ _ _ (put_other _ _ _ _ _ hcx)).trans hdef) hfungible
    ((put_other _ _ _ _ _ hkx).trans hvault)
    ((owned_congr _ _ _ _ (put_other _ _ _ _ _ hux)).trans hholding) hle huk hcall.user
  refine ⟨w', (transact_eq_ok platform w _ authority call _ hcall.called).mpr ⟨hcall.granted,
    hcall.program, depth + 1, _, _, hdepth, ?_, hw'⟩⟩
  rw [hids]
  exact (performs_open w _ authority _ _ _ _ _ _ _ _ _ _).mpr ⟨hn, ⟨hx.symm, rfl, rfl, rfl⟩,
    hcall.owner, hcall.user, hfresh, hvault, s.parameters, now, _,
    (storedParameters_eq_some w _).mp hp, hopen, rfl, hclock, hholding.data, rfl,
    hdef.owner.trans hholding.owner.symm, rfl, rfl⟩

end

/-- A transaction of others that creates none of its accounts and does not freeze the program
leaves an opening possible. -/
theorem Openable.kept (platform : Platform) (w w' : Accounts) (he : Established w)
    (o u c : AccountId) (nonce : U64) (amount : U128) (ho : Openable w o u c nonce amount)
    (authority : List AccountId) (call : ChainedCall)
    (h : transact platform w authority call = .ok w')
    (hprogram : (∃ i, call.instruction = .token i) ∨ ∃ i, call.instruction = .stablecoin i)
    (howner : o ∉ authority) (huser : u ∉ authority) (hu : ¬u.DerivedBy stablecoinProgramId)
    (hcredit : ∀ i, call.instruction = .token i → ∀ id, OfPosition o nonce id →
      id ∉ credited call.accountIds i)
    (hfreeze : call.instruction ≠ .stablecoin .freeze) : Openable w' o u c nonce amount := by
  obtain ⟨p, hp, hopen, hc⟩ := ho.stored
  obtain ⟨now, hclock⟩ := ho.clock
  obtain ⟨balance, hholding, hle⟩ := ho.holding
  have hd : w parametersId ≠ default := Holds.ne_default _ _ _
    ((storedParameters_eq_some w p).mp hp) Data.noConfusion
  obtain ⟨p', hp', hopen', hc'⟩ := open_kept platform w w' authority call h he p hp hopen hprogram
    hfreeze
  obtain ⟨held, hheld, hgrown⟩ := holding_kept platform w w' authority call h hprogram u huser hu _
    hholding
  obtain ⟨balance', hb⟩ := held.eq_fungible_of_kind hgrown.kind
  have htoken : held.definitionId = c := hgrown.token
  rw [htoken] at hb
  have hunits := hgrown.units
  rw [hb] at hunits
  refine ⟨?_, ?_, ⟨p', hp', hopen', hc'.trans hc⟩, ⟨now, ?_⟩, balance', hb ▸ hheld,
    hle.trans hunits⟩
  · exact unopened_kept platform w w' authority call h hd hprogram o nonce howner ho.position _
      (Or.inl rfl) ho.position fun i hi => hcredit i hi _ (Or.inl rfl)
  · exact unopened_kept platform w w' authority call h hd hprogram o nonce howner ho.position _
      (Or.inr rfl) ho.vault fun i hi => hcredit i hi _ (Or.inr rfl)
  · exact clock_kept platform w w' authority call h hd hprogram o nonce howner ho.position now hclock

def foundedIds : List AccountId :=
  [parametersId, accumulatorId, redemptionId, definitionId, masterId]

structure Initializable (w : Accounts) (c o : AccountId) : Prop where
  fresh : ∀ id ∈ foundedIds, w id = default
  clock : ∃ now, (w clock01ProgramAccountId).data = .clock now
  collateral : ∃ d, DefinitionAt w c d ∧ d.isFungible
  oracle : w o = default ∨ ∃ value, (w o).data = .oraclePrice value ∧
    value.baseAsset = definitionId ∧ value.quoteAsset = c

structure InitializingCall (platform : Platform) (authority : List AccountId) (call : ChainedCall)
    (i c o : AccountId) (params : InitializeProgramParams) : Prop where
  called : call.instruction = .stablecoin (.initializeProgram params)
  program : call.programId = stablecoinProgramId
  accounts : call.accountIds = [i, parametersId, accumulatorId, redemptionId, definitionId,
    masterId, c, o, clock01ProgramAccountId]
  distinct : call.accountIds.Nodup
  granted : Granted authority
  admin : i ∈ authority
  bands : assertParametersInBand params = .ok ()
  depth : 2 ≤ platform.callDepth

section
variable (platform : Platform) (w : Accounts) (authority : List AccountId) (call : ChainedCall)
  (params : InitializeProgramParams)

theorem initialization_found (w' : Accounts)
    (hi : call.instruction = .stablecoin (.initializeProgram params))
    (h : transact platform w authority call = .ok w') :
    ∃ i c o, InitializingCall platform authority call i c o params ∧ Initializable w c o := by
  obtain ⟨hgranted, hprogram, depth, v, calls, hdepth, hperf, hsettle⟩ :=
    (transact_eq_ok platform w w' authority call _ hi).mp h
  have hstep := hperf.step
  generalize hids : call.accountIds = ids at hperf hstep
  cases hstep with
  | initializeProgram i c o =>
    obtain ⟨hn, -, hauth, ⟨hp, ha, hr, hd, hm⟩, now, collateral, hclock, hcollateral, hfungible,
      horacle, hbands, -, -⟩ := (performs_initializeProgram _ _ _ _ _ _ _ _ _ _ _ _ _ _).mp hperf
    have hl : 2 ≤ platform.callDepth := by
      cases depth with
      | zero => cases hsettle
      | succ depth => omega
    have hs := settled_of_foldlM platform.tickMath depth stablecoinProgramId authority _
      (stablecoin_leaf _ _ _ _ _ _ _ hperf.step) _ w' hsettle
    obtain ⟨howner, -⟩ := ((settled_singleton _ _ _ _ _).mp hs).transition _ _ _ _ _ rfl
    refine ⟨i, c, o, ⟨hi, hprogram, hids, hids ▸ hn, hgranted, hauth, hbands, hl⟩, ?_, ⟨now, hclock⟩,
      ⟨collateral, (owned_eq_some _ _ _ _).mpr ⟨howner, hcollateral⟩, hfungible⟩, horacle⟩
    simp only [foundedIds, List.mem_cons, List.not_mem_nil, or_false]
    rintro id (rfl | rfl | rfl | rfl | rfl)
    · exact hp
    · exact ha
    · exact hr
    · exact hd
    · exact hm
  | setParameters _ _ _ _ _ hsetter => cases hsetter

theorem InitializingCall.transacts (i c o : AccountId)
    (hcall : InitializingCall platform authority call i c o params) (h : Initializable w c o) :
    ∃ w', transact platform w authority call = .ok w' := by
  obtain ⟨now, hclock⟩ := h.clock
  obtain ⟨d, hdef, hfungible⟩ := h.collateral
  obtain ⟨depth, hdepth⟩ := Nat.exists_eq_add_of_le' hcall.depth
  have hfresh : ∀ id ∈ foundedIds, w id = default := h.fresh
  simp only [foundedIds, List.mem_cons, List.not_mem_nil, or_false, forall_eq_or_imp,
    forall_eq] at hfresh
  obtain ⟨hp, ha, hr, hd, hm⟩ := hfresh
  let v := put stablecoinProgramId (put stablecoinProgramId (put stablecoinProgramId w parametersId
    (.protocolParameters (initialParameters params i definitionId c o))) accumulatorId
    (.stabilityFeeAccumulator ⟨fixedPointOne, now, zero 128⟩)) redemptionId
    (.redemptionPriceState ⟨params.initialRedemptionPrice, fixedPointOne, ⟨0, zero_mem_i128⟩, now⟩)
  have hother : ∀ id, id ≠ parametersId → id ≠ accumulatorId → id ≠ redemptionId → v id = w id := by
    intro id h1 h2 h3
    simp only [v, put_other _ _ _ _ _ h3, put_other _ _ _ _ _ h2, put_other _ _ _ _ _ h1]
  have hnew := invoke_newFungibleDefinition platform.tickMath depth v
    (callAuthority authority stablecoinProgramId (newStablecoinCall (w c).programOwner definitionId
      masterId params.stablecoinName))
    (newStablecoinCall (w c).programOwner definitionId masterId params.stablecoinName) hdef.owner
    definitionId masterId params.stablecoinName (zero 128) (some definitionId) rfl rfl
    ((hother _ (by decide) (by decide) (by decide)).trans hd)
    ((hother _ (by decide) (by decide) (by decide)).trans hm) (by decide)
    (List.mem_append_right _ (List.mem_cons_self ..))
    (List.mem_append_right _ (List.mem_cons_of_mem _ (List.mem_singleton_self _))) (by decide)
  have hn := hcall.distinct
  rw [hcall.accounts] at hn
  obtain ⟨w', hw'⟩ : ∃ w', settle platform.tickMath (depth + 1) stablecoinProgramId authority v
      [newStablecoinCall (w c).programOwner definitionId masterId params.stablecoinName]
        = .ok w' := by
    rw [settle, List.foldlM_cons, hnew, ok_bind]
    exact ⟨_, rfl⟩
  refine ⟨w', (transact_eq_ok platform w _ authority call _ hcall.called).mpr ⟨hcall.granted,
    hcall.program, depth + 1, v, _, hdepth, ?_, hw'⟩⟩
  rw [hcall.accounts]
  exact (performs_initializeProgram w v authority _ _ _ _ _ _ _ _ _ _ _).mpr ⟨hn,
    ⟨rfl, rfl, rfl, rfl, rfl, rfl⟩, hcall.admin, ⟨hp, ha, hr, hd, hm⟩, now, d, hclock, hdef.data,
    hfungible, h.oracle, hcall.bands, rfl, rfl⟩

end

/-- A token transaction of others that creates none of its accounts leaves the initialization
possible. -/
theorem Initializable.kept (platform : Platform) (w w' : Accounts) (c o : AccountId)
    (hi : Initializable w c o) (authority : List AccountId) (call : ChainedCall)
    (h : transact platform w authority call = .ok w') (i : Token.Instruction AccountId)
    (hcall : call.instruction = .token i)
    (hcredit : ∀ id ∈ foundedIds, id ∉ credited call.accountIds i)
    (horacle : w o = default → o ∉ authority ∧ o ∉ credited call.accountIds i) :
    Initializable w' c o := by
  have ht := transact_token platform w w' authority call h i hcall
  have hkept : ∀ (x : AccountId) (data : Data), (w x).data = data → data ≠ .empty →
      ¬TokenData data → w' x = w x := by
    rintro x data rfl hne hd
    exact ht.step.others_kept _ _ _ _ _ x (Token.data_ne_default _ hne) hd
  obtain ⟨now, hclock⟩ := hi.clock
  obtain ⟨d, hd, hfungible⟩ := hi.collateral
  obtain ⟨d', hd', hchange⟩ := ht.definition_changes _ _ _ _ _ c d hd
  refine ⟨fun id hid => ?_, ⟨now, ?_⟩, ⟨d', hd', hchange.shape.mpr hfungible⟩, ?_⟩
  · refine ht.step.fresh_kept _ _ _ _ _ id (hi.fresh id hid) ?_ (hcredit id hid)
    intro hm
    refine transact_granted platform w w' authority call h id hm stablecoinProgramId (by decide) ?_
    simp only [foundedIds, List.mem_cons, List.not_mem_nil, or_false] at hid
    rcases hid with rfl | rfl | rfl | rfl | rfl <;> rfl
  · rw [hkept _ _ hclock Data.noConfusion (by rintro (⟨_, h⟩ | ⟨_, h⟩) <;> cases h), hclock]
  · rcases hi.oracle with ho | ⟨value, hvalue, hquotes⟩
    · obtain ⟨ha, hc⟩ := horacle ho
      exact Or.inl (ht.step.fresh_kept _ _ _ _ _ o ho ha hc)
    · refine Or.inr ⟨value, ?_, hquotes⟩
      rw [hkept _ _ hvalue Data.noConfusion (by rintro (⟨_, h⟩ | ⟨_, h⟩) <;> cases h), hvalue]

/-- The accounts that a call has to find uninitialized, or for the oracle may. -/
def awaited (ids : List AccountId) (instruction : Instruction) : List AccountId :=
  match instruction, ids with
  | .openPosition .., [_, x, k, _, _, _, _] => [x, k]
  | .initializeProgram _, [_, p, a, r, d, m, _, o, _] => [p, a, r, d, m, o]
  | _, _ => []

inductive Disturbs (w : Accounts) (awaited authority : List AccountId) (call : ChainedCall) : Prop
  | creates (i : Token.Instruction AccountId) (id : AccountId) (called : call.instruction = .token i)
      (awaits : id ∈ awaited) (fresh : w id = default)
      (reached : id ∈ authority ∨ id ∈ credited call.accountIds i) :
      Disturbs w awaited authority call
  | freezes (called : call.instruction = .stablecoin .freeze) : Disturbs w awaited authority call
  | initializes (params : InitializeProgramParams)
      (called : call.instruction = .stablecoin (.initializeProgram params)) :
      Disturbs w awaited authority call

/-- Transactions of others with the token program and the stablecoin program, of which no
successful one disturbs the call. -/
inductive Undisturbed (platform : Platform) (keys awaited : List AccountId) :
    Accounts → List Event → Prop
  | nil (w : Accounts) : Undisturbed platform keys awaited w []
  | cons (w : Accounts) (authority : List AccountId) (call : ChainedCall) (events : List Event)
      (others : ∀ id ∈ keys, id ∉ authority)
      (program : (∃ i, call.instruction = .token i) ∨ ∃ i, call.instruction = .stablecoin i)
      (harmless : ∀ w', transact platform w authority call = .ok w' →
        ¬Disturbs w awaited authority call)
      (rest : Undisturbed platform keys awaited
        (Event.apply platform w (.transaction authority call)) events) :
      Undisturbed platform keys awaited w (.transaction authority call :: events)

section
variable (platform : Platform) (keys ids : List AccountId) (w : Accounts) (events : List Event)
  (h : Undisturbed platform keys ids w events)
include h

/-- What every successful transaction of others preserves, their run preserves. -/
theorem Undisturbed.preserves (Inv : Accounts → Prop)
    (step : ∀ w w' authority call, (∀ id ∈ keys, id ∉ authority) →
      ((∃ i, call.instruction = .token i) ∨ ∃ i, call.instruction = .stablecoin i) →
      transact platform w authority call = .ok w' → ¬Disturbs w ids authority call →
      Inv w → Inv w') (hw : Inv w) : Inv (run platform w events) := by
  induction h with
  | nil w => exact hw
  | cons w authority call events others program harmless rest ih =>
    refine ih ?_
    rw [Event.apply]
    cases ht : transact platform w authority call with
    | error m => exact hw
    | ok w' => exact step w w' authority call others program ht (harmless w' ht) hw

theorem Undisturbed.openable (he : Established w) (o u c : AccountId) (nonce : U64) (amount : U128)
    (hids : ids = [computePositionPda stablecoinProgramId o nonce,
      vaultId (computePositionPda stablecoinProgramId o nonce)]) (howner : o ∈ keys)
    (huser : u ∈ keys) (hu : ¬u.DerivedBy stablecoinProgramId)
    (ho : Openable w o u c nonce amount) : Openable (run platform w events) o u c nonce amount := by
  refine (h.preserves platform keys ids w events
    (fun v => Established v ∧ Openable v o u c nonce amount) ?_ ⟨he, ho⟩).2
  rintro v v' authority call others program ht hd ⟨he, ho⟩
  refine ⟨he.transacted platform v v' authority call ht, ho.kept platform v v' he o u c nonce amount
    authority call ht program (others o howner) (others u huser) hu ?_ fun hf => hd (.freezes hf)⟩
  rintro i hi id hid hc
  refine hd (.creates i id hi ?_ ?_ (Or.inr hc))
  · rw [hids]
    rcases hid with rfl | rfl
    · exact List.mem_cons_self ..
    · exact List.mem_cons_of_mem _ (List.mem_singleton_self _)
  · rcases hid with rfl | rfl
    · exact ho.position
    · exact ho.vault

theorem Undisturbed.initializable (he : Established w) (c o : AccountId)
    (hids : ids = foundedIds ++ [o]) (hi : Initializable w c o) :
    Initializable (run platform w events) c o ∧
      (w o = default → run platform w events o = default) := by
  have hfinal := (h.preserves platform keys ids w events (fun v => Established v ∧
    Initializable v c o ∧ (w o = default → v o = default)) ?_ ⟨he, hi, fun ho => ho⟩).2
  · exact hfinal
  rintro v v' authority call others program ht hd ⟨he, hi, ho⟩
  have hu : Uninitialized v := by
    rcases he.1 with hu | ⟨s, hr, -⟩
    · exact hu
    · have hp := hr.records.parameters
      rw [owned, hi.fresh parametersId (List.mem_cons_self ..)] at hp
      cases hp
  rcases program with ⟨i, hcall⟩ | ⟨i, hcall⟩
  · have horacle : v o = default → o ∉ authority ∧ o ∉ credited call.accountIds i := by
      intro hv
      have ho : o ∈ ids := hids ▸ List.mem_append_right _ (List.mem_singleton_self _)
      exact ⟨fun ha => hd (.creates i o hcall ho hv (Or.inl ha)),
        fun hc => hd (.creates i o hcall ho hv (Or.inr hc))⟩
    refine ⟨he.transacted platform v v' authority call ht,
      hi.kept platform v v' c o authority call ht i hcall (fun id hid hc => ?_) horacle, fun hw => ?_⟩
    · exact hd (.creates i id hcall (hids ▸ List.mem_append_left _ hid) (hi.fresh id hid)
        (Or.inr hc))
    · obtain ⟨ha, hc⟩ := horacle (ho hw)
      exact (transact_token platform v v' authority call ht i hcall).step.fresh_kept _ _ _ _ _ o
        (ho hw) ha hc
  · obtain ⟨u, calls, hperf, -⟩ := transact_settled platform v v' authority call ht i hcall
    obtain ⟨params, rfl⟩ := hu.step v u authority _ i calls hperf.step
    exact (hd (.initializes params hcall)).elim

end

def openingCall : ChainedCall :=
  ⟨stablecoinProgramId, [.key 30, firstPositionId, vaultId firstPositionId, .key 21, .key 20,
    parametersId, clock01ProgramAccountId], .stablecoin (.openPosition 0 2000), []⟩

def initializationCall (admin : AccountId) : ChainedCall :=
  ⟨stablecoinProgramId, [admin, parametersId, accumulatorId, redemptionId, definitionId, masterId,
    .key 20, .key 70, clock01ProgramAccountId], .stablecoin (.initializeProgram firstParams), []⟩

def collateralWorld : Accounts :=
  run tablePlatform (clockedGenesis 0).world (firstInitialization.take 1)

def squat (id : AccountId) : List Event :=
  [.transaction [.key 50, .key 51] ⟨tokenProgramId, [.key 50, .key 51],
      .token (.newFungibleDefinition "SQT" 1 none), []⟩,
    .transaction [.key 51] ⟨tokenProgramId, [.key 51, id], .token (.transfer 0), []⟩]

/-- A transfer of nothing takes each of the addresses; so do a freeze, another initialization and
the key of an oracle that does not exist yet. -/
theorem squatting_blocks_opening :
    (transact tablePlatform (run tablePlatform (clockedGenesis 0).world firstInitialization)
        [.key 30, .key 21] openingCall).toBool = true ∧
      (∀ others ∈ [squat firstPositionId, squat (vaultId firstPositionId),
          [.transaction [.key 61] ⟨stablecoinProgramId, [.key 61, parametersId],
            .stablecoin .freeze, []⟩]],
        (transact tablePlatform (run tablePlatform (clockedGenesis 0).world
          (firstInitialization ++ others)) [.key 30, .key 21] openingCall).toBool = false) ∧
      (transact tablePlatform collateralWorld [.key 60] (initializationCall (.key 60))).toBool
        = true ∧
      ∀ others ∈ [squat definitionId, squat masterId,
          [.transaction [.key 62] (initializationCall (.key 62))],
          [.transaction [.key 70] ⟨tokenProgramId, [.key 20, .key 70], .token .initializeAccount,
            []⟩]],
        (transact tablePlatform (run tablePlatform collateralWorld others) [.key 60]
          (initializationCall (.key 60))).toBool = false := by
  decide +kernel

/-- An opening or an initialization that would succeed still succeeds after other parties used the
token program and the stablecoin program, unless one of them took an address that the call awaits,
froze the program or initialized it. The addresses stay uninitialized. -/
theorem opening_survives_others (platform : Platform) (genesis : Genesis)
    (events others : List Event) (authority : List AccountId) (call : ChainedCall)
    (instruction : Instruction) (w' : Accounts)
    (hi : call.instruction = .stablecoin instruction)
    (hopens : (∃ nonce amount, instruction = .openPosition nonce amount) ∨
      ∃ params, instruction = .initializeProgram params)
    (h : transact platform (run platform genesis.world events) authority call = .ok w')
    (hothers : Undisturbed platform authority (awaited call.accountIds instruction)
      (run platform genesis.world events) others) :
    (∃ w'', transact platform (run platform genesis.world (events ++ others)) authority call
        = .ok w'') ∧
      ∀ id ∈ awaited call.accountIds instruction, run platform genesis.world events id = default →
        run platform genesis.world (events ++ others) id = default := by
  have he := run_established platform genesis events
  have he' := run_established platform genesis (events ++ others)
  rw [run_append] at he' ⊢
  rcases hopens with ⟨nonce, amount, rfl⟩ | ⟨params, rfl⟩
  · obtain ⟨o, u, c, hcall, hopen⟩ := opening_found platform _ he authority call nonce amount w' hi h
    have hids : awaited call.accountIds (.openPosition nonce amount)
        = [computePositionPda stablecoinProgramId o nonce,
          vaultId (computePositionPda stablecoinProgramId o nonce)] := by
      rw [hcall.accounts]
      rfl
    have hlater := hothers.openable platform authority _ _ others he o u c nonce amount hids
      hcall.owner hcall.user (hcall.granted u hcall.user stablecoinProgramId (by decide)) hopen
    refine ⟨hcall.transacts platform _ he' authority call nonce amount o u c hlater, ?_⟩
    rw [hids]
    simp only [List.mem_cons, List.not_mem_nil, or_false]
    rintro id (rfl | rfl) -
    · exact hlater.position
    · exact hlater.vault
  · obtain ⟨i, c, o, hcall, hinit⟩ := initialization_found platform _ authority call params w' hi h
    have hids : awaited call.accountIds (.initializeProgram params) = foundedIds ++ [o] := by
      rw [hcall.accounts]
      rfl
    obtain ⟨hlater, ho⟩ := hothers.initializable platform authority _ _ others he c o hids hinit
    refine ⟨hcall.transacts platform _ authority call params i c o hlater, ?_⟩
    rw [hids]
    intro id hid hfresh
    rcases List.mem_append.mp hid with hid | hid
    · exact hlater.fresh id hid
    · obtain rfl := List.mem_singleton.mp hid
      exact ho hfresh

/-- A token sent to an address that the opening does not await. -/
theorem opening_after_foreign_transfer :
    (∃ w'', transact tablePlatform (run tablePlatform (clockedGenesis 0).world
        (firstInitialization ++ squat (.key 52))) [.key 30, .key 21] openingCall = .ok w'') ∧
      ∀ id ∈ awaited openingCall.accountIds (.openPosition 0 2000),
        run tablePlatform (clockedGenesis 0).world firstInitialization id = default →
        run tablePlatform (clockedGenesis 0).world (firstInitialization ++ squat (.key 52)) id
          = default := by
  refine opening_survives_others tablePlatform (clockedGenesis 0) firstInitialization
    (squat (.key 52)) [.key 30, .key 21] openingCall (.openPosition 0 2000) _ rfl
    (Or.inl ⟨0, 2000, rfl⟩) (transact_apply _ _ _ _ (by decide +kernel)) ?_
  refine .cons _ _ _ _ (by decide) (Or.inl ⟨_, rfl⟩) ?_ (.cons _ _ _ _ (by decide)
    (Or.inl ⟨_, rfl⟩) ?_ (.nil _))
  · rintro w' - (⟨i, id, hi, hid, -, hr⟩ | hi | ⟨params, hi⟩)
    · cases hi
      revert hid hr
      revert id
      decide
    · cases hi
    · cases hi
  · rintro w' - (⟨i, id, hi, hid, -, hr⟩ | hi | ⟨params, hi⟩)
    · cases hi
      revert hid hr
      revert id
      decide
    · cases hi
    · cases hi

end LezPrograms.Stablecoin
