import LezPrograms.Stablecoin.Exit
import LezPrograms.Stablecoin.Overflow
import LezPrograms.StablecoinClient.Pokes

/-! # The pokes that the client announces

An update of the redemption rate succeeds exactly if the quote of the client is ready,
and it stores what the quote says. The accepted plans of the pokes execute, apart from
the conditions that they do not check. -/

set_option autoImplicit false

namespace LezPrograms.StablecoinClient
open LezPrograms.Checked LezPrograms.Checked.Unsigned LezPrograms.Lee LezPrograms.Stablecoin
open LezPrograms.Stablecoin.Math LezPrograms.Stablecoin.Controller
open LezPrograms.AmmClient (AccountRead decodeAccount readOf)
open LezPrograms.TwapOracle (OraclePriceAccount)

def updateRateCall (caller oracleId : AccountId) : ChainedCall :=
  .new stablecoinProgramId [caller, parametersId, redemptionId, oracleId, clock01ProgramAccountId]
    (.stablecoin .updateRedemptionRate)

def rateQuoteRequest (w : Accounts) (oracleId : AccountId) : RedemptionRateUpdateQuoteRequest :=
  ⟨some stablecoinProgramId, readOf w parametersId, readOf w redemptionId, readOf w oracleId,
    readOf w clock01ProgramAccountId⟩

structure MayPoke (authority : List AccountId) (caller : AccountId) (others : List AccountId) :
    Prop where
  signs : caller ∈ authority
  apart : caller ∉ others

theorem caller_ne_derived (authority : List AccountId) (hgranted : Granted authority)
    (caller id : AccountId) (hcaller : caller ∈ authority)
    (hid : id.DerivedBy stablecoinProgramId) : caller ≠ id := by
  rintro rfl
  exact hgranted caller hcaller stablecoinProgramId (by decide) hid

section
variable (platform : Platform) (w w' : Accounts) (authority : List AccountId)
  (hgranted : Granted authority) (caller : AccountId)

theorem transact_without_calls (hcalls : platform.callDepth ≠ 0) (call : ChainedCall)
    (instruction : Stablecoin.Instruction) (hi : call.instruction = .stablecoin instruction)
    (hprogram : call.programId = stablecoinProgramId) (v : Accounts)
    (h : Performs w authority call.accountIds instruction v []) (hg : Granted authority) :
    transact platform w authority call = .ok v := by
  obtain ⟨depth, hdepth⟩ := Nat.exists_eq_succ_of_ne_zero hcalls
  exact (transact_eq_ok platform w v authority call instruction hi).mpr
    ⟨hg, hprogram, depth, v, [], hdepth, h, rfl⟩

include hgranted

theorem update_rate_iff (hcalls : platform.callDepth ≠ 0) (params : ProtocolParameters)
    (hparams : Holds stablecoinProgramId (w parametersId) (.protocolParameters params)) :
    transact platform w authority (updateRateCall caller params.marketPriceOracleId) = .ok w' ↔
      MayPoke authority caller [params.marketPriceOracleId, clock01ProgramAccountId] ∧
      ∃ redemption now oracle redemption',
        Holds stablecoinProgramId (w redemptionId) (.redemptionPriceState redemption) ∧
        (w clock01ProgramAccountId).data = .clock now ∧
        Quoted w params.marketPriceOracleId params redemption now oracle ∧
        advanceRedemptionPrice params redemption oracle.price now = .ok redemption' ∧
        w' = put stablecoinProgramId w redemptionId (.redemptionPriceState redemption') := by
  constructor
  · intro h
    obtain ⟨-, -, depth, v, calls, -, hperf, hs⟩ :=
      (transact_eq_ok platform w w' authority _ _ rfl).mp h
    obtain ⟨hn, -, hsigns, params', redemption, now, oracle, redemption', hp, hr, hclock, hquoted,
      hadvanced, rfl, rfl⟩ := (performs_update w v authority calls _ _ _ _ _).mp hperf
    obtain rfl := Data.protocolParameters.inj (hp.2.symm.trans hparams.2)
    obtain rfl := Except.ok.inj hs
    refine ⟨⟨hsigns, fun hm => ?_⟩, redemption, now, oracle, redemption', hr, hclock, hquoted,
      hadvanced, rfl⟩
    simp only [List.nodup_cons, List.mem_cons, not_or] at hn
    simp only [List.mem_cons, List.not_mem_nil, or_false] at hm
    rcases hm with rfl | rfl
    · exact hn.1.2.2.1 rfl
    · exact hn.1.2.2.2.1 rfl
  · rintro ⟨⟨hsigns, hapart⟩, redemption, now, oracle, redemption', hr, hclock, hquoted, hadvanced,
      rfl⟩
    have horacle := readOracle_eq_ok _ _ _ hquoted.reading
    simp only [List.mem_cons, List.not_mem_nil, or_false, not_or] at hapart
    have hne : ∀ id data, (w id).data = data → (∀ oracle, data ≠ .oraclePrice oracle) →
        id ≠ params.marketPriceOracleId := by
      rintro id data hdata hother rfl
      exact hother oracle (hdata.symm.trans horacle)
    refine transact_without_calls platform w authority hcalls _ _ rfl rfl _
      ((performs_update w _ authority _ _ _ _ _ _).mpr ⟨?_, ⟨rfl, rfl⟩, hsigns, params, redemption,
        now, oracle, redemption', hparams, hr, hclock, hquoted, hadvanced, rfl, rfl⟩) hgranted
    simp only [List.nodup_cons, List.mem_cons, List.not_mem_nil, or_false, not_or, List.nodup_nil,
      not_false_eq_true, and_true]
    exact ⟨⟨caller_ne_derived authority hgranted caller _ hsigns rfl,
        caller_ne_derived authority hgranted caller _ hsigns rfl, hapart.1, hapart.2⟩,
      ⟨by decide, hne _ _ hparams.2 fun _ => Data.noConfusion, by decide⟩,
      ⟨hne _ _ hr.2 fun _ => Data.noConfusion, by decide⟩,
      (hne _ _ hclock fun _ => Data.noConfusion).symm⟩

end

theorem validatedAccount_readOf {T : Type} [AccountType Data T] (w : Accounts)
    (id programId : AccountId) (misplaced undecodable : String) (value : T)
    (howner : (w id).programOwner = programId) (hvalue : tryFrom (w id).data = some value) :
    validatedAccount id programId (readOf w id) misplaced undecodable = .ok (id, value) := by
  simp only [validatedAccount, bind_eq_ok, Prod.exists, requiredAccount_eq_ok, ensure_eq_ok,
    exists_const, expect_eq_ok, pure_eq_ok]
  exact ⟨id, w id, ⟨rfl, rfl, rfl⟩, rfl, howner, value, hvalue, rfl⟩

theorem clockTimestamp_readOf (w : Accounts) (now : U64)
    (hnow : (w clock01ProgramAccountId).data = .clock now) :
    clockTimestamp (readOf w clock01ProgramAccountId) = .ok now := by
  simp only [clockTimestamp, bind_eq_ok, Prod.exists, requiredAccount_eq_ok, ensure_eq_ok,
    exists_const, mapError_eq_ok, clockTimestamp_eq_ok]
  exact ⟨_, _, ⟨rfl, rfl, rfl⟩, rfl, hnow⟩

/-- Reading the bound oracle never fails. -/
theorem readOracle_total (w : Accounts) (params : ProtocolParameters) :
    ∃ reading, readOracle (view w [] params.marketPriceOracleId) params = .ok reading := by
  rw [readOracle, view_accountId, ensure_pos _ _ rfl, ok_bind]
  split
  · exact ⟨none, rfl⟩
  · exact ⟨_, rfl⟩

/-- In every reachable world an update of the redemption rate succeeds exactly if the caller signs
with an account of its own and the quote on the accounts of the world is ready, and it stores the
price, the rate and the integral term of the quote and the time of the clock. -/
theorem rate_quotes_agree (platform : Platform) (hcalls : platform.callDepth ≠ 0)
    (genesis : Genesis) (events : List Event) (authority : List AccountId)
    (hgranted : Granted authority) (params : ProtocolParameters)
    (hparams : storedParameters (run platform genesis.world events) = some params)
    (caller : AccountId) (w' : Accounts) :
    transact platform (run platform genesis.world events) authority
        (updateRateCall caller params.marketPriceOracleId) = .ok w' ↔
      MayPoke authority caller [params.marketPriceOracleId, clock01ProgramAccountId] ∧
      ∃ quote redemption', redemptionRateUpdateQuote
          (rateQuoteRequest (run platform genesis.world events) params.marketPriceOracleId)
            = .ok quote ∧
        quote.Announces redemption' ∧
        (run platform genesis.world events clock01ProgramAccountId).data
          = .clock redemption'.lastUpdatedAt ∧
        w' = put stablecoinProgramId (run platform genesis.world events) redemptionId
          (.redemptionPriceState redemption') := by
  have he := run_established platform genesis events
  generalize run platform genesis.world events = w at he hparams
  obtain ⟨s, hr, rfl⟩ := he.represents w params hparams
  have hp := (storedParameters_eq_some w s.parameters).mp hparams
  obtain ⟨howner, hdata⟩ := (owned_eq_some _ _ _ _).mp hr.records.redemption
  obtain ⟨reading, hreading⟩ := readOracle_total w s.parameters
  rw [update_rate_iff platform w w' authority hgranted caller hcalls s.parameters hp]
  refine and_congr_right fun _ => ?_
  have hannounced := fun now hnow redemption' => announces_iff
    (rateQuoteRequest w s.parameters.marketPriceOracleId) s.parameters s.redemption reading now _ _
    (validatedAccount_readOf w _ _ _ _ _ hp.1 ((tryFrom_parameters _ _).mpr hp.2))
    (validatedAccount_readOf w _ _ _ _ _ howner ((tryFrom_redemption _ _).mpr hdata))
    ((usableMarketPriceOracle_eq_ok w _ _ _ ((requiredAccount_eq_ok _ _ _).mpr
      ⟨rfl, rfl, rfl⟩)).mpr hreading) (clockTimestamp_readOf w now hnow) redemption' rfl
  constructor
  · rintro ⟨redemption, now, oracle, redemption', hr', hnow, hquoted, hadvanced, rfl⟩
    obtain rfl := Data.redemptionPriceState.inj (hr'.2.symm.trans hdata)
    obtain rfl := Except.ok.inj (hreading.symm.trans hquoted.reading)
    obtain ⟨quote, hquote, hannounces, rfl⟩ := (hannounced now hnow redemption').mpr
      ⟨oracle, rfl, hquoted.fresh, hquoted.positive, hquoted.due, hadvanced⟩
    exact ⟨quote, redemption', hquote, hannounces, hnow, rfl⟩
  · rintro ⟨quote, redemption', hquote, hannounces, hnow, rfl⟩
    obtain ⟨oracle, rfl, hfresh, hpositive, hdue, hadvanced⟩ :=
      (hannounced _ hnow redemption').mp ⟨quote, hquote, hannounces, rfl⟩
    exact ⟨s.redemption, _, oracle, redemption', ⟨howner, hdata⟩, hnow,
      ⟨hreading, hfresh, hpositive, hdue⟩, hadvanced, rfl⟩

def marketOpens : Event :=
  .environment fun id =>
    if id = clock01ProgramAccountId then ⟨.key 6, 0, .clock 5, 0⟩
    else if id = .key 70 then
      ⟨.key 7, 0, .oraclePrice ⟨definitionId, .key 20, 18446744073709550000, 5, .key 71, 0⟩, 0⟩
    else default

def marketWorld : Accounts :=
  run tablePlatform (clockedGenesis 0).world (firstInitialization ++ [marketOpens])

/-- The controller raises the rate. -/
theorem first_update_announced :
    ∃ quote redemption', redemptionRateUpdateQuote (rateQuoteRequest marketWorld (.key 70))
        = .ok quote ∧ quote.Announces redemption' ∧ redemption'.lastUpdatedAt = 5 ∧
      redemption'.redemptionRatePerMillisecond = 1000000000000000438017677685 ∧
      storedRedemption (Event.apply tablePlatform marketWorld
        (.transaction [.key 60] (updateRateCall (.key 60) (.key 70)))) = some redemption' := by
  obtain ⟨-, quote, redemption', hquote, hannounces, hnow, hstored⟩ :=
    (rate_quotes_agree tablePlatform (by decide) (clockedGenesis 0)
      (firstInitialization ++ [marketOpens]) [.key 60] (by unfold Granted; decide) firstParameters
      (by decide +kernel) (.key 60) _).mp (transact_apply _ _ _ _ (by decide +kernel))
  have hclock : (marketWorld clock01ProgramAccountId).data = .clock 5 := by decide +kernel
  have hrate : (storedRedemption (Event.apply tablePlatform marketWorld
      (.transaction [.key 60] (updateRateCall (.key 60) (.key 70))))).map
        RedemptionPriceState.redemptionRatePerMillisecond = some 1000000000000000438017677685 := by
    decide +kernel
  have howned : (marketWorld redemptionId).programOwner = stablecoinProgramId := by decide +kernel
  have hput := owned_put stablecoinProgramId marketWorld redemptionId
    (.redemptionPriceState redemption') (Or.inl howned)
  have hredemption : storedRedemption (Event.apply tablePlatform marketWorld
      (.transaction [.key 60] (updateRateCall (.key 60) (.key 70)))) = some redemption' := by
    refine (congrArg storedRedemption hstored).trans ?_
    rw [storedRedemption, ← marketWorld, hput, Function.update_self]
  rw [hredemption] at hrate
  exact ⟨quote, redemption', hquote, hannounces, Data.clock.inj (hnow.symm.trans hclock),
    Option.some.inj hrate, hredemption⟩

section
variable (w : Accounts) (he : Established w) (params : ProtocolParameters)
  (hparams : storedParameters w = some params)
include he hparams

/-- The stablecoin and its master holding. -/
theorem established_stablecoin : ∃ name metadata, ∃ supply y : U128,
    Token.DefinitionAt w definitionId (.fungible name supply metadata (some definitionId)) ∧
      Token.HoldingAt w masterId (.fungible definitionId y) := by
  obtain ⟨s, hr, -⟩ := he.represents w params hparams
  obtain ⟨d, hd, hm, hf, -⟩ := hr.tokens.definition
  obtain ⟨held, hheld, hkind, htoken⟩ := (he.2 params hparams).master
  obtain ⟨y, hy⟩ := Token.TokenHolding.eq_fungible_of_kind held hkind
  rw [htoken] at hy
  subst hy
  cases d with
  | nonFungible => exact hf.elim
  | fungible name supply metadata mintAuthority =>
    obtain rfl : mintAuthority = some definitionId := hm
    exact ⟨name, metadata, supply, y, hd, hheld⟩

variable (hc : Token.Conserved w)
include hc

/-- Where the current rate and the fees fit, the accrual of a poke succeeds with its mint. -/
theorem accrual_of_fits (rate : U128) (hrate : CurrentRate w rate) (hfits : SupplyFits w 0) :
    ∃ accumulator now accrual,
      AccrualReads stablecoinProgramId w parametersId definitionId params accumulator now accrual ∧
      ∀ tickMath depth authority v, owned tokenProgramId v = owned tokenProgramId w →
        ∃ w', settle tickMath (depth + 1) stablecoinProgramId authority v
          (surplusCalls (w definitionId).programOwner definitionId stablecoinProgramId
            accrual.accruedFees) = .ok w' := by
  obtain ⟨s, hr, rfl⟩ := he.represents w params hparams
  obtain ⟨name, metadata, supply, y, hd, hm⟩ := established_stablecoin w he _ hparams
  obtain ⟨hdo, hmo, -, -⟩ := he.tokens w _ hparams
  obtain ⟨p, accumulator, now, hp, ha, hnow, hcurrent⟩ := id hrate
  obtain rfl := Option.some.inj (hparams.symm.trans hp)
  obtain rfl : accumulator = s.accumulator := Option.some.inj (ha.symm.trans hr.storedAccumulator)
  have hroom := hfits s.accumulator rate ha hrate
  rw [supplyOf_eq w _ _ hd trivial, Nat.add_zero] at hroom
  have hdue : dueFees s.accumulator rate < 2 ^ 128 := (Nat.le_add_left _ _).trans_lt hroom
  have haccrual := accrual_exists s.parameters s.accumulator now rate hr.parameters.feeLower hcurrent
    hdue
  refine ⟨s.accumulator, now, _, ⟨(storedParameters_eq_some w _).mp hparams,
    (owned_eq_some _ _ _ _).mp hr.records.accumulator, hnow, haccrual, hr.named.symm,
    hmo.trans hdo.symm⟩, ?_⟩
  intro tickMath depth authority v hv
  obtain ⟨w', -, hw', -⟩ := surplus_settles tickMath depth authority v name metadata supply
    ⟨dueFees s.accumulator rate, hdue⟩ (by rwa [Token.DefinitionAt, hv]) y (by rwa [Token.HoldingAt, hv])
    (by
      have hle := hc.le_supply w definitionId masterId y (Or.inr hm)
      rwa [supplyOf_eq w _ _ hd trivial] at hle) hroom
  exact ⟨w', hdo ▸ hw'⟩

omit hc in
/-- What a successful accrual found. -/
theorem fits_of_accrual (v w' : Accounts) (authority : List AccountId) (tokenProgram : AccountId)
    (accumulator : StabilityFeeAccumulator) (now : U64) (accrual : FeeAccrual)
    (h : AccrualReads stablecoinProgramId w parametersId definitionId params accumulator now accrual)
    (hv : owned tokenProgramId v = owned tokenProgramId w)
    (hs : Settled stablecoinProgramId authority v (surplusCalls tokenProgram definitionId
      stablecoinProgramId accrual.accruedFees) w') :
    (∃ rate, CurrentRate w rate) ∧ SupplyFits w 0 := by
  obtain ⟨name, metadata, supply, y, hd, -⟩ := established_stablecoin w he params hparams
  refine ⟨⟨_, h.current⟩, h.fits w _ _ _ _ _ _ ?_⟩
  rw [supplyOf_eq w _ _ hd trivial, Nat.add_zero]
  exact surplus_supply v w' authority tokenProgram _ _ (by rwa [Token.DefinitionAt, hv]) hs

end

def AdvanceFits (w : Accounts) : Prop :=
  ∀ params redemption reading now price, storedParameters w = some params →
    storedRedemption w = some redemption → (w clock01ProgramAccountId).data = .clock now →
    readOracle (view w [] params.marketPriceOracleId) params = .ok reading →
    usablePrice params redemption reading now = some price →
    IntegralStepFits params redemption price now

def accrueCall (caller : AccountId) : ChainedCall :=
  .new stablecoinProgramId [caller, parametersId, accumulatorId, definitionId, masterId,
    clock01ProgramAccountId] (.stablecoin .accrueStabilityFee)

def refreshCall (caller oracleId : AccountId) : ChainedCall :=
  .new stablecoinProgramId [caller, parametersId, accumulatorId, definitionId, masterId,
    redemptionId, oracleId, clock01ProgramAccountId] (.stablecoin .refreshGlobals)

section
variable (platform : Platform) (hcalls : 2 ≤ platform.callDepth) (w : Accounts)
  (he : Established w) (hc : Token.Conserved w) (params : ProtocolParameters)
  (hparams : storedParameters w = some params) (authority : List AccountId)
  (hgranted : Granted authority) (caller : AccountId) (hcaller : caller ∈ authority)
include hcalls he hc hparams hgranted hcaller

theorem accrue_iff : (∃ w', transact platform w authority (accrueCall caller) = .ok w') ↔
    caller ≠ clock01ProgramAccountId ∧ (∃ rate, CurrentRate w rate) ∧ SupplyFits w 0 := by
  obtain ⟨hdo, hmo, hdne, hmne⟩ := he.tokens w _ hparams
  constructor
  · rintro ⟨w', h⟩
    obtain ⟨v, calls, hperf, hs⟩ := transact_settled platform w w' authority _ h _ rfl
    obtain ⟨hn, -, -, -, -, params', accumulator, now, accrual, reads, rfl, rfl⟩ :=
      (performs_accrue w v authority calls _ _ _ _ _ _).mp hperf
    obtain rfl := Option.some.inj
      (hparams.symm.trans (Holds.storedParameters w params' reads.parameters))
    refine ⟨?_, fits_of_accrual w he params hparams _ w' authority _ accumulator now accrual reads
      (owned_frame tokenProgramId stablecoinProgramId _ _ hperf.frame (by decide) (by decide)) hs⟩
    rintro rfl
    simp at hn
  · rintro ⟨hclock, ⟨rate, hrate⟩, hfits⟩
    obtain ⟨accumulator, now, accrual, reads, hmint⟩ :=
      accrual_of_fits w he params hparams hc rate hrate hfits
    have hderived := caller_ne_derived authority hgranted caller
    have hn : [caller, parametersId, accumulatorId, definitionId, masterId,
        clock01ProgramAccountId].Nodup := by
      refine List.nodup_cons.mpr ⟨?_, by decide⟩
      simp only [List.mem_cons, List.not_mem_nil, or_false, not_or]
      exact ⟨hderived _ hcaller rfl, hderived _ hcaller rfl, hderived _ hcaller rfl,
        hderived _ hcaller rfl, hclock⟩
    have hperf := (performs_accrue w _ authority _ caller parametersId accumulatorId definitionId
      masterId clock01ProgramAccountId).mpr ⟨hn, ⟨rfl, rfl, rfl⟩, hcaller, hdne, hmne, params,
        accumulator, now, accrual, reads, rfl, rfl⟩
    obtain ⟨depth, hdepth⟩ := Nat.exists_eq_add_of_le' hcalls
    obtain ⟨w', hw'⟩ := hmint platform.tickMath depth authority _
      (owned_frame tokenProgramId stablecoinProgramId _ _ hperf.frame (by decide) (by decide))
    exact ⟨w', (transact_eq_ok platform w w' authority _ _ rfl).mpr
      ⟨hgranted, rfl, depth + 1, _, _, hdepth, hperf, hw'⟩⟩

theorem refresh_iff (now : U64) (hnow : (w clock01ProgramAccountId).data = .clock now) :
    (∃ w', transact platform w authority (refreshCall caller params.marketPriceOracleId) = .ok w') ↔
      (refreshCall caller params.marketPriceOracleId).accountIds.Nodup ∧
        (∃ rate, CurrentRate w rate) ∧ SupplyFits w 0 ∧ AdvanceFits w := by
  obtain ⟨hdo, hmo, hdne, hmne⟩ := he.tokens w _ hparams
  obtain ⟨s, hr, rfl⟩ := he.represents w params hparams
  have hredemption := (owned_eq_some _ _ _ _).mp hr.records.redemption
  obtain ⟨reading, hreading⟩ := readOracle_total w s.parameters
  have hadvance : ∀ price, (∃ r', advanceRedemptionPrice s.parameters s.redemption price now
      = .ok r') ↔ IntegralStepFits s.parameters s.redemption price now := fun price =>
    advanceRedemptionPrice_ok_iff _ _ _ _ hr.parameters.gains
  constructor
  · rintro ⟨w', h⟩
    obtain ⟨v, calls, hperf, hs⟩ := transact_settled platform w w' authority _ h _ rfl
    obtain ⟨hn, -, -, -, -, params', accumulator, now', accrual, redemption, reading', reads, hred,
      hreading', hrefreshed, rfl⟩ := (performs_refresh w v authority calls _ _ _ _ _ _ _ _).mp hperf
    obtain rfl := Option.some.inj
      (hparams.symm.trans (Holds.storedParameters w params' reads.parameters))
    obtain ⟨hrate, hfits⟩ := fits_of_accrual w he _ hparams _ w' authority _ accumulator now' accrual
      reads (owned_frame tokenProgramId stablecoinProgramId _ _ hperf.frame (by decide) (by decide)) hs
    refine ⟨hn, hrate, hfits, ?_⟩
    intro p r reading'' now'' price hp hr' hnow'' hreading'' husable
    obtain rfl := Option.some.inj (hparams.symm.trans hp)
    obtain rfl := Option.some.inj ((Holds.storedRedemption w redemption hred).symm.trans hr')
    obtain rfl := Data.redemptionPriceState.inj (hredemption.2.symm.trans hred.2)
    obtain rfl := Data.clock.inj (reads.clock.symm.trans hnow'')
    obtain rfl := Data.clock.inj (reads.clock.symm.trans hnow)
    obtain rfl := Except.ok.inj (hreading'.symm.trans hreading'')
    rw [Refreshed, husable] at hrefreshed
    obtain ⟨r', hr'', -⟩ := hrefreshed
    exact (hadvance price).mp ⟨r', hr''⟩
  · rintro ⟨hn, ⟨rate, hrate⟩, hfits, hadvances⟩
    obtain ⟨accumulator, now', accrual, reads, hmint⟩ :=
      accrual_of_fits w he _ hparams hc rate hrate hfits
    obtain rfl := Data.clock.inj (reads.clock.symm.trans hnow)
    obtain ⟨v, hv⟩ : ∃ v, Refreshed s.parameters s.redemption reading now'
        (put stablecoinProgramId w accumulatorId
          (.stabilityFeeAccumulator accrual.accumulator)) v := by
      unfold Refreshed
      cases husable : usablePrice s.parameters s.redemption reading now' with
      | none => exact ⟨_, rfl⟩
      | some price =>
        obtain ⟨r', hr'⟩ := (hadvance price).mpr (hadvances _ _ reading now' price hparams
          (Holds.storedRedemption w _ hredemption) hnow hreading husable)
        exact ⟨_, r', hr', rfl⟩
    have hperf := (performs_refresh w v authority _ caller parametersId accumulatorId definitionId
      masterId redemptionId s.parameters.marketPriceOracleId clock01ProgramAccountId).mpr
        ⟨hn, ⟨rfl, rfl, rfl, rfl⟩, hcaller, hdne, hmne, s.parameters, accumulator, now', accrual,
          s.redemption, reading, reads, hredemption, hreading, hv, rfl⟩
    obtain ⟨depth, hdepth⟩ := Nat.exists_eq_add_of_le' hcalls
    obtain ⟨w', hw'⟩ := hmint platform.tickMath depth authority v
      (owned_frame tokenProgramId stablecoinProgramId _ _ hperf.frame (by decide) (by decide))
    exact ⟨w', (transact_eq_ok platform w w' authority _ _ rfl).mpr
      ⟨hgranted, rfl, depth + 1, _, _, hdepth, hperf, hw'⟩⟩

end

def AccrueStabilityFeePlanRequest.reads (request : AccrueStabilityFeePlanRequest) :
    List AccountRead :=
  [request.protocolParameters, request.stabilityFeeAccumulator, request.clock]

def UpdateRedemptionRatePlanRequest.reads (request : UpdateRedemptionRatePlanRequest) :
    List AccountRead :=
  [request.protocolParameters, request.redemptionPriceState, request.marketPriceOracle,
    request.clock]

def RefreshGlobalsPlanRequest.reads (request : RefreshGlobalsPlanRequest) : List AccountRead :=
  [request.protocolParameters, request.stabilityFeeAccumulator, request.redemptionPriceState,
    request.marketPriceOracle, request.clock]

section
variable (w : Accounts) (he : Established w) (plan : Plan)
include he

theorem accrueStabilityFeePlan_found (request : AccrueStabilityFeePlanRequest)
    (hreads : ReadFrom w request.stablecoinProgramId request.reads)
    (h : accrueStabilityFeePlan request = .ok plan) :
    ∃ caller params, request.callerId = some caller ∧ storedParameters w = some params ∧
      plan.call = accrueCall caller ∧ plan.signers = [caller] := by
  obtain ⟨hprogram, htruthful⟩ := hreads
  simp only [AccrueStabilityFeePlanRequest.reads, List.forall_mem_cons] at htruthful
  obtain ⟨hparameters, -⟩ := htruthful
  simp only [accrueStabilityFeePlan, parseStablecoinProgramId, parseAccountId, parseId_eq_ok,
    hprogram, bind_eq_ok, pure_eq_ok, Prod.exists, Option.some.injEq] at h
  obtain ⟨programId, ⟨rfl, -⟩, caller, ⟨hcaller, -⟩, p, params, hp, a, accumulator, -, now, -,
    rfl⟩ := h
  obtain ⟨rfl, hheld⟩ := hparameters.parameters w _ _ _ _ hp
  have hstored := Holds.storedParameters w params hheld
  obtain ⟨s, hr, rfl⟩ := he.represents w params hstored
  refine ⟨caller, _, hcaller, hstored, ?_, rfl⟩
  simp only [Plan.call, accrueCall, hr.named]

omit he in
theorem updateRedemptionRatePlan_found (request : UpdateRedemptionRatePlanRequest)
    (hreads : ReadFrom w request.stablecoinProgramId request.reads)
    (h : updateRedemptionRatePlan request = .ok plan) :
    ∃ caller params redemption now oracle redemption', request.callerId = some caller ∧
      request.marketPriceOracle.id = params.marketPriceOracleId ∧
      Holds stablecoinProgramId (w parametersId) (.protocolParameters params) ∧
      Holds stablecoinProgramId (w redemptionId) (.redemptionPriceState redemption) ∧
      (w clock01ProgramAccountId).data = .clock now ∧
      Quoted w params.marketPriceOracleId params redemption now oracle ∧
      advanceRedemptionPrice params redemption oracle.price now = .ok redemption' ∧
      plan.call = updateRateCall caller params.marketPriceOracleId ∧ plan.signers = [caller] := by
  obtain ⟨hprogram, htruthful⟩ := hreads
  simp only [UpdateRedemptionRatePlanRequest.reads, List.forall_mem_cons] at htruthful
  obtain ⟨hparameters, hredemption, horacle, hclock, -⟩ := htruthful
  simp only [updateRedemptionRatePlan, bind_eq_ok, pure_eq_ok, Prod.exists] at h
  obtain ⟨programId, hid, caller, hcaller, p, params, hp, quote, hquote, _, hready, rfl⟩ := h
  rw [hprogram] at hid hquote
  obtain rfl : stablecoinProgramId = programId := Except.ok.inj hid
  have hcan : quote.canSubmit = true := by
    unfold requireReadyQuote at hready
    split at hready
    · assumption
    · split at hready <;> cases hready
  obtain ⟨hcaller, -⟩ := (parseId_eq_ok _ _ _).mp hcaller
  obtain ⟨p', params', r, redemption, reading, now, redemption', hp', hr, hreading, hnow,
    hannounces, hlast⟩ := ready_announces _ quote rfl hquote hcan
  obtain ⟨rfl, rfl⟩ := Prod.mk.inj (Except.ok.inj (hp.symm.trans hp'))
  obtain ⟨oracle, rfl, hfresh, hpositive, hdue, hadvanced⟩ :=
    (announces_iff _ params redemption reading now p r hp hr hreading hnow redemption' rfl).mp
      ⟨quote, hquote, hannounces, hlast⟩
  obtain ⟨rfl, hheld⟩ := hparameters.parameters w _ _ _ _ hp
  obtain ⟨rfl, hheld'⟩ := hredemption.redemption w _ _ _ _ hr
  have hread := usableMarketPriceOracle_read w _ horacle params _ hreading
  exact ⟨caller, params, redemption, now, oracle, redemption', hcaller,
    ((requiredAccount_eq_ok _ _ _).mp hread).2.2, hheld, hheld', hclock.clock w _ _ hnow,
    ⟨(usableMarketPriceOracle_eq_ok w _ _ _ hread).mp hreading, hfresh, hpositive, hdue⟩, hadvanced,
    rfl, rfl⟩

theorem refreshGlobalsPlan_found (request : RefreshGlobalsPlanRequest)
    (hreads : ReadFrom w request.stablecoinProgramId request.reads)
    (h : refreshGlobalsPlan request = .ok plan) :
    ∃ caller params now, request.callerId = some caller ∧ storedParameters w = some params ∧
      (w clock01ProgramAccountId).data = .clock now ∧
      plan.call = refreshCall caller params.marketPriceOracleId ∧ plan.signers = [caller] := by
  obtain ⟨hprogram, htruthful⟩ := hreads
  simp only [RefreshGlobalsPlanRequest.reads, List.forall_mem_cons] at htruthful
  obtain ⟨hparameters, -, -, -, hclock, -⟩ := htruthful
  simp only [refreshGlobalsPlan, parseStablecoinProgramId, parseAccountId, parseId_eq_ok,
    hprogram, bind_eq_ok, pure_eq_ok, Prod.exists, Option.some.injEq] at h
  obtain ⟨programId, ⟨rfl, -⟩, caller, ⟨hcaller, -⟩, p, params, hp, a, accumulator, -, r, redemption,
    -, oracle, -, now, hnow, rfl⟩ := h
  obtain ⟨rfl, hheld⟩ := hparameters.parameters w _ _ _ _ hp
  have hstored := Holds.storedParameters w params hheld
  obtain ⟨s, hr, rfl⟩ := he.represents w params hstored
  refine ⟨caller, _, now, hcaller, hstored, hclock.clock w _ _ hnow, ?_, rfl⟩
  simp only [Plan.call, refreshCall, hr.named]

end

/-- In every reachable world an accepted update of the redemption rate executes exactly if the caller
is neither the oracle nor the clock; an accepted accrual exactly if the caller is not the clock and
the rate and the fees fit; and an accepted combined poke exactly if its accounts are distinct and,
besides the rate and the fees, the controller step fits where the redemption half runs. -/
theorem accepted_pokes_execute_iff (platform : Platform) (hcalls : 2 ≤ platform.callDepth)
    (genesis : Genesis) (events : List Event) (authority : List AccountId)
    (hgranted : Granted authority) (plan : Plan) (hsigned : ∀ id ∈ plan.signers, id ∈ authority) :
    (∀ request : UpdateRedemptionRatePlanRequest,
      ReadFrom (run platform genesis.world events) request.stablecoinProgramId request.reads →
      updateRedemptionRatePlan request = .ok plan →
      (Executes platform (run platform genesis.world events) authority plan ↔
        request.callerId ≠ some request.marketPriceOracle.id ∧
          request.callerId ≠ some clock01ProgramAccountId)) ∧
    (∀ request : AccrueStabilityFeePlanRequest,
      ReadFrom (run platform genesis.world events) request.stablecoinProgramId request.reads →
      accrueStabilityFeePlan request = .ok plan →
      (Executes platform (run platform genesis.world events) authority plan ↔
        request.callerId ≠ some clock01ProgramAccountId ∧
          (∃ rate, CurrentRate (run platform genesis.world events) rate) ∧
          SupplyFits (run platform genesis.world events) 0)) ∧
    ∀ request : RefreshGlobalsPlanRequest,
      ReadFrom (run platform genesis.world events) request.stablecoinProgramId request.reads →
      refreshGlobalsPlan request = .ok plan →
      (Executes platform (run platform genesis.world events) authority plan ↔
        plan.accountIds.Nodup ∧ (∃ rate, CurrentRate (run platform genesis.world events) rate) ∧
          SupplyFits (run platform genesis.world events) 0 ∧
          AdvanceFits (run platform genesis.world events)) := by
  have he := run_established platform genesis events
  have hc := (Token.run_conserved platform genesis events).2
  generalize run platform genesis.world events = w at he hc
  simp only [executes_iff]
  refine ⟨fun request hreads h => ?_, fun request hreads h => ?_, fun request hreads h => ?_⟩
  · obtain ⟨caller, params, redemption, now, oracle, redemption', hcaller, hid, hp, hr, hnow, hquoted,
      hadvanced, hcall, hsigners⟩ := updateRedemptionRatePlan_found w plan request hreads h
    have hsigns : caller ∈ authority := hsigned caller (by rw [hsigners]; exact List.mem_singleton_self _)
    have hiff := fun w' => update_rate_iff platform w w' authority hgranted caller (by omega) params hp
    rw [hcall, hcaller, hid, ne_eq, ne_eq, Option.some.injEq, Option.some.injEq]
    simp only [hiff]
    constructor
    · rintro ⟨w', ⟨-, hapart⟩, -⟩
      simpa only [List.mem_cons, List.not_mem_nil, or_false, not_or] using hapart
    · intro hapart
      refine ⟨_, ⟨hsigns, ?_⟩, redemption, now, oracle, redemption', hr, hnow, hquoted, hadvanced,
        rfl⟩
      simpa only [List.mem_cons, List.not_mem_nil, or_false, not_or] using hapart
  · obtain ⟨caller, params, hcaller, hp, hcall, hsigners⟩ :=
      accrueStabilityFeePlan_found w he plan request hreads h
    rw [hcall, hcaller, ne_eq, Option.some.injEq]
    exact accrue_iff platform hcalls w he hc params hp authority hgranted caller
      (hsigned caller (by rw [hsigners]; exact List.mem_singleton_self _))
  · obtain ⟨caller, params, now, hcaller, hp, hnow, hcall, hsigners⟩ :=
      refreshGlobalsPlan_found w he plan request hreads h
    have hids : plan.accountIds = (refreshCall caller params.marketPriceOracleId).accountIds :=
      congrArg ChainedCall.accountIds hcall
    rw [hcall, hids]
    exact refresh_iff platform hcalls w he hc params hp authority hgranted caller
      (hsigned caller (by rw [hsigners]; exact List.mem_singleton_self _)) now hnow

def firstUpdate : UpdateRedemptionRatePlanRequest :=
  ⟨some stablecoinProgramId, some (.key 60), readOf marketWorld parametersId,
    readOf marketWorld redemptionId, readOf marketWorld (.key 70),
    readOf marketWorld clock01ProgramAccountId⟩

def firstUpdatePlan : Plan :=
  ⟨stablecoinProgramId, [.key 60, parametersId, redemptionId, .key 70, clock01ProgramAccountId],
    [true, false, false, false, false], .updateRedemptionRate⟩

theorem first_update_executes : Executes tablePlatform marketWorld [.key 60] firstUpdatePlan := by
  refine ((accepted_pokes_execute_iff tablePlatform le_rfl (clockedGenesis 0)
    (firstInitialization ++ [marketOpens]) [.key 60] (by unfold Granted; decide) firstUpdatePlan
    (by decide)).1 firstUpdate ⟨rfl, ?_⟩ (by decide +kernel)).mpr ⟨by decide, by decide⟩
  simp only [UpdateRedemptionRatePlanRequest.reads, firstUpdate, List.forall_mem_cons]
  exact ⟨readOf_truthful _ _, readOf_truthful _ _, readOf_truthful _ _, readOf_truthful _ _,
    fun _ h => by cases h⟩

end LezPrograms.StablecoinClient
