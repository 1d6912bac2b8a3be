import LezPrograms.Amm.Registration

/-! # The feeds of a pool

A feed or a price account whose source is a pool is created by a registration only, and
is seeded with what the AMM and the oracle had stored for that pool. Whatever happens
afterwards it stays about the pool and its tokens, in their stored order. -/

set_option autoImplicit false

namespace LezPrograms.Amm
open LezPrograms.Checked LezPrograms.Lee LezPrograms.TwapOracle

def FeedsKept (s : AccountId) (w w' : Accounts) : Prop :=
  ∀ windowDuration id, IsFeedOf twapOracleProgramId s windowDuration id →
    ∀ data', owned twapOracleProgramId w' id = some data' →
      ∃ data, owned twapOracleProgramId w id = some data ∧ subject data' = subject data

theorem FeedsKept.of_owned (s : AccountId) (w w' : Accounts)
    (h : owned twapOracleProgramId w' = owned twapOracleProgramId w) : FeedsKept s w w' :=
  fun _ _ _ data' hdata => ⟨data', by rwa [← h], rfl⟩

theorem FeedsKept.trans (s : AccountId) (w v u : Accounts) (h : FeedsKept s w v)
    (k : FeedsKept s v u) : FeedsKept s w u := by
  intro windowDuration id hid data' hdata'
  obtain ⟨data, hdata, hsame⟩ := k windowDuration id hid data' hdata'
  obtain ⟨first, hfirst, hsame'⟩ := h windowDuration id hid data hdata
  exact ⟨first, hfirst, hsame.trans hsame'⟩

/-- Without the authority of the source no instruction of the oracle creates a feed. -/
theorem FeedsKept.of_effect (s : AccountId) (authority : List AccountId) (w w' : Accounts)
    (instruction : TwapOracle.Instruction) (hbare : Bare w) (hf : Frame twapOracleProgramId w w')
    (h : TwapOracle.Effect twapOracleProgramId authority w instruction w')
    (hs : s ∉ authority ∨ ¬Creating instruction) : FeedsKept s w w' := by
  intro windowDuration id hid data' hdata'
  rcases h.feed _ _ _ _ _ _ _ _ hid with he | ⟨now, data, hcreation, -⟩ | ⟨hknown, hsame⟩
  · exact ⟨data', by rwa [← owned_congr _ _ _ _ he], rfl⟩
  · rcases hs with hs | hs
    · exact absurd hcreation.authorized hs
    · cases hcreation.created with
      | priceObservations => exact absurd (.priceObservations _ _) hs
      | oraclePriceAccount => exact absurd (.oraclePriceAccount _ _ _ _) hs
  · refine ⟨(w id).data, (owned_eq_some _ _ _ _).mpr ⟨?_, rfl⟩, ?_⟩
    · obtain ⟨ho, -⟩ := (owned_eq_some _ _ _ _).mp hdata'
      rcases hf id with he | ⟨howner | howner, -⟩
      · rwa [← he]
      · exact howner
      · rw [hbare id howner] at hknown
        exact absurd rfl hknown
    · rw [← ((owned_eq_some _ _ _ _).mp hdata').2, hsame]

theorem FeedsKept.of_invoked (s : AccountId) (tickMath : TickMath) (depth : ℕ) (w w' : Accounts)
    (authority : List AccountId) (call : ChainedCall) (instruction : TwapOracle.Instruction)
    (hi : call.instruction = .twapOracle instruction) (hbare : Bare w)
    (hs : s ∉ authority ∨ ¬Creating instruction)
    (h : invoke tickMath depth w authority call = .ok w') : FeedsKept s w w' := by
  obtain ⟨-, diffs, hmain, ha⟩ := oracle_invoked tickMath depth w w' authority call _ hi h
  exact FeedsKept.of_effect s authority w w' instruction hbare (applyDiffs_frame _ _ _ _ ha)
    (effect_of_main tickMath _ authority w w' _ instruction diffs hmain ha) hs

theorem reporting_not_creating (price : U128) (instruction : TwapOracle.Instruction)
    (h : Reporting price instruction) : ¬Creating instruction := by
  intro hc
  cases h <;> cases hc

/-- A transaction creates no feed of an address that the AMM derives. -/
theorem feeds_transaction (platform : Platform) (w w' : Accounts) (hbare : Bare w)
    (authority : List AccountId) (call : ChainedCall) (x : AccountId)
    (hx : x.DerivedBy ammProgramId) (h : transact platform w authority call = .ok w') :
    FeedsKept x w w' := by
  cases hi : call.instruction with
  | token instruction =>
    obtain ⟨v, calls, depth, hv, hsettle, -⟩ := Token.transact_calls platform w w' authority call h
    obtain ⟨-, rfl, htransition⟩ := execute_token _ _ _ _ _ _ _ instruction hi hv
    rw [List.foldlM_nil, pure_eq_ok] at hsettle
    subst hsettle
    exact .of_owned x w v (owned_frame _ _ _ _ htransition.frame (by decide) (by decide))
  | stablecoin instruction =>
    obtain ⟨v, calls, depth, hv, hsettle, -⟩ := Token.transact_calls platform w w' authority call h
    obtain ⟨-, -, hstep, hf⟩ := execute_stablecoin _ _ _ _ _ _ _ instruction hi hv
    have htokens := stablecoin_token _ _ _ _ _ _ _ hstep
    have hsettled := settled_of_foldlM _ _ _ _ calls (fun c hc => Or.inl (htokens c hc)) v w' hsettle
    refine .of_owned x w w' ?_
    rw [hsettled.owned_kept _ _ (by decide) (by decide) _ _ _ _ htokens,
      owned_frame _ _ _ _ hf (by decide) (by decide)]
  | twapOracle instruction =>
    obtain ⟨ho, -⟩ := transact_performed platform w w' authority call h
    simp only [transact, bind_eq_ok, ensure_eq_ok, exists_const] at h
    exact .of_invoked x _ _ w w' authority call instruction hi hbare
      (Or.inl fun hm => ho ammProgramId (by decide) x hm hx) h.2
  | amm instruction =>
    obtain ⟨v, calls, depth, hv, hsettle⟩ :=
      transacted_invoked platform w w' authority call instruction hi h
    have hfirst := owned_frame twapOracleProgramId _ _ _ hv.frame (by decide) (by decide)
    rcases hv.step.reports with ⟨-, htokens⟩ | ⟨y, p, earlier, last, price, rfl, hr⟩
    · have hkept := hv.settled.owned_kept twapOracleProgramId _ (by decide) (by decide) _ _ _ _ htokens
      exact .of_owned x w w' (hkept.trans hfirst)
    · simp only [List.foldlM_append, List.foldlM_cons, List.foldlM_nil, bind_eq_ok,
        pure_eq_ok] at hsettle
      obtain ⟨u, hu, _, hlast, rfl⟩ := hsettle
      have hsettled := settled_of_foldlM _ _ _ _ earlier
        (fun call hc => Or.inl (hr.transfers call hc)) v u hu
      have hkept :=
        hsettled.owned_kept twapOracleProgramId _ (by decide) (by decide) _ _ _ _ hr.transfers
      obtain ⟨i, hi', hreporting⟩ := hr.report.reporting
      have hbare' : Bare u := hsettled.preserves Bare
        (fun _ _ _ _ _ ht hb => hb.frame _ _ _ ht.frame (by decide))
        (fun _ _ _ _ hd hf hb => hb.frame _ _ _ hf hd) _ _ _ _ _
        (hbare.frame _ _ _ hv.frame (by decide))
      exact (FeedsKept.of_owned x w u (hkept.trans hfirst)).trans x w u _
        (.of_invoked x _ _ u _ _ last i hi' hbare'
          (Or.inr (reporting_not_creating price i hreporting)) hlast)

/-- The worlds that are reached, from one where the oracle owns nothing, while nobody else
writes to the accounts of the oracle. -/
inductive Served (platform : Platform) (genesis : Genesis) : Accounts → Prop
  | start (unowned : ∀ id, (genesis.world id).programOwner ≠ twapOracleProgramId) :
      Served platform genesis genesis.world
  | transaction (w : Accounts) (served : Served platform genesis w) (authority : List AccountId)
      (call : ChainedCall) :
      Served platform genesis (Event.apply platform w (.transaction authority call))
  | registration (w : Accounts) (served : Served platform genesis w)
      (authority ids : List AccountId) (instruction : OracleInstruction) :
      Served platform genesis
        (AmmEvent.apply platform w (.registration authority ids instruction))
  | environment (w : Accounts) (served : Served platform genesis w) (change : Accounts)
      (kept : owned twapOracleProgramId (Event.apply platform w (.environment change))
        = owned twapOracleProgramId w) :
      Served platform genesis (Event.apply platform w (.environment change))

inductive FeedOf (x : AccountId) (q : PoolDefinition) (windowDuration : U64) :
    AccountId → Option (AccountId × Option (AccountId × AccountId)) → Prop
  | priceObservations : FeedOf x q windowDuration
      (computePriceObservationsPda twapOracleProgramId x windowDuration) (some (x, none))
  | oraclePriceAccount : FeedOf x q windowDuration
      (computeOraclePriceAccountPda twapOracleProgramId x windowDuration)
      (some (x, some (q.definitionTokenAId, q.definitionTokenBId)))

theorem FeedOf.congr (x id : AccountId) (q q' : PoolDefinition) (windowDuration : U64)
    (about : Option (AccountId × Option (AccountId × AccountId))) (hsame : SamePool q q')
    (h : FeedOf x q windowDuration id about) : FeedOf x q' windowDuration id about := by
  cases h with
  | priceObservations => exact .priceObservations
  | oraclePriceAccount =>
    rw [← hsame.tokenA, ← hsame.tokenB]
    exact .oraclePriceAccount

def Fed (w : Accounts) : Prop :=
  ∀ x, x.DerivedBy ammProgramId → ∀ windowDuration id, IsFeedOf twapOracleProgramId x windowDuration id →
    ∀ data, owned twapOracleProgramId w id = some data →
      observationsCapacity ≤ windowDuration.val ∧
        ∃ q, PoolAt w x q ∧ FeedOf x q windowDuration id (subject data)

theorem Fed.kept (w w' : Accounts) (hw : Fed w)
    (hfeeds : ∀ x, x.DerivedBy ammProgramId → FeedsKept x w w')
    (hpools : ∀ x q, PoolAt w x q → ∃ q', PoolAt w' x q' ∧ SamePool q q') : Fed w' := by
  intro x hx windowDuration id hid data' hdata'
  obtain ⟨data, hdata, hsame⟩ := hfeeds x hx windowDuration id hid data' hdata'
  obtain ⟨hwide, q, hq, hof⟩ := hw x hx windowDuration id hid data hdata
  obtain ⟨q', hq', hpool⟩ := hpools x q hq
  exact ⟨hwide, q', hq', hsame ▸ hof.congr _ _ _ _ _ _ hpool⟩

theorem Registration.isFeed (w : Accounts) (ids : List AccountId) (instruction : OracleInstruction)
    (id : AccountId) (data : Data) (h : Registration w ids instruction id data) :
    ∃ x q windowDuration, PoolAt w x q ∧ observationsCapacity ≤ windowDuration.val ∧
      IsFeedOf twapOracleProgramId x windowDuration id ∧
      FeedOf x q windowDuration id (subject data) := by
  cases h with
  | priceObservations c x q windowDuration now current registrable reported wide clock =>
    exact ⟨x, q, windowDuration, registrable.pool, wide, Or.inl rfl, .priceObservations⟩
  | oraclePriceAccount c x q windowDuration now price registrable wide clock spot priced timed =>
    exact ⟨x, q, windowDuration, registrable.pool, wide, Or.inr rfl, .oraclePriceAccount⟩

section
variable (w : Accounts) (ids : List AccountId) (instruction : OracleInstruction) (id : AccountId)
  (data : Data) (hfresh : w id = default) (h : Registration w ids instruction id data)
include hfresh

theorem registered_pools :
    owned ammProgramId (put twapOracleProgramId w id data) = owned ammProgramId w := by
  have hf : Frame twapOracleProgramId w (put twapOracleProgramId w id data) :=
    applyDiffs_frame _ [.new (view w [] id) data] _ _ ((applyDiffs_new _ _ _ _ _ _).mpr
      ⟨Or.inr (Or.inr (by rw [view_accountId, hfresh]; rfl)), rfl⟩)
  exact owned_frame _ _ _ _ hf (by decide) (by decide)

include h

theorem Registration.fed (hw : Fed w) : Fed (put twapOracleProgramId w id data) := by
  intro x hx windowDuration y hy data' hdata'
  obtain ⟨x', q, d, hq, hwide, hid, hof⟩ := h.isFeed w ids instruction id data
  by_cases hyid : y = id
  · subst hyid
    obtain ⟨rfl, rfl⟩ := hid.source_eq _ _ _ _ _ _ hy
    rw [owned_put _ _ _ _ (Or.inr (by rw [hfresh]; exact (h.created _ _ _ _ _).2)),
      Function.update_self, Option.some.injEq] at hdata'
    subst hdata'
    exact ⟨hwide, q, by rwa [PoolAt, registered_pools w y data hfresh], hof⟩
  · rw [owned_congr _ _ _ _ (put_other _ _ _ _ _ hyid)] at hdata'
    obtain ⟨hwide', q', hq', hof'⟩ := hw x hx windowDuration y hy data' hdata'
    exact ⟨hwide', q', by rwa [PoolAt, registered_pools w id data hfresh], hof'⟩

theorem Registration.ticks (platform : Platform) (ht : Ticks platform w) :
    Ticks platform (put twapOracleProgramId w id data) := by
  intro x q hq
  obtain ⟨x', _, d, -, -, hid, -⟩ := h.isFeed w ids instruction id data
  rw [PoolAt, registered_pools w id data hfresh] at hq
  exact (ht x q hq).congr _ _ _ _ _ (owned_congr _ _ _ _
    (put_other _ _ _ _ _ (hid.ne_currentTick _ _ x _ _).symm))

end

theorem Served.run (platform : Platform) (genesis : Genesis) (w : Accounts)
    (h : Served platform genesis w) : ∃ events, w = Lee.run platform genesis.world events := by
  induction h with
  | start _ => exact ⟨[], rfl⟩
  | transaction w _ authority call ih =>
    obtain ⟨events, rfl⟩ := ih
    exact ⟨events ++ [.transaction authority call], (run_concat _ _ _ _).symm⟩
  | registration w _ authority ids instruction ih =>
    obtain ⟨events, rfl⟩ := ih
    obtain ⟨shadow, -, he⟩ := AmmEvent.shadowed platform _ (run_sound platform genesis events).1
      (.registration authority ids instruction)
    exact ⟨events ++ [shadow], he.trans (run_concat _ _ _ _).symm⟩
  | environment w _ change _ ih =>
    obtain ⟨events, rfl⟩ := ih
    exact ⟨events ++ [.environment change], (run_concat _ _ _ _).symm⟩

theorem Served.sound (platform : Platform) (genesis : Genesis) (w : Accounts)
    (h : Served platform genesis w) : Bare w ∧ Sound w := by
  obtain ⟨events, rfl⟩ := h.run platform genesis w
  exact run_sound platform genesis events

/-- Pools have the ticks of their reserves, and feeds are about pools. -/
theorem Served.fed (platform : Platform) (genesis : Genesis) (w : Accounts)
    (h : Served platform genesis w) : Ticks platform w ∧ Fed w := by
  induction h with
  | start unowned =>
    exact ⟨Reached.ticks platform genesis _ .start, fun _ _ _ id _ data hdata =>
      absurd ((owned_eq_some _ _ _ _).mp hdata).1 (unowned id)⟩
  | transaction w served authority call ih =>
    obtain ⟨hbare, hsound⟩ := served.sound platform genesis w
    have hpools := fun x q hq => pool_event platform w (.transaction authority call) hbare hsound x q hq
    rw [Event.apply] at hpools ⊢
    split at hpools
    · rename_i w' h
      refine ⟨ticks_transaction platform w w' hbare ih.1 authority call hsound h,
        ih.2.kept w w' (fun x hx => feeds_transaction platform w w' hbare authority call x hx h)
          fun x q hq => ?_⟩
      obtain ⟨q', hq', hsame, -⟩ := hpools x q hq
      exact ⟨q', hq', hsame⟩
    · exact ih
  | registration w served authority ids instruction ih =>
    rcases AmmEvent.registration_cases platform w authority ids instruction with
      he | ⟨id, data, hr, hfresh, he⟩
    · rw [he]
      exact ih
    · rw [he]
      exact ⟨hr.ticks w ids instruction id data hfresh platform ih.1,
        hr.fed w ids instruction id data hfresh ih.2⟩
  | environment w served change kept ih =>
    obtain ⟨hbare, hsound⟩ := served.sound platform genesis w
    refine ⟨fun x q hq => ?_, ih.2.kept w _ (fun x _ => .of_owned x w _ kept) fun x q hq => ?_⟩
    · rw [PoolAt, Event.apply, owned_environment _ _ _ (by decide)] at hq
      exact (ih.1 x q hq).congr _ _ _ _ _ (congrFun kept _)
    · obtain ⟨q', hq', hsame, -⟩ :=
        pool_event platform w (.environment change) hbare hsound x q hq
      exact ⟨q', hq', hsame⟩

inductive Seeded (platform : Platform) (x : AccountId) (q : PoolDefinition) (now : U64) :
    OracleInstruction → AccountId → Data → Prop
  | priceObservations (windowDuration : U64) (price : U128) (tick : I32)
      (spot : spotPriceQ6464 q.reserveA q.reserveB = .ok price)
      (converted : priceToTick platform.tickMath price = .ok tick) :
      Seeded platform x q now (.createPriceObservations windowDuration)
        (computePriceObservationsPda twapOracleProgramId x windowDuration)
        (.priceObservations (initialObservations x tick now))
  | oraclePriceAccount (windowDuration : U64) (price : U128)
      (spot : spotPriceQ6464 q.reserveA q.reserveB = .ok price) (priced : price.val ≠ 0)
      (timed : now.val ≠ 0) :
      Seeded platform x q now (.createOraclePriceAccount windowDuration)
        (computeOraclePriceAccountPda twapOracleProgramId x windowDuration)
        (.oraclePrice ⟨q.definitionTokenAId, q.definitionTokenBId, price, now, x,
          Unsigned.zero 128⟩)

/-- The feeds of pools cannot be forged. In every reached world a feed or a price account whose
source the AMM derives is about an existing pool and its two tokens, over a window that can be
served; and a registration seeds it with the spot price of the reserves that are stored. -/
theorem registered_feeds_authentic (platform : Platform) (genesis : Genesis) (w : Accounts)
    (h : Served platform genesis w) :
    (∀ x, x.DerivedBy ammProgramId → ∀ windowDuration,
      (∀ observations, owned twapOracleProgramId w
          (computePriceObservationsPda twapOracleProgramId x windowDuration)
            = some (.priceObservations observations) →
        observationsCapacity ≤ windowDuration.val ∧ observations.priceSourceId = x ∧
          ∃ q, PoolAt w x q) ∧
      (∀ account, owned twapOracleProgramId w
          (computeOraclePriceAccountPda twapOracleProgramId x windowDuration)
            = some (.oraclePrice account) →
        observationsCapacity ≤ windowDuration.val ∧ account.sourceId = x ∧
          ∃ q, PoolAt w x q ∧ account.baseAsset = q.definitionTokenAId ∧
            account.quoteAsset = q.definitionTokenBId)) ∧
    ∀ authority ids instruction w', register platform w authority ids instruction = .ok w' →
      ∃ x q now id data, PoolAt w x q ∧ (w clock01ProgramAccountId).data = .clock now ∧
        Seeded platform x q now instruction id data ∧
        owned twapOracleProgramId w' = Function.update (owned twapOracleProgramId w) id (some data) := by
  obtain ⟨hticks, hfed⟩ := h.fed platform genesis w
  refine ⟨fun x hx windowDuration => ⟨fun observations ho => ?_, fun account hp => ?_⟩,
    fun authority ids instruction w' hr => ?_⟩
  · obtain ⟨hwide, q, hq, hof⟩ := hfed x hx windowDuration _ (Or.inl rfl) _ ho
    generalize hid : computePriceObservationsPda twapOracleProgramId x windowDuration = id at hof
    generalize habout : subject (.priceObservations observations) = about at hof
    cases hof with
    | priceObservations =>
      simp only [subject, Option.some.injEq, Prod.mk.injEq] at habout
      exact ⟨hwide, habout.1, q, hq⟩
    | oraclePriceAccount => cases (PdaSeed.word.inj (PdaSeed.account.inj (AccountId.pda.inj hid).2).2).2
  · obtain ⟨hwide, q, hq, hof⟩ := hfed x hx windowDuration _ (Or.inr rfl) _ hp
    generalize hid : computeOraclePriceAccountPda twapOracleProgramId x windowDuration = id at hof
    generalize habout : subject (.oraclePrice account) = about at hof
    cases hof with
    | priceObservations => cases (PdaSeed.word.inj (PdaSeed.account.inj (AccountId.pda.inj hid).2).2).2
    | oraclePriceAccount =>
      simp only [subject, Option.some.injEq, Prod.mk.injEq] at habout
      exact ⟨hwide, habout.1, q, hq, habout.2.1, habout.2.2⟩
  · obtain ⟨id, data, hreg, hfresh, rfl⟩ :=
      registration_of_ok w w' authority platform ids instruction hr
    have howned : owned twapOracleProgramId (put twapOracleProgramId w id data)
        = Function.update (owned twapOracleProgramId w) id (some data) :=
      owned_put _ _ _ _ (Or.inr (by rw [hfresh]; exact (hreg.created _ _ _ _ _).2))
    cases hreg with
    | priceObservations c x q windowDuration now current registrable reported wide clock =>
      obtain ⟨stored, price, hstored, hspot, htick⟩ := hticks x q registrable.pool
      have hsame : stored = current := by
        have hboth := hstored.symm.trans ((owned_eq_some _ _ _ _).mpr reported)
        rw [Option.some.injEq, Data.currentTick.injEq] at hboth
        exact hboth
      subst hsame
      exact ⟨x, q, now, _, _, registrable.pool, clock,
        .priceObservations windowDuration price _ hspot htick, howned⟩
    | oraclePriceAccount c x q windowDuration now price registrable wide clock spot priced timed =>
      exact ⟨x, q, now, _, _, registrable.pool, clock,
        .oraclePriceAccount windowDuration price spot priced timed, howned⟩

def tickedWorld : Accounts :=
  Event.apply tablePlatform firstPoolWorld (.environment fun id =>
    if id = clock01ProgramAccountId then ⟨.key 6, 0, .clock 5, 0⟩ else firstPoolWorld id)

def firstPriceId : AccountId :=
  computeOraclePriceAccountPda twapOracleProgramId firstPoolId 3600000

def pricedWorld : Accounts :=
  AmmEvent.apply tablePlatform tickedWorld (.registration []
    [firstConfigId, firstPoolId, firstPriceId, clock01ProgramAccountId]
    (.createOraclePriceAccount 3600000))

theorem pricedWorld_served : Served tablePlatform (clockedGenesis 0) pricedWorld := by
  have hfirst : Served tablePlatform (clockedGenesis 0) firstPoolWorld :=
    .transaction _ (.transaction _ (.transaction _ (.transaction _ (.start fun id => by
      by_cases hc : id = clock01ProgramAccountId
      · simp only [clockedGenesis, hc, if_true]
        decide
      · simp only [clockedGenesis, hc, if_false]
        decide) _ _) _ _) _ _) _ _
  refine .registration _ (.environment _ hfirst _ ?_) _ _ _
  funext id
  by_cases hc : id = clock01ProgramAccountId
  · subst hc
    decide +kernel
  · refine owned_congr _ _ _ _ ?_
    simp only [Event.apply, hc, if_false]
    exact congrFun (environment_idle _ (hfirst.sound _ _ _).1) id

theorem first_price_account_authentic :
    ∃ q, PoolAt pricedWorld firstPoolId q ∧ AccountId.key 20 = q.definitionTokenAId ∧
      AccountId.key 22 = q.definitionTokenBId := by
  obtain ⟨hfeeds, -⟩ := registered_feeds_authentic tablePlatform (clockedGenesis 0) pricedWorld
    pricedWorld_served
  obtain ⟨-, -, hpool⟩ := (hfeeds firstPoolId rfl 3600000).2
    ⟨.key 20, .key 22, ⟨2 ^ 62, by norm_num⟩, 5, firstPoolId, Unsigned.zero 128⟩ (by decide +kernel)
  exact hpool

end LezPrograms.Amm
