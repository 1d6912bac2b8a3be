import LezPrograms.TwapOracle.Recording

/-! # The no-price sentinel

A price account starts with a price and a time. A publication keeps it that way
exactly when it averages to a tick whose square-root price is at least 2^64; the
averages of lower ticks round to the price zero. -/

set_option autoImplicit false

namespace LezPrograms.TwapOracle
open LezPrograms.Checked LezPrograms.Lee LezPrograms.StepFunction

/-- The lowest tick whose price does not round to zero. -/
def lowestPricedTick : I32 := ⟨-443636, by norm_num⟩

def highestUnpricedTick : I32 := ⟨-443637, by norm_num⟩

/-- Square-root prices grow with the tick, and two of them are as tabulated. -/
structure TickMath.Documented (tickMath : TickMath) : Prop where
  monotone : ∀ t t' r r', t.val ≤ t'.val → tickMath.getSqrtRatioAtTick t = some r →
    tickMath.getSqrtRatioAtTick t' = some r' → r.val ≤ r'.val
  priced : ∃ r, tickMath.getSqrtRatioAtTick lowestPricedTick = some r ∧
    r.val = 18447090764788882728
  unpriced : ∃ r, tickMath.getSqrtRatioAtTick highestUnpricedTick = some r ∧
    r.val = 18446168479421469440

theorem square_shift_eq_zero_iff (r : ℕ) : r * r / 2 ^ 128 = 0 ↔ r < 2 ^ 64 := by
  rw [Nat.div_eq_zero_iff_lt (by norm_num)]
  constructor
  · intro h
    by_contra hle
    have := Nat.mul_le_mul (Nat.le_of_not_lt hle) (Nat.le_of_not_lt hle)
    omega
  · intro h
    have := Nat.mul_lt_mul'' h h
    omega

theorem tickToOraclePrice_ne_zero_iff (tickMath : TickMath) (hm : tickMath.Documented)
    (tick : I32) (price : U128) (h : tickToOraclePrice tickMath tick = .ok price) :
    price.val ≠ 0 ↔ lowestPricedTick.val ≤ tick.val := by
  simp only [tickToOraclePrice, bind_eq_ok, expect_eq_ok, pure_eq_ok, Unsigned.tryFrom_eq_some]
    at h
  obtain ⟨root, hroot, square, hsquare, rfl⟩ := h
  have hclamp := Signed.clamp_val tick minTick maxTick (by decide)
  have hmin : minTick.val = -887272 := rfl
  have hmax : maxTick.val = 887272 := rfl
  have hlow : lowestPricedTick.val = -443636 := rfl
  have hhigh : highestUnpricedTick.val = -443637 := rfl
  have hzero : ((Unsigned.tryFrom 128 square.val).getD (Unsigned.maxValue 128)).val = 0 ↔
      square.val = 0 := by
    cases hfits : Unsigned.tryFrom 128 square.val with
    | some price =>
      rw [Unsigned.tryFrom_eq_some] at hfits
      rw [Option.getD_some, hfits]
    | none =>
      have hlarge := (Unsigned.tryFrom_eq_none _).mp hfits
      have hmaximum := Unsigned.maxValue_val (w := 128)
      rw [Option.getD_none]
      omega
  rw [Ne, hzero, hsquare, square_shift_eq_zero_iff, Nat.not_lt]
  obtain ⟨r, hr, hval⟩ := hm.priced
  obtain ⟨r', hr', hval'⟩ := hm.unpriced
  constructor
  · intro hle
    by_contra hlt
    have := hm.monotone _ _ _ _ (by omega) hroot hr'
    omega
  · intro hle
    have := hm.monotone _ _ _ _ (by omega) hr hroot
    omega

section
variable (priceSourceId : AccountId) (windowDuration : U64) (tickMath : TickMath)

def oraclePriceId : AccountId :=
  computeOraclePriceAccountPda twapOracleProgramId priceSourceId windowDuration

def priceAt (w : Accounts) : Option OraclePriceAccount :=
  match owned twapOracleProgramId w (oraclePriceId priceSourceId windowDuration) with
  | some (.oraclePrice account) => some account
  | _ => none

theorem priceAt_eq_some (w : Accounts) (account : OraclePriceAccount) :
    priceAt priceSourceId windowDuration w = some account ↔
      owned twapOracleProgramId w (oraclePriceId priceSourceId windowDuration)
        = some (.oraclePrice account) := by
  unfold priceAt
  split <;> simp_all

def averageAt (w : Accounts) : Option ℤ :=
  match feedAt priceSourceId windowDuration w, currentAt w priceSourceId, clockAt w with
  | some observations, some current, some now =>
    match windowStartObservation observations, newestObservation observations with
    | some t1, some t2 =>
      if observations.totalEntries.val < 2 then none
      else some (extrapolated observations current now t1 t2 / ((now.val : ℤ) - t1.timestamp.val))
    | _, _ => none
  | _, _, _ => none

def Priced (w : Accounts) (instruction : Instruction) : Prop :=
  (∀ now, clockAt w = some now → now.val ≠ 0) ∧
    (instruction = .publishPrice priceSourceId windowDuration →
      ∀ average ∈ averageAt priceSourceId windowDuration w, lowestPricedTick.val ≤ average)

inductive Run (allowed : Accounts → Instruction → Prop) : Option History → Accounts → Prop
  | start (w : Accounts) (bare : Bare w)
      (unused : owned twapOracleProgramId w (feedId priceSourceId windowDuration) = none)
      (unpriced : owned twapOracleProgramId w (oraclePriceId priceSourceId windowDuration) = none) :
      Run allowed none w
  | elsewhere (history : Option History) (w w' : Accounts) (run : Run allowed history w)
      (bare : Bare w') (kept : owned twapOracleProgramId w' = owned twapOracleProgramId w)
      (clock : ∀ t, clockAt w = some t → ∃ t', clockAt w' = some t' ∧ t.val ≤ t'.val) :
      Run allowed history w'
  | called (history : Option History) (w w' : Accounts) (authority ids : List AccountId)
      (instruction : Instruction) (run : Run allowed history w) (meets : allowed w instruction)
      (success : call tickMath w authority ids instruction = .ok w') :
      Run allowed (noted priceSourceId windowDuration w ids instruction history) w'

theorem Run.reached (allowed : Accounts → Instruction → Prop) (history : Option History)
    (w : Accounts) (h : Run priceSourceId windowDuration tickMath allowed history w) :
    Reached priceSourceId windowDuration tickMath history w := by
  induction h with
  | start w bare unused => exact .start w bare unused
  | elsewhere history w w' _ bare kept clock ih => exact .elsewhere history w w' ih bare kept clock
  | called history w w' authority ids instruction _ _ success ih =>
    exact .called history w w' authority ids instruction ih success

/-- A publication averages the tick of its world. -/
theorem averageAt_of_twapTick (w : Accounts) (now : U64) (observations : PriceObservations)
    (current : CurrentTickAccount) (tick : I32)
    (hfeed : feedAt priceSourceId windowDuration w = some observations)
    (hcurrent : currentAt w priceSourceId = some current) (hclock : clockAt w = some now)
    (hmany : 2 ≤ observations.totalEntries.val)
    (havg : twapTick observations current now windowDuration = .ok tick) :
    averageAt priceSourceId windowDuration w = some tick.val := by
  obtain ⟨t1, h1, t2, h2⟩ : ∃ t1, windowStartObservation observations = some t1 ∧
      ∃ t2, newestObservation observations = some t2 := by
    simp only [twapTick, bind_eq_ok, expect_eq_ok] at havg
    obtain ⟨t1, h1, t2, h2, -⟩ := havg
    exact ⟨t1, h1, t2, h2⟩
  obtain ⟨-, -, -, htick⟩ := twapTick_extrapolated windowDuration observations current now t1 t2
    tick h1 h2 havg
  simp only [averageAt, hfeed, hcurrent, hclock, h1, h2, if_neg (Nat.not_lt.mpr hmany), htick]

theorem oraclePriceId_eq_iff (s s' : AccountId) (d d' : U64) :
    computeOraclePriceAccountPda twapOracleProgramId s' d' = oraclePriceId s d ↔
      s' = s ∧ d' = d := by
  constructor
  · intro h
    have hseed := PdaSeed.account.inj (AccountId.pda.inj h).2
    exact ⟨hseed.1, Fin.ext (PdaSeed.word.inj hseed.2).1⟩
  · rintro ⟨rfl, rfl⟩
    rfl

def OraclePriceAccount.IsValid (account : OraclePriceAccount) : Prop :=
  account.price.val ≠ 0 ∧ account.timestamp.val ≠ 0

/-- One call keeps the price account valid. -/
theorem Step.price_valid (hm : tickMath.Documented) (w w' : Accounts)
    (authority ids : List AccountId) (instruction : Instruction)
    (h : ∀ account, priceAt priceSourceId windowDuration w = some account → account.IsValid)
    (meets : Priced priceSourceId windowDuration w instruction)
    (step : Step tickMath twapOracleProgramId authority w ids instruction w')
    (account : OraclePriceAccount)
    (haccount : priceAt priceSourceId windowDuration w' = some account) : account.IsValid := by
  have helsewhere : ∀ (id : AccountId) (data : Data), w' = put twapOracleProgramId w id data →
      oraclePriceId priceSourceId windowDuration ≠ id → account.IsValid := by
    rintro id data rfl hne
    rw [priceAt, owned_congr _ _ _ _ (put_other _ _ _ _ _ hne)] at haccount
    exact h account haccount
  have hwritten : ∀ account', w' = put twapOracleProgramId w
      (oraclePriceId priceSourceId windowDuration) (.oraclePrice account') →
      account = account' := by
    rintro account' rfl
    have hdata := ((owned_eq_some _ _ _ _).mp ((priceAt_eq_some _ _ _ _).mp haccount)).2
    rw [put_same, writeData_data] at hdata
    exact (Data.oraclePrice.inj hdata).symm
  cases step with
  | createPriceObservations => exact helsewhere _ _ rfl (feedId_ne_price _ _ _ _).symm
  | createOraclePriceAccount s baseAsset quoteAsset initialPrice d account' fresh priced timed =>
    by_cases hs : s = priceSourceId ∧ d = windowDuration
    · obtain ⟨rfl, rfl⟩ := hs
      rw [hwritten account' rfl]
      exact ⟨priced, timed⟩
    · exact helsewhere _ _ rfl fun he => hs ((oraclePriceId_eq_iff _ _ _ _).mp he.symm)
  | currentTick => exact helsewhere _ _ rfl fun he => by cases he
  | publishIdle => exact h account haccount
  | publishPrice s d now observations account' current tick price stored readCurrent readPrice
      clock many averaged converted write =>
    by_cases hs : s = priceSourceId ∧ d = windowDuration
    · obtain ⟨rfl, rfl⟩ := hs
      have haverage := averageAt_of_twapTick s d w now observations current tick
        ((feedAt_eq_some _ _ _ _).mpr ((owned_eq_some _ _ _ _).mpr stored))
        ((currentAt_eq_some _ _ _).mpr readCurrent) ((clockAt_eq_some _ _).mpr clock) many averaged
      rw [hwritten _ rfl]
      exact ⟨(tickToOraclePrice_ne_zero_iff tickMath hm tick price converted).mpr
        (meets.2 rfl _ haverage), meets.1 now ((clockAt_eq_some _ _).mpr clock)⟩
    · exact helsewhere _ _ rfl fun he => hs ((oraclePriceId_eq_iff _ _ _ _).mp he.symm)
  | recordIdle => exact h account haccount
  | recordTick => exact helsewhere _ _ rfl (feedId_ne_price _ _ _ _).symm

theorem Run.price_valid (hm : tickMath.Documented) (history : Option History) (w : Accounts)
    (h : Run priceSourceId windowDuration tickMath (Priced priceSourceId windowDuration) history w)
    (account : OraclePriceAccount)
    (haccount : priceAt priceSourceId windowDuration w = some account) : account.IsValid := by
  induction h generalizing account with
  | start w bare unused unpriced =>
    rw [priceAt, unpriced] at haccount
    cases haccount
  | elsewhere history w w' _ bare kept clock ih =>
    rw [priceAt, kept] at haccount
    exact ih account haccount
  | called history w w' authority ids instruction _ meets success ih =>
    exact Step.price_valid priceSourceId windowDuration tickMath hm w w' authority ids instruction
      ih meets (call_step tickMath w w' authority ids instruction success) account haccount

/-- Once created, a price account stays. -/
theorem Step.price_kept (w w' : Accounts) (authority ids : List AccountId)
    (instruction : Instruction)
    (h : (priceAt priceSourceId windowDuration w).isSome = true)
    (step : Step tickMath twapOracleProgramId authority w ids instruction w') :
    (priceAt priceSourceId windowDuration w').isSome = true := by
  have helsewhere : ∀ (id : AccountId) (data : Data),
      oraclePriceId priceSourceId windowDuration ≠ id →
      (priceAt priceSourceId windowDuration (put twapOracleProgramId w id data)).isSome = true := by
    intro id data hne
    rwa [priceAt, owned_congr _ _ _ _ (put_other _ _ _ _ _ hne)]
  obtain ⟨account, haccount⟩ := Option.isSome_iff_exists.mp h
  have hstored := (owned_eq_some _ _ _ _).mp ((priceAt_eq_some _ _ _ _).mp haccount)
  have hwritten : ∀ account', (priceAt priceSourceId windowDuration (put twapOracleProgramId w
      (oraclePriceId priceSourceId windowDuration) (.oraclePrice account'))).isSome = true := by
    intro account'
    rw [priceAt, owned_put _ _ _ _ (Or.inl hstored.1), Function.update_self]
    rfl
  cases step with
  | createPriceObservations => exact helsewhere _ _ (feedId_ne_price _ _ _ _).symm
  | createOraclePriceAccount s _ _ _ d account' =>
    by_cases hs : s = priceSourceId ∧ d = windowDuration
    · obtain ⟨rfl, rfl⟩ := hs
      exact hwritten account'
    · exact helsewhere _ _ fun he => hs ((oraclePriceId_eq_iff _ _ _ _).mp he.symm)
  | currentTick => exact helsewhere _ _ fun he => by cases he
  | publishIdle => exact h
  | publishPrice s d now _ account' current tick price =>
    by_cases hs : s = priceSourceId ∧ d = windowDuration
    · obtain ⟨rfl, rfl⟩ := hs
      exact hwritten { account' with price := price, timestamp := now }
    · exact helsewhere _ _ fun he => hs ((oraclePriceId_eq_iff _ _ _ _).mp he.symm)
  | recordIdle => exact h
  | recordTick => exact helsewhere _ _ (feedId_ne_price _ _ _ _).symm

/-- A creation leaves a valid price account. -/
theorem created_price_valid (w w' : Accounts) (authority : List AccountId)
    (o c baseAsset quoteAsset : AccountId) (initialPrice : U128)
    (h : call tickMath w authority [o, priceSourceId, c]
      (.createOraclePriceAccount baseAsset quoteAsset initialPrice windowDuration) = .ok w') :
    ∃ account, priceAt priceSourceId windowDuration w' = some account ∧ account.IsValid := by
  have step := call_step tickMath w w' authority _ _ h
  generalize hi : Instruction.createOraclePriceAccount baseAsset quoteAsset initialPrice
    windowDuration = instruction at step
  generalize hids : [o, priceSourceId, c] = ids at step
  cases step with
  | createPriceObservations => cases hi
  | createOraclePriceAccount s _ _ _ d account fresh priced timed =>
    cases hi
    cases hids
    refine ⟨account, ?_, priced, timed⟩
    rw [priceAt_eq_some, oraclePriceId,
      owned_put _ _ _ _ (Or.inr (by rw [fresh]; exact Data.noConfusion))]
    exact Function.update_self ..
  | currentTick s ids instruction current reports =>
    rcases reports with ⟨price, rfl⟩ | ⟨price, rfl⟩ <;> cases hi
  | publishIdle => cases hi
  | publishPrice => cases hi
  | recordIdle => cases hi
  | recordTick => cases hi

/-- The cumulative difference is the area under the averaged ticks. -/
theorem Window.extrapolated_eq (observations : PriceObservations) (log : List Recorded)
    (start last : Recorded) (h : Window observations log start last)
    (current : CurrentTickAccount) (now : U64) (hnow : last.entry.timestamp.val ≤ now.val) :
    extrapolated observations current now start.entry last.entry
      = area (publishedSteps log current now) := by
  have harea := h.area_published observations log start last current now
  have hreported := reportedAt_between last current now hnow
  have hboundary : reportBoundary current now last.entry = reportedAt last current now := rfl
  simp only [tailSteps, area_cons, area_nil, h.lastTick, Int.ofNat_sub hreported.1,
    Int.ofNat_sub hreported.2] at harea
  rw [extrapolated, liveTick, hboundary]
  linarith

/-- A feed that only saw ticks with a price averages to one. -/
theorem Reached.average_priced (history : History) (w : Accounts)
    (h : Reached priceSourceId windowDuration tickMath (some history) w)
    (hinitial : lowestPricedTick.val ≤ history.initialTick.val)
    (hreadings : ∀ reading ∈ history.readings, lowestPricedTick.val ≤ reading.tick.val)
    (hlive : ∀ current ∈ currentAt w priceSourceId, lowestPricedTick.val ≤ current.tick.val) :
    ∀ average ∈ averageAt priceSourceId windowDuration w, lowestPricedTick.val ≤ average := by
  obtain ⟨-, log, observations, last, now, k⟩ := h.feed
  have hchained := history.log_chained windowDuration log k.replayed
  obtain ⟨start, last', window⟩ := k.stores.window windowDuration observations log _ hchained
  obtain rfl : last' = last := Option.some.inj (window.ends.symm.trans k.ends)
  have hticks := history.log_ticks windowDuration log lowestPricedTick.val (2 ^ 31)
    ⟨hinitial, history.initialTick.range.2.le⟩
    (fun reading hr => ⟨hreadings reading hr, reading.tick.range.2.le⟩) k.replayed
  intro average haverage
  rw [averageAt, k.stored, k.clock] at haverage
  cases hcurrent : currentAt w priceSourceId with
  | none =>
    rw [hcurrent] at haverage
    cases haverage
  | some current =>
    simp only [hcurrent, window.starts, window.newest] at haverage
    split at haverage
    · cases haverage
    · rename_i hmany
      rw [Option.mem_some_iff] at haverage
      have hspan := window.span_published observations log start last' current now k.recent
      have hpos := window.span_pos windowDuration observations log start last' current now _
        hchained (by rw [← k.stores.totalEntries]; omega) k.recent
      have hbetween := window.published_between observations log start last' current now _ _ hticks
        ⟨hlive current hcurrent, current.tick.range.2.le⟩
      have helapsed : (now.val : ℤ) - start.entry.timestamp.val
          = span (publishedSteps log current now) := by omega
      rw [← haverage, window.extrapolated_eq observations log start last' current now k.recent,
        helapsed, ← floor_average]
      exact (floor_average_between _ _ _ hbetween hpos).1

/-- A created price account is valid and stays, and in every run whose publications average to a tick
with a price it stays valid. Other publications store the price zero; none occurs on a feed whose
initial, recorded and current ticks all have a price. -/
theorem published_prices_are_valid (hm : tickMath.Documented) :
    (∀ w w' authority o c baseAsset quoteAsset initialPrice,
      call tickMath w authority [o, priceSourceId, c]
        (.createOraclePriceAccount baseAsset quoteAsset initialPrice windowDuration) = .ok w' →
      ∃ account, priceAt priceSourceId windowDuration w' = some account ∧
        account.price.val ≠ 0 ∧ account.timestamp.val ≠ 0) ∧
    (∀ w w' authority ids instruction, call tickMath w authority ids instruction = .ok w' →
      (priceAt priceSourceId windowDuration w).isSome = true →
      (priceAt priceSourceId windowDuration w').isSome = true) ∧
    (∀ history w account, Run priceSourceId windowDuration tickMath
        (Priced priceSourceId windowDuration) history w →
      priceAt priceSourceId windowDuration w = some account →
      account.price.val ≠ 0 ∧ account.timestamp.val ≠ 0) ∧
    (∀ w now tick price, Publication priceSourceId windowDuration tickMath w now tick price →
      (price.val ≠ 0 ↔
        ∀ average ∈ averageAt priceSourceId windowDuration w, lowestPricedTick.val ≤ average)) ∧
    ∀ history w, Reached priceSourceId windowDuration tickMath (some history) w →
      lowestPricedTick.val ≤ history.initialTick.val →
      (∀ reading ∈ history.readings, lowestPricedTick.val ≤ reading.tick.val) →
      (∀ current ∈ currentAt w priceSourceId, lowestPricedTick.val ≤ current.tick.val) →
      ∀ average ∈ averageAt priceSourceId windowDuration w, lowestPricedTick.val ≤ average := by
  refine ⟨created_price_valid priceSourceId windowDuration tickMath, ?_, ?_, ?_,
    fun history w h => h.average_priced priceSourceId windowDuration tickMath⟩
  · intro w w' authority ids instruction h hsome
    exact Step.price_kept priceSourceId windowDuration tickMath w w' authority ids instruction hsome
      (call_step tickMath w w' authority ids instruction h)
  · intro history w account h haccount
    exact h.price_valid priceSourceId windowDuration tickMath hm history w account haccount
  · intro w now tick price hp
    obtain ⟨observations, current, hfeed, hcurrent, hmany, havg⟩ := hp.averaged
    have haverage := averageAt_of_twapTick priceSourceId windowDuration w now observations current
      tick hfeed hcurrent hp.clock hmany havg
    rw [tickToOraclePrice_ne_zero_iff tickMath hm tick price hp.converted, haverage]
    simp only [Option.mem_some_iff, forall_eq']

end

/-- The tick-math library at the lowest price, at the price one and around the lowest priced tick. -/
def dustTickMath : TickMath where
  getTickAtSqrtRatio ratio :=
    if ratio.val = 4295128739 then some ⟨-887272, minTick_mem_i32⟩
    else if ratio.val = 2 ^ 96 then some ⟨0, zero_mem_i32⟩
    else none
  getSqrtRatioAtTick tick :=
    if tick.val = -887272 then some ⟨4295128739, minSqrtRatio_lt_u256⟩
    else if tick.val = -443637 then some ⟨18446168479421469440, by norm_num⟩
    else if tick.val = -443636 then some ⟨18447090764788882728, by norm_num⟩
    else if tick.val = 0 then some ⟨2 ^ 96, two_pow_96_lt_u256⟩
    else none

theorem dustTickMath_documented : dustTickMath.Documented where
  monotone := by
    intro t t' r r' hle hr hr'
    simp only [dustTickMath] at hr hr'
    split_ifs at hr hr' <;> cases hr <;> cases hr' <;> first | decide | omega
  priced := ⟨_, rfl, rfl⟩
  unpriced := ⟨_, rfl, rfl⟩

section
variable (initialTick : I32) (price : U128)

def observedFeed : Accounts :=
  called dustTickMath (clockWorld ⟨1, one_lt_u64⟩) [firstSource]
    [feedId firstSource firstWindow, firstSource, clock01ProgramAccountId]
    (.createPriceObservations initialTick firstWindow)

def sampledFeed : Accounts :=
  called dustTickMath (observedFeed initialTick) [firstSource] tickIds
    (.createCurrentTickAccount price)

def priceIds : List AccountId :=
  [computeOraclePriceAccountPda twapOracleProgramId firstSource firstWindow, firstSource,
    clock01ProgramAccountId]

def pricedFeed : Accounts :=
  called dustTickMath (sampledFeed initialTick price) [firstSource] priceIds
    (.createOraclePriceAccount (.key 10) (.key 11) ⟨1, one_lt_u128⟩ firstWindow)

def sampledTwice : Accounts :=
  called dustTickMath (atTime (pricedFeed initialTick price) ⟨2, two_lt_u64⟩) [] recordIds
    (.recordTick firstSource firstWindow)

def publishedFeed : Accounts :=
  called dustTickMath (sampledTwice initialTick price) [] publishIds
    (.publishPrice firstSource firstWindow)

/-- The feed is published in a run of the calls above. -/
theorem publishedFeed_run (allowed : Accounts → Instruction → Prop)
    (h1 : allowed (clockWorld ⟨1, by norm_num⟩) (.createPriceObservations initialTick firstWindow))
    (h2 : allowed (observedFeed initialTick) (.createCurrentTickAccount price))
    (h3 : allowed (sampledFeed initialTick price)
      (.createOraclePriceAccount (.key 10) (.key 11) ⟨1, by norm_num⟩ firstWindow))
    (h4 : allowed (atTime (pricedFeed initialTick price) ⟨2, by norm_num⟩)
      (.recordTick firstSource firstWindow))
    (h5 : allowed (sampledTwice initialTick price) (.publishPrice firstSource firstWindow))
    (lives : (call dustTickMath (clockWorld ⟨1, by norm_num⟩) [firstSource]
          [feedId firstSource firstWindow, firstSource, clock01ProgramAccountId]
          (.createPriceObservations initialTick firstWindow)).toBool = true ∧
      (call dustTickMath (observedFeed initialTick) [firstSource] tickIds
        (.createCurrentTickAccount price)).toBool = true ∧
      (call dustTickMath (sampledFeed initialTick price) [firstSource] priceIds
        (.createOraclePriceAccount (.key 10) (.key 11) ⟨1, by norm_num⟩ firstWindow)).toBool = true ∧
      (call dustTickMath (atTime (pricedFeed initialTick price) ⟨2, by norm_num⟩) [] recordIds
        (.recordTick firstSource firstWindow)).toBool = true ∧
      (call dustTickMath (sampledTwice initialTick price) [] publishIds
        (.publishPrice firstSource firstWindow)).toBool = true)
    (clock : clockAt (pricedFeed initialTick price) = some ⟨1, by norm_num⟩ ∧
      (pricedFeed initialTick price clock01ProgramAccountId).programOwner ≠ twapOracleProgramId) :
    ∃ history, Run firstSource firstWindow dustTickMath allowed history
      (publishedFeed initialTick price) := by
  obtain ⟨l1, l2, l3, l4, l5⟩ := lives
  have unused := clockWorld_reached dustTickMath firstSource firstWindow ⟨1, by norm_num⟩
  have h0 : Run firstSource firstWindow dustTickMath allowed none
      (clockWorld ⟨1, by norm_num⟩) := by
    refine .start _ unused.feed.1 unused.feed.2 ?_
    have hne : oraclePriceId firstSource firstWindow ≠ clock01ProgramAccountId :=
      fun he => by cases he
    rw [owned, clockWorld, if_neg hne, if_neg (by decide)]
  have r3 := Run.called _ _ _ _ _ _ (Run.called _ _ _ _ _ _ (Run.called none _ _ _ _ _ h0 h1
    (call_called _ _ _ _ _ l1)) h2 (call_called _ _ _ _ _ l2)) h3 (call_called _ _ _ _ _ l3)
  obtain ⟨bare, kept, later⟩ := atTime_elsewhere (pricedFeed initialTick price) _
    ⟨2, by norm_num⟩ (r3.reached _ _ _ _ _ _).feed.1 clock.2 clock.1 (by decide)
  exact ⟨_, Run.called _ _ _ _ _ _ (Run.called _ _ _ _ _ _ (Run.elsewhere _ _ _ r3 bare kept later)
    h4 (call_called _ _ _ _ _ l4)) h5 (call_called _ _ _ _ _ l5)⟩

end

def Reports (w : Accounts) (instruction : Instruction) : Prop :=
  (∀ now, clockAt w = some now → now.val ≠ 0) ∧
    ∀ initialTick windowDuration, instruction = .createPriceObservations initialTick windowDuration →
      minTick.val ≤ initialTick.val ∧ initialTick.val ≤ maxTick.val

theorem clock_ne_zero (w : Accounts) (h : (clockAt w).any (fun now => now.val ≠ 0) = true) :
    ∀ now, clockAt w = some now → now.val ≠ 0 := by
  intro now hnow
  rw [hnow] at h
  simpa using h

/-- The lowest price is reported, recorded and published: consumers then see no valid price. -/
theorem lowest_price_published_as_none :
    ¬ ∀ (priceSourceId : AccountId) (windowDuration : U64) (tickMath : TickMath),
      tickMath.Documented → ∀ history w account,
      Run priceSourceId windowDuration tickMath Reports history w →
      priceAt priceSourceId windowDuration w = some account →
      account.price.val ≠ 0 ∧ account.timestamp.val ≠ 0 := by
  intro h
  obtain ⟨history, hrun⟩ := publishedFeed_run minTick (Unsigned.zero 128) Reports
    ⟨clock_ne_zero _ (by decide +kernel), by rintro tick d he; cases he; decide⟩
    ⟨clock_ne_zero _ (by decide +kernel), by rintro tick d he; cases he⟩
    ⟨clock_ne_zero _ (by decide +kernel), by rintro tick d he; cases he⟩
    ⟨clock_ne_zero _ (by decide +kernel), by rintro tick d he; cases he⟩
    ⟨clock_ne_zero _ (by decide +kernel), by rintro tick d he; cases he⟩
    (by decide +kernel) (by decide +kernel)
  have hprice : priceAt firstSource firstWindow (publishedFeed minTick (Unsigned.zero 128))
      = some ⟨.key 10, .key 11, Unsigned.zero 128, ⟨2, by norm_num⟩, firstSource,
        Unsigned.zero 128⟩ := by
    decide +kernel
  exact (h firstSource firstWindow dustTickMath dustTickMath_documented history _ _ hrun hprice).1 rfl

/-- A feed at the price one is published with a price. -/
theorem par_price_published : ∃ account,
    priceAt firstSource firstWindow
        (publishedFeed ⟨0, by norm_num⟩ ⟨2 ^ 64, by norm_num⟩) = some account ∧
      account.price.val ≠ 0 ∧ account.timestamp.val ≠ 0 := by
  obtain ⟨history, hrun⟩ := publishedFeed_run ⟨0, by norm_num⟩ ⟨2 ^ 64, by norm_num⟩
    (Priced firstSource firstWindow)
    ⟨clock_ne_zero _ (by decide +kernel), fun he => by cases he⟩
    ⟨clock_ne_zero _ (by decide +kernel), fun he => by cases he⟩
    ⟨clock_ne_zero _ (by decide +kernel), fun he => by cases he⟩
    ⟨clock_ne_zero _ (by decide +kernel), fun he => by cases he⟩
    ⟨clock_ne_zero _ (by decide +kernel), fun _ average haverage => by
      have hzero : averageAt firstSource firstWindow
          (sampledTwice ⟨0, by norm_num⟩ ⟨2 ^ 64, by norm_num⟩) = some 0 := by decide +kernel
      rw [hzero, Option.mem_some_iff] at haverage
      rw [← haverage]
      decide⟩
    (by decide +kernel) (by decide +kernel)
  have hprice : (priceAt firstSource firstWindow
      (publishedFeed ⟨0, by norm_num⟩ ⟨2 ^ 64, by norm_num⟩)).isSome = true := by decide +kernel
  exact ⟨_, (Option.some_get hprice).symm, (published_prices_are_valid firstSource firstWindow
    dustTickMath dustTickMath_documented).2.2.1 history _ _ hrun (Option.some_get hprice).symm⟩

end LezPrograms.TwapOracle
