import LezPrograms.TwapOracle.Publications

/-! # Recording right before a publication

A record counts the reported tick for all the time since the newest observation;
a publication counts it only since it was reported. A publication that follows a
record at the same time therefore averages another area. -/

set_option autoImplicit false

namespace LezPrograms.TwapOracle
open LezPrograms.Checked LezPrograms.Lee LezPrograms.StepFunction

section
variable (observations : PriceObservations) (current : CurrentTickAccount) (now : U64)
  (t1 t2 : ObservationEntry)

def reportBoundary : ℕ := min (max current.lastUpdated.val t2.timestamp.val) now.val

def liveTick : ℤ := (clampedTick observations.lastRecordedTick current.tick).val

def extrapolated : ℤ :=
  t2.tickCumulative.val - t1.tickCumulative.val
    + observations.lastRecordedTick.val
      * ((reportBoundary current now t2 : ℤ) - t2.timestamp.val)
    + liveTick observations current * ((now.val : ℤ) - reportBoundary current now t2)

/-- What a record adds to it: the live tick for the time before it was reported. -/
def smeared : ℤ :=
  (liveTick observations current - observations.lastRecordedTick.val)
    * ((reportBoundary current now t2 : ℤ) - t2.timestamp.val)

/-- The record moves the average over the window by less than what its floor absorbs. -/
def Absorbed : Prop :=
  0 ≤ extrapolated observations current now t1 t2 % ((now.val : ℤ) - t1.timestamp.val)
      + smeared observations current now t2 ∧
    extrapolated observations current now t1 t2 % ((now.val : ℤ) - t1.timestamp.val)
      + smeared observations current now t2 < (now.val : ℤ) - t1.timestamp.val

instance : Decidable (Absorbed observations current now t1 t2) :=
  inferInstanceAs (Decidable (_ ∧ _))

/-- The live tick held all along, or the clamp left nothing to smear. -/
theorem absorbed_of_settled (hpos : t1.timestamp.val < now.val)
    (h : current.lastUpdated.val ≤ t2.timestamp.val ∧ t2.timestamp.val ≤ now.val ∨
      liveTick observations current = observations.lastRecordedTick.val) :
    Absorbed observations current now t1 t2 := by
  have hnone : smeared observations current now t2 = 0 := by
    rw [smeared]
    rcases h with ⟨h, hnow⟩ | h
    · have hboundary : reportBoundary current now t2 = t2.timestamp.val := by
        rw [reportBoundary]
        omega
      rw [hboundary, sub_self, mul_zero]
    · rw [h, sub_self, zero_mul]
  have helapsed : (0 : ℤ) < (now.val : ℤ) - t1.timestamp.val := by omega
  rw [Absorbed, hnone, add_zero]
  exact ⟨Int.emod_nonneg _ helapsed.ne', Int.emod_lt_of_pos _ helapsed⟩

end

/-- A shifted area has the same floor when the remainder absorbs the shift. -/
theorem add_ediv_eq_iff (area shift elapsed : ℤ) (h : 0 < elapsed) :
    area / elapsed = (area + shift) / elapsed ↔
      0 ≤ area % elapsed + shift ∧ area % elapsed + shift < elapsed := by
  have hdivision := Int.mul_ediv_add_emod area elapsed
  rw [eq_comm, Int.ediv_eq_iff_of_pos h, Int.mul_comm]
  constructor
  · rintro ⟨h1, h2⟩
    exact ⟨by linarith, by linarith⟩
  · rintro ⟨h1, h2⟩
    exact ⟨by linarith, by linarith⟩

section
variable (windowDuration : U64) (observations : PriceObservations) (current : CurrentTickAccount)
  (now : U64) (t1 t2 : ObservationEntry) (tick : I32)
  (h1 : windowStartObservation observations = some t1)
  (h2 : newestObservation observations = some t2)
include h1 h2

theorem twapTick_extrapolated
    (h : twapTick observations current now windowDuration = .ok tick) :
    t1.timestamp.val < now.val ∧ t2.timestamp.val ≤ now.val ∧
      now.val < t1.timestamp.val + 2 ^ 63 ∧
      tick.val = extrapolated observations current now t1 t2
        / ((now.val : ℤ) - t1.timestamp.val) := by
  simp only [twapTick, h1, h2, expect_some, ok_bind, bind_eq_ok,
    ensure_eq_ok, exists_const, expect_eq_ok, Signed.tryFrom_eq_some, Signed.checkedMul_eq_some,
    Option.bind_eq_some_iff, Signed.checkedAdd_eq_some, Signed.checkedSub_eq_some,
    Signed.checkedDivEuclid_eq_some, Unsigned.checkedSub_eq_some, Signed.widen_val] at h
  obtain ⟨-, hnow, pre, hpre, post, hpost, preArea, hpreArea, postArea, hpostArea, total,
    ⟨partialArea, hpartial, htotal⟩, elapsed, helapsed, divisor, hdivisor, difference, hdifference,
    twap, ⟨hne, htwap⟩, htick⟩ := h
  have hboundary : ((Unsigned.maximum current.lastUpdated t2.timestamp).minimum now).val
      = reportBoundary current now t2 := by
    rw [reportBoundary, Unsigned.minimum_val, Unsigned.maximum_val]
  have hbetween : t2.timestamp.val ≤ reportBoundary current now t2 ∧
      reportBoundary current now t2 ≤ now.val := by
    rw [reportBoundary]
    omega
  rw [Unsigned.saturatingSub_val, hboundary] at hpre hpost
  have hrange := divisor.range
  have hd : divisor.val = (now.val : ℤ) - t1.timestamp.val := by omega
  have hn : difference.val = extrapolated observations current now t1 t2 := by
    rw [extrapolated, liveTick, hdifference, htotal, hpartial, hpreArea, hpostArea, hpre, hpost,
      Int.ofNat_sub hbetween.1, Int.ofNat_sub hbetween.2]
    ring
  refine ⟨by omega, hnow, by omega, ?_⟩
  rw [htick, htwap, hn, hd]

/-- Without a tail, the accumulated ticks of a window that starts at zero are averaged. -/
theorem twapTick_recorded (hnow : t2.timestamp = now) (hzero : t1.tickCumulative.val = 0)
    (hpos : t1.timestamp.val < now.val) (hlong : now.val < t1.timestamp.val + 2 ^ 63)
    (h : tick.val = t2.tickCumulative.val / ((now.val : ℤ) - t1.timestamp.val)) :
    twapTick observations current now windowDuration = .ok tick := by
  subst hnow
  have hboundary : ((Unsigned.maximum current.lastUpdated t2.timestamp).minimum t2.timestamp)
      = t2.timestamp := Fin.ext (by rw [Unsigned.minimum_val, Unsigned.maximum_val]; omega)
  obtain ⟨zero, hz⟩ := Signed.exists_tryFrom 64 0 (by norm_num)
  obtain ⟨divisor, hdivisor⟩ := Signed.exists_tryFrom 64
    ((t2.timestamp.val - t1.timestamp.val : ℕ) : ℤ) (by omega)
  have hrange := tick.range
  obtain ⟨twap, htwap⟩ := Signed.exists_tryFrom 64 tick.val (by omega)
  rw [Signed.tryFrom_eq_some] at hz hdivisor htwap
  have hd : divisor.val = (t2.timestamp.val : ℤ) - t1.timestamp.val := by omega
  simp only [twapTick, h1, h2, hboundary, expect_some, ok_bind, bind_eq_ok,
    ensure_eq_ok, exists_const, expect_eq_ok, Signed.tryFrom_eq_some, Signed.checkedMul_eq_some,
    Option.bind_eq_some_iff, Signed.checkedAdd_eq_some, Signed.checkedSub_eq_some,
    Signed.checkedDivEuclid_eq_some, Unsigned.checkedSub_eq_some, Signed.widen_val,
    Unsigned.saturatingSub_val, Nat.sub_self]
  refine ⟨Nat.zero_le _, le_rfl, zero, hz, zero, hz, zero, by rw [hz, mul_zero], zero,
    by rw [hz, mul_zero], t2.tickCumulative, ⟨t2.tickCumulative, by rw [hz, add_zero],
      by rw [hz, add_zero]⟩, t2.timestamp.saturatingSub t1.timestamp, ?_, divisor, ?_,
    t2.tickCumulative, by rw [hzero, sub_zero], twap, ⟨by omega, ?_⟩, htwap.symm⟩
  · rw [Unsigned.saturatingSub_val]
    omega
  · rw [Unsigned.saturatingSub_val, hdivisor]
  · rw [htwap, h, hd]

end

/-- Until it is full, a feed starts its window at its first observation. -/
theorem Stores.windowStart_first (observations : PriceObservations) (log : List Recorded)
    (first : Recorded) (s : Stores observations log) (hhead : log.head? = some first)
    (hroom : log.length ≤ observationsCapacity) :
    windowStartObservation observations = some first.entry := by
  rw [s.windowStart, RingBuffer.latest, List.length_map, Nat.sub_eq_zero_of_le hroom,
    List.drop_zero, List.head?_map, hhead, Option.map_some]

section
variable (priceSourceId : AccountId) (windowDuration : U64)

/-- An appended observation counts the live tick for all the time since the newest one. -/
theorem Kept.appended (w : Accounts) (history : History) (log : List Recorded)
    (observations observations' : PriceObservations) (last : Recorded) (now : U64)
    (k : Kept priceSourceId windowDuration w history log observations last now)
    (current : CurrentTickAccount)
    (hroom : observations.totalEntries.val < observationsCapacity)
    (h : recordObservation observations current.tick now windowDuration
      = .ok (some observations')) :
    ∃ t1 t2 entry, windowStartObservation observations = some t1 ∧
      newestObservation observations = some t2 ∧
      windowStartObservation observations' = some t1 ∧
      newestObservation observations' = some entry ∧
      observations'.totalEntries.val = observations.totalEntries.val + 1 ∧
      t1.tickCumulative.val = 0 ∧ t2.timestamp.val ≤ now.val ∧ entry.timestamp = now ∧
      entry.tickCumulative.val = extrapolated observations current now t1 t2
        + smeared observations current now t2 := by
  have hchained := history.log_chained windowDuration log k.replayed
  obtain ⟨log', hlog', hstores⟩ := k.stores.record observations log _ _ _ _ h
  obtain ⟨last', hlast', hnewest, htick⟩ := k.stores.last
  have hsame : last' = last := Option.some.inj (hlast'.symm.trans k.ends)
  subst hsame
  have hlength : log.length < observationsCapacity := k.stores.totalEntries ▸ hroom
  have hstart := k.stores.windowStart_first _ _ _ hchained.head hlength.le
  obtain ⟨next', hnext', ⟨rfl, hearly⟩ | ⟨next, rfl, hnow, hlive, hfollows⟩⟩ :=
    appendReading_cases windowDuration log log' ⟨now, current.tick⟩ hlog'
  · simp only [recordObservation, hnewest, expect_some, ok_bind, bind_eq_ok] at h
    obtain ⟨entry, hentry, h⟩ := h
    have hsame : next' = last' := Option.some.inj (hnext'.symm.trans hlast')
    rw [hsame] at hearly
    rw [← htick, (nextObservation_eq_none _ _ _ _ _).mpr hearly, Except.ok.injEq] at hentry
    subst hentry
    cases h
  · have hsame : next' = last' := Option.some.inj (hnext'.symm.trans hlast')
    subst hsame
    have hhead : (log ++ [next]).head? = some history.first := by
      rw [List.head?_append, hchained.head, Option.some_or]
    refine ⟨_, _, next.entry, hstart, hnewest,
      hstores.windowStart_first _ _ _ hhead (by simp; omega), ?_, ?_, rfl, k.recent, hnow, ?_⟩
    · have hn := hstores.newest
      rw [Option.getD_some] at hn
      rw [hn, List.getLast?_map, List.getLast?_concat, Option.map_some]
    · have hcount := hstores.totalEntries
      rw [Option.getD_some, List.length_append, List.length_singleton] at hcount
      rw [hcount, k.stores.totalEntries]
    · have hzero : history.first.entry.tickCumulative.val = 0 := rfl
      have htime : next.entry.timestamp.val = now.val := congrArg Fin.val hnow
      rw [hfollows.cumulative, hlive, htime, extrapolated, smeared, liveTick, htick, hzero]
      ring

variable (tickMath : TickMath)

structure Publication (w : Accounts) (now : U64) (tick : I32) (price : U128) : Prop where
  success : ∃ (authority ids : List AccountId) (w' : Accounts) (account : OraclePriceAccount),
    call tickMath w authority ids (.publishPrice priceSourceId windowDuration) = .ok w' ∧
    (w' (computeOraclePriceAccountPda twapOracleProgramId priceSourceId windowDuration)).data
      = .oraclePrice { account with price := price, timestamp := now }
  clock : clockAt w = some now
  averaged : ∃ observations current, feedAt priceSourceId windowDuration w = some observations ∧
    currentAt w priceSourceId = some current ∧ 2 ≤ observations.totalEntries.val ∧
    twapTick observations current now windowDuration = .ok tick
  converted : tickToOraclePrice tickMath tick = .ok price

/-- A call with enough observations publishes what it averages. -/
theorem publishPrice_call (w : Accounts) (authority : List AccountId) (now : U64)
    (observations : PriceObservations) (account : OraclePriceAccount)
    (current : CurrentTickAccount) (tick : I32) (price : U128)
    (stored : feedAt priceSourceId windowDuration w = some observations)
    (readCurrent : currentAt w priceSourceId = some current)
    (readPrice : (w (computeOraclePriceAccountPda twapOracleProgramId priceSourceId
      windowDuration)).data = .oraclePrice account)
    (clock : clockAt w = some now) (many : 2 ≤ observations.totalEntries.val)
    (averaged : twapTick observations current now windowDuration = .ok tick)
    (converted : tickToOraclePrice tickMath tick = .ok price)
    (write : MayWrite twapOracleProgramId (w (computeOraclePriceAccountPda twapOracleProgramId
      priceSourceId windowDuration))
      (.oraclePrice { account with price := price, timestamp := now })) :
    Publication priceSourceId windowDuration tickMath w now tick price := by
  have hfeed := (owned_eq_some _ _ _ _).mp ((feedAt_eq_some _ _ _ _).mp stored)
  have hcurrent := (currentAt_eq_some _ _ _).mp readCurrent
  have hclock := (clockAt_eq_some _ _).mp clock
  have hmain : ∃ diffs, main tickMath twapOracleProgramId
      ([feedId priceSourceId windowDuration,
        computeOraclePriceAccountPda twapOracleProgramId priceSourceId windowDuration,
        computeCurrentTickAccountPda twapOracleProgramId priceSourceId,
        clock01ProgramAccountId].map (view w authority)) (.publishPrice priceSourceId windowDuration)
        = .ok diffs ∧
      applyDiffs twapOracleProgramId w diffs = .ok (put twapOracleProgramId w
        (computeOraclePriceAccountPda twapOracleProgramId priceSourceId windowDuration)
        (.oraclePrice { account with price := price, timestamp := now })) := by
    simp only [List.map_cons, List.map_nil, main, publishPrice, bind_eq_ok, ensure_eq_ok,
      exists_const, expect_eq_ok, clockTimestamp_eq_ok, tryFrom_priceObservations,
      tryFrom_oraclePrice, tryFrom_currentTick]
    simp only [view_account, view_accountId]
    refine ⟨?diffs, ⟨rfl, trivial, trivial, hfeed.1, hcurrent.1, trivial, now, hclock,
      observations, hfeed.2, account, readPrice, current, hcurrent.2, ?average⟩, ?apply⟩
    case average =>
      rw [if_neg (by omega), averaged, ok_bind, converted, ok_bind]
      rfl
    case apply =>
      simp only [applyDiffs_new, applyDiffs_unchanged, view_accountId, applyDiffs_nil, and_true]
      exact write
  obtain ⟨diffs, hmain, ha⟩ := hmain
  have hcall : call tickMath w authority
      [feedId priceSourceId windowDuration,
        computeOraclePriceAccountPda twapOracleProgramId priceSourceId windowDuration,
        computeCurrentTickAccountPda twapOracleProgramId priceSourceId, clock01ProgramAccountId]
      (.publishPrice priceSourceId windowDuration) = .ok (put twapOracleProgramId w
        (computeOraclePriceAccountPda twapOracleProgramId priceSourceId windowDuration)
        (.oraclePrice { account with price := price, timestamp := now })) := by
    simp only [call, invoke, bind_eq_ok, Prod.exists, execute_eq_ok, dispatch, ensure_eq_ok,
      exists_const, pure_eq_ok, Prod.mk.injEq]
    refine ⟨_, [], ⟨?_, _, ⟨trivial, _, hmain, rfl, rfl⟩, ha⟩, rfl⟩
    simp [feedId, computePriceObservationsPda, computePriceObservationsPdaSeed,
      computeOraclePriceAccountPda, computeOraclePriceAccountPdaSeed, computeCurrentTickAccountPda,
      computeCurrentTickAccountPdaSeed, AccountId.forPublicPda, clock01ProgramAccountId]
  exact ⟨⟨authority, _, _, account, hcall, by rw [put_same, writeData_data]⟩, clock,
    ⟨observations, current, stored, readCurrent, many, averaged⟩, converted⟩

/-- What a publication overwrites. -/
theorem Publication.writes (w : Accounts) (now : U64) (tick : I32) (price : U128)
    (h : Publication priceSourceId windowDuration tickMath w now tick price) :
    ∃ account, (w (computeOraclePriceAccountPda twapOracleProgramId priceSourceId
        windowDuration)).data = .oraclePrice account ∧
      MayWrite twapOracleProgramId (w (computeOraclePriceAccountPda twapOracleProgramId
        priceSourceId windowDuration))
        (.oraclePrice { account with price := price, timestamp := now }) := by
  obtain ⟨⟨authority, ids, w', -, hcall, -⟩, hclock, ⟨observations, current, hstored, hcurrent,
    hmany, havg⟩, hconverted⟩ := h
  obtain ⟨-, observations', hfeed, hfew⟩ | ⟨now', tick', price', account, published, hprice, hread,
      hwrite⟩ := publishPrice_effect priceSourceId windowDuration tickMath w w' authority ids hcall
  · rw [hstored, Option.some.injEq] at hfeed
    subst hfeed
    exact absurd hmany (Nat.not_le_of_lt hfew)
  · obtain ⟨observations', current', hfeed, hlive, -, haverage⟩ := published.averaged
    have htime := published.clock
    rw [hstored, Option.some.injEq] at hfeed
    rw [hcurrent, Option.some.injEq] at hlive
    rw [hclock, Option.some.injEq] at htime
    subst hfeed hlive htime
    rw [havg, Except.ok.injEq] at haverage
    subst haverage
    rw [hconverted, Except.ok.injEq] at hprice
    subst hprice
    exact ⟨account, hread, hwrite⟩

/-- A record that changes the feed appends what `recordObservation` answers. -/
theorem recordTick_grows (w w₁ : Accounts) (authority ids : List AccountId) (now : U64)
    (observations : PriceObservations) (current : CurrentTickAccount)
    (hfeed : feedAt priceSourceId windowDuration w = some observations)
    (hcurrent : currentAt w priceSourceId = some current) (hclock : clockAt w = some now)
    (h : call tickMath w authority ids (.recordTick priceSourceId windowDuration) = .ok w₁)
    (hgrown : feedAt priceSourceId windowDuration w₁ ≠ feedAt priceSourceId windowDuration w) :
    ∃ observations', recordObservation observations current.tick now windowDuration
        = .ok (some observations') ∧
      w₁ = put twapOracleProgramId w (feedId priceSourceId windowDuration)
        (.priceObservations observations') := by
  have step := call_step tickMath w w₁ authority ids _ h
  generalize hi : Instruction.recordTick priceSourceId windowDuration = instruction at step
  cases step with
  | createPriceObservations => cases hi
  | createOraclePriceAccount => cases hi
  | currentTick s ids instruction current reports =>
    rcases reports with ⟨price, rfl⟩ | ⟨price, rfl⟩ <;> cases hi
  | publishIdle => cases hi
  | publishPrice => cases hi
  | recordIdle => exact absurd rfl hgrown
  | recordTick s d now' stored observations' current' read readCurrent clock recorded write =>
    cases hi
    have hread := ((owned_eq_some _ _ _ _).mp ((feedAt_eq_some _ _ _ _).mp hfeed)).2
    have hsame : stored = observations := Data.priceObservations.inj (read.symm.trans hread)
    have hlive := (currentAt_eq_some _ _ _).mpr readCurrent
    have htime := (clockAt_eq_some _ _).mpr clock
    rw [hcurrent, Option.some.injEq] at hlive
    rw [hclock, Option.some.injEq] at htime
    subst hsame hlive htime
    exact ⟨observations', recorded, rfl⟩

/-- A record right before a publication leaves the published tick and price as they were exactly
when the floor of the average absorbs the time before the live tick was reported. -/
theorem recording_keeps_publication (history : History) (w w₁ : Accounts)
    (authority ids : List AccountId) (now : U64) (observations : PriceObservations)
    (current : CurrentTickAccount)
    (h : Reached priceSourceId windowDuration tickMath (some history) w)
    (hfeed : feedAt priceSourceId windowDuration w = some observations)
    (hroom : observations.totalEntries.val < observationsCapacity)
    (hcurrent : currentAt w priceSourceId = some current)
    (hrecord : call tickMath w authority ids (.recordTick priceSourceId windowDuration) = .ok w₁)
    (hgrown : feedAt priceSourceId windowDuration w₁ ≠ feedAt priceSourceId windowDuration w)
    (tick : I32) (price : U128)
    (hp : Publication priceSourceId windowDuration tickMath w now tick price) :
    ∃ t1 t2, windowStartObservation observations = some t1 ∧
      newestObservation observations = some t2 ∧ t1.timestamp.val < now.val ∧
      (Publication priceSourceId windowDuration tickMath w₁ now tick price ↔
        Absorbed observations current now t1 t2) ∧
      (∀ tick' price', Publication priceSourceId windowDuration tickMath w₁ now tick' price' →
        tick'.val = (extrapolated observations current now t1 t2
          + smeared observations current now t2) / ((now.val : ℤ) - t1.timestamp.val)) ∧
      (current.lastUpdated.val ≤ t2.timestamp.val ∨
        liveTick observations current = observations.lastRecordedTick.val →
        Absorbed observations current now t1 t2) := by
  obtain ⟨observations', hrecorded, rfl⟩ := recordTick_grows priceSourceId windowDuration tickMath
    w w₁ authority ids now observations current hfeed hcurrent hp.clock hrecord hgrown
  obtain ⟨-, log, stored, last, now', k⟩ := h.feed
  have hsame : observations = stored := Option.some.inj (hfeed.symm.trans k.stored)
  have htime : now = now' := Option.some.inj (hp.clock.symm.trans k.clock)
  subst hsame htime
  obtain ⟨t1, t2, entry, h1, h2, h1', h2', hcount, hzero, hle, hentry, hsum⟩ :=
    k.appended priceSourceId windowDuration w history log observations observations' last now
      current hroom hrecorded
  obtain ⟨stored, current', hstored', hcurrent', hmany, havg⟩ := hp.averaged
  obtain rfl : observations = stored := Option.some.inj (hfeed.symm.trans hstored')
  obtain rfl : current = current' := Option.some.inj (hcurrent.symm.trans hcurrent')
  obtain ⟨hpos, -, hlong, htick⟩ := twapTick_extrapolated windowDuration _ _ now t1 t2 tick h1 h2
    havg
  have helapsed : (0 : ℤ) < (now.val : ℤ) - t1.timestamp.val := by omega
  have hshift := add_ediv_eq_iff (extrapolated observations current now t1 t2)
    (smeared observations current now t2) _ helapsed
  have hstored := (owned_eq_some _ _ _ _).mp ((feedAt_eq_some _ _ _ _).mp hfeed)
  have hafter : feedAt priceSourceId windowDuration (put twapOracleProgramId w
      (feedId priceSourceId windowDuration) (.priceObservations observations'))
        = some observations' := by
    rw [feedAt_eq_some, owned_put _ _ _ _ (Or.inl hstored.1)]
    exact Function.update_self ..
  have hlive : currentAt (put twapOracleProgramId w (feedId priceSourceId windowDuration)
      (.priceObservations observations')) priceSourceId = some current := by
    rw [← hcurrent, currentAt, currentAt,
      owned_congr _ _ _ _ (put_other _ _ _ _ _ fun he => by cases he)]
  have hmoved : ∀ tick', twapTick observations' current now windowDuration = .ok tick' →
      tick'.val = (extrapolated observations current now t1 t2
        + smeared observations current now t2) / ((now.val : ℤ) - t1.timestamp.val) := by
    intro tick' havg'
    obtain ⟨-, -, -, htick'⟩ := twapTick_extrapolated windowDuration _ _ now t1 entry tick' h1' h2'
      havg'
    have hboundary : reportBoundary current now entry = now.val := by
      rw [reportBoundary, hentry]
      omega
    rw [htick', extrapolated, hboundary, hentry, hsum, hzero]
    ring_nf
  have hmoved' : ∀ tick' price', Publication priceSourceId windowDuration tickMath
      (put twapOracleProgramId w (feedId priceSourceId windowDuration)
        (.priceObservations observations')) now tick' price' →
      tick'.val = (extrapolated observations current now t1 t2
        + smeared observations current now t2) / ((now.val : ℤ) - t1.timestamp.val) := by
    intro tick' price' hp'
    obtain ⟨stored, current', hstored', hcurrent', -, havg'⟩ := hp'.averaged
    obtain rfl : observations' = stored := Option.some.inj (hafter.symm.trans hstored')
    obtain rfl : current = current' := Option.some.inj (hlive.symm.trans hcurrent')
    exact hmoved tick' havg'
  refine ⟨t1, t2, h1, h2, hpos, ⟨fun hp' => ?_, fun habsorbed => ?_⟩, hmoved', fun hsettled => ?_⟩
  · exact hshift.mp (htick.symm.trans (hmoved' tick price hp'))
  · obtain ⟨account, hprice, hwrite⟩ := hp.writes priceSourceId windowDuration tickMath w now tick
      price
    have hother := put_other twapOracleProgramId w (feedId priceSourceId windowDuration)
      (computeOraclePriceAccountPda twapOracleProgramId priceSourceId windowDuration)
      (.priceObservations observations') (feedId_ne_price _ _ _ _).symm
    have hclock : clockAt (put twapOracleProgramId w (feedId priceSourceId windowDuration)
        (.priceObservations observations')) = some now := by
      rw [← hp.clock, clockAt, clockAt, put_other _ _ _ _ _ fun he => by cases he]
    have haverage : tick.val
        = entry.tickCumulative.val / ((now.val : ℤ) - t1.timestamp.val) := by
      rw [hsum]
      exact htick.trans (hshift.mpr habsorbed)
    exact publishPrice_call priceSourceId windowDuration tickMath _ [] now observations' account
      current tick price hafter hlive (by rw [hother]; exact hprice) hclock (by omega)
      (twapTick_recorded windowDuration _ _ now t1 entry tick h1' h2' hentry hzero hpos hlong
        haverage) hp.converted (by rw [hother]; exact hwrite)
  · exact absorbed_of_settled observations current now t1 t2 hpos
      (hsettled.imp (fun hearly => ⟨hearly, hle⟩) id)

end

def tickIds : List AccountId :=
  [computeCurrentTickAccountPda twapOracleProgramId firstSource, firstSource,
    clock01ProgramAccountId]

def tableFeed : Accounts :=
  called tableTickMath
    (called tableTickMath
      (called tableTickMath (clockWorld ⟨1, one_lt_u64⟩) [firstSource]
        [feedId firstSource firstWindow, firstSource, clock01ProgramAccountId]
        (.createPriceObservations ⟨0, zero_mem_i32⟩ firstWindow)) [firstSource] tickIds
      (.createCurrentTickAccount ⟨2 ^ 64, two_pow_64_lt_u128⟩)) [firstSource]
    [computeOraclePriceAccountPda twapOracleProgramId firstSource firstWindow, firstSource,
      clock01ProgramAccountId]
    (.createOraclePriceAccount (.key 10) (.key 11) ⟨1, one_lt_u128⟩ firstWindow)

def recordedFeed : Accounts :=
  called tableTickMath (atTime tableFeed ⟨2, two_lt_u64⟩) [] recordIds
    (.recordTick firstSource firstWindow)

def lateFeed : Accounts :=
  atTime (called tableTickMath (atTime recordedFeed ⟨3, by norm_num⟩) [firstSource] tickIds
    (.updateCurrentTick ⟨2 ^ 66, two_pow_66_lt_u128⟩)) ⟨4, four_lt_u64⟩

def smearedFeed : Accounts :=
  called tableTickMath lateFeed [] recordIds (.recordTick firstSource firstWindow)

def lateHistory : History :=
  ⟨⟨0, zero_mem_i32⟩, ⟨1, one_lt_u64⟩, [⟨⟨2, two_lt_u64⟩, ⟨0, zero_mem_i32⟩⟩]⟩

theorem tableFeed_reached : Reached firstSource firstWindow tableTickMath
    (some ⟨⟨0, by norm_num⟩, ⟨1, by norm_num⟩, []⟩) tableFeed := by
  have h1 := Reached.called none _ _ _ _ _ (clockWorld_reached tableTickMath firstSource firstWindow
    ⟨1, by norm_num⟩) (call_called tableTickMath (clockWorld ⟨1, by norm_num⟩) [firstSource]
      [feedId firstSource firstWindow, firstSource, clock01ProgramAccountId]
      (.createPriceObservations ⟨0, by norm_num⟩ firstWindow) (by decide +kernel))
  have h2 := Reached.called _ _ _ _ _ _ h1 (call_called tableTickMath _ [firstSource] tickIds
    (.createCurrentTickAccount ⟨2 ^ 64, by norm_num⟩) (by decide +kernel))
  exact Reached.called _ _ _ _ _ _ h2 (call_called tableTickMath _ [firstSource]
    [computeOraclePriceAccountPda twapOracleProgramId firstSource firstWindow, firstSource,
      clock01ProgramAccountId]
    (.createOraclePriceAccount (.key 10) (.key 11) ⟨1, by norm_num⟩ firstWindow)
    (by decide +kernel))

theorem recordedFeed_reached :
    Reached firstSource firstWindow tableTickMath (some lateHistory) recordedFeed := by
  have h1 := atTime_reached tableTickMath firstSource firstWindow ⟨1, by norm_num⟩
    ⟨2, by norm_num⟩ _ _ tableFeed_reached (by decide +kernel) (by decide +kernel) (by decide)
  have h2 := Reached.called _ _ _ _ _ _ h1 (call_called tableTickMath
    (atTime tableFeed ⟨2, by norm_num⟩) [] recordIds (.recordTick firstSource firstWindow)
    (by decide +kernel))
  rw [noted_recorded firstSource firstWindow _ recordIds ⟨2, by norm_num⟩
    ⟨⟨0, by norm_num⟩, ⟨1, by norm_num⟩⟩ _ (by decide +kernel) (by decide +kernel)] at h2
  exact h2

theorem lateFeed_reached :
    Reached firstSource firstWindow tableTickMath (some lateHistory) lateFeed := by
  have h1 := atTime_reached tableTickMath firstSource firstWindow ⟨2, by norm_num⟩
    ⟨3, by norm_num⟩ _ _ recordedFeed_reached (by decide +kernel) (by decide +kernel) (by decide)
  have h2 := Reached.called _ _ _ _ _ _ h1 (call_called tableTickMath
    (atTime recordedFeed ⟨3, by norm_num⟩) [firstSource] tickIds
    (.updateCurrentTick ⟨2 ^ 66, by norm_num⟩) (by decide +kernel))
  exact atTime_reached tableTickMath firstSource firstWindow ⟨3, by norm_num⟩
    ⟨4, by norm_num⟩ _ _ h2 (by decide +kernel) (by decide +kernel) (by decide)

/-- Published without the record, the report counts for one of three milliseconds. -/
theorem lateFeed_publishes : Publication firstSource firstWindow tableTickMath lateFeed
    ⟨4, by norm_num⟩ ⟨3038, by norm_num⟩ ⟨24994922217948934999, by norm_num⟩ where
  success := ⟨[], publishIds, called tableTickMath lateFeed [] publishIds
      (.publishPrice firstSource firstWindow),
    ⟨.key 10, .key 11, ⟨1, by norm_num⟩, ⟨1, by norm_num⟩, firstSource, Unsigned.zero 128⟩,
    call_called _ _ _ _ _ (by decide +kernel), by decide +kernel⟩
  clock := by decide +kernel
  averaged := by
    have hfeed : (feedAt firstSource firstWindow lateFeed).isSome = true := by decide +kernel
    exact ⟨_, ⟨⟨13863, by norm_num⟩, ⟨3, by norm_num⟩⟩, (Option.some_get hfeed).symm,
      by decide +kernel, by decide +kernel +revert, by decide +kernel +revert⟩
  converted := by decide +kernel

/-- Published after the record, it counts for two of them. -/
theorem smearedFeed_publishes : Publication firstSource firstWindow tableTickMath smearedFeed
    ⟨4, by norm_num⟩ ⟨6077, by norm_num⟩ ⟨33870942687683714886, by norm_num⟩ where
  success := ⟨[], publishIds, called tableTickMath smearedFeed [] publishIds
      (.publishPrice firstSource firstWindow),
    ⟨.key 10, .key 11, ⟨1, by norm_num⟩, ⟨1, by norm_num⟩, firstSource, Unsigned.zero 128⟩,
    call_called _ _ _ _ _ (by decide +kernel), by decide +kernel⟩
  clock := by decide +kernel
  averaged := by
    have hfeed : (feedAt firstSource firstWindow smearedFeed).isSome = true := by decide +kernel
    exact ⟨_, ⟨⟨13863, by norm_num⟩, ⟨3, by norm_num⟩⟩, (Option.some_get hfeed).symm,
      by decide +kernel, by decide +kernel +revert, by decide +kernel +revert⟩
  converted := by decide +kernel

/-- The late report is attributed to the time before it: the record changes what is published. -/
theorem recording_smears_late_report :
    ¬ ∀ (priceSourceId : AccountId) (windowDuration : U64) (tickMath : TickMath)
      (history : History) (w w₁ : Accounts) (authority ids : List AccountId) (now : U64)
      (observations : PriceObservations),
      Reached priceSourceId windowDuration tickMath (some history) w →
      feedAt priceSourceId windowDuration w = some observations →
      observations.totalEntries.val < observationsCapacity →
      call tickMath w authority ids (.recordTick priceSourceId windowDuration) = .ok w₁ →
      feedAt priceSourceId windowDuration w₁ ≠ feedAt priceSourceId windowDuration w →
      ∀ tick price, Publication priceSourceId windowDuration tickMath w now tick price →
        Publication priceSourceId windowDuration tickMath w₁ now tick price := by
  intro h
  have hfeed : (feedAt firstSource firstWindow lateFeed).isSome = true := by decide +kernel
  have hsame := h firstSource firstWindow tableTickMath lateHistory lateFeed smearedFeed []
    recordIds _ _ lateFeed_reached (Option.some_get hfeed).symm (by decide +kernel +revert)
    (call_called _ _ _ _ _ (by decide +kernel)) (by decide +kernel) _ _ lateFeed_publishes
  obtain ⟨stored, current, hstored, hcurrent, -, havg⟩ := hsame.averaged
  obtain ⟨stored', current', hstored', hcurrent', -, havg'⟩ := smearedFeed_publishes.averaged
  obtain rfl : stored = stored' := Option.some.inj (hstored.symm.trans hstored')
  obtain rfl : current = current' := Option.some.inj (hcurrent.symm.trans hcurrent')
  have htick := congrArg Signed.val (Except.ok.inj (havg.symm.trans havg'))
  exact absurd htick (by decide)

theorem lateFeed_kept_iff_absorbed : ∃ observations t1 t2,
    feedAt firstSource firstWindow lateFeed = some observations ∧
      windowStartObservation observations = some t1 ∧ newestObservation observations = some t2 ∧
      (Publication firstSource firstWindow tableTickMath smearedFeed ⟨4, by norm_num⟩
          ⟨3038, by norm_num⟩ ⟨24994922217948934999, by norm_num⟩ ↔
        Absorbed observations ⟨⟨13863, by norm_num⟩, ⟨3, by norm_num⟩⟩ ⟨4, by norm_num⟩ t1 t2) := by
  have hfeed : (feedAt firstSource firstWindow lateFeed).isSome = true := by decide +kernel
  obtain ⟨t1, t2, h1, h2, -, h, -⟩ := recording_keeps_publication firstSource firstWindow
    tableTickMath lateHistory lateFeed smearedFeed [] recordIds ⟨4, by norm_num⟩ _
    ⟨⟨13863, by norm_num⟩, ⟨3, by norm_num⟩⟩ lateFeed_reached (Option.some_get hfeed).symm
    (by decide +kernel +revert) (by decide +kernel) (call_called _ _ _ _ _ (by decide +kernel))
    (by decide +kernel) _ _ lateFeed_publishes
  exact ⟨_, t1, t2, (Option.some_get hfeed).symm, h1, h2, h⟩

end LezPrograms.TwapOracle
