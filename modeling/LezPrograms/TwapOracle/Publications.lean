import LezPrograms.TwapOracle.Feed

/-! # Publications

What a publication averages in any run, and how far two runs that share their
clock readings can be apart. -/

set_option autoImplicit false

namespace LezPrograms.TwapOracle
open LezPrograms.Checked LezPrograms.Lee LezPrograms.StepFunction

section
variable (priceSourceId : AccountId) (windowDuration : U64) (tickMath : TickMath)

structure Publishes (w : Accounts) (now : U64) (tick : I32) : Prop where
  success : ∃ authority ids w', call tickMath w authority ids
    (.publishPrice priceSourceId windowDuration) = .ok w'
  clock : clockAt w = some now
  averaged : ∃ observations current, feedAt priceSourceId windowDuration w = some observations ∧
    currentAt w priceSourceId = some current ∧ 2 ≤ observations.totalEntries.val ∧
    twapTick observations current now windowDuration = .ok tick

/-- A successful call has too few observations and changes nothing, or it overwrites the price
account with the price of the averaged tick and the time. -/
theorem publishPrice_effect (w w' : Accounts) (authority ids : List AccountId)
    (h : call tickMath w authority ids (.publishPrice priceSourceId windowDuration) = .ok w') :
    (w' = w ∧ ∃ observations, feedAt priceSourceId windowDuration w = some observations ∧
        observations.totalEntries.val < 2) ∨
      ∃ (now : U64) (tick : I32) (price : U128) (account : OraclePriceAccount),
        Publishes priceSourceId windowDuration tickMath w now tick ∧
        tickToOraclePrice tickMath tick = .ok price ∧
        (w (computeOraclePriceAccountPda twapOracleProgramId priceSourceId windowDuration)).data
          = .oraclePrice account ∧
        MayWrite twapOracleProgramId
          (w (computeOraclePriceAccountPda twapOracleProgramId priceSourceId windowDuration))
          (.oraclePrice { account with price := price, timestamp := now }) := by
  have step := call_step tickMath w w' authority ids _ h
  generalize hi : Instruction.publishPrice priceSourceId windowDuration = instruction at step
  cases step with
  | createPriceObservations => cases hi
  | createOraclePriceAccount => cases hi
  | currentTick s ids instruction current reports =>
    rcases reports with ⟨price, rfl⟩ | ⟨price, rfl⟩ <;> cases hi
  | recordIdle => cases hi
  | recordTick => cases hi
  | publishIdle s d now observations stored clock few =>
    cases hi
    exact Or.inl ⟨rfl, observations, (feedAt_eq_some _ _ _ _).mpr
      ((owned_eq_some _ _ _ _).mpr stored), few⟩
  | publishPrice s d now observations account current tick price stored readCurrent readPrice
      clock many averaged converted write =>
    cases hi
    refine Or.inr ⟨now, tick, price, account, ⟨⟨authority, _, _, h⟩,
      (clockAt_eq_some _ _).mpr clock, observations, current, ?_,
      (currentAt_eq_some _ _ _).mpr readCurrent, many, averaged⟩, converted, readPrice, write⟩
    exact (feedAt_eq_some _ _ _ _).mpr ((owned_eq_some _ _ _ _).mpr stored)

end

def publishIds : List AccountId :=
  [feedId firstSource firstWindow,
    computeOraclePriceAccountPda twapOracleProgramId firstSource firstWindow,
    computeCurrentTickAccountPda twapOracleProgramId firstSource, clock01ProgramAccountId]

/-- The feed whose price moved publishes the clamped tick. -/
theorem movedFeed_publishes : Publishes firstSource firstWindow tableTickMath movedFeed
    ⟨2, by norm_num⟩ ⟨9116, by norm_num⟩ where
  success := ⟨[], publishIds, called tableTickMath movedFeed [] publishIds
    (.publishPrice firstSource firstWindow), call_called _ _ _ _ _ (by decide +kernel)⟩
  clock := by decide +kernel
  averaged := by
    have hfeed : (feedAt firstSource firstWindow movedFeed).isSome = true := by decide +kernel
    exact ⟨_, ⟨⟨13863, by norm_num⟩, ⟨2, by norm_num⟩⟩, (Option.some_get hfeed).symm,
      by decide +kernel, by decide +kernel +revert, by decide +kernel +revert⟩

theorem quietFeed_publishes : Publishes firstSource firstWindow tableTickMath quietFeed
    ⟨2, by norm_num⟩ ⟨0, by norm_num⟩ where
  success := ⟨[], publishIds, called tableTickMath quietFeed [] publishIds
    (.publishPrice firstSource firstWindow), call_called _ _ _ _ _ (by decide +kernel)⟩
  clock := by decide +kernel
  averaged := by
    have hfeed : (feedAt firstSource firstWindow quietFeed).isSome = true := by decide +kernel
    exact ⟨_, ⟨⟨0, by norm_num⟩, ⟨1, by norm_num⟩⟩, (Option.some_get hfeed).symm,
      by decide +kernel, by decide +kernel +revert, by decide +kernel +revert⟩

/-- Two runs that share their first readings and read the same clock afterwards. After `j` further
observations the last recorded ticks differ by `2 * j` clamps at most, and publications at the same
time over a window from before the runs part by the area in between, over the time. -/
theorem parted_runs_stay_close (priceSourceId : AccountId) (windowDuration : U64)
    (tickMath : TickMath) (initialTick : I32) (createdAt : U64)
    (shared readings readings' : List Reading) (w w' : Accounts)
    (h : Reached priceSourceId windowDuration tickMath
      (some ⟨initialTick, createdAt, shared ++ readings⟩) w)
    (h' : Reached priceSourceId windowDuration tickMath
      (some ⟨initialTick, createdAt, shared ++ readings'⟩) w')
    (htimes : readings.map Reading.now = readings'.map Reading.now) :
    ∃ common log log' observations observations',
      History.log windowDuration ⟨initialTick, createdAt, shared⟩ = .ok common ∧
      History.log windowDuration ⟨initialTick, createdAt, shared ++ readings⟩ = .ok log ∧
      History.log windowDuration ⟨initialTick, createdAt, shared ++ readings'⟩ = .ok log' ∧
      feedAt priceSourceId windowDuration w = some observations ∧
      feedAt priceSourceId windowDuration w' = some observations' ∧
      log.length = log'.length ∧
      |observations.lastRecordedTick.val - observations'.lastRecordedTick.val|
        ≤ 2 * ((log.length - common.length : ℕ) : ℤ) * maxTickDelta.val ∧
      ∀ now tick tick' t1 t2, Publishes priceSourceId windowDuration tickMath w now tick →
        Publishes priceSourceId windowDuration tickMath w' now tick' →
        windowStartObservation observations = some t1 →
        newestObservation observations = some t2 →
        t1.timestamp.val ≤ timeAt common (common.length - 1) →
        ((|tick.val - tick'.val| : ℤ) : ℚ)
          ≤ ((driftArea log common.length + 2 * (log.length - common.length + 1) * 9116
            * (now.val - t2.timestamp.val) : ℕ) : ℚ) / ((now.val - t1.timestamp.val : ℕ) : ℚ)
            + 1 := by
  obtain ⟨-, log, observations, last, now, k⟩ := h.feed
  obtain ⟨-, log', observations', last', now', k'⟩ := h'.feed
  have hlog := k.replayed
  have hlog' := k'.replayed
  simp only [History.log, List.foldlM_append, bind_eq_ok] at hlog hlog'
  obtain ⟨common, hcommon, hrest⟩ := hlog
  obtain ⟨common', hcommon', hrest'⟩ := hlog'
  have hsame : common' = common := Except.ok.inj (hcommon'.symm.trans hcommon)
  subst hsame
  have hchained := History.log_chained windowDuration log _ k.replayed
  have hchained' := History.log_chained windowDuration log' _ k'.replayed
  have hstart := History.log_chained windowDuration common' ⟨initialTick, createdAt, shared⟩ hcommon
  have hnonempty : common' ≠ [] := by
    intro he
    have hhead := hstart.head
    rw [he] at hhead
    cases hhead
  have hpos := List.length_pos_iff.mpr hnonempty
  have hd := (Diverging.refl common' hnonempty).readings windowDuration _ _ _ log log' readings
    readings' htimes hrest hrest'
  have hticks := hd.ticks last k.ends last' k'.ends
  rw [k.stores.lastTick last k.ends, k'.stores.lastTick last' k'.ends] at hticks
  refine ⟨common', log, log', observations, observations', hcommon, k.replayed, k'.replayed,
    k.stored, k'.stored, hd.length.symm, hticks, ?_⟩
  intro now tick tick' t1 t2 hp hp' h1 h2 hearly
  obtain ⟨stored, current, hstored, -, -, havg⟩ := hp.averaged
  obtain ⟨stored', current', hstored', -, -, havg'⟩ := hp'.averaged
  rw [k.stored, Option.some.injEq] at hstored
  rw [k'.stored, Option.some.injEq] at hstored'
  subst hstored hstored'
  have htime := timeAt_prefix common' log (readings_isPrefix windowDuration _ _ readings hrest)
    (common'.length - 1) (by omega)
  exact hd.published_near windowDuration _ log log' _ _ observations observations' k.stores
    k'.stores hchained hchained' current current' now tick tick' havg havg' t1 t2 h1 h2
    (by rw [htime]; exact hearly)

/-- The quiet feed and the one whose price moved, one observation apart. -/
theorem moved_feed_stays_close : ∃ (common log : List Recorded)
    (observations observations' : PriceObservations),
    feedAt firstSource firstWindow quietFeed = some observations ∧
      feedAt firstSource firstWindow movedFeed = some observations' ∧
      |observations.lastRecordedTick.val - observations'.lastRecordedTick.val|
        ≤ 2 * ((log.length - common.length : ℕ) : ℤ) * maxTickDelta.val ∧
      (9116 : ℚ) ≤ ((driftArea log common.length
        + 2 * (log.length - common.length + 1) * 9116 * (2 - 2) : ℕ) : ℚ) / ((2 - 1 : ℕ) : ℚ) + 1 := by
  obtain ⟨common, log, -, observations, observations', hcommon, -, -, h1, h2, -, h3, h4⟩ :=
    parted_runs_stay_close firstSource firstWindow tableTickMath ⟨0, by norm_num⟩
      ⟨1, by norm_num⟩ [] [⟨⟨2, by norm_num⟩, ⟨0, by norm_num⟩⟩]
      [⟨⟨2, by norm_num⟩, ⟨13863, by norm_num⟩⟩] quietFeed movedFeed quietFeed_reached
      movedFeed_reached rfl
  obtain rfl := Except.ok.inj hcommon
  have hstart : (feedAt firstSource firstWindow quietFeed).bind windowStartObservation
      = some ⟨⟨1, by norm_num⟩, ⟨0, by norm_num⟩⟩ := by decide +kernel
  have hnewest : (feedAt firstSource firstWindow quietFeed).bind newestObservation
      = some ⟨⟨2, by norm_num⟩, ⟨0, by norm_num⟩⟩ := by decide +kernel
  rw [h1] at hstart hnewest
  have hnear := h4 ⟨2, by norm_num⟩ _ _ _ _ quietFeed_publishes movedFeed_publishes hstart hnewest
    (by decide)
  exact ⟨_, log, observations, observations', h1, h2, h3, by simpa using hnear⟩

end LezPrograms.TwapOracle
