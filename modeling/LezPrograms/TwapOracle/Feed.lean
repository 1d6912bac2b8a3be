import Mathlib
import LezPrograms.Lee.Ownership
import LezPrograms.TwapOracle.Drift
import LezPrograms.TwapOracle.Step

/-! # Runs of the oracle

The oracle is called by anyone, with any authority; everything else of the world
may change in between, but for the accounts the oracle owns and a clock that
does not go back. A run determines the history of each feed, and the stored
observations are the ring buffer of its log. -/

set_option autoImplicit false

namespace LezPrograms.TwapOracle
open LezPrograms.Checked LezPrograms.Lee

def call (tickMath : TickMath) (w : Accounts) (authority ids : List AccountId)
    (instruction : Instruction) : Outcome Accounts :=
  invoke tickMath 1 w authority ⟨twapOracleProgramId, ids, .twapOracle instruction, []⟩

theorem call_step (tickMath : TickMath) (w w' : Accounts) (authority ids : List AccountId)
    (instruction : Instruction) (h : call tickMath w authority ids instruction = .ok w') :
    Step tickMath twapOracleProgramId authority w ids instruction w' := by
  simp only [call, invoke, bind_eq_ok, Prod.exists, execute_eq_ok, dispatch, ensure_eq_ok,
    exists_const, pure_eq_ok, Prod.mk.injEq] at h
  obtain ⟨v, calls, ⟨-, diffs, ⟨-, diffs', hmain, rfl, rfl⟩, ha⟩, h⟩ := h
  rw [List.foldlM_nil, pure_eq_ok] at h
  exact step_of_main _ _ _ _ _ _ _ _ hmain (h ▸ ha)

theorem call_frame (tickMath : TickMath) (w w' : Accounts) (authority ids : List AccountId)
    (instruction : Instruction) (h : call tickMath w authority ids instruction = .ok w') :
    Frame twapOracleProgramId w w' := by
  simp only [call, invoke, bind_eq_ok, Prod.exists] at h
  obtain ⟨v, calls, hv, h⟩ := h
  have hcalls : calls = [] := by
    simp only [execute_eq_ok, dispatch, bind_eq_ok, pure_eq_ok, Prod.mk.injEq] at hv
    obtain ⟨-, _, ⟨_, -, _, -, -, hcalls⟩, -⟩ := hv
    exact hcalls.symm
  rw [hcalls, List.foldlM_nil, pure_eq_ok] at h
  exact h ▸ execute_frame _ _ _ _ _ _ _ hv

def clockAt (w : Accounts) : Option U64 :=
  match (w clock01ProgramAccountId).data with
  | .clock timestamp => some timestamp
  | _ => none

def currentAt (w : Accounts) (priceSourceId : AccountId) : Option CurrentTickAccount :=
  match owned twapOracleProgramId w
    (computeCurrentTickAccountPda twapOracleProgramId priceSourceId) with
  | some (.currentTick current) => some current
  | _ => none

theorem clockAt_eq_some (w : Accounts) (now : U64) :
    clockAt w = some now ↔ (w clock01ProgramAccountId).data = .clock now := by
  unfold clockAt
  split <;> simp_all

theorem currentAt_eq_some (w : Accounts) (s : AccountId) (current : CurrentTickAccount) :
    currentAt w s = some current ↔ Holds twapOracleProgramId
      (w (computeCurrentTickAccountPda twapOracleProgramId s)) (.currentTick current) := by
  rw [Holds, ← owned_eq_some]
  unfold currentAt
  split <;> simp_all

section
variable (priceSourceId : AccountId) (windowDuration : U64)

def feedId : AccountId := computePriceObservationsPda twapOracleProgramId priceSourceId windowDuration

def feedAt (w : Accounts) : Option PriceObservations :=
  match owned twapOracleProgramId w (feedId priceSourceId windowDuration) with
  | some (.priceObservations observations) => some observations
  | _ => none

theorem feedAt_eq_some (w : Accounts) (observations : PriceObservations) :
    feedAt priceSourceId windowDuration w = some observations ↔
      owned twapOracleProgramId w (feedId priceSourceId windowDuration)
        = some (.priceObservations observations) := by
  unfold feedAt
  split <;> simp_all

def noted (w : Accounts) (ids : List AccountId) (instruction : Instruction)
    (history : Option History) : Option History :=
  match instruction, ids, clockAt w, currentAt w priceSourceId with
  | .createPriceObservations initialTick window, [_, source, _], some now, _ =>
    if source = priceSourceId ∧ window = windowDuration then some ⟨initialTick, now, []⟩
    else history
  | .recordTick source window, _, some now, some current =>
    if source = priceSourceId ∧ window = windowDuration then
      history.map fun h => { h with readings := h.readings ++ [⟨now, current.tick⟩] }
    else history
  | _, _, _, _ => history

inductive Reached (tickMath : TickMath) : Option History → Accounts → Prop
  | start (w : Accounts) (bare : Bare w)
      (unused : owned twapOracleProgramId w (feedId priceSourceId windowDuration) = none) :
      Reached tickMath none w
  | elsewhere (history : Option History) (w w' : Accounts) (reached : Reached tickMath history w)
      (bare : Bare w') (kept : owned twapOracleProgramId w' = owned twapOracleProgramId w)
      (clock : ∀ t, clockAt w = some t → ∃ t', clockAt w' = some t' ∧ t.val ≤ t'.val) :
      Reached tickMath history w'
  | called (history : Option History) (w w' : Accounts) (authority ids : List AccountId)
      (instruction : Instruction) (reached : Reached tickMath history w)
      (success : call tickMath w authority ids instruction = .ok w') :
      Reached tickMath (noted priceSourceId windowDuration w ids instruction history) w'

structure Kept (w : Accounts) (history : History) (log : List Recorded)
    (observations : PriceObservations) (last : Recorded) (now : U64) : Prop where
  stored : feedAt priceSourceId windowDuration w = some observations
  replayed : history.log windowDuration = .ok log
  stores : Stores observations log
  clock : clockAt w = some now
  ends : log.getLast? = some last
  recent : last.entry.timestamp.val ≤ now.val

theorem feedId_eq_iff (s s' : AccountId) (d d' : U64) :
    computePriceObservationsPda twapOracleProgramId s' d' = feedId s d ↔ s' = s ∧ d' = d := by
  constructor
  · intro h
    have hseed := PdaSeed.account.inj (AccountId.pda.inj h).2
    exact ⟨hseed.1, Fin.ext (PdaSeed.word.inj hseed.2).1⟩
  · rintro ⟨rfl, rfl⟩
    rfl

theorem feedId_ne_price (s s' : AccountId) (d d' : U64) :
    feedId s d ≠ computeOraclePriceAccountPda twapOracleProgramId s' d' := by
  intro h
  have hseed := PdaSeed.account.inj (AccountId.pda.inj h).2
  cases (PdaSeed.word.inj hseed.2).2

theorem noted_created (w : Accounts) (o c : AccountId) (initialTick : I32) (now : U64)
    (history : Option History) (hclock : clockAt w = some now) :
    noted priceSourceId windowDuration w [o, priceSourceId, c]
      (.createPriceObservations initialTick windowDuration) history
      = some ⟨initialTick, now, []⟩ := by
  simp only [noted, hclock, and_self, if_true]

theorem noted_recorded (w : Accounts) (ids : List AccountId) (now : U64)
    (current : CurrentTickAccount) (history : Option History) (hclock : clockAt w = some now)
    (hcurrent : currentAt w priceSourceId = some current) :
    noted priceSourceId windowDuration w ids (.recordTick priceSourceId windowDuration) history
      = history.map fun h => { h with readings := h.readings ++ [⟨now, current.tick⟩] } := by
  simp only [noted, hclock, hcurrent, and_self, if_true]

theorem noted_other_created (w : Accounts) (o s c : AccountId) (initialTick : I32) (d : U64)
    (history : Option History) (h : ¬(s = priceSourceId ∧ d = windowDuration)) :
    noted priceSourceId windowDuration w [o, s, c] (.createPriceObservations initialTick d) history
      = history := by
  unfold noted
  split <;> simp_all

theorem noted_other_recorded (w : Accounts) (ids : List AccountId) (s : AccountId) (d : U64)
    (history : Option History) (h : ¬(s = priceSourceId ∧ d = windowDuration)) :
    noted priceSourceId windowDuration w ids (.recordTick s d) history = history := by
  unfold noted
  split <;> simp_all

/-- Before its creation a feed owns nothing; then its log determines what is stored. -/
def Feed (w : Accounts) : Option History → Prop
  | none => owned twapOracleProgramId w (feedId priceSourceId windowDuration) = none
  | some history => ∃ log observations last now,
    Kept priceSourceId windowDuration w history log observations last now

theorem Step.clockAt_eq (tickMath : TickMath) (authority ids : List AccountId) (w w' : Accounts)
    (instruction : Instruction)
    (h : Step tickMath twapOracleProgramId authority w ids instruction w') :
    clockAt w' = clockAt w := by
  have hput : ∀ (id : AccountId) (data : Data), clock01ProgramAccountId ≠ id →
      clockAt (put twapOracleProgramId w id data) = clockAt w := by
    intro id data hne
    rw [clockAt, clockAt, put_other _ _ _ _ _ hne]
  cases h with
  | createPriceObservations => exact hput _ _ fun he => by cases he
  | createOraclePriceAccount => exact hput _ _ fun he => by cases he
  | currentTick => exact hput _ _ fun he => by cases he
  | publishIdle => rfl
  | publishPrice => exact hput _ _ fun he => by cases he
  | recordIdle => rfl
  | recordTick => exact hput _ _ fun he => by cases he

/-- A feed is the same in worlds that agree on it and on a clock that does not go back. -/
theorem Feed.congr (w w' : Accounts) (history : Option History)
    (h : Feed priceSourceId windowDuration w history)
    (hfeed : owned twapOracleProgramId w' (feedId priceSourceId windowDuration)
      = owned twapOracleProgramId w (feedId priceSourceId windowDuration))
    (hclock : ∀ t, clockAt w = some t → ∃ t', clockAt w' = some t' ∧ t.val ≤ t'.val) :
    Feed priceSourceId windowDuration w' history := by
  cases history with
  | none => exact hfeed.trans h
  | some history =>
    obtain ⟨log, observations, last, now, k⟩ := h
    obtain ⟨now', hnow', hle⟩ := hclock now k.clock
    refine ⟨log, observations, last, now', ?_, k.replayed, k.stores, hnow', k.ends,
      k.recent.trans hle⟩
    rw [feedAt_eq_some, hfeed, ← feedAt_eq_some]
    exact k.stored

/-- A successful `record_tick` on the feed. -/
theorem Kept.recorded (w w' : Accounts) (history : History) (log : List Recorded)
    (observations : PriceObservations) (last : Recorded) (now : U64)
    (k : Kept priceSourceId windowDuration w history log observations last now)
    (tick : I32) (next : Option PriceObservations)
    (hrecorded : recordObservation observations tick now windowDuration = .ok next)
    (hstored : feedAt priceSourceId windowDuration w' = some (next.getD observations))
    (hclock : clockAt w' = some now) :
    Feed priceSourceId windowDuration w'
      (some { history with readings := history.readings ++ [⟨now, tick⟩] }) := by
  obtain ⟨log', hlog', hstores⟩ := k.stores.record observations log tick now windowDuration next
    hrecorded
  obtain ⟨last', hlast', hends⟩ := appendReading_cases windowDuration log log' ⟨now, tick⟩ hlog'
  have hsame : last' = last := Option.some.inj (hlast'.symm.trans k.ends)
  have hreplayed : History.log windowDuration
      { history with readings := history.readings ++ [⟨now, tick⟩] } = .ok log' := by
    have hlog := k.replayed
    rw [History.log] at hlog
    change (history.readings ++ [_]).foldlM (appendReading windowDuration) [history.first] = _
    rw [List.foldlM_append, hlog, ok_bind, List.foldlM_cons, hlog', ok_bind]
    rfl
  rcases hends with ⟨rfl, -⟩ | ⟨appended, rfl, hnow, -, -⟩
  · exact ⟨_, _, last, now, hstored, hreplayed, hstores, hclock, k.ends, k.recent⟩
  · exact ⟨_, _, appended, now, hstored, hreplayed, hstores, hclock, List.getLast?_concat ..,
      by rw [hnow]⟩

/-- One call keeps the invariant. -/
theorem Feed.step (tickMath : TickMath) (authority ids : List AccountId) (w w' : Accounts)
    (instruction : Instruction) (history : Option History) (hbare : Bare w)
    (h : Feed priceSourceId windowDuration w history)
    (step : Step tickMath twapOracleProgramId authority w ids instruction w') :
    Feed priceSourceId windowDuration w'
      (noted priceSourceId windowDuration w ids instruction history) := by
  have hclock := step.clockAt_eq tickMath authority ids w w' instruction
  have hlater : ∀ t, clockAt w = some t → ∃ t', clockAt w' = some t' ∧ t.val ≤ t'.val :=
    fun t ht => ⟨t, hclock.trans ht, le_rfl⟩
  have helsewhere : ∀ (id : AccountId) (data : Data), w' = put twapOracleProgramId w id data →
      feedId priceSourceId windowDuration ≠ id →
      Feed priceSourceId windowDuration w' history := by
    rintro id data rfl hne
    exact h.congr _ _ w _ history (owned_congr _ _ _ _ (put_other _ _ _ _ _ hne)) hlater
  cases step with
  | createPriceObservations s initialTick d now hfresh _ _ hnow =>
    by_cases hs : s = priceSourceId ∧ d = windowDuration
    · obtain ⟨rfl, rfl⟩ := hs
      rw [noted_created _ _ _ _ _ _ now _ ((clockAt_eq_some w now).mpr hnow)]
      refine ⟨_, _, _, now, ?_, rfl, stores_initial s ⟨initialTick, now, []⟩,
        hclock.trans ((clockAt_eq_some w now).mpr hnow), rfl, le_rfl⟩
      rw [feedAt_eq_some, owned_put _ _ _ _ (Or.inr (by rw [hfresh]; exact Data.noConfusion))]
      exact Function.update_self ..
    · rw [noted_other_created _ _ _ _ _ _ _ _ _ hs]
      exact helsewhere _ _ rfl fun he => hs ((feedId_eq_iff _ _ _ _).mp he.symm)
  | createOraclePriceAccount => exact helsewhere _ _ rfl (feedId_ne_price _ _ _ _)
  | currentTick s ids instruction current reports =>
    have hnoted : noted priceSourceId windowDuration w ids instruction history = history := by
      rcases reports with ⟨price, rfl⟩ | ⟨price, rfl⟩ <;> rfl
    rw [hnoted]
    exact helsewhere _ _ rfl fun he => by cases he
  | publishIdle => exact h
  | publishPrice => exact helsewhere _ _ rfl (feedId_ne_price _ _ _ _)
  | recordIdle s d now observations current hread hcurrent hnow hrecorded =>
    by_cases hs : s = priceSourceId ∧ d = windowDuration
    · obtain ⟨rfl, rfl⟩ := hs
      rw [noted_recorded _ _ _ _ now current _ ((clockAt_eq_some w now).mpr hnow)
        ((currentAt_eq_some w s current).mpr hcurrent)]
      cases history with
      | none => exact h
      | some history =>
        obtain ⟨log, stored, last, now', k⟩ := h
        have hstored := (owned_eq_some _ _ _ _).mp ((feedAt_eq_some _ _ w stored).mp k.stored)
        have hsame : observations = stored :=
          Data.priceObservations.inj (hread.symm.trans hstored.2)
        have htime : now' = now :=
          Option.some.inj (k.clock.symm.trans ((clockAt_eq_some w now).mpr hnow))
        subst hsame htime
        exact k.recorded _ _ w w history log _ last _ current.tick none hrecorded k.stored k.clock
    · rw [noted_other_recorded _ _ _ _ _ _ _ hs]
      exact h
  | recordTick s d now observations observations' current hread hcurrent hnow hrecorded hwrite =>
    by_cases hs : s = priceSourceId ∧ d = windowDuration
    · obtain ⟨rfl, rfl⟩ := hs
      rw [noted_recorded _ _ _ _ now current _ ((clockAt_eq_some w now).mpr hnow)
        ((currentAt_eq_some w s current).mpr hcurrent)]
      cases history with
      | none =>
        have hnone : owned twapOracleProgramId w (feedId s d) = none := h
        have hown : (w (feedId s d)).programOwner ≠ twapOracleProgramId := by
          intro he
          rw [owned, if_pos he] at hnone
          cases hnone
        rcases hwrite with hsame | howner | hunowned
        · have hkept : put twapOracleProgramId w (feedId s d) (.priceObservations observations')
              (feedId s d) = w (feedId s d) := by
            rw [put_same]
            exact (congrArg _ hsame).trans (writeData_same _ _)
          exact (owned_congr _ _ _ _ hkept).trans hnone
        · exact absurd howner hown
        · have hempty := hbare _ hunowned
          rw [hread] at hempty
          cases hempty
      | some history =>
        obtain ⟨log, stored, last, now', k⟩ := h
        have hstored := (owned_eq_some _ _ _ _).mp ((feedAt_eq_some _ _ w stored).mp k.stored)
        have hsame : observations = stored :=
          Data.priceObservations.inj (hread.symm.trans hstored.2)
        have htime : now' = now :=
          Option.some.inj (k.clock.symm.trans ((clockAt_eq_some w now).mpr hnow))
        subst hsame htime
        refine k.recorded _ _ w _ history log _ last _ current.tick (some observations') hrecorded
          ?_ (hclock.trans k.clock)
        rw [feedAt_eq_some]
        exact (congrFun (owned_put _ _ (feedId s d) _ (Or.inl hstored.1)) _).trans
          (Function.update_self ..)
    · rw [noted_other_recorded _ _ _ _ _ _ _ hs]
      exact helsewhere _ _ rfl fun he => hs ((feedId_eq_iff _ _ _ _).mp he.symm)

theorem Reached.feed (tickMath : TickMath) (history : Option History) (w : Accounts)
    (h : Reached priceSourceId windowDuration tickMath history w) :
    Bare w ∧ Feed priceSourceId windowDuration w history := by
  induction h with
  | start w bare unused => exact ⟨bare, unused⟩
  | elsewhere history w w' _ bare kept clock ih =>
    exact ⟨bare, ih.2.congr _ _ w w' history (congrFun kept _) clock⟩
  | called history w w' authority ids instruction _ success ih =>
    have step := call_step tickMath w w' authority ids instruction success
    exact ⟨ih.1.frame twapOracleProgramId w w'
        (call_frame tickMath w w' authority ids instruction success) (by decide),
      ih.2.step _ _ tickMath authority ids w w' instruction history ih.1 step⟩

end

def clockWorld (now : U64) : Accounts :=
  fun id => if id = clock01ProgramAccountId then ⟨.key 6, 0, .clock now, 0⟩ else default

def atTime (w : Accounts) (now : U64) : Accounts :=
  Function.update w clock01ProgramAccountId ⟨.key 6, 0, .clock now, 0⟩

def called (tickMath : TickMath) (w : Accounts) (authority ids : List AccountId)
    (instruction : Instruction) : Accounts :=
  match call tickMath w authority ids instruction with
  | .ok w' => w'
  | .error _ => w

theorem call_called (tickMath : TickMath) (w : Accounts) (authority ids : List AccountId)
    (instruction : Instruction)
    (h : (call tickMath w authority ids instruction).toBool = true) :
    call tickMath w authority ids instruction
      = .ok (called tickMath w authority ids instruction) := by
  rw [called]
  cases hc : call tickMath w authority ids instruction with
  | ok w' => rfl
  | error message =>
    rw [hc] at h
    cases h

theorem clockWorld_reached (tickMath : TickMath) (s : AccountId) (d now : U64) :
    Reached s d tickMath none (clockWorld now) := by
  refine .start _ ?_ ?_
  · intro id h
    by_cases hc : id = clock01ProgramAccountId
    · simp only [clockWorld, if_pos hc] at h
      cases h
    · simp only [clockWorld, if_neg hc]
      rfl
  · have hne : feedId s d ≠ clock01ProgramAccountId := fun he => by cases he
    rw [owned, clockWorld, if_neg hne, if_neg (by decide)]

/-- An advance of the clock leaves the rest of the world alone. -/
theorem atTime_elsewhere (w : Accounts) (now now' : U64) (hbare : Bare w)
    (howner : (w clock01ProgramAccountId).programOwner ≠ twapOracleProgramId)
    (hclock : clockAt w = some now) (hle : now.val ≤ now'.val) :
    Bare (atTime w now') ∧
      owned twapOracleProgramId (atTime w now') = owned twapOracleProgramId w ∧
      ∀ t, clockAt w = some t → ∃ t', clockAt (atTime w now') = some t' ∧ t.val ≤ t'.val := by
  refine ⟨?_, ?_, ?_⟩
  · intro id hid
    by_cases hc : id = clock01ProgramAccountId
    · subst hc
      rw [atTime, Function.update_self] at hid
      cases hid
    · rw [atTime, Function.update_of_ne hc] at hid ⊢
      exact hbare id hid
  · funext id
    by_cases hc : id = clock01ProgramAccountId
    · subst hc
      have hkey : AccountId.key 6 ≠ twapOracleProgramId := by decide
      rw [owned, owned, if_neg howner, atTime, Function.update_self, if_neg hkey]
    · exact owned_congr _ _ _ _ (Function.update_of_ne hc _ _)
  · intro t ht
    refine ⟨now', ?_, ?_⟩
    · rw [clockAt_eq_some, atTime, Function.update_self]
    · rw [← Option.some.inj (hclock.symm.trans ht)]
      exact hle

theorem atTime_reached (tickMath : TickMath) (s : AccountId) (d now now' : U64) (w : Accounts)
    (history : Option History) (h : Reached s d tickMath history w)
    (howner : (w clock01ProgramAccountId).programOwner ≠ twapOracleProgramId)
    (hclock : clockAt w = some now) (hle : now.val ≤ now'.val) :
    Reached s d tickMath history (atTime w now') := by
  obtain ⟨bare, kept, clock⟩ := atTime_elsewhere w now now' h.feed.1 howner hclock hle
  exact .elsewhere history w _ h bare kept clock

def firstSource : AccountId := .key 9

def firstWindow : U64 := ⟨2048, by norm_num⟩

def firstFeed : Accounts :=
  called tableTickMath
    (called tableTickMath
      (called tableTickMath (clockWorld ⟨1, one_lt_u64⟩) [firstSource]
        [feedId firstSource firstWindow, firstSource, clock01ProgramAccountId]
        (.createPriceObservations ⟨0, zero_mem_i32⟩ firstWindow)) [firstSource]
      [computeCurrentTickAccountPda twapOracleProgramId firstSource, firstSource,
        clock01ProgramAccountId] (.createCurrentTickAccount ⟨2 ^ 64, two_pow_64_lt_u128⟩)) [firstSource]
    [computeOraclePriceAccountPda twapOracleProgramId firstSource firstWindow, firstSource,
      clock01ProgramAccountId]
    (.createOraclePriceAccount (.key 10) (.key 11) ⟨1, one_lt_u128⟩ firstWindow)

example : (feedAt firstSource firstWindow firstFeed).isSome = true := by decide +kernel

theorem firstFeed_reached : Reached firstSource firstWindow tableTickMath
    (some ⟨⟨0, by norm_num⟩, ⟨1, by norm_num⟩, []⟩) firstFeed := by
  have h1 := Reached.called none _ _ _ _ _ (clockWorld_reached tableTickMath firstSource firstWindow
    ⟨1, by norm_num⟩) (call_called tableTickMath (clockWorld ⟨1, by norm_num⟩) [firstSource]
      [feedId firstSource firstWindow, firstSource, clock01ProgramAccountId]
      (.createPriceObservations ⟨0, by norm_num⟩ firstWindow) (by decide +kernel))
  have h2 := Reached.called _ _ _ _ _ _ h1 (call_called tableTickMath _ [firstSource]
    [computeCurrentTickAccountPda twapOracleProgramId firstSource, firstSource,
      clock01ProgramAccountId] (.createCurrentTickAccount ⟨2 ^ 64, by norm_num⟩)
    (by decide +kernel))
  exact Reached.called _ _ _ _ _ _ h2 (call_called tableTickMath _ [firstSource]
    [computeOraclePriceAccountPda twapOracleProgramId firstSource firstWindow, firstSource,
      clock01ProgramAccountId]
    (.createOraclePriceAccount (.key 10) (.key 11) ⟨1, by norm_num⟩ firstWindow)
    (by decide +kernel))

def laterFeed : Accounts := atTime firstFeed ⟨2, by norm_num⟩

def recordIds : List AccountId :=
  [feedId firstSource firstWindow, computeCurrentTickAccountPda twapOracleProgramId firstSource,
    clock01ProgramAccountId]

def quietFeed : Accounts :=
  called tableTickMath laterFeed [] recordIds (.recordTick firstSource firstWindow)

def movedFeed : Accounts :=
  called tableTickMath
    (called tableTickMath laterFeed [firstSource]
      [computeCurrentTickAccountPda twapOracleProgramId firstSource, firstSource,
        clock01ProgramAccountId] (.updateCurrentTick ⟨2 ^ 66, two_pow_66_lt_u128⟩)) [] recordIds
    (.recordTick firstSource firstWindow)

theorem laterFeed_reached : Reached firstSource firstWindow tableTickMath
    (some ⟨⟨0, by norm_num⟩, ⟨1, by norm_num⟩, []⟩) laterFeed :=
  atTime_reached tableTickMath firstSource firstWindow ⟨1, by norm_num⟩ ⟨2, by norm_num⟩ _ _
    firstFeed_reached (by decide +kernel) (by decide +kernel) (by decide)

theorem quietFeed_reached : Reached firstSource firstWindow tableTickMath
    (some ⟨⟨0, by norm_num⟩, ⟨1, by norm_num⟩, [⟨⟨2, by norm_num⟩, ⟨0, by norm_num⟩⟩]⟩)
    quietFeed := by
  have h := Reached.called _ _ _ _ _ _ laterFeed_reached (call_called tableTickMath laterFeed []
    recordIds (.recordTick firstSource firstWindow) (by decide +kernel))
  rw [noted_recorded firstSource firstWindow laterFeed recordIds ⟨2, by norm_num⟩
    ⟨⟨0, by norm_num⟩, ⟨1, by norm_num⟩⟩ _ (by decide +kernel) (by decide +kernel)] at h
  exact h

theorem movedFeed_reached : Reached firstSource firstWindow tableTickMath
    (some ⟨⟨0, by norm_num⟩, ⟨1, by norm_num⟩, [⟨⟨2, by norm_num⟩, ⟨13863, by norm_num⟩⟩]⟩)
    movedFeed := by
  have h1 := Reached.called _ _ _ _ _ _ laterFeed_reached (call_called tableTickMath laterFeed
    [firstSource] [computeCurrentTickAccountPda twapOracleProgramId firstSource, firstSource,
      clock01ProgramAccountId] (.updateCurrentTick ⟨2 ^ 66, by norm_num⟩) (by decide +kernel))
  have h2 := Reached.called _ _ _ _ _ _ h1 (call_called tableTickMath _ [] recordIds
    (.recordTick firstSource firstWindow) (by decide +kernel))
  rw [noted_recorded firstSource firstWindow _ recordIds ⟨2, by norm_num⟩
    ⟨⟨13863, by norm_num⟩, ⟨2, by norm_num⟩⟩ _ (by decide +kernel) (by decide +kernel)] at h2
  exact h2

/-- The stored observations are the ring buffer of the log of the run: a log that never forgets
gives the same window and the same newest observation, and its observations are spaced. -/
theorem observations_refine_log (priceSourceId : AccountId) (windowDuration : U64)
    (tickMath : TickMath) (history : History) (w : Accounts)
    (h : Reached priceSourceId windowDuration tickMath (some history) w) :
    ∃ observations log, feedAt priceSourceId windowDuration w = some observations ∧
      history.log windowDuration = .ok log ∧
      observations.entries.length = observationsCapacity ∧
      observations.totalEntries.val = log.length ∧
      observations.writeIndex.val = observations.totalEntries.val % observationsCapacity ∧
      RingBuffer.contents observationsCapacity observations.entries observations.totalEntries.val
        = (RingBuffer.latest observationsCapacity (log.map Recorded.entry)).map some ∧
      0 < (minInterval windowDuration).val ∧
      (RingBuffer.latest observationsCapacity (log.map Recorded.entry)).IsChain
        (fun a b => a.timestamp.val + (minInterval windowDuration).val ≤ b.timestamp.val) ∧
      windowStartObservation observations
        = (RingBuffer.latest observationsCapacity (log.map Recorded.entry)).head? ∧
      newestObservation observations
        = (RingBuffer.latest observationsCapacity (log.map Recorded.entry)).getLast? := by
  obtain ⟨-, log, observations, last, now, k⟩ := h.feed
  have s := k.stores
  have hchain := (history.log_chained windowDuration log k.replayed).chain
  have hlast : ((log.map Recorded.entry).drop
      ((log.map Recorded.entry).length - observationsCapacity)).getLast?
        = (log.map Recorded.entry).getLast? := by
    have hcapacity := capacity_pos
    have hpos := List.length_pos_iff.mpr s.nonempty
    rw [List.getLast?_drop, if_neg (by rw [List.length_map]; omega)]
  refine ⟨observations, log, k.stored, k.replayed, s.ring.slots, s.totalEntries,
    by rw [s.writeIndex, s.totalEntries], ?_, minInterval_pos windowDuration, ?_, s.windowStart, ?_⟩
  · have hcontents := s.ring.contents_eq
    rwa [List.length_map, ← s.totalEntries] at hcontents
  · rw [RingBuffer.latest]
    apply List.IsChain.drop
    rw [List.isChain_map]
    exact hchain.imp fun a b hab => hab.spaced
  · rw [s.newest, RingBuffer.latest, hlast]

theorem moved_feed_refines_log : ∃ (observations : PriceObservations) (log : List Recorded),
    feedAt firstSource firstWindow movedFeed = some observations ∧
      observations.totalEntries.val = log.length ∧
      RingBuffer.contents observationsCapacity observations.entries observations.totalEntries.val
        = (RingBuffer.latest observationsCapacity (log.map Recorded.entry)).map some := by
  obtain ⟨observations, log, h1, -, -, h2, -, h3, -⟩ := observations_refine_log firstSource
    firstWindow tableTickMath _ movedFeed movedFeed_reached
  exact ⟨observations, log, h1, h2, h3⟩

end LezPrograms.TwapOracle
