import LezPrograms.TwapOracle.Step

/-! # What an account of the oracle is about

Only its price source creates a feed or a price account, once. Afterwards no instruction
changes the source of either, nor the two assets of a price account. -/

set_option autoImplicit false

namespace LezPrograms.TwapOracle
open LezPrograms.Checked LezPrograms.Lee

def subject : Data → Option (AccountId × Option (AccountId × AccountId))
  | .oraclePrice account => some (account.sourceId, some (account.baseAsset, account.quoteAsset))
  | .priceObservations observations => some (observations.priceSourceId, none)
  | _ => none

inductive Created (program s : AccountId) (windowDuration now : U64) :
    Instruction → AccountId → Data → Prop
  | priceObservations (initialTick : I32) :
      Created program s windowDuration now (.createPriceObservations initialTick windowDuration)
        (computePriceObservationsPda program s windowDuration)
        (.priceObservations (initialObservations s initialTick now))
  | oraclePriceAccount (baseAsset quoteAsset : AccountId) (initialPrice : U128)
      (priced : initialPrice.val ≠ 0) (timed : now.val ≠ 0) :
      Created program s windowDuration now
        (.createOraclePriceAccount baseAsset quoteAsset initialPrice windowDuration)
        (computeOraclePriceAccountPda program s windowDuration)
        (.oraclePrice ⟨baseAsset, quoteAsset, initialPrice, now, s, Unsigned.zero 128⟩)

inductive Creating : Instruction → Prop
  | priceObservations (initialTick : I32) (windowDuration : U64) :
      Creating (.createPriceObservations initialTick windowDuration)
  | oraclePriceAccount (baseAsset quoteAsset : AccountId) (initialPrice : U128)
      (windowDuration : U64) :
      Creating (.createOraclePriceAccount baseAsset quoteAsset initialPrice windowDuration)

structure Creation (program : AccountId) (authority : List AccountId) (w : Accounts)
    (s id : AccountId) (windowDuration now : U64) (instruction : Instruction) (data : Data) : Prop where
  authorized : s ∈ authority
  fresh : w id = default
  wide : observationsCapacity ≤ windowDuration.val
  clock : (w clock01ProgramAccountId).data = .clock now
  created : Created program s windowDuration now instruction id data

inductive Effect (program : AccountId) (authority : List AccountId) (w : Accounts) :
    Instruction → Accounts → Prop
  | idle (instruction : Instruction) : Effect program authority w instruction w
  | created (s id : AccountId) (windowDuration now : U64) (instruction : Instruction) (data : Data)
      (creation : Creation program authority w s id windowDuration now instruction data) :
      Effect program authority w instruction (put program w id data)
  | reported (s : AccountId) (instruction : Instruction) (current : CurrentTickAccount) :
      Effect program authority w instruction
        (put program w (computeCurrentTickAccountPda program s) (.currentTick current))
  | updated (id : AccountId) (instruction : Instruction) (data : Data)
      (same : subject data = subject (w id).data) (known : subject (w id).data ≠ none) :
      Effect program authority w instruction (put program w id data)

theorem recordObservation_source (observations observations' : PriceObservations) (tick : I32)
    (now windowDuration : U64)
    (h : recordObservation observations tick now windowDuration = .ok (some observations')) :
    observations'.priceSourceId = observations.priceSourceId := by
  simp only [recordObservation, bind_eq_ok] at h
  obtain ⟨last, -, next, -, h⟩ := h
  cases next with
  | none => cases h
  | some entry =>
    simp only [bind_eq_ok, pure_eq_ok, Option.some.injEq] at h
    obtain ⟨-, -, _, -, _, -, rfl⟩ := h
    rfl

section
variable (tickMath : TickMath) (program : AccountId) (authority : List AccountId) (w w' : Accounts)
  (ids : List AccountId) (instruction : Instruction) (diffs : List StateDiff)

theorem creation_of_main (hi : Creating instruction)
    (h : main tickMath program (ids.map (view w authority)) instruction = .ok diffs)
    (ha : applyDiffs program w diffs = .ok w') :
    ∃ s id windowDuration now data, ids = [id, s, clock01ProgramAccountId] ∧
      Creation program authority w s id windowDuration now instruction data ∧
      w' = put program w id data := by
  rcases ids with _ | ⟨p, _ | ⟨s, _ | ⟨c, _ | ⟨x, ids⟩⟩⟩⟩
  · cases hi <;> exact absurd h (error_ne_ok _ _)
  · cases hi <;> exact absurd h (error_ne_ok _ _)
  · cases hi <;> exact absurd h (error_ne_ok _ _)
  · cases hi with
    | priceObservations initialTick windowDuration =>
      simp only [main, List.map_cons, List.map_nil, createPriceObservations, bind_eq_ok,
        ensure_eq_ok, exists_const, pure_eq_ok, clockTimestamp_eq_ok] at h
      simp only [view_account, view_isAuthorized, view_accountId] at h
      obtain ⟨rfl, hfresh, hauth, rfl, hwide, now, hclock, rfl⟩ := h
      simp only [applyDiffs_new, applyDiffs_unchanged, view_accountId, applyDiffs_nil,
        Except.ok.injEq] at ha
      exact ⟨s, _, windowDuration, now, _, rfl,
        ⟨hauth, hfresh, hwide, hclock, .priceObservations initialTick⟩, ha.2.symm⟩
    | oraclePriceAccount baseAsset quoteAsset initialPrice windowDuration =>
      simp only [main, List.map_cons, List.map_nil, createOraclePriceAccount, bind_eq_ok,
        ensure_eq_ok, exists_const, pure_eq_ok, clockTimestamp_eq_ok] at h
      simp only [view_account, view_isAuthorized, view_accountId] at h
      obtain ⟨rfl, hfresh, hauth, rfl, hwide, now, hclock, hprice, htime, rfl⟩ := h
      simp only [applyDiffs_new, applyDiffs_unchanged, view_accountId, applyDiffs_nil,
        Except.ok.injEq] at ha
      exact ⟨s, _, windowDuration, now, _, rfl, ⟨hauth, hfresh, hwide, hclock,
        .oraclePriceAccount baseAsset quoteAsset initialPrice hprice htime⟩, ha.2.symm⟩
  · cases hi <;> exact absurd h (error_ne_ok _ _)

theorem Step.effect (hi : ¬Creating instruction)
    (h : Step tickMath program authority w ids instruction w') :
    Effect program authority w instruction w' := by
  cases h with
  | createPriceObservations => exact absurd (.priceObservations _ _) hi
  | createOraclePriceAccount => exact absurd (.oraclePriceAccount _ _ _ _) hi
  | currentTick s _ _ current => exact .reported s _ current
  | publishIdle => exact .idle _
  | publishPrice s windowDuration now observations account current tick price stored readCurrent
      readPrice clock many averaged converted write =>
    refine .updated _ _ _ ?_ ?_
    · rw [readPrice]
      rfl
    · rw [readPrice]
      exact Option.some_ne_none _
  | recordIdle => exact .idle _
  | recordTick s windowDuration now observations observations' current read readCurrent clock
      recorded write =>
    refine .updated _ _ _ ?_ ?_
    · rw [read, subject, subject, recordObservation_source _ _ _ _ _ recorded]
    · rw [read]
      exact Option.some_ne_none _

/-- What an execution of the oracle does to feeds and price accounts. -/
theorem effect_of_main
    (h : main tickMath program (ids.map (view w authority)) instruction = .ok diffs)
    (ha : applyDiffs program w diffs = .ok w') : Effect program authority w instruction w' := by
  by_cases hi : Creating instruction
  · obtain ⟨s, id, d, now, data, -, hcreation, rfl⟩ :=
      creation_of_main tickMath program authority w w' ids instruction diffs hi h ha
    exact .created s id d now instruction data hcreation
  · exact (step_of_main tickMath program authority w w' diffs ids instruction h ha).effect tickMath
      program authority w w' ids instruction hi

end

def IsFeedOf (program s : AccountId) (windowDuration : U64) (id : AccountId) : Prop :=
  id = computePriceObservationsPda program s windowDuration ∨
    id = computeOraclePriceAccountPda program s windowDuration

theorem Created.isFeed (program s id : AccountId) (windowDuration now : U64)
    (instruction : Instruction) (data : Data)
    (h : Created program s windowDuration now instruction id data) :
    IsFeedOf program s windowDuration id := by
  cases h with
  | priceObservations => exact Or.inl rfl
  | oraclePriceAccount => exact Or.inr rfl

theorem IsFeedOf.source_eq (program s s' id : AccountId) (d d' : U64) (h : IsFeedOf program s d id)
    (h' : IsFeedOf program s' d' id) : s' = s ∧ d' = d := by
  rcases h with rfl | rfl
  · rcases h' with h' | h'
    · have hseed := PdaSeed.account.inj (AccountId.pda.inj h').2
      exact ⟨hseed.1.symm, Fin.ext (PdaSeed.word.inj hseed.2).1.symm⟩
    · cases (PdaSeed.word.inj (PdaSeed.account.inj (AccountId.pda.inj h').2).2).2
  · rcases h' with h' | h'
    · cases (PdaSeed.word.inj (PdaSeed.account.inj (AccountId.pda.inj h').2).2).2
    · have hseed := PdaSeed.account.inj (AccountId.pda.inj h').2
      exact ⟨hseed.1.symm, Fin.ext (PdaSeed.word.inj hseed.2).1.symm⟩

theorem IsFeedOf.ne_currentTick (program s s' id : AccountId) (d : U64)
    (h : IsFeedOf program s d id) : id ≠ computeCurrentTickAccountPda program s' := by
  rintro rfl
  rcases h with h | h
  · cases (PdaSeed.account.inj (AccountId.pda.inj h).2).2
  · cases (PdaSeed.account.inj (AccountId.pda.inj h).2).2

/-- A feed or a price account is left alone, created by its source, or written without a change
of what it is about. -/
theorem Effect.feed (program s id : AccountId) (windowDuration : U64) (authority : List AccountId)
    (w w' : Accounts) (instruction : Instruction)
    (h : Effect program authority w instruction w') (hid : IsFeedOf program s windowDuration id) :
    w' id = w id ∨
      (∃ now data, Creation program authority w s id windowDuration now instruction data ∧
        w' = put program w id data) ∨
      (subject (w id).data ≠ none ∧ subject (w' id).data = subject (w id).data) := by
  cases h with
  | idle => exact Or.inl rfl
  | created s' x d now _ data creation =>
    by_cases hx : id = x
    · subst hx
      obtain ⟨rfl, rfl⟩ := hid.source_eq _ _ _ _ _ _ (creation.created.isFeed _ _ _ _ _ _ _)
      exact Or.inr (Or.inl ⟨now, data, creation, rfl⟩)
    · exact Or.inl (put_other _ _ _ _ _ hx)
  | reported s' _ current => exact Or.inl (put_other _ _ _ _ _ (hid.ne_currentTick _ _ _ _ _))
  | updated x _ data same known =>
    by_cases hx : id = x
    · subst hx
      exact Or.inr (Or.inr ⟨known, by rw [put_same, writeData_data, same]⟩)
    · exact Or.inl (put_other _ _ _ _ _ hx)

end LezPrograms.TwapOracle
