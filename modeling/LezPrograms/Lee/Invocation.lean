import LezPrograms.Amm.Step
import LezPrograms.Lee.Ownership
import LezPrograms.Stablecoin.Step
import LezPrograms.Token.Effects
import Mathlib.Logic.Relation

/-! # Invocations as sequences of executions

The calls that the programs chain end in executions of the token program or of
the oracle, which chain nothing further. An event is therefore a short sequence
of executions, of which a given program sees its own and foreign ones. -/

set_option autoImplicit false

namespace LezPrograms.Lee
open LezPrograms.Checked

inductive Leaf (authority : List AccountId) (w : Accounts) (call : ChainedCall) (w' : Accounts) :
    Prop
  | token (instruction : Token.Instruction AccountId) (called : call.instruction = .token instruction)
      (program : call.programId = tokenProgramId)
      (transition : Token.Transition authority call.accountIds instruction w w')
  | oracle (instruction : TwapOracle.Instruction)
      (called : call.instruction = .twapOracle instruction)
      (frame : Frame twapOracleProgramId w w')

def ChainedCall.IsLeaf (call : ChainedCall) : Prop :=
  (∃ i, call.instruction = .token i) ∨ (∃ i, call.instruction = .twapOracle i)

theorem execute_token (tickMath : TwapOracle.TickMath) (now : U64) (w w' : Accounts)
    (authority : List AccountId) (call : ChainedCall) (calls : List ChainedCall)
    (instruction : Token.Instruction AccountId) (hi : call.instruction = .token instruction)
    (h : execute call.programId w authority call.accountIds
      (dispatch tickMath now call.programId call.instruction) = .ok (w', calls)) :
    call.programId = tokenProgramId ∧ calls = [] ∧
      Token.Transition authority call.accountIds instruction w w' := by
  have hframe := execute_frame _ _ _ _ _ _ _ h
  obtain ⟨hn, diffs, hh, ha⟩ := (execute_eq_ok _ _ _ _ _ _ _).mp h
  simp only [hi, dispatch, bind_eq_ok, ensure_eq_ok, exists_const, pure_eq_ok, Prod.mk.injEq] at hh
  obtain ⟨hp, diffs', hmain, rfl, rfl⟩ := hh
  rw [hp] at hframe hmain ha
  exact ⟨hp, rfl, Token.step_of_main _ _ _ _ _ _ _ hn hmain ha, hframe⟩

theorem execute_oracle (tickMath : TwapOracle.TickMath) (now : U64) (w w' : Accounts)
    (authority : List AccountId) (call : ChainedCall) (calls : List ChainedCall)
    (instruction : TwapOracle.Instruction) (hi : call.instruction = .twapOracle instruction)
    (h : execute call.programId w authority call.accountIds
      (dispatch tickMath now call.programId call.instruction) = .ok (w', calls)) :
    calls = [] ∧ Frame twapOracleProgramId w w' := by
  have hframe := execute_frame _ _ _ _ _ _ _ h
  obtain ⟨hn, diffs, hh, ha⟩ := (execute_eq_ok _ _ _ _ _ _ _).mp h
  simp only [hi, dispatch, bind_eq_ok, ensure_eq_ok, exists_const, pure_eq_ok, Prod.mk.injEq] at hh
  obtain ⟨hp, diffs', hmain, rfl, rfl⟩ := hh
  rw [hp] at hframe
  exact ⟨rfl, hframe⟩

theorem invoke_leaf (tickMath : TwapOracle.TickMath) (depth : ℕ) (w w' : Accounts)
    (authority : List AccountId) (call : ChainedCall) (hl : call.IsLeaf)
    (h : invoke tickMath depth w authority call = .ok w') : Leaf authority w call w' := by
  cases depth with
  | zero => exact absurd h (error_ne_ok _ _)
  | succ depth =>
    simp only [invoke, bind_eq_ok, Prod.exists] at h
    obtain ⟨v, calls, hv, h⟩ := h
    rcases hl with ⟨i, hi⟩ | ⟨i, hi⟩
    · obtain ⟨hp, rfl, ht⟩ := execute_token _ _ _ _ _ _ _ i hi hv
      rw [List.foldlM_nil, pure_eq_ok] at h
      exact h ▸ .token i hi hp ht
    · obtain ⟨rfl, hf⟩ := execute_oracle _ _ _ _ _ _ _ i hi hv
      rw [List.foldlM_nil, pure_eq_ok] at h
      exact h ▸ .oracle i hi hf

inductive Settled (callerId : AccountId) (authority : List AccountId) :
    Accounts → List ChainedCall → Accounts → Prop
  | nil (w : Accounts) : Settled callerId authority w [] w
  | cons (w v w' : Accounts) (call : ChainedCall) (calls : List ChainedCall)
      (first : Leaf (callAuthority authority callerId call) w call v)
      (rest : Settled callerId authority v calls w') :
      Settled callerId authority w (call :: calls) w'

theorem settled_of_foldlM (tickMath : TwapOracle.TickMath) (depth : ℕ) (callerId : AccountId)
    (authority : List AccountId) (calls : List ChainedCall) (hl : ∀ call ∈ calls, call.IsLeaf)
    (w w' : Accounts)
    (h : calls.foldlM (fun w chained =>
      invoke tickMath depth w (callAuthority authority callerId chained) chained) w = .ok w') :
    Settled callerId authority w calls w' := by
  induction calls generalizing w with
  | nil =>
    rw [List.foldlM_nil, pure_eq_ok] at h
    exact h ▸ .nil w
  | cons call calls ih =>
    rw [List.foldlM_cons, bind_eq_ok] at h
    obtain ⟨v, hv, h⟩ := h
    exact .cons w v w' call calls
      (invoke_leaf tickMath depth w v _ call (hl call (List.mem_cons_self ..)) hv)
      (ih (fun c hc => hl c (List.mem_cons_of_mem _ hc)) v h)

/-- Calls of the token program leave what another program owns. -/
theorem Settled.owned_kept (program callerId : AccountId) (hne : tokenProgramId ≠ program)
    (hd : program ≠ default) (authority : List AccountId) (w w' : Accounts)
    (calls : List ChainedCall) (hl : ∀ call ∈ calls, ∃ i, call.instruction = .token i)
    (h : Settled callerId authority w calls w') : owned program w' = owned program w := by
  induction h with
  | nil w => rfl
  | cons w v w' call calls first rest ih =>
    rw [ih fun c hc => hl c (List.mem_cons_of_mem _ hc)]
    obtain ⟨i, hi⟩ := hl call (List.mem_cons_self ..)
    cases first with
    | token _ _ _ ht => exact owned_frame _ _ _ _ ht.frame hne hd
    | oracle _ hi' => rw [hi] at hi'; cases hi'

theorem called_token (program : AccountId) (ids : List AccountId)
    (instruction : Token.Instruction AccountId) (seeds : List PdaSeed) :
    ∃ i, ((ChainedCall.new program ids (.token instruction)).withPdaSeeds seeds).instruction
      = .token i := ⟨instruction, rfl⟩

theorem isLeaf_token (program : AccountId) (ids : List AccountId)
    (instruction : Token.Instruction AccountId) (seeds : List PdaSeed) :
    ((ChainedCall.new program ids (.token instruction)).withPdaSeeds seeds).IsLeaf :=
  Or.inl ⟨instruction, rfl⟩

theorem isLeaf_oracle (program : AccountId) (ids : List AccountId)
    (instruction : TwapOracle.Instruction) (seeds : List PdaSeed) :
    ((ChainedCall.new program ids (.twapOracle instruction)).withPdaSeeds seeds).IsLeaf :=
  Or.inr ⟨instruction, rfl⟩

theorem surplusCalls_token (tokenProgram definitionId self : AccountId) (fees : U128)
    (call : ChainedCall)
    (h : call ∈ Stablecoin.surplusCalls tokenProgram definitionId self fees) :
    ∃ i, call.instruction = .token i := by
  unfold Stablecoin.surplusCalls at h
  split at h
  · rw [List.mem_singleton.mp h]
    exact called_token _ _ _ _
  · cases h

/-- The stablecoin program chains calls of the token program only. -/
theorem stablecoin_token (self : AccountId) (w w' : Accounts) (authority ids : List AccountId)
    (instruction : Stablecoin.Instruction) (calls : List ChainedCall)
    (h : Stablecoin.Step self w authority ids instruction w' calls) :
    ∀ call ∈ calls, ∃ i, call.instruction = .token i := by
  intro call hc
  cases h with
  | initializeProgram => exact List.mem_singleton.mp hc ▸ called_token _ _ _ _
  | accrueStabilityFee => exact surplusCalls_token _ _ _ _ _ hc
  | refreshFee => exact surplusCalls_token _ _ _ _ _ hc
  | refreshBoth => exact surplusCalls_token _ _ _ _ _ hc
  | setStabilityFeePerMillisecond => exact surplusCalls_token _ _ _ _ _ hc
  | updateRedemptionRate => cases hc
  | resetRedemptionRateController => cases hc
  | closePosition => cases hc
  | setParameters => cases hc
  | openPosition =>
    rcases List.mem_cons.mp hc with rfl | hc
    · exact called_token _ _ _ _
    · exact List.mem_singleton.mp hc ▸ called_token _ _ _ []
  | depositCollateral => exact List.mem_singleton.mp hc ▸ called_token _ _ _ []
  | withdrawCollateral => exact List.mem_singleton.mp hc ▸ called_token _ _ _ _
  | generateDebt =>
    rcases List.mem_append.mp hc with hc | hc
    · exact surplusCalls_token _ _ _ _ _ hc
    · exact List.mem_singleton.mp hc ▸ called_token _ _ _ _
  | repayDebt =>
    rcases List.mem_append.mp hc with hc | hc
    · exact surplusCalls_token _ _ _ _ _ hc
    · exact List.mem_singleton.mp hc ▸ called_token _ _ _ []

theorem stablecoin_leaf (self : AccountId) (w w' : Accounts) (authority ids : List AccountId)
    (instruction : Stablecoin.Instruction) (calls : List ChainedCall)
    (h : Stablecoin.Step self w authority ids instruction w' calls) :
    ∀ call ∈ calls, call.IsLeaf :=
  fun call hc => Or.inl (stablecoin_token self w w' authority ids instruction calls h call hc)

theorem amm_leaf (self : AccountId) (w w' : Accounts) (authority ids : List AccountId)
    (instruction : Amm.Instruction) (calls : List ChainedCall)
    (h : Amm.Step self w authority ids instruction w' calls) : ∀ call ∈ calls, call.IsLeaf := by
  intro call hc
  cases h with
  | initializeConfig => cases hc
  | updateConfig => cases hc
  | withdrawProtocolFees => exact List.mem_singleton.mp hc ▸ isLeaf_token _ _ _ _
  | syncReserves => exact List.mem_singleton.mp hc ▸ isLeaf_oracle _ _ _ _
  | newDefinition =>
    simp only [List.mem_cons, List.not_mem_nil, or_false] at hc
    rcases hc with rfl | rfl | rfl | rfl | rfl
    · exact isLeaf_token _ _ _ _
    · exact isLeaf_token _ _ _ _
    · exact isLeaf_token _ _ _ _
    · exact isLeaf_token _ _ _ _
    · exact isLeaf_oracle _ _ _ _
  | addLiquidity =>
    simp only [List.mem_cons, List.not_mem_nil, or_false] at hc
    rcases hc with rfl | rfl | rfl | rfl
    · exact isLeaf_token _ _ _ _
    · exact isLeaf_token _ _ _ _
    · exact isLeaf_token _ _ _ _
    · exact isLeaf_oracle _ _ _ _
  | removeLiquidity =>
    simp only [List.mem_cons, List.not_mem_nil, or_false] at hc
    rcases hc with rfl | rfl | rfl | rfl
    · exact isLeaf_token _ _ _ _
    · exact isLeaf_token _ _ _ _
    · exact isLeaf_token _ _ _ _
    · exact isLeaf_oracle _ _ _ _
  | swap =>
    rcases List.mem_append.mp hc with hc | hc
    · rcases List.mem_append.mp hc with hc | hc
      · simp only [List.mem_cons, List.not_mem_nil, or_false] at hc
        rcases hc with rfl | rfl
        · exact isLeaf_token _ _ _ _
        · exact isLeaf_token _ _ _ _
      · split at hc
        · exact List.mem_singleton.mp hc ▸ isLeaf_token _ _ _ _
        · cases hc
    · exact List.mem_singleton.mp hc ▸ isLeaf_oracle _ _ _ _

section
variable (tickMath : TwapOracle.TickMath) (now : U64) (w w' : Accounts)
  (authority : List AccountId) (call : ChainedCall) (calls : List ChainedCall)

theorem execute_amm (instruction : Amm.Instruction) (hi : call.instruction = .amm instruction)
    (h : execute call.programId w authority call.accountIds
      (dispatch tickMath now call.programId call.instruction) = .ok (w', calls)) :
    call.programId = ammProgramId ∧ call.accountIds.Nodup ∧
      Amm.Step ammProgramId w authority call.accountIds instruction w' calls ∧
      Frame ammProgramId w w' := by
  have hframe := execute_frame _ _ _ _ _ _ _ h
  obtain ⟨hn, diffs, hh, ha⟩ := (execute_eq_ok _ _ _ _ _ _ _).mp h
  simp only [hi, dispatch, bind_eq_ok, ensure_eq_ok, exists_const] at hh
  obtain ⟨hp, hmain⟩ := hh
  rw [hp] at hframe hmain ha
  exact ⟨hp, hn, Amm.step_of_main _ _ _ _ _ _ _ _ _ hmain ha, hframe⟩

theorem execute_stablecoin (instruction : Stablecoin.Instruction)
    (hi : call.instruction = .stablecoin instruction)
    (h : execute call.programId w authority call.accountIds
      (dispatch tickMath now call.programId call.instruction) = .ok (w', calls)) :
    call.programId = stablecoinProgramId ∧ call.accountIds.Nodup ∧
      Stablecoin.Step stablecoinProgramId w authority call.accountIds instruction w' calls ∧
      Frame stablecoinProgramId w w' := by
  have hframe := execute_frame _ _ _ _ _ _ _ h
  obtain ⟨hn, diffs, hh, ha⟩ := (execute_eq_ok _ _ _ _ _ _ _).mp h
  simp only [hi, dispatch, bind_eq_ok, ensure_eq_ok, exists_const] at hh
  obtain ⟨hp, hmain⟩ := hh
  rw [hp] at hframe hmain ha
  exact ⟨hp, hn, Stablecoin.step_of_main _ _ _ _ _ _ _ _ hmain ha, hframe⟩

end

inductive Performed (authority : List AccountId) (w : Accounts) (call : ChainedCall)
    (w' : Accounts) : Prop
  | token (instruction : Token.Instruction AccountId)
      (called : call.instruction = .token instruction)
      (transition : Token.Transition authority call.accountIds instruction w w')
  | oracle (instruction : TwapOracle.Instruction)
      (called : call.instruction = .twapOracle instruction)
      (frame : Frame twapOracleProgramId w w')
  | amm (instruction : Amm.Instruction) (v : Accounts) (calls : List ChainedCall)
      (called : call.instruction = .amm instruction) (distinct : call.accountIds.Nodup)
      (step : Amm.Step ammProgramId w authority call.accountIds instruction v calls)
      (frame : Frame ammProgramId w v) (settled : Settled ammProgramId authority v calls w')
  | stablecoin (instruction : Stablecoin.Instruction) (v : Accounts) (calls : List ChainedCall)
      (called : call.instruction = .stablecoin instruction) (distinct : call.accountIds.Nodup)
      (step : Stablecoin.Step stablecoinProgramId w authority call.accountIds instruction v calls)
      (frame : Frame stablecoinProgramId w v)
      (settled : Settled stablecoinProgramId authority v calls w')

theorem invoke_performed (tickMath : TwapOracle.TickMath) (depth : ℕ) (w w' : Accounts)
    (authority : List AccountId) (call : ChainedCall)
    (h : invoke tickMath depth w authority call = .ok w') : Performed authority w call w' := by
  cases depth with
  | zero => exact absurd h (error_ne_ok _ _)
  | succ depth =>
    cases hi : call.instruction with
    | token i =>
      cases invoke_leaf tickMath _ w w' authority call (Or.inl ⟨i, hi⟩) h with
      | token i' hi' _ ht => exact .token i' hi' ht
      | oracle i' hi' _ => rw [hi] at hi'; cases hi'
    | twapOracle i =>
      cases invoke_leaf tickMath _ w w' authority call (Or.inr ⟨i, hi⟩) h with
      | token i' hi' _ _ => rw [hi] at hi'; cases hi'
      | oracle i' hi' hf => exact .oracle i' hi' hf
    | amm i =>
      simp only [invoke, bind_eq_ok, Prod.exists] at h
      obtain ⟨v, calls, hv, h⟩ := h
      obtain ⟨hp, hn, hstep, hframe⟩ := execute_amm _ _ _ _ _ _ _ i hi hv
      rw [hp] at h
      exact .amm i v calls hi hn hstep hframe
        (settled_of_foldlM tickMath depth _ authority calls (amm_leaf _ _ _ _ _ _ _ hstep) v w' h)
    | stablecoin i =>
      simp only [invoke, bind_eq_ok, Prod.exists] at h
      obtain ⟨v, calls, hv, h⟩ := h
      obtain ⟨hp, hn, hstep, hframe⟩ := execute_stablecoin _ _ _ _ _ _ _ i hi hv
      rw [hp] at h
      exact .stablecoin i v calls hi hn hstep hframe
        (settled_of_foldlM tickMath depth _ authority calls (stablecoin_leaf _ _ _ _ _ _ _ hstep)
          v w' h)

/-- A change of the world that `program` takes no part in. -/
inductive Foreign (program : AccountId) (w w' : Accounts) : Prop
  | token (authority ids : List AccountId) (instruction : Token.Instruction AccountId)
      (outside : Outside program authority)
      (transition : Token.Transition authority ids instruction w w')
  | frame (other : AccountId) (foreign : other ≠ program) (bare : other ≠ tokenProgramId)
      (frame : Frame other w w')
  | environment (change : Accounts)
      (eq : w' = fun id => environmentAccount (w id) (change id))

abbrev Elsewhere (program : AccountId) : Accounts → Accounts → Prop :=
  Relation.ReflTransGen (Foreign program)

theorem elsewhere_preserves (program : AccountId) (Inv : Accounts → Prop)
    (step : ∀ w w', Inv w → Foreign program w w' → Inv w') (w w' : Accounts)
    (h : Elsewhere program w w') (hw : Inv w) : Inv w' := by
  induction h with
  | refl => exact hw
  | tail _ hs ih => exact step _ _ ih hs

theorem Leaf.foreign (program : AccountId) (authority : List AccountId) (w w' : Accounts)
    (call : ChainedCall) (ho : Outside program authority) (hp : program ≠ twapOracleProgramId)
    (h : Leaf authority w call w') : Foreign program w w' := by
  cases h with
  | token instruction _ _ ht => exact .token authority call.accountIds instruction ho ht
  | oracle _ _ hf => exact .frame twapOracleProgramId hp.symm (by decide) hf

theorem Settled.elsewhere (program callerId : AccountId) (authority : List AccountId)
    (w w' : Accounts) (calls : List ChainedCall) (ho : Outside program authority)
    (hp : program ≠ twapOracleProgramId) (hc : callerId ≠ program)
    (h : Settled callerId authority w calls w') : Elsewhere program w w' := by
  induction h with
  | nil w => exact .refl
  | cons w v w' call calls first rest ih =>
    exact .head (first.foreign program _ _ _ _ (outside_callAuthority _ _ _ _ ho hc) hp) ih

theorem Performed.elsewhere (program : AccountId) (authority : List AccountId) (w w' : Accounts)
    (call : ChainedCall) (ho : Outside program authority) (hp : program ≠ twapOracleProgramId)
    (hamm : ∀ i, call.instruction = .amm i → ammProgramId ≠ program)
    (hstablecoin : ∀ i, call.instruction = .stablecoin i → stablecoinProgramId ≠ program)
    (h : Performed authority w call w') : Elsewhere program w w' := by
  cases h with
  | token i _ ht => exact .single (.token authority call.accountIds i ho ht)
  | oracle _ _ hf => exact .single (.frame twapOracleProgramId hp.symm (by decide) hf)
  | amm i v calls hi _ _ hf hs =>
    exact .head (.frame ammProgramId (hamm i hi) (by decide) hf)
      (hs.elsewhere program _ _ _ _ _ ho hp (hamm i hi))
  | stablecoin i v calls hi _ _ hf hs =>
    exact .head (.frame stablecoinProgramId (hstablecoin i hi) (by decide) hf)
      (hs.elsewhere program _ _ _ _ _ ho hp (hstablecoin i hi))

theorem transact_performed (platform : Platform) (w w' : Accounts) (authority : List AccountId)
    (call : ChainedCall) (h : transact platform w authority call = .ok w') :
    (∀ program ∈ deployedPrograms, Outside program authority) ∧ Performed authority w call w' := by
  simp only [transact, bind_eq_ok, ensure_eq_ok, exists_const] at h
  exact ⟨fun program hp id hid => h.1 id hid program hp, invoke_performed _ _ _ _ _ _ h.2⟩

/-- An event is a change elsewhere unless it is a transaction that invokes `program`. -/
theorem Event.elsewhere (platform : Platform) (program : AccountId) (w : Accounts) (event : Event)
    (hp : program ∈ deployedPrograms)
    (hamm : ∀ authority call i, event = .transaction authority call →
      call.instruction = .amm i → ammProgramId ≠ program)
    (hstablecoin : ∀ authority call i, event = .transaction authority call →
      call.instruction = .stablecoin i → stablecoinProgramId ≠ program) :
    Elsewhere program w (event.apply platform w) := by
  have ht : program ≠ twapOracleProgramId := by
    rintro rfl
    revert hp
    decide
  cases event with
  | environment change => exact .single (.environment change rfl)
  | transaction authority call =>
    rw [Event.apply]
    split
    · rename_i w' h
      obtain ⟨ho, hperf⟩ := transact_performed platform w w' authority call h
      exact hperf.elsewhere program authority w w' call (ho program hp) ht
        (fun i hi => hamm authority call i rfl hi) (fun i hi => hstablecoin authority call i rfl hi)
    · exact .refl

section
variable (Inv : Accounts → Prop)
  (token : ∀ authority ids instruction w w',
    Token.Transition authority ids instruction w w' → Inv w → Inv w')
  (other : ∀ program w w', program ≠ tokenProgramId → program ≠ default → Frame program w w' →
    Inv w → Inv w')
include token other

theorem Settled.preserves (callerId : AccountId) (authority : List AccountId) (w w' : Accounts)
    (calls : List ChainedCall) (h : Settled callerId authority w calls w') (hw : Inv w) :
    Inv w' := by
  induction h with
  | nil w => exact hw
  | cons w v w' call calls first rest ih =>
    apply ih
    cases first with
    | token i _ _ ht => exact token _ _ _ _ _ ht hw
    | oracle i _ hf => exact other _ _ _ (by decide) (by decide) hf hw

theorem Performed.preserves (authority : List AccountId) (w w' : Accounts) (call : ChainedCall)
    (h : Performed authority w call w') (hw : Inv w) : Inv w' := by
  cases h with
  | token i _ ht => exact token _ _ _ _ _ ht hw
  | oracle i _ hf => exact other _ _ _ (by decide) (by decide) hf hw
  | amm i v calls _ _ _ hf hs =>
    exact hs.preserves Inv token other _ _ _ _ _ (other _ _ _ (by decide) (by decide) hf hw)
  | stablecoin i v calls _ _ _ hf hs =>
    exact hs.preserves Inv token other _ _ _ _ _ (other _ _ _ (by decide) (by decide) hf hw)

/-- What token instructions, other programs and the environment keep, every event keeps. -/
theorem Event.preserves
    (environment : ∀ w (change : Accounts), Inv w →
      Inv fun id => environmentAccount (w id) (change id))
    (platform : Platform) (w : Accounts) (event : Event) (hw : Inv w) :
    Inv (event.apply platform w) := by
  cases event with
  | environment change => exact environment w change hw
  | transaction authority call =>
    rw [Event.apply]
    split
    · rename_i w' h
      exact (transact_performed platform w w' authority call h).2.preserves Inv token other _ _ _ _
        hw
    · exact hw

end

end LezPrograms.Lee
