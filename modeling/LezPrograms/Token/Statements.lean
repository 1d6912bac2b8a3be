import LezPrograms.Lee.Histories
import LezPrograms.Token.Authority
import LezPrograms.Token.Flows

/-! # Statements of account

A holding keeps its token and its variant through every run, and its balance is
what it started with, with what the executions of the run credited and without
what they debited. Whatever is debited is debited with the key of the holding,
so a holding that no program derives loses nothing unless its key signs. -/

set_option autoImplicit false

namespace LezPrograms.Lee
open LezPrograms.Checked LezPrograms.Token

section
variable (tickMath : TwapOracle.TickMath) (e : Execution) (calls : List ChainedCall)
  (h : execute e.call.programId e.before e.authority e.call.accountIds
    (dispatch tickMath (blockTimestamp e.before) e.call.programId e.call.instruction)
      = .ok (e.after, calls)) (x : AccountId)
include h

theorem Execution.holding_flows (held : Holding) (hh : HoldingAt e.before x held) :
    ∃ held', HoldingAt e.after x held' ∧ held'.definitionId = held.definitionId ∧
      held'.kind = held.kind ∧
      held'.units + e.call.debit x = held.units + e.call.credit x := by
  rw [ChainedCall.debit, ChainedCall.credit]
  cases hi : e.call.instruction with
  | token i =>
    obtain ⟨-, -, ht⟩ := execute_token tickMath _ _ _ _ _ _ i hi h
    exact ht.holding_flows _ _ _ _ _ x held hh
  | _ =>
    -- the other programs own other accounts
    have hframe := execute_frame _ _ _ _ _ _ _ h
    obtain ⟨-, diffs, hd, -⟩ := (execute_eq_ok _ _ _ _ _ _ _).mp h
    simp only [hi, dispatch, bind_eq_ok, ensure_eq_ok, exists_const] at hd
    rw [hd.1] at hframe
    have hsame := owned_frame tokenProgramId _ _ _ hframe (by decide) (by decide)
    exact ⟨held, by rwa [HoldingAt, hsame], rfl, rfl, rfl⟩

theorem Execution.debit_authorized (hx : e.call.debit x ≠ 0) : x ∈ e.authority := by
  by_contra ha
  rw [ChainedCall.debit] at hx
  cases hi : e.call.instruction with
  | token i =>
    obtain ⟨-, -, ht⟩ := execute_token tickMath _ _ _ _ _ _ i hi h
    rw [hi] at hx
    exact hx (ht.step.debit_eq_zero _ _ _ _ _ _ x ha)
  | _ =>
    rw [hi] at hx
    exact hx rfl

end

def credits (x : AccountId) (es : List Execution) : ℕ := (es.map fun e => e.call.credit x).sum

def debits (x : AccountId) (es : List Execution) : ℕ := (es.map fun e => e.call.debit x).sum

theorem credits_append (x : AccountId) (es fs : List Execution) :
    credits x (es ++ fs) = credits x es + credits x fs := by
  rw [credits, credits, credits, List.map_append, List.sum_append]

theorem debits_append (x : AccountId) (es fs : List Execution) :
    debits x (es ++ fs) = debits x es + debits x fs := by
  rw [debits, debits, debits, List.map_append, List.sum_append]

def Accounted (w w' : Accounts) (x : AccountId) (credited debited : ℕ) : Prop :=
  ∀ held, HoldingAt w x held → ∃ held', HoldingAt w' x held' ∧
    held'.definitionId = held.definitionId ∧ held'.kind = held.kind ∧
    held'.units + debited = held.units + credited

theorem Accounted.trans (w v w' : Accounts) (x : AccountId) (c d c' d' : ℕ)
    (h : Accounted w v x c d) (k : Accounted v w' x c' d') :
    Accounted w w' x (c + c') (d + d') := by
  intro held hh
  obtain ⟨a, ha, hta, hka, hfa⟩ := h held hh
  obtain ⟨b, hb, htb, hkb, hfb⟩ := k a ha
  exact ⟨b, hb, htb.trans hta, hkb.trans hka, by omega⟩

theorem Path.accounted (platform : Platform) (event : Event) (w₀ w w' : Accounts)
    (es : List Execution) (h : Path w es w') (he : ∀ e ∈ es, event.Executes platform w₀ e)
    (x : AccountId) : Accounted w w' x (credits x es) (debits x es) := by
  induction h with
  | nil w => exact fun held hh => ⟨held, hh, rfl, rfl, rfl⟩
  | cons e es w' _ ih =>
    obtain ⟨authority, call, _, -, -, hin⟩ := he e (List.mem_cons_self ..)
    obtain ⟨calls, hexecuted⟩ := hin.executed
    exact Accounted.trans _ _ _ x _ _ _ _
      (fun held hh => e.holding_flows _ calls hexecuted x held hh)
      (ih fun f hf => he f (List.mem_cons_of_mem _ hf))

section
variable (platform : Platform) (w : Accounts) (events : List Event) (es : List Execution)
  (h : History platform w events es) (x : AccountId)
include h

theorem History.accounted :
    Accounted w (run platform w events) x (credits x es) (debits x es) := by
  induction h with
  | nil w => exact fun held hh => ⟨held, hh, rfl, rfl, rfl⟩
  | environment w change events es _ ih =>
    intro held hh
    refine ih held ?_
    rw [HoldingAt, Event.apply, owned_environment tokenProgramId w change (by decide)]
    exact hh
  | transaction w authority call events own es hpath hown _ ih =>
    rw [credits_append, debits_append]
    exact (hpath.accounted platform _ w _ _ own hown x).trans _ _ _ _ _ _ _ _ ih

theorem History.debit_authorized (e : Execution) (he : e ∈ es) (hx : e.call.debit x ≠ 0) :
    x ∈ e.authority := by
  induction h with
  | nil => exact absurd he List.not_mem_nil
  | environment _ _ _ _ _ ih => exact ih he
  | transaction w authority call events own es _ hown _ ih =>
    rcases List.mem_append.mp he with he | he
    · obtain ⟨_, _, _, -, -, hin⟩ := hown e he
      obtain ⟨calls, hexecuted⟩ := hin.executed
      exact e.debit_authorized _ calls hexecuted x hx
    · exact ih he

theorem History.debits_eq_zero (hx : ∀ program ∈ deployedPrograms, ¬x.DerivedBy program)
    (hs : ¬SignedIn x events) : debits x es = 0 := by
  refine List.sum_eq_zero fun n hn => ?_
  obtain ⟨e, he, rfl⟩ := List.mem_map.mp hn
  by_contra hd
  exact hs (h.signed platform w events es x hx e he (h.debit_authorized platform w events es x e he hd))

end

end LezPrograms.Lee

namespace LezPrograms.Token
open LezPrograms.Checked LezPrograms.Lee

/-- Through any run a holding keeps its token and its variant, and its balance is accounted for
by the executions of the run. Every debit carries the key of the holding, and a holding that no
program derives loses nothing in a run that its key does not sign. -/
theorem every_unit_is_accounted_for (platform : Platform) (w : Accounts) (events : List Event)
    (es : List Execution) (h : History platform w events es) (x : AccountId) (held : Holding)
    (hh : HoldingAt w x held) :
    ∃ held', HoldingAt (run platform w events) x held' ∧
      held'.definitionId = held.definitionId ∧ held'.kind = held.kind ∧
      held'.units + debits x es = held.units + credits x es ∧
      (∀ e ∈ es, e.call.debit x ≠ 0 → x ∈ e.authority) ∧
      ((∀ program ∈ deployedPrograms, ¬x.DerivedBy program) → ¬SignedIn x events →
        held.units ≤ held'.units) := by
  obtain ⟨held', hh', htoken, hkind, hunits⟩ := h.accounted platform w events es x held hh
  refine ⟨held', hh', htoken, hkind, hunits, h.debit_authorized platform w events es x, ?_⟩
  intro hx hs
  rw [h.debits_eq_zero platform w events es x hx hs] at hunits
  omega

def payment : Event :=
  .transaction [.key 21] ⟨tokenProgramId, [.key 21, .key 22], .token (.transfer 30), []⟩

theorem payment_is_accounted_for : ∃ es,
    History issuingPlatform (run issuingPlatform emptyGenesis.world [issue]) [payment] es ∧
    ∃ held', HoldingAt (run issuingPlatform (run issuingPlatform emptyGenesis.world [issue])
        [payment]) (.key 21) held' ∧
      held'.units + debits (.key 21) es = 100 + credits (.key 21) es := by
  obtain ⟨es, hes⟩ := history_exists issuingPlatform
    (run issuingPlatform emptyGenesis.world [issue]) [payment]
  obtain ⟨held', hh', -, -, hunits, -⟩ := every_unit_is_accounted_for issuingPlatform _ [payment] es
    hes (.key 21) (.fungible (.key 20) 100) (by decide +kernel : owned _ _ _ = _)
  exact ⟨es, hes, held', hh', hunits⟩

end LezPrograms.Token
