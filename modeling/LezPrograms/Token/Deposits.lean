import LezPrograms.Lee.Executions
import LezPrograms.Token.Flows

/-! # What an event adds to a holding

A holding at an address that a program derives is only credited while the program
takes no part. An event adds to it exactly what its token calls transfer or mint
to it. -/

set_option autoImplicit false

namespace LezPrograms.Token
open LezPrograms.Checked LezPrograms.Lee

def deposits (calls : List ChainedCall) (x : AccountId) : ℕ :=
  (calls.map fun call => call.credit x).sum

/-- The holdings that `program` derives have received what the calls deposit. -/
def Deposited (program : AccountId) (w w' : Accounts) (calls : List ChainedCall) : Prop :=
  ∀ x, x.DerivedBy program → ∀ held, HoldingAt w x held →
    ∃ held', HoldingAt w' x held' ∧ held'.definitionId = held.definitionId ∧
      held'.units = held.units + deposits calls x

theorem deposits_cons (call : ChainedCall) (calls : List ChainedCall) (x : AccountId) :
    deposits (call :: calls) x = call.credit x + deposits calls x := by
  rw [deposits, deposits, List.map_cons, List.sum_cons]

/-- A successful transaction executes its call and then everything that the call chained. -/
theorem transact_calls (platform : Platform) (w w' : Accounts) (authority : List AccountId)
    (call : ChainedCall) (h : transact platform w authority call = .ok w') :
    ∃ v calls depth, execute call.programId w authority call.accountIds
        (dispatch platform.tickMath (blockTimestamp w) call.programId call.instruction)
          = .ok (v, calls) ∧
      calls.foldlM (fun w chained => invoke platform.tickMath depth w
        (callAuthority authority call.programId chained) chained) v = .ok w' ∧
      platform.callDepth = depth + 1 := by
  simp only [transact, bind_eq_ok, ensure_eq_ok, exists_const] at h
  obtain ⟨-, h⟩ := h
  cases hd : platform.callDepth with
  | zero =>
    rw [hd] at h
    exact absurd h (error_ne_ok _ _)
  | succ depth =>
    rw [hd] at h
    simp only [invoke, bind_eq_ok, Prod.exists] at h
    obtain ⟨v, calls, hv, h⟩ := h
    exact ⟨v, calls, depth, hv, h, rfl⟩

theorem Deposited.congr (program : AccountId) (w w' : Accounts) (calls calls' : List ChainedCall)
    (h : Deposited program w w' calls) (hsame : ∀ x, deposits calls' x = deposits calls x) :
    Deposited program w w' calls' := by
  intro x hx held hh
  rw [hsame]
  exact h x hx held hh

/-- Calls of another program deposit in the holdings that `program` derives. -/
theorem settled_deposits (program callerId : AccountId) (hne : callerId ≠ program)
    (authority : List AccountId) (ho : Outside program authority) (w v w' : Accounts)
    (calls : List ChainedCall) (hc : callerId ≠ tokenProgramId) (hf : Frame callerId w v)
    (h : Settled callerId authority v calls w') : Deposited program w w' calls := by
  intro x hx held hh
  have htokens := owned_frame tokenProgramId _ _ _ hf hc (by decide)
  obtain ⟨held', hh', ht, -, hflow⟩ := h.holding_flows _ _ _ _ _ x held (by rwa [HoldingAt, htokens])
  have hzero := h.debits_eq_zero _ _ _ _ _ x (fun hm => ho x hm hx) fun call _ =>
    Or.inr fun seed _ he => by
      rw [he, AccountId.forPublicPda, AccountId.derivedBy_pda] at hx
      exact hne hx
  exact ⟨held', hh', ht, by rw [deposits]; omega⟩

/-- While the program takes no part, an event deposits in the holdings that the program derives. -/
theorem Event.deposits (platform : Platform) (program : AccountId) (hp : program ∈ deployedPrograms)
    (w : Accounts) (event : Event)
    (hother : ∀ authority call, event = .transaction authority call →
      (∀ i, call.instruction = .amm i → ammProgramId ≠ program) ∧
        ∀ i, call.instruction = .stablecoin i → stablecoinProgramId ≠ program) :
    Deposited program w (event.apply platform w) (executedCalls platform w event) := by
  cases event with
  | environment change =>
    refine fun x _ held hh => ⟨held, ?_, rfl, rfl⟩
    rwa [Event.apply, HoldingAt, owned_environment tokenProgramId w change (by decide)]
  | transaction authority call =>
    rw [Event.apply]
    split
    · rename_i w' h
      obtain ⟨v, calls, depth, hv, hsettle, hdepth⟩ := transact_calls platform w w' authority call h
      have ho := (transact_performed platform w w' authority call h).1 program hp
      obtain ⟨hamm, hstablecoin⟩ := hother authority call rfl
      have hexecuted := fun hl => executedCalls_of_leaves platform w v w' authority call calls depth h
        hdepth hv hl hsettle
      cases hi : call.instruction with
      | token i =>
        obtain ⟨-, rfl, ht⟩ := execute_token _ _ _ _ _ _ _ i hi hv
        rw [hexecuted fun _ hc => absurd hc List.not_mem_nil]
        rw [List.foldlM_nil, pure_eq_ok] at hsettle
        subst hsettle
        intro x hx held hh
        obtain ⟨held', hh', htoken, -, hflow⟩ := ht.holding_flows _ _ _ _ _ x held hh
        have hzero := ht.step.debit_eq_zero _ _ _ _ _ _ x fun hm => ho x hm hx
        refine ⟨held', hh', htoken, ?_⟩
        have hcredit : call.credit x = credit x call.accountIds i := by rw [ChainedCall.credit, hi]
        rw [deposits_cons, hcredit, Token.deposits, List.map_nil, List.sum_nil]
        omega
      | twapOracle i =>
        obtain ⟨rfl, hf⟩ := execute_oracle _ _ _ _ _ _ _ i hi hv
        rw [hexecuted fun _ hc => absurd hc List.not_mem_nil]
        rw [List.foldlM_nil, pure_eq_ok] at hsettle
        subst hsettle
        have htokens := owned_frame tokenProgramId _ _ _ hf (by decide) (by decide)
        refine fun x _ held hh => ⟨held, by rwa [HoldingAt, htokens], rfl, ?_⟩
        have hcredit : call.credit x = 0 := by rw [ChainedCall.credit, hi]
        rw [deposits_cons, hcredit, Token.deposits, List.map_nil, List.sum_nil, Nat.add_zero,
          Nat.add_zero]
      | amm i =>
        obtain ⟨hcaller, -, hstep, hf⟩ := execute_amm _ _ _ _ _ _ _ i hi hv
        have hleaf := amm_leaf _ _ _ _ _ _ _ hstep
        rw [hexecuted hleaf]
        rw [hcaller] at hsettle
        refine (settled_deposits program ammProgramId (hamm i hi) authority ho w v w' calls (by decide)
          hf (settled_of_foldlM _ _ _ _ calls hleaf v w' hsettle)).congr program w w' calls _
            fun x => ?_
        rw [deposits_cons, ChainedCall.credit, hi, Nat.zero_add]
      | stablecoin i =>
        obtain ⟨hcaller, -, hstep, hf⟩ := execute_stablecoin _ _ _ _ _ _ _ i hi hv
        have hleaf := stablecoin_leaf _ _ _ _ _ _ _ hstep
        rw [hexecuted hleaf]
        rw [hcaller] at hsettle
        refine (settled_deposits program stablecoinProgramId (hstablecoin i hi) authority ho w v w'
          calls (by decide) hf (settled_of_foldlM _ _ _ _ calls hleaf v w' hsettle)).congr program w w'
            calls _ fun x => ?_
        rw [deposits_cons, ChainedCall.credit, hi, Nat.zero_add]
    · rename_i message h
      have hnone : executedCalls platform w (.transaction authority call) = [] := by
        rw [executedCalls, h]
      rw [hnone]
      exact fun x _ held hh => ⟨held, hh, rfl, rfl⟩

end LezPrograms.Token
