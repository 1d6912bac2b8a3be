import LezPrograms.Lee.Executions

/-! # The history of a run

The executions of a run, in order. Each begins in the world that the one before
it left, up to what the environment changes between transactions. The authority
of an execution comes from the keys that signed its transaction and from the
programs that called it. -/

set_option autoImplicit false

namespace LezPrograms.Lee
open LezPrograms.Checked

inductive Path : Accounts → List Execution → Accounts → Prop
  | nil (w : Accounts) : Path w [] w
  | cons (e : Execution) (es : List Execution) (w' : Accounts) (rest : Path e.after es w') :
      Path e.before (e :: es) w'

theorem Path.append {w v w' : Accounts} {es fs : List Execution} (h : Path w es v)
    (k : Path v fs w') : Path w (es ++ fs) w' := by
  induction h with
  | nil => exact k
  | cons e es v _ ih => exact .cons e (es ++ fs) w' (ih k)

theorem Chain.path {P : Execution → Prop} {w w' : Accounts} (h : Chain P w w') :
    ∃ es, Path w es w' ∧ ∀ e ∈ es, P e := by
  induction h with
  | refl => exact ⟨[], .nil w, fun e he => absurd he List.not_mem_nil⟩
  | tail _ hs ih =>
    obtain ⟨es, hpath, hes⟩ := ih
    obtain ⟨e, he, rfl, rfl⟩ := hs
    refine ⟨es ++ [e], hpath.append (.cons e [] e.after (.nil e.after)), fun f hf => ?_⟩
    rcases List.mem_append.mp hf with hf | hf
    · exact hes f hf
    · exact List.mem_singleton.mp hf ▸ he

inductive History (platform : Platform) : Accounts → List Event → List Execution → Prop
  | nil (w : Accounts) : History platform w [] []
  | environment (w change : Accounts) (events : List Event) (es : List Execution)
      (rest : History platform (Event.apply platform w (.environment change)) events es) :
      History platform w (.environment change :: events) es
  | transaction (w : Accounts) (authority : List AccountId) (call : ChainedCall)
      (events : List Event) (own es : List Execution)
      (path : Path w own (Event.apply platform w (.transaction authority call)))
      (executed : ∀ e ∈ own, Event.Executes platform w (.transaction authority call) e)
      (rest : History platform (Event.apply platform w (.transaction authority call)) events es) :
      History platform w (.transaction authority call :: events) (own ++ es)

/-- Every run has a history. -/
theorem history_exists (platform : Platform) (w : Accounts) (events : List Event) :
    ∃ es, History platform w events es := by
  induction events generalizing w with
  | nil => exact ⟨[], .nil w⟩
  | cons event events ih =>
    obtain ⟨es, hes⟩ := ih (event.apply platform w)
    cases event with
    | environment change => exact ⟨es, .environment w change events es hes⟩
    | transaction authority call =>
      obtain ⟨own, hpath, hown⟩ := (Event.chain platform w authority call).path
      exact ⟨own ++ es, .transaction w authority call events own es hpath hown hes⟩

/-- Only the AMM and the stablecoin program chain calls. -/
theorem dispatch_chains (tickMath : TwapOracle.TickMath) (now : U64) (programId : AccountId)
    (instruction : Instruction) (accounts : List InputAccount) (diffs : List StateDiff)
    (calls : List ChainedCall) (hne : calls ≠ [])
    (h : dispatch tickMath now programId instruction accounts = .ok (diffs, calls)) :
    programId ∈ deployedPrograms := by
  cases instruction with
  | token i =>
    simp only [dispatch, bind_eq_ok, ensure_eq_ok, exists_const, pure_eq_ok, Prod.mk.injEq] at h
    obtain ⟨-, _, -, -, rfl⟩ := h
    exact absurd rfl hne
  | twapOracle i =>
    simp only [dispatch, bind_eq_ok, ensure_eq_ok, exists_const, pure_eq_ok, Prod.mk.injEq] at h
    obtain ⟨-, _, -, -, rfl⟩ := h
    exact absurd rfl hne
  | amm i =>
    simp only [dispatch, bind_eq_ok, ensure_eq_ok, exists_const] at h
    rw [h.1]
    decide
  | stablecoin i =>
    simp only [dispatch, bind_eq_ok, ensure_eq_ok, exists_const] at h
    rw [h.1]
    decide

/-- An execution acts for accounts that signed its transaction, and for addresses that the
programs above it derive. -/
theorem Executes.signed (tickMath : TwapOracle.TickMath) (depth : ℕ) (w : Accounts)
    (authority : List AccountId) (call : ChainedCall) (e : Execution)
    (h : Executes tickMath depth w authority call e) (x : AccountId) (hx : x ∈ e.authority) :
    x ∈ authority ∨ ∃ program ∈ deployedPrograms, x.DerivedBy program := by
  induction h with
  | called => exact Or.inl hx
  | chained depth w v u authority call earlier later next e hv _ _ ih =>
    rcases ih hx with hx | hx
    · rw [callAuthority, List.mem_append, List.mem_map] at hx
      rcases hx with hx | ⟨seed, -, rfl⟩
      · exact Or.inl hx
      · obtain ⟨-, diffs, hh, -⟩ := (execute_eq_ok _ _ _ _ _ _ _).mp hv
        exact Or.inr ⟨call.programId, dispatch_chains tickMath _ _ _ _ _ _ (by simp) hh,
          derivedBy_forPublicPda _ seed⟩
    · exact Or.inr hx

def SignedIn (x : AccountId) (events : List Event) : Prop :=
  ∃ authority call, Event.transaction authority call ∈ events ∧ x ∈ authority

theorem History.signed (platform : Platform) (w : Accounts) (events : List Event)
    (es : List Execution) (h : History platform w events es) (x : AccountId)
    (hx : ∀ program ∈ deployedPrograms, ¬x.DerivedBy program) (e : Execution) (he : e ∈ es)
    (hs : x ∈ e.authority) : SignedIn x events := by
  induction h with
  | nil => exact absurd he List.not_mem_nil
  | environment w change events es _ ih =>
    obtain ⟨authority, call, hm, ha⟩ := ih he
    exact ⟨authority, call, List.mem_cons_of_mem _ hm, ha⟩
  | transaction w authority call events own es _ hown _ ih =>
    rcases List.mem_append.mp he with he | he
    · obtain ⟨authority', call', _, hevent, -, hin⟩ := hown e he
      obtain ⟨rfl, rfl⟩ := Event.transaction.inj hevent
      rcases hin.signed _ _ _ _ _ _ x hs with ha | ⟨program, hp, hd⟩
      · exact ⟨authority, call, List.mem_cons_self .., ha⟩
      · exact absurd hd (hx program hp)
    · obtain ⟨authority', call', hm, ha⟩ := ih he
      exact ⟨authority', call', List.mem_cons_of_mem _ hm, ha⟩

end LezPrograms.Lee
