import LezPrograms.Lee.Invocation

/-! # The executions inside a transaction

An invocation executes the called program and then, in order, everything that
it chains. The world before an invocation and the world after it are linked by
these executions, so what each of them does to a part of the world composes to
what the transaction does. -/

set_option autoImplicit false

namespace LezPrograms.Lee
open LezPrograms.Checked

structure Execution where
  authority : List AccountId
  call : ChainedCall
  before : Accounts
  after : Accounts

inductive Executes (tickMath : TwapOracle.TickMath) :
    ℕ → Accounts → List AccountId → ChainedCall → Execution → Prop
  | called (depth : ℕ) (w v : Accounts) (authority : List AccountId) (call : ChainedCall)
      (calls : List ChainedCall)
      (executed : execute call.programId w authority call.accountIds
        (dispatch tickMath (blockTimestamp w) call.programId call.instruction) = .ok (v, calls)) :
      Executes tickMath (depth + 1) w authority call ⟨authority, call, w, v⟩
  | chained (depth : ℕ) (w v u : Accounts) (authority : List AccountId) (call : ChainedCall)
      (earlier later : List ChainedCall) (next : ChainedCall) (e : Execution)
      (executed : execute call.programId w authority call.accountIds
        (dispatch tickMath (blockTimestamp w) call.programId call.instruction)
          = .ok (v, earlier ++ next :: later))
      (settled : earlier.foldlM (fun w chained =>
        invoke tickMath depth w (callAuthority authority call.programId chained) chained) v = .ok u)
      (inside : Executes tickMath depth u (callAuthority authority call.programId next) next e) :
      Executes tickMath (depth + 1) w authority call e

def Event.Executes (platform : Platform) (w : Accounts) (event : Event) (e : Execution) : Prop :=
  ∃ authority call w', event = .transaction authority call ∧
    transact platform w authority call = .ok w' ∧
    LezPrograms.Lee.Executes platform.tickMath platform.callDepth w authority call e

def Links (P : Execution → Prop) (w w' : Accounts) : Prop :=
  ∃ e, P e ∧ e.before = w ∧ e.after = w'

abbrev Chain (P : Execution → Prop) : Accounts → Accounts → Prop := Relation.ReflTransGen (Links P)

theorem Chain.mono {P Q : Execution → Prop} {w w' : Accounts} (hPQ : ∀ e, P e → Q e)
    (h : Chain P w w') : Chain Q w w' :=
  Relation.ReflTransGen.mono (fun _ _ ⟨e, he, hb, ha⟩ => ⟨e, hPQ e he, hb, ha⟩) _ _ h

theorem Executes.executed (tickMath : TwapOracle.TickMath) (depth : ℕ) (w : Accounts)
    (authority : List AccountId) (call : ChainedCall) (e : Execution)
    (h : Executes tickMath depth w authority call e) :
    ∃ calls, execute e.call.programId e.before e.authority e.call.accountIds
      (dispatch tickMath (blockTimestamp e.before) e.call.programId e.call.instruction)
        = .ok (e.after, calls) := by
  induction h with
  | called _ _ _ _ _ calls executed => exact ⟨calls, executed⟩
  | chained _ _ _ _ _ _ _ _ _ _ _ _ _ ih => exact ih

/-- An invocation is the chain of its executions. -/
theorem invoke_chain (tickMath : TwapOracle.TickMath) (depth : ℕ) : ∀ (w w' : Accounts)
    (authority : List AccountId) (call : ChainedCall),
    invoke tickMath depth w authority call = .ok w' →
      Chain (Executes tickMath depth w authority call) w w' := by
  induction depth with
  | zero => exact fun w w' authority call h => absurd h (error_ne_ok _ _)
  | succ depth ih =>
    intro w w' authority call h
    simp only [invoke, bind_eq_ok, Prod.exists] at h
    obtain ⟨v, calls, hv, h⟩ := h
    -- the calls already settled are generalized along with the world that they left
    have hrest : ∀ (later earlier : List ChainedCall) (u : Accounts), calls = earlier ++ later →
        earlier.foldlM (fun w chained => invoke tickMath depth w
          (callAuthority authority call.programId chained) chained) v = .ok u →
        later.foldlM (fun w chained => invoke tickMath depth w
          (callAuthority authority call.programId chained) chained) u = .ok w' →
        Chain (Executes tickMath (depth + 1) w authority call) u w' := by
      intro later
      induction later with
      | nil =>
        intro earlier u _ _ h
        rw [List.foldlM_nil, pure_eq_ok] at h
        exact h ▸ .refl
      | cons next later ih' =>
        intro earlier u hcalls hu h
        rw [List.foldlM_cons, bind_eq_ok] at h
        obtain ⟨x, hx, h⟩ := h
        refine ((ih u x _ next hx).mono fun e he => ?_).trans
          (ih' (earlier ++ [next]) x (by rw [hcalls, List.append_assoc, List.singleton_append]) ?_ h)
        · exact .chained depth w v u authority call earlier later next e (hcalls ▸ hv) hu he
        · rw [List.foldlM_append, hu, ok_bind, List.foldlM_cons, hx, ok_bind, List.foldlM_nil,
            pure_eq_ok]
    exact .head ⟨_, .called depth w v authority call calls hv, rfl, rfl⟩
      (hrest calls [] v rfl rfl h)

/-- A transaction is the chain of its executions; a failed one changes nothing. -/
theorem Event.chain (platform : Platform) (w : Accounts) (authority : List AccountId)
    (call : ChainedCall) : Chain (Event.Executes platform w (.transaction authority call)) w
      (Event.apply platform w (.transaction authority call)) := by
  rw [Event.apply]
  split
  · rename_i w' h
    have hi := h
    simp only [transact, bind_eq_ok, ensure_eq_ok, exists_const] at hi
    exact (invoke_chain _ _ _ _ _ _ hi.2).mono fun e he => ⟨authority, call, w', rfl, h, he⟩
  · exact .refl

/-- What every execution keeps, the chain keeps. -/
theorem Chain.preserves {P : Execution → Prop} (Inv : Accounts → Prop)
    (step : ∀ e, P e → Inv e.before → Inv e.after) {w w' : Accounts} (h : Chain P w w')
    (hw : Inv w) : Inv w' := by
  induction h with
  | refl => exact hw
  | tail _ hs ih =>
    obtain ⟨e, he, rfl, rfl⟩ := hs
    exact step e he ih

section
variable (tickMath : TwapOracle.TickMath) (e : Execution) (calls : List ChainedCall)
  (h : execute e.call.programId e.before e.authority e.call.accountIds
    (dispatch tickMath (blockTimestamp e.before) e.call.programId e.call.instruction)
      = .ok (e.after, calls))
include h

/-- The token program leaves a transition of its own, the others leave its accounts alone. -/
theorem Execution.tokens :
    (∃ instruction, e.call.instruction = .token instruction ∧
        Token.Transition e.authority e.call.accountIds instruction e.before e.after) ∨
      owned tokenProgramId e.after = owned tokenProgramId e.before := by
  have hframe := execute_frame _ _ _ _ _ _ _ h
  obtain ⟨-, diffs, hh, -⟩ := (execute_eq_ok _ _ _ _ _ _ _).mp h
  cases hi : e.call.instruction with
  | token i =>
    exact Or.inl ⟨i, rfl, (execute_token tickMath _ _ _ _ _ _ i hi h).2.2⟩
  | _ =>
    simp only [hi, dispatch, bind_eq_ok, ensure_eq_ok, exists_const] at hh
    rw [hh.1] at hframe
    exact Or.inr (owned_frame _ _ _ _ hframe (by decide) (by decide))

end

/-- The calls that an invocation executes, in order, and the world that they leave. -/
def trace (tickMath : TwapOracle.TickMath) :
    ℕ → Accounts → List AccountId → ChainedCall → Outcome (List ChainedCall × Accounts)
  | 0, _, _, _ => .error "chained calls are nested too deeply"
  | depth + 1, w, authority, call => do
    let (v, calls) ← execute call.programId w authority call.accountIds
      (dispatch tickMath (blockTimestamp w) call.programId call.instruction)
    calls.foldlM (fun t chained => do
      let (later, u) ← trace tickMath depth t.2 (callAuthority authority call.programId chained)
        chained
      pure (t.1 ++ later, u)) ([call], v)

/-- The trace leaves the world that the invocation leaves. -/
theorem trace_world (tickMath : TwapOracle.TickMath) (depth : ℕ) (w : Accounts)
    (authority : List AccountId) (call : ChainedCall) :
    (trace tickMath depth w authority call).map Prod.snd
      = invoke tickMath depth w authority call := by
  induction depth generalizing w authority call with
  | zero => rfl
  | succ depth ih =>
    rw [trace, invoke]
    cases execute call.programId w authority call.accountIds
      (dispatch tickMath (blockTimestamp w) call.programId call.instruction) with
    | error message => rfl
    | ok r =>
      obtain ⟨v, calls⟩ := r
      simp only [ok_bind]
      generalize [call] = earlier
      induction calls generalizing earlier v with
      | nil => rfl
      | cons chained calls ihc =>
        rw [List.foldlM_cons, List.foldlM_cons, ← ih]
        cases trace tickMath depth v (callAuthority authority call.programId chained) chained with
        | error message => rfl
        | ok t => exact ihc t.2 (earlier ++ t.1)

/-- The calls that an event executes, in order. An event that fails executes nothing. -/
def executedCalls (platform : Platform) (w : Accounts) : Event → List ChainedCall
  | .environment _ => []
  | .transaction authority call =>
    match transact platform w authority call,
      trace platform.tickMath platform.callDepth w authority call with
    | .ok _, .ok (calls, _) => calls
    | _, _ => []

theorem trace_leaf (tickMath : TwapOracle.TickMath) (depth : ℕ) (w w' : Accounts)
    (authority : List AccountId) (call : ChainedCall) (hl : call.IsLeaf)
    (h : invoke tickMath depth w authority call = .ok w') :
    trace tickMath depth w authority call = .ok ([call], w') := by
  cases depth with
  | zero => exact absurd h (error_ne_ok _ _)
  | succ depth =>
    simp only [invoke, bind_eq_ok, Prod.exists] at h
    obtain ⟨v, calls, hv, h⟩ := h
    have hnone : calls = [] := by
      rcases hl with ⟨i, hi⟩ | ⟨i, hi⟩
      · exact (execute_token _ _ _ _ _ _ _ i hi hv).2.1
      · exact (execute_oracle _ _ _ _ _ _ _ i hi hv).1
    subst hnone
    rw [List.foldlM_nil, pure_eq_ok] at h
    subst h
    rw [trace, hv]
    rfl

theorem trace_leaves (tickMath : TwapOracle.TickMath) (depth : ℕ) (callerId : AccountId)
    (authority : List AccountId) (earlier calls : List ChainedCall)
    (hl : ∀ call ∈ calls, call.IsLeaf) (w w' : Accounts)
    (h : calls.foldlM (fun w chained =>
      invoke tickMath depth w (callAuthority authority callerId chained) chained) w = .ok w') :
    calls.foldlM (fun (t : List ChainedCall × Accounts) chained => do
      let (later, u) ← trace tickMath depth t.2 (callAuthority authority callerId chained) chained
      pure (t.1 ++ later, u)) (earlier, w) = .ok (earlier ++ calls, w') := by
  induction calls generalizing earlier w with
  | nil =>
    rw [List.foldlM_nil, pure_eq_ok] at h
    rw [List.foldlM_nil, h, List.append_nil]
    rfl
  | cons call calls ih =>
    rw [List.foldlM_cons, bind_eq_ok] at h
    obtain ⟨v, hv, h⟩ := h
    obtain ⟨hcall, hcalls⟩ := List.forall_mem_cons.mp hl
    have hlater := ih (earlier ++ [call]) hcalls v h
    rw [List.append_assoc, List.singleton_append] at hlater
    rw [List.foldlM_cons, trace_leaf tickMath depth w v _ call hcall hv]
    exact hlater

/-- A transaction executes its call and then, if these chain nothing further, the calls that it
chains. -/
theorem executedCalls_of_leaves (platform : Platform) (w v w' : Accounts)
    (authority : List AccountId) (call : ChainedCall) (calls : List ChainedCall) (depth : ℕ)
    (h : transact platform w authority call = .ok w') (hd : platform.callDepth = depth + 1)
    (hv : execute call.programId w authority call.accountIds
      (dispatch platform.tickMath (blockTimestamp w) call.programId call.instruction)
        = .ok (v, calls))
    (hl : ∀ call ∈ calls, call.IsLeaf)
    (hs : calls.foldlM (fun w chained => invoke platform.tickMath depth w
      (callAuthority authority call.programId chained) chained) v = .ok w') :
    executedCalls platform w (.transaction authority call) = call :: calls := by
  have htrace : trace platform.tickMath platform.callDepth w authority call
      = .ok (call :: calls, w') := by
    rw [hd, trace, hv]
    exact trace_leaves platform.tickMath depth call.programId authority [call] calls hl v w' hs
  rw [executedCalls, h, htrace]

end LezPrograms.Lee
