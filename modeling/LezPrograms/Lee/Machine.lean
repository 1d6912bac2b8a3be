import LezPrograms.Lee.Account

/-! # Transactions among arbitrary programs

Every program is a parameter. An executed call puts the calls that it chains on top
of the pending ones, and a transaction succeeds once nothing is pending. A pending
call knows who chained it; a run remembers every execution. -/

set_option autoImplicit false
set_option linter.unusedSectionVars false

namespace LezPrograms.Lee.Machine
open LezPrograms.Checked

structure Call (Id Seed I : Type) where
  programId : Id
  accountIds : List Id
  instruction : I
  pdaSeeds : List Seed
deriving DecidableEq

/-- A call, the authority it runs under, and the call that chained it with its authority. -/
structure Pending (Id Seed I : Type) where
  authority : List Id
  call : Call Id Seed I
  caller : Option (List Id × Call Id Seed I)
deriving DecidableEq

abbrev Programs (Id D Seed I : Type) :=
  Id → List (AccountWithMetadata Id D) → I →
    Outcome (List (AccountStateDiff Id D) × List (Call Id Seed I))

structure Turn (Id D Seed I : Type) where
  before : World Id D
  pending : Pending Id Seed I
  after : World Id D
  calls : List (Call Id Seed I)

section
variable {Id D Seed I : Type}
variable (grant : Id → Seed → Id) (programs : Programs Id D Seed I)

def Pending.chain (p : Pending Id Seed I) (call : Call Id Seed I) : Pending Id Seed I :=
  ⟨p.authority ++ call.pdaSeeds.map (grant p.call.programId), call, some (p.authority, p.call)⟩

def Turn.chained (t : Turn Id D Seed I) : List (Pending Id Seed I) :=
  t.calls.map (t.pending.chain grant)

/-- Nobody has written to an account. Native balances and nonces may differ. -/
def Unwritten (w w' : World Id D) : Prop :=
  ∀ id, (w' id).programOwner = (w id).programOwner ∧ (w' id).data = (w id).data

variable [DecidableEq Id] [DecidableEq D] [Inhabited Id] [Inhabited D]

def Turn.Valid (t : Turn Id D Seed I) : Prop :=
  execute t.pending.call.programId t.before t.pending.authority t.pending.call.accountIds
    (fun accounts => programs t.pending.call.programId accounts t.pending.call.instruction)
    = .ok (t.after, t.calls)

inductive Settles : World Id D → List (Pending Id Seed I) → List (Turn Id D Seed I) →
    World Id D → Prop
  | nil (w : World Id D) : Settles w [] [] w
  | cons (t : Turn Id D Seed I) (rest : List (Pending Id Seed I)) (turns : List (Turn Id D Seed I))
      (w' : World Id D) (valid : t.Valid programs)
      (later : Settles t.after (t.chained grant ++ rest) turns w') :
      Settles t.before (t.pending :: rest) (t :: turns) w'

inductive Run (signable : Id → Prop) (start : World Id D) : List (Turn Id D Seed I) →
    World Id D → Prop
  | start : Run signable start [] start
  | transaction (history turns : List (Turn Id D Seed I)) (w w' : World Id D)
      (run : Run signable start history w) (authority : List Id) (call : Call Id Seed I)
      (signed : ∀ id ∈ authority, signable id)
      (settles : Settles grant programs w [⟨authority, call, none⟩] turns w') :
      Run signable start (history ++ turns) w'
  | environment (history : List (Turn Id D Seed I)) (w w' : World Id D)
      (run : Run signable start history w) (unwritten : Unwritten w w') :
      Run signable start history w'

def settle : ℕ → World Id D → List (Pending Id Seed I) →
    Outcome (List (Turn Id D Seed I) × World Id D)
  | _, w, [] => pure ([], w)
  | 0, _, _ :: _ => .error "out of fuel"
  | fuel + 1, w, p :: rest => do
    let (v, calls) ← execute p.call.programId w p.authority p.call.accountIds
      (fun accounts => programs p.call.programId accounts p.call.instruction)
    let t : Turn Id D Seed I := ⟨w, p, v, calls⟩
    let (turns, w') ← settle fuel v (t.chained grant ++ rest)
    pure (t :: turns, w')

theorem settles_of_settle (fuel : ℕ) (w w' : World Id D) (pending : List (Pending Id Seed I))
    (turns : List (Turn Id D Seed I)) (h : settle grant programs fuel w pending = .ok (turns, w')) :
    Settles grant programs w pending turns w' := by
  induction fuel generalizing w pending turns with
  | zero =>
    cases pending with
    | nil =>
      rw [settle, pure_eq_ok, Prod.mk.injEq] at h
      obtain ⟨rfl, rfl⟩ := h
      exact .nil w
    | cons p rest => exact absurd h (error_ne_ok _ _)
  | succ fuel ih =>
    cases pending with
    | nil =>
      rw [settle, pure_eq_ok, Prod.mk.injEq] at h
      obtain ⟨rfl, rfl⟩ := h
      exact .nil w
    | cons p rest =>
      simp only [settle, bind_eq_ok, Prod.exists, pure_eq_ok, Prod.mk.injEq] at h
      obtain ⟨v, calls, hv, turns', u, hu, rfl, rfl⟩ := h
      exact .cons ⟨w, p, v, calls⟩ rest turns' u hv (ih _ _ _ hu)

def settleAll (fuel : ℕ) : World Id D → List (List Id × Call Id Seed I) →
    Outcome (List (Turn Id D Seed I) × World Id D)
  | w, [] => pure ([], w)
  | w, (authority, call) :: rest => do
    let (turns, v) ← settle grant programs fuel w [⟨authority, call, none⟩]
    let (later, w') ← settleAll fuel v rest
    pure (turns ++ later, w')

theorem Run.settleAll (fuel : ℕ) (signable : Id → Prop) (start w w' : World Id D)
    (transactions : List (List Id × Call Id Seed I)) (history turns : List (Turn Id D Seed I))
    (signed : ∀ t ∈ transactions, ∀ id ∈ t.1, signable id)
    (run : Run grant programs signable start history w)
    (h : settleAll grant programs fuel w transactions = .ok (turns, w')) :
    Run grant programs signable start (history ++ turns) w' := by
  induction transactions generalizing w history turns with
  | nil =>
    rw [Machine.settleAll, pure_eq_ok, Prod.mk.injEq] at h
    obtain ⟨rfl, rfl⟩ := h
    rwa [List.append_nil]
  | cons t rest ih =>
    obtain ⟨authority, call⟩ := t
    simp only [Machine.settleAll, bind_eq_ok, Prod.exists, pure_eq_ok, Prod.mk.injEq] at h
    obtain ⟨first, v, hv, later, _, hlater, rfl, rfl⟩ := h
    obtain ⟨hauthority, hrest⟩ := List.forall_mem_cons.mp signed
    rw [← List.append_assoc]
    exact ih v _ _ hrest (.transaction history first w v run authority call hauthority
      (settles_of_settle grant programs fuel w v _ first hv)) hlater

theorem Turn.Valid.frame (t : Turn Id D Seed I) (h : t.Valid programs) :
    Frame t.pending.call.programId t.before t.after := execute_frame _ _ _ _ _ _ _ h

/-- What every execution hands on to the calls that it chains holds of all that is executed. -/
theorem Settles.handed_on (Good : Pending Id Seed I → Prop)
    (step : ∀ t : Turn Id D Seed I, t.Valid programs → Good t.pending →
      ∀ call ∈ t.calls, Good (t.pending.chain grant call))
    (w w' : World Id D) (pending : List (Pending Id Seed I)) (turns : List (Turn Id D Seed I))
    (h : Settles grant programs w pending turns w') (hp : ∀ p ∈ pending, Good p) :
    ∀ t ∈ turns, t.Valid programs ∧ Good t.pending := by
  induction h with
  | nil w => exact fun t ht => absurd ht List.not_mem_nil
  | cons t rest turns w' valid later ih =>
    have hgood := hp _ (List.mem_cons_self ..)
    refine List.forall_mem_cons.mpr ⟨⟨valid, hgood⟩, ih fun p hm => ?_⟩
    rcases List.mem_append.mp hm with hm | hm
    · obtain ⟨call, hc, rfl⟩ := List.mem_map.mp hm
      exact step t valid hgood call hc
    · exact hp p (List.mem_cons_of_mem _ hm)

theorem Run.handed_on (signable : Id → Prop) (start w : World Id D)
    (Good : Pending Id Seed I → Prop)
    (signed : ∀ authority call, (∀ id ∈ authority, signable id) → Good ⟨authority, call, none⟩)
    (step : ∀ t : Turn Id D Seed I, t.Valid programs → Good t.pending →
      ∀ call ∈ t.calls, Good (t.pending.chain grant call))
    (history : List (Turn Id D Seed I)) (h : Run grant programs signable start history w) :
    ∀ t ∈ history, t.Valid programs ∧ Good t.pending := by
  induction h with
  | start => exact fun t ht => absurd ht List.not_mem_nil
  | transaction history turns w w' run authority call hs settles ih =>
    intro t ht
    rcases List.mem_append.mp ht with ht | ht
    · exact ih t ht
    · exact settles.handed_on grant programs Good step _ _ _ _
        (List.forall_mem_singleton.mpr (signed authority call hs)) t ht
  | environment history w w' run unwritten ih => exact ih

/-- A call was pending, or an executed call has chained it. -/
theorem Settles.origin (w w' : World Id D) (pending : List (Pending Id Seed I))
    (turns : List (Turn Id D Seed I)) (h : Settles grant programs w pending turns w') :
    ∀ t ∈ turns, t.pending ∈ pending ∨
      ∃ parent ∈ turns, ∃ call ∈ parent.calls, t.pending = parent.pending.chain grant call := by
  induction h with
  | nil w => exact fun t ht => absurd ht List.not_mem_nil
  | cons t rest turns w' valid later ih =>
    refine List.forall_mem_cons.mpr ⟨Or.inl (List.mem_cons_self ..), fun next hnext => ?_⟩
    rcases ih next hnext with hm | ⟨parent, hparent, hcall⟩
    · rcases List.mem_append.mp hm with hm | hm
      · obtain ⟨call, hc, he⟩ := List.mem_map.mp hm
        exact Or.inr ⟨t, List.mem_cons_self .., call, hc, he.symm⟩
      · exact Or.inl (List.mem_cons_of_mem _ hm)
    · exact Or.inr ⟨parent, List.mem_cons_of_mem _ hparent, hcall⟩

theorem Run.origin (signable : Id → Prop) (start w : World Id D)
    (history : List (Turn Id D Seed I)) (h : Run grant programs signable start history w) :
    ∀ t ∈ history, t.pending.caller = none ∨
      ∃ parent ∈ history, ∃ call ∈ parent.calls, t.pending = parent.pending.chain grant call := by
  induction h with
  | start => exact fun t ht => absurd ht List.not_mem_nil
  | transaction history turns w w' run authority call signed settles ih =>
    intro t ht
    rcases List.mem_append.mp ht with ht | ht
    · exact (ih t ht).imp_right fun ⟨parent, hp, hcall⟩ =>
        ⟨parent, List.mem_append_left _ hp, hcall⟩
    · rcases settles.origin grant programs _ _ _ _ t ht with hm | ⟨parent, hp, hcall⟩
      · rw [List.mem_singleton.mp hm]
        exact Or.inl rfl
      · exact Or.inr ⟨parent, List.mem_append_right _ hp, hcall⟩
  | environment history w w' run unwritten ih => exact ih

/-- What every execution keeps holds after a run, of the history and the world. -/
theorem Settles.keeps (Inv : List (Turn Id D Seed I) → World Id D → Prop)
    (step : ∀ history (t : Turn Id D Seed I), Inv history t.before → t.Valid programs →
      Inv (history ++ [t]) t.after)
    (w w' : World Id D) (pending : List (Pending Id Seed I)) (turns : List (Turn Id D Seed I))
    (h : Settles grant programs w pending turns w') (history : List (Turn Id D Seed I))
    (hw : Inv history w) : Inv (history ++ turns) w' := by
  induction h generalizing history with
  | nil w => rwa [List.append_nil]
  | cons t rest turns w' valid later ih =>
    rw [← List.singleton_append, ← List.append_assoc]
    exact ih _ (step history t hw valid)

theorem Run.keeps (signable : Id → Prop) (start w : World Id D)
    (Inv : List (Turn Id D Seed I) → World Id D → Prop) (init : Inv [] start)
    (step : ∀ history (t : Turn Id D Seed I), Inv history t.before → t.Valid programs →
      Inv (history ++ [t]) t.after)
    (environment : ∀ history w w', Inv history w → Unwritten w w' → Inv history w')
    (history : List (Turn Id D Seed I)) (h : Run grant programs signable start history w) :
    Inv history w := by
  induction h with
  | start => exact init
  | transaction history turns w w' run authority call signed settles ih =>
    exact settles.keeps grant programs Inv step _ _ _ _ history ih
  | environment history w w' run unwritten ih => exact environment history w w' ih unwritten

theorem sum_map_chained (m : Pending Id Seed I → ℕ) (t : Turn Id D Seed I) :
    ((t.chained grant).map m).sum = (t.calls.map fun call => m (t.pending.chain grant call)).sum := by
  rw [Turn.chained, List.map_map]
  rfl

/-- Every pending call and every chained one is executed exactly once. -/
theorem Settles.executed_once (m : Pending Id Seed I → ℕ) (w w' : World Id D)
    (pending : List (Pending Id Seed I)) (turns : List (Turn Id D Seed I))
    (h : Settles grant programs w pending turns w') :
    (turns.map fun t => m t.pending).sum = (pending.map m).sum +
      (turns.map fun t => (t.calls.map fun call => m (t.pending.chain grant call)).sum).sum := by
  induction h with
  | nil w => rfl
  | cons t rest turns w' valid later ih =>
    simp only [List.map_cons, List.sum_cons, ih, List.map_append, List.sum_append,
      sum_map_chained]
    omega

/-- A measure that counts no call of a signer counts what the executed calls have chained. -/
theorem Run.executed_once (signable : Id → Prop) (start w : World Id D)
    (m : Pending Id Seed I → ℕ) (hm : ∀ authority call, m ⟨authority, call, none⟩ = 0)
    (history : List (Turn Id D Seed I)) (h : Run grant programs signable start history w) :
    (history.map fun t => m t.pending).sum =
      (history.map fun t => (t.calls.map fun call => m (t.pending.chain grant call)).sum).sum := by
  induction h with
  | start => rfl
  | transaction history turns w w' run authority call signed settles ih =>
    have hturns := settles.executed_once grant programs m
    simp only [List.map_cons, List.map_nil, List.sum_cons, List.sum_nil, hm] at hturns
    simp only [List.map_append, List.sum_append, ih, hturns]
    omega
  | environment history w w' run unwritten ih => exact ih

end

end LezPrograms.Lee.Machine
