import LezPrograms.Lee.Ownership

/-! # What an execution depends on

A handler sees only the accounts it is given and answers with diffs of these
accounts, so an execution neither reads nor writes any other account. Token
calls can therefore be carried over to every world that agrees with the first
one on the accounts of the calls. -/

set_option autoImplicit false
set_option linter.unusedSectionVars false

namespace LezPrograms.Lee
open LezPrograms.Checked

section
variable {Id D : Type} [DecidableEq Id] [DecidableEq D] [Inhabited Id] [Inhabited D]

def AgreeOn (ids : List Id) (w u : World Id D) : Prop := ∀ id ∈ ids, u id = w id

def splice (ids : List Id) (w u : World Id D) : World Id D :=
  fun id => if id ∈ ids then w id else u id

theorem splice_of_mem (ids : List Id) (w u : World Id D) (id : Id) (h : id ∈ ids) :
    splice ids w u id = w id := if_pos h

theorem splice_of_not_mem (ids : List Id) (w u : World Id D) (id : Id) (h : id ∉ ids) :
    splice ids w u id = u id := if_neg h

theorem AgreeOn.splice_eq (ids : List Id) (w u : World Id D) (h : AgreeOn ids w u) :
    splice ids w u = u := by
  funext id
  by_cases hid : id ∈ ids
  · rw [splice_of_mem _ _ _ _ hid, h id hid]
  · rw [splice_of_not_mem _ _ _ _ hid]

/-- Two writes at different accounts commute. -/
theorem put_comm (program other : Id) (w : World Id D) (id x : Id) (data data' : D)
    (h : id ≠ x) : put program (put other w x data') id data
      = put other (put program w id data) x data' := by
  funext y
  by_cases hy : y = id
  · subst hy
    rw [put_same, put_other _ _ _ _ _ h, put_other _ _ _ _ _ h, put_same]
  · by_cases hx : y = x
    · subst hx
      rw [put_other _ _ _ _ _ hy, put_same, put_same, put_other _ _ _ _ _ hy]
    · rw [put_other _ _ _ _ _ hy, put_other _ _ _ _ _ hx, put_other _ _ _ _ _ hx,
        put_other _ _ _ _ _ hy]

/-- Writing again what an account of the program holds changes nothing. -/
theorem put_idle (program : Id) (w : World Id D) (id : Id) (data : D)
    (h : (w id).data = data) : put program w id data = w := by
  rw [put, ← h, writeData_same, Function.update_eq_self]

/-- The second of two writes is what remains. -/
theorem put_again (program : Id) (w : World Id D) (id : Id) (data data' : D)
    (h : (w id).programOwner = program) :
    put program (put program w id data) id data' = put program w id data' := by
  have hwrite : ∀ x, writeData program (w id) x = { w id with data := x } := by
    intro x
    unfold writeData
    split
    · rename_i hx
      rw [hx]
    · rw [← h]
  have hagain : writeData program (writeData program (w id) data) data'
      = writeData program (w id) data' := by
    rw [hwrite, hwrite]
    unfold writeData
    split
    · rename_i hx
      rw [hx]
    · rw [← h]
  rw [put, put_same, hagain, put, put, Function.update_idem]

variable (program : Id)

theorem applyDiffs_local (ids : List Id) (diffs : List (AccountStateDiff Id D))
    (hd : ∀ diff ∈ diffs, diff.preState.accountId ∈ ids) (w u w' : World Id D)
    (hu : AgreeOn ids w u) (h : applyDiffs program w diffs = .ok w') :
    applyDiffs program u diffs = .ok (splice ids w' u) ∧ ∀ id, id ∉ ids → w' id = w id := by
  induction diffs generalizing w u with
  | nil =>
    simp only [applyDiffs_nil, Except.ok.injEq] at h ⊢
    subst h
    exact ⟨(hu.splice_eq ids w u).symm, fun _ _ => rfl⟩
  | cons diff diffs ih =>
    have hmem := hd diff (List.mem_cons_self ..)
    have hrest := fun d hd' => hd d (List.mem_cons_of_mem _ hd')
    obtain ⟨pre, data⟩ := diff
    cases data with
    | none => exact ih hrest w u hu h
    | some data =>
      obtain ⟨hm, h⟩ := (applyDiffs_new program w w' pre data diffs).mp h
      have hput : AgreeOn ids (put program w pre.accountId data)
          (put program u pre.accountId data) := by
        intro id hid
        by_cases hx : id = pre.accountId
        · rw [hx, put_same, put_same, hu _ hmem]
        · rw [put_other _ _ _ _ _ hx, put_other _ _ _ _ _ hx, hu id hid]
      obtain ⟨h1, h2⟩ := ih hrest _ _ hput h
      have hne : ∀ id, id ∉ ids → id ≠ pre.accountId := fun id hid he => hid (he ▸ hmem)
      constructor
      · refine (applyDiffs_new program u _ pre data diffs).mpr ⟨by rw [hu _ hmem]; exact hm, ?_⟩
        rw [h1, Except.ok.injEq]
        funext id
        by_cases hid : id ∈ ids
        · rw [splice_of_mem _ _ _ _ hid, splice_of_mem _ _ _ _ hid]
        · rw [splice_of_not_mem _ _ _ _ hid, splice_of_not_mem _ _ _ _ hid,
            put_other _ _ _ _ _ (hne id hid)]
      · intro id hid
        rw [h2 id hid, put_other _ _ _ _ _ (hne id hid)]

theorem AgreeOn.views (ids authority : List Id) (w u : World Id D) (h : AgreeOn ids w u) :
    ids.map (view u authority) = ids.map (view w authority) :=
  List.map_congr_left fun id hid => by rw [view, view, h id hid]

/-- An execution whose diffs are of its own accounts neither reads nor writes any other. -/
theorem execute_local {Call : Type} (authority ids : List Id)
    (handler : List (AccountWithMetadata Id D) → Outcome (List (AccountStateDiff Id D) × List Call))
    (hf : ∀ accounts diffs calls, handler accounts = .ok (diffs, calls) →
      ∀ diff ∈ diffs, diff.preState ∈ accounts)
    (w u w' : World Id D) (calls : List Call) (hu : AgreeOn ids w u)
    (h : execute program w authority ids handler = .ok (w', calls)) :
    execute program u authority ids handler = .ok (splice ids w' u, calls) ∧
      ∀ id, id ∉ ids → w' id = w id := by
  obtain ⟨hn, diffs, hh, ha⟩ := (execute_eq_ok _ _ _ _ _ _ _).mp h
  have hd : ∀ diff ∈ diffs, diff.preState.accountId ∈ ids := by
    intro diff hdiff
    obtain ⟨id, hid, he⟩ := List.mem_map.mp (hf _ _ _ hh diff hdiff)
    rw [← he]
    exact hid
  obtain ⟨h1, h2⟩ := applyDiffs_local program ids diffs hd w u w' hu ha
  refine ⟨(execute_eq_ok _ _ _ _ _ _ _).mpr ⟨hn, diffs, ?_, h1⟩, h2⟩
  rw [hu.views]
  exact hh

end

section
variable {Id D : Type} [DecidableEq Id] [DecidableEq D] [Inhabited Id] [Inhabited D]
variable [AccountType D (Token.TokenDefinition Id)] [AccountType D (Token.TokenHolding Id)]
variable [AccountType D (Token.TokenMetadata Id)]
open Token

theorem mintInner_preStates (definition holding : AccountWithMetadata Id D)
    (authority : Option (AccountWithMetadata Id D)) (n : U128) (self : Id)
    (diffs : List (AccountStateDiff Id D))
    (h : mintInner definition holding authority n self = .ok diffs) :
    ∀ diff ∈ diffs, diff.preState ∈ definition :: holding :: authority.toList := by
  simp only [mintInner, bind_eq_ok, ensure_eq_ok, exists_const, expect_eq_ok, pure_eq_ok,
    Prod.exists] at h
  obtain ⟨-, _, -, _, -, _, -, -, _, _, -, rfl⟩ := h
  cases authority <;> simp [AccountStateDiff.new, AccountStateDiff.unchanged]

theorem setAuthorityInner_preStates (definition : AccountWithMetadata Id D)
    (authority : Option (AccountWithMetadata Id D)) (new : Option Id) (self : Id)
    (diffs : List (AccountStateDiff Id D))
    (h : setAuthorityInner definition authority new self = .ok diffs) :
    ∀ diff ∈ diffs, diff.preState ∈ definition :: authority.toList := by
  simp only [setAuthorityInner, bind_eq_ok, ensure_eq_ok, exists_const, expect_eq_ok,
    pure_eq_ok] at h
  obtain ⟨-, _, -, _, -, _, -, rfl⟩ := h
  cases authority <;> simp [AccountStateDiff.new, AccountStateDiff.unchanged]

/-- The token program answers with diffs of the accounts it was given. -/
theorem token_preStates (self : Id) (accounts : List (AccountWithMetadata Id D))
    (instruction : Token.Instruction Id) (diffs : List (AccountStateDiff Id D))
    (h : Token.main self accounts instruction = .ok diffs) :
    ∀ diff ∈ diffs, diff.preState ∈ accounts := by
  unfold Token.main at h
  split at h
  · simp only [transfer, bind_eq_ok, ensure_eq_ok, exists_const, expect_eq_ok, pure_eq_ok,
      Prod.exists] at h
    obtain ⟨-, _, -, _, -, -, _, _, -, rfl⟩ := h
    simp [AccountStateDiff.new]
  · simp only [newFungibleDefinition, bind_eq_ok, ensure_eq_ok, exists_const, pure_eq_ok] at h
    obtain ⟨-, -, -, -, _, -, rfl⟩ := h
    simp [AccountStateDiff.new]
  · simp only [newDefinitionWithMetadata, bind_eq_ok, ensure_eq_ok, exists_const, pure_eq_ok,
      Prod.exists] at h
    obtain ⟨-, -, -, -, -, -, _, _, -, rfl⟩ := h
    simp [AccountStateDiff.new]
  · simp only [initializeAccount, bind_eq_ok, ensure_eq_ok, exists_const, expect_eq_ok,
      pure_eq_ok] at h
    obtain ⟨-, -, -, _, -, rfl⟩ := h
    simp [AccountStateDiff.new, AccountStateDiff.unchanged]
  · simp only [burn, bind_eq_ok, ensure_eq_ok, exists_const, expect_eq_ok, pure_eq_ok,
      Prod.exists] at h
    obtain ⟨-, _, -, _, -, -, _, _, -, rfl⟩ := h
    simp [AccountStateDiff.new]
  · exact mintInner_preStates _ _ _ _ _ _ h
  · exact mintInner_preStates _ _ _ _ _ _ h
  · simp only [printNft, bind_eq_ok, ensure_eq_ok, exists_const, expect_eq_ok] at h
    obtain ⟨-, -, -, _, -, h⟩ := h
    split at h
    · simp only [bind_eq_ok, ensure_eq_ok, exists_const, expect_eq_ok, pure_eq_ok] at h
      obtain ⟨-, _, -, rfl⟩ := h
      simp [AccountStateDiff.new]
    · exact absurd h (error_ne_ok _ _)
  · exact setAuthorityInner_preStates _ _ _ _ _ h
  · exact setAuthorityInner_preStates _ _ _ _ _ h
  · exact absurd h (error_ne_ok _ _)

end

section
variable (tickMath : TwapOracle.TickMath)

theorem dispatch_token_preStates (now : U64) (programId : AccountId)
    (instruction : Token.Instruction AccountId) (accounts : List InputAccount)
    (diffs : List StateDiff) (calls : List ChainedCall)
    (h : dispatch tickMath now programId (.token instruction) accounts = .ok (diffs, calls)) :
    calls = [] ∧ ∀ diff ∈ diffs, diff.preState ∈ accounts := by
  simp only [dispatch, bind_eq_ok, ensure_eq_ok, exists_const, pure_eq_ok, Prod.mk.injEq] at h
  obtain ⟨-, diffs', hm, rfl, rfl⟩ := h
  exact ⟨rfl, token_preStates _ _ _ _ hm⟩

/-- A token call is one execution. -/
theorem invoke_token (depth : ℕ) (w : Accounts) (authority : List AccountId) (call : ChainedCall)
    (instruction : Token.Instruction AccountId) (hi : call.instruction = .token instruction) :
    invoke tickMath (depth + 1) w authority call
      = (execute call.programId w authority call.accountIds
          (dispatch tickMath (blockTimestamp w) call.programId (.token instruction))).map
            Prod.fst := by
  rw [invoke, hi]
  cases hv : execute call.programId w authority call.accountIds
      (dispatch tickMath (blockTimestamp w) call.programId (.token instruction)) with
  | error m => rfl
  | ok r =>
    obtain ⟨v, calls⟩ := r
    obtain ⟨-, diffs, hh, -⟩ := (execute_eq_ok _ _ _ _ _ _ _).mp hv
    obtain ⟨rfl, -⟩ := dispatch_token_preStates tickMath _ _ _ _ _ _ hh
    rfl

/-- A token call only depends on its own accounts, and only changes these. -/
theorem invoke_token_local (depth : ℕ) (authority : List AccountId) (call : ChainedCall)
    (instruction : Token.Instruction AccountId) (hi : call.instruction = .token instruction)
    (w u w' : Accounts) (hu : AgreeOn call.accountIds w u)
    (h : invoke tickMath depth w authority call = .ok w') :
    invoke tickMath depth u authority call = .ok (splice call.accountIds w' u) ∧
      ∀ id, id ∉ call.accountIds → w' id = w id := by
  cases depth with
  | zero => exact absurd h (error_ne_ok _ _)
  | succ depth =>
    simp only [invoke, bind_eq_ok, Prod.exists, hi] at h ⊢
    obtain ⟨v, calls, hv, h⟩ := h
    obtain ⟨-, diffs, hh, -⟩ := (execute_eq_ok _ _ _ _ _ _ _).mp hv
    obtain ⟨rfl, -⟩ := dispatch_token_preStates tickMath _ _ _ _ _ _ hh
    rw [List.foldlM_nil, pure_eq_ok] at h
    subst h
    obtain ⟨h1, h2⟩ := execute_local _ _ _ _
      (fun _ _ _ hd => (dispatch_token_preStates tickMath _ _ _ _ _ _ hd).2) w u v [] hu hv
    exact ⟨⟨_, [], h1, rfl⟩, h2⟩

def settle (depth : ℕ) (callerId : AccountId) (authority : List AccountId) (w : Accounts)
    (calls : List ChainedCall) : Outcome Accounts :=
  calls.foldlM (fun w chained =>
    invoke tickMath depth w (callAuthority authority callerId chained) chained) w

/-- Token calls whose accounts are among `ids` only depend on these, and only change these. -/
theorem settle_local (depth : ℕ) (callerId : AccountId) (authority ids : List AccountId)
    (calls : List ChainedCall)
    (hl : ∀ call ∈ calls, (∃ i, call.instruction = .token i) ∧ ∀ id ∈ call.accountIds, id ∈ ids)
    (w u w' : Accounts) (hu : AgreeOn ids w u)
    (h : settle tickMath depth callerId authority w calls = .ok w') :
    settle tickMath depth callerId authority u calls = .ok (splice ids w' u) ∧
      ∀ id, id ∉ ids → w' id = w id := by
  induction calls generalizing w u with
  | nil =>
    rw [settle, List.foldlM_nil, pure_eq_ok] at h ⊢
    subst h
    exact ⟨(hu.splice_eq ids w u).symm, fun _ _ => rfl⟩
  | cons call calls ih =>
    rw [settle, List.foldlM_cons, bind_eq_ok] at h ⊢
    obtain ⟨v, hv, h⟩ := h
    obtain ⟨⟨i, hi⟩, hsub⟩ := hl call (List.mem_cons_self ..)
    obtain ⟨h1, h2⟩ := invoke_token_local tickMath depth _ call i hi w u v
      (fun id hid => hu id (hsub id hid)) hv
    have hv' : AgreeOn ids v (splice call.accountIds v u) := by
      intro id hid
      by_cases hc : id ∈ call.accountIds
      · rw [splice_of_mem _ _ _ _ hc]
      · rw [splice_of_not_mem _ _ _ _ hc, hu id hid, h2 id hc]
    obtain ⟨h3, h4⟩ := ih (fun c hc => hl c (List.mem_cons_of_mem _ hc)) v _ hv' h
    refine ⟨⟨_, h1, h3.trans ?_⟩, fun id hid => ?_⟩
    · rw [Except.ok.injEq]
      funext id
      by_cases hid : id ∈ ids
      · rw [splice_of_mem _ _ _ _ hid, splice_of_mem _ _ _ _ hid]
      · rw [splice_of_not_mem _ _ _ _ hid, splice_of_not_mem _ _ _ _ hid,
          splice_of_not_mem _ _ _ _ fun hc => hid (hsub id hc)]
    · rw [h4 id hid, h2 id fun hc => hid (hsub id hc)]

/-- Such calls and a write at another account may go in either order. -/
theorem settle_put (depth : ℕ) (callerId : AccountId) (authority ids : List AccountId)
    (calls : List ChainedCall)
    (hl : ∀ call ∈ calls, (∃ i, call.instruction = .token i) ∧ ∀ id ∈ call.accountIds, id ∈ ids)
    (program : AccountId) (w w' : Accounts) (id : AccountId) (data : Data) (hid : id ∉ ids) :
    settle tickMath depth callerId authority (put program w id data) calls = .ok w' ↔
      ∃ u, settle tickMath depth callerId authority w calls = .ok u ∧
        w' = put program u id data := by
  have hother : ∀ x ∈ ids, put program w id data x = w x :=
    fun x hx => put_other _ _ _ _ _ fun he => hid (he ▸ hx)
  constructor
  · intro h
    obtain ⟨h1, h2⟩ := settle_local tickMath depth callerId authority ids calls hl
      (put program w id data) w w' (fun x hx => (hother x hx).symm) h
    refine ⟨_, h1, ?_⟩
    funext x
    by_cases hx : x = id
    · subst hx
      rw [put_same, splice_of_not_mem _ _ _ _ hid, h2 x hid, put_same]
    · rw [put_other _ _ _ _ _ hx]
      by_cases hm : x ∈ ids
      · rw [splice_of_mem _ _ _ _ hm]
      · rw [splice_of_not_mem _ _ _ _ hm, h2 x hm, put_other _ _ _ _ _ hx]
  · rintro ⟨u, h, rfl⟩
    obtain ⟨h1, h2⟩ := settle_local tickMath depth callerId authority ids calls hl w
      (put program w id data) u hother h
    rw [h1, Except.ok.injEq]
    funext x
    by_cases hx : x = id
    · subst hx
      rw [put_same, splice_of_not_mem _ _ _ _ hid, h2 x hid, put_same]
    · rw [put_other _ _ _ _ _ hx]
      by_cases hm : x ∈ ids
      · rw [splice_of_mem _ _ _ _ hm]
      · rw [splice_of_not_mem _ _ _ _ hm, h2 x hm, put_other _ _ _ _ _ hx]

end

end LezPrograms.Lee
