import LezPrograms.Lee.AccessLists

/-! # Independent transactions

What a transaction does depends on its accounts and on the clock, and it changes its
accounts only, however deep its calls go. So transactions of which none changes an
account that another one names have the same outcome in any order. -/

set_option autoImplicit false

namespace LezPrograms.Lee
open LezPrograms.Checked LezPrograms.Locality

def LocalOn (ids : List AccountId) (f : Accounts → Outcome Accounts) : Prop :=
  ∀ w u w', AgreeOn (clock01ProgramAccountId :: ids) w u → f w = .ok w' →
    f u = .ok (splice ids w' u) ∧ ∀ id, id ∉ ids → w' id = w id

/-- The worlds that a local computation leaves agree where the ones that it found did. -/
theorem agreeOn_splice (ids : List AccountId) (w u w' : Accounts)
    (hu : AgreeOn (clock01ProgramAccountId :: ids) w u) (hframe : ∀ id, id ∉ ids → w' id = w id) :
    AgreeOn (clock01ProgramAccountId :: ids) w' (splice ids w' u) := by
  intro id hid
  by_cases hm : id ∈ ids
  · rw [splice_of_mem _ _ _ _ hm]
  · rw [splice_of_not_mem _ _ _ _ hm, hu id hid, hframe id hm]

theorem LocalOn.mono (ids jds : List AccountId) (f : Accounts → Outcome Accounts)
    (h : LocalOn ids f) (hsub : ∀ id ∈ ids, id ∈ jds) : LocalOn jds f := by
  intro w u w' hu hf
  have hu' : AgreeOn (clock01ProgramAccountId :: ids) w u := by
    intro id hid
    rcases List.mem_cons.mp hid with rfl | hid
    · exact hu _ (List.mem_cons_self ..)
    · exact hu id (List.mem_cons_of_mem _ (hsub id hid))
  obtain ⟨hok, hframe⟩ := h w u w' hu' hf
  refine ⟨hok.trans ?_, fun id hid => hframe id fun hm => hid (hsub id hm)⟩
  rw [Except.ok.injEq]
  funext id
  by_cases hm : id ∈ ids
  · rw [splice_of_mem _ _ _ _ hm, splice_of_mem _ _ _ _ (hsub id hm)]
  · rw [splice_of_not_mem _ _ _ _ hm]
    by_cases hj : id ∈ jds
    · rw [splice_of_mem _ _ _ _ hj, hframe id hm, hu id (List.mem_cons_of_mem _ hj)]
    · rw [splice_of_not_mem _ _ _ _ hj]

/-- Local computations one after the other. -/
theorem LocalOn.foldlM {α : Type} (ids : List AccountId) (f : Accounts → α → Outcome Accounts)
    (items : List α) (h : ∀ item ∈ items, LocalOn ids fun w => f w item) :
    LocalOn ids fun w => items.foldlM f w := by
  induction items with
  | nil =>
    intro w u w' hu hf
    simp only [List.foldlM_nil, pure_eq_ok] at hf ⊢
    subst hf
    exact ⟨(AgreeOn.splice_eq ids w u fun id hid => hu id (List.mem_cons_of_mem _ hid)).symm,
      fun _ _ => rfl⟩
  | cons item items ih =>
    intro w u w' hu hf
    simp only [List.foldlM_cons, bind_eq_ok] at hf
    obtain ⟨v, hv, hf⟩ := hf
    obtain ⟨hfirst, hframe⟩ := h item (List.mem_cons_self ..) w u v hu hv
    obtain ⟨hrest, hframe'⟩ := ih (fun i hi => h i (List.mem_cons_of_mem _ hi)) v _ w'
      (agreeOn_splice ids w u v hu hframe) hf
    refine ⟨?_, fun id hid => (hframe' id hid).trans (hframe id hid)⟩
    simp only [List.foldlM_cons, hfirst, ok_bind]
    refine hrest.trans ?_
    rw [Except.ok.injEq]
    funext id
    by_cases hm : id ∈ ids
    · rw [splice_of_mem _ _ _ _ hm, splice_of_mem _ _ _ _ hm]
    · rw [splice_of_not_mem _ _ _ _ hm, splice_of_not_mem _ _ _ _ hm, splice_of_not_mem _ _ _ _ hm]

/-- An invocation uses the accounts of its call and the clock. -/
theorem invoke_local (tickMath : TwapOracle.TickMath) (depth : ℕ) :
    ∀ (authority : List AccountId) (call : ChainedCall),
      LocalOn call.accountIds fun w => invoke tickMath depth w authority call := by
  induction depth with
  | zero => exact fun authority call w u w' _ h => absurd h (error_ne_ok _ _)
  | succ depth ih =>
    intro authority call w u w' hu h
    simp only [invoke, bind_eq_ok, Prod.exists] at h
    obtain ⟨v, calls, hv, h⟩ := h
    have hnow : blockTimestamp u = blockTimestamp w := by
      rw [blockTimestamp, blockTimestamp, hu _ (List.mem_cons_self ..)]
    have hagree : AgreeOn call.accountIds w u := fun id hid => hu id (List.mem_cons_of_mem _ hid)
    obtain ⟨-, diffs, hh, -⟩ := (execute_eq_ok _ _ _ _ _ _ _).mp hv
    have hcalls := (dispatch_confined tickMath _ _ _ _ diffs calls hh).calls
    obtain ⟨hexecuted, hframe⟩ := execute_local _ _ _ _
      (fun accounts diffs calls hd => (dispatch_confined tickMath _ _ _ accounts diffs calls hd).diffs)
      w u v calls hagree hv
    -- the chained calls name accounts of this call, and see the same clock
    have hsettle : LocalOn call.accountIds fun w => calls.foldlM (fun w chained =>
        invoke tickMath depth w (callAuthority authority call.programId chained) chained) w := by
      refine LocalOn.foldlM _ _ calls fun chained hc =>
        (ih (callAuthority authority call.programId chained) chained).mono _ _ _ fun id hid => ?_
      simpa [Function.comp_def] using hcalls chained hc id hid
    obtain ⟨hrest, hframe'⟩ := hsettle v _ w' (agreeOn_splice _ w u v hu hframe) h
    refine ⟨?_, fun id hid => (hframe' id hid).trans (hframe id hid)⟩
    simp only [invoke, hnow, hexecuted, ok_bind]
    refine hrest.trans ?_
    rw [Except.ok.injEq]
    funext id
    by_cases hm : id ∈ call.accountIds
    · rw [splice_of_mem _ _ _ _ hm, splice_of_mem _ _ _ _ hm]
    · rw [splice_of_not_mem _ _ _ _ hm, splice_of_not_mem _ _ _ _ hm, splice_of_not_mem _ _ _ _ hm]

structure Transaction where
  authority : List AccountId
  call : ChainedCall

def Transaction.event (t : Transaction) : Event := .transaction t.authority t.call

def Transaction.uses (t : Transaction) : List AccountId :=
  clock01ProgramAccountId :: t.call.accountIds

section
variable (platform : Platform)

theorem transact_local (t : Transaction) :
    LocalOn t.call.accountIds fun w => transact platform w t.authority t.call := by
  intro w u w' hu h
  simp only [transact, bind_eq_ok, ensure_eq_ok, exists_const] at h ⊢
  obtain ⟨hok, hframe⟩ := invoke_local platform.tickMath platform.callDepth t.authority t.call w u w'
    hu h.2
  exact ⟨⟨h.1, hok⟩, hframe⟩

theorem Transaction.apply_local (t : Transaction) (w u : Accounts) (hu : AgreeOn t.uses w u) :
    t.event.apply platform u = splice t.call.accountIds (t.event.apply platform w) u ∧
      (∀ id, id ∉ t.call.accountIds → t.event.apply platform w id = w id) ∧
      (transact platform u t.authority t.call).toBool
        = (transact platform w t.authority t.call).toBool := by
  have hback : AgreeOn t.uses u w := fun id hid => (hu id hid).symm
  cases hw : transact platform w t.authority t.call with
  | ok w' =>
    obtain ⟨hok, hframe⟩ := transact_local platform t w u w' hu hw
    have hok : transact platform u t.authority t.call = .ok (splice t.call.accountIds w' u) := hok
    simp only [Transaction.event, Event.apply, hw, hok]
    exact ⟨trivial, hframe, rfl⟩
  | error m =>
    cases hv : transact platform u t.authority t.call with
    | ok u' =>
      obtain ⟨hok, -⟩ := transact_local platform t u w u' hback hv
      exact absurd (hw.symm.trans hok) (error_ne_ok _ _)
    | error m' =>
      simp only [Transaction.event, Event.apply, hw, hv]
      exact ⟨(AgreeOn.splice_eq _ _ _ fun id hid => hu id (List.mem_cons_of_mem _ hid)).symm,
        fun _ _ => trivial, rfl⟩

def Transaction.action (t : Transaction) : Action AccountId (Account AccountId Data) where
  uses := {id | id ∈ t.uses}
  act := t.event.apply platform
  frame := fun w id hid => (t.apply_local platform w w fun _ _ => rfl).2.1 id
    fun hm => hid (List.mem_cons_of_mem _ hm)
  reads := by
    intro w u hu id hid
    obtain ⟨he, hframe, -⟩ := t.apply_local platform w u fun id hid => hu id hid
    rw [he]
    by_cases hm : id ∈ t.call.accountIds
    · rw [splice_of_mem _ _ _ _ hm]
    · rw [splice_of_not_mem _ _ _ _ hm, hframe id hm, hu id hid]

structure Transaction.Independent (w : Accounts) (s t : Transaction) : Prop where
  spares : ∀ id ∈ t.uses, s.event.apply platform w id = w id
  spared : ∀ id ∈ s.uses, t.event.apply platform w id = w id

theorem run_transactions (w : Accounts) (batch : List Transaction) :
    run platform w (batch.map Transaction.event)
      = perform w (batch.map (Transaction.action platform)) := by
  induction batch generalizing w with
  | nil => rfl
  | cons t batch ih => exact ih _

theorem pairwise_actions (w : Accounts) (batch : List Transaction)
    (h : batch.Pairwise (Transaction.Independent platform w)) :
    (batch.map (Transaction.action platform)).Pairwise (Locality.Independent w) :=
  List.pairwise_map.mpr (h.imp fun hst => ⟨hst.spares, hst.spared⟩)

/-- What a transaction does depends on the accounts that it names and on the clock: in worlds that
agree there it succeeds or fails alike and leaves the same accounts, and it changes no account
that it does not name. -/
theorem transactions_keep_to_their_accounts (w u : Accounts) (authority : List AccountId)
    (call : ChainedCall) (h : AgreeOn (clock01ProgramAccountId :: call.accountIds) w u) :
    (transact platform u authority call).toBool = (transact platform w authority call).toBool ∧
    (∀ id ∈ call.accountIds, Event.apply platform u (.transaction authority call) id
      = Event.apply platform w (.transaction authority call) id) ∧
    ∀ id, id ∉ call.accountIds → Event.apply platform u (.transaction authority call) id = u id := by
  obtain ⟨he, -, hsucceeds⟩ := Transaction.apply_local platform ⟨authority, call⟩ w u h
  refine ⟨hsucceeds, fun id hid => ?_, fun id hid => ?_⟩
  · exact (congrFun he id).trans (splice_of_mem _ _ _ _ hid)
  · exact (congrFun he id).trans (splice_of_not_mem _ _ _ _ hid)

/-- Pairwise independent transactions may go in any order. Each succeeds or fails as it would on
its own, what it changes is what it would have changed on its own, and nothing else changes. -/
theorem independent_transactions_in_any_order (w : Accounts) (batch batch' : List Transaction)
    (hp : batch.Perm batch') (h : batch.Pairwise (Transaction.Independent platform w)) :
    run platform w (batch'.map Transaction.event) = run platform w (batch.map Transaction.event) ∧
    (∀ t ∈ batch, ∀ id, t.event.apply platform w id ≠ w id →
      run platform w (batch.map Transaction.event) id = t.event.apply platform w id) ∧
    (∀ id, (∀ t ∈ batch, t.event.apply platform w id = w id) →
      run platform w (batch.map Transaction.event) id = w id) ∧
    ∀ earlier t later, batch' = earlier ++ t :: later →
      (transact platform (run platform w (earlier.map Transaction.event)) t.authority t.call).toBool
        = (transact platform w t.authority t.call).toBool := by
  have hactions := pairwise_actions platform w batch h
  refine ⟨?_, fun t ht id hne => ?_, fun id hall => ?_, fun earlier t later hb => ?_⟩
  · rw [run_transactions, run_transactions]
    exact (perform_perm w _ _ (hp.map _) hactions).symm
  · rw [run_transactions]
    exact (perform_independent _ w hactions id).1 (t.action platform)
      (List.mem_map_of_mem ht) hne
  · rw [run_transactions]
    refine (perform_independent _ w hactions id).2 fun a ha => ?_
    obtain ⟨t, ht, rfl⟩ := List.mem_map.mp ha
    exact hall t ht
  · have h' : batch'.Pairwise (Transaction.Independent platform w) :=
      hp.pairwise h fun hst => ⟨hst.spared, hst.spares⟩
    rw [hb] at h'
    obtain ⟨-, -, hcross⟩ := List.pairwise_append.mp h'
    have hearlier : (t :: earlier).Pairwise (Transaction.Independent platform w) := by
      refine List.pairwise_cons.mpr ⟨fun s hs => ?_, (List.pairwise_append.mp h').1⟩
      have hst := hcross s hs t (List.mem_cons_self ..)
      exact ⟨hst.spared, hst.spares⟩
    have hspares := perform_spares w (t.action platform)
      (earlier.map (Transaction.action platform)) (pairwise_actions platform w _ hearlier)
    rw [run_transactions]
    exact (t.apply_local platform w _ fun id hid => hspares id hid).2.2

end

def definitionAt (k : ℕ) : Transaction :=
  ⟨[.key k, .key (k + 1)], ⟨tokenProgramId, [.key k, .key (k + 1)],
    .token (.newFungibleDefinition "AAA" 1000 none), []⟩⟩

def crowdedWorld : Accounts := fun id =>
  if id = .key 77 then ⟨.key 78, 5, .foreign 3, 0⟩ else (clockedGenesis 0).world id

theorem definition_keeps_to_its_accounts :
    (transact tablePlatform crowdedWorld (definitionAt 30).authority (definitionAt 30).call).toBool
        = true ∧
      (definitionAt 30).event.apply tablePlatform crowdedWorld (.key 77) = crowdedWorld (.key 77) := by
  obtain ⟨hsucceeds, -, hothers⟩ := transactions_keep_to_their_accounts tablePlatform
    (clockedGenesis 0).world crowdedWorld (definitionAt 30).authority (definitionAt 30).call
    (by unfold AgreeOn; decide +kernel)
  exact ⟨hsucceeds.trans (by decide +kernel), hothers (.key 77) (by decide +kernel)⟩

theorem definitions_in_any_order :
    run tablePlatform (clockedGenesis 0).world [(definitionAt 40).event, (definitionAt 30).event]
      = run tablePlatform (clockedGenesis 0).world [(definitionAt 30).event, (definitionAt 40).event] :=
  (independent_transactions_in_any_order tablePlatform (clockedGenesis 0).world
    [definitionAt 30, definitionAt 40] [definitionAt 40, definitionAt 30] (.swap _ _ _)
    (List.pairwise_pair.mpr ⟨by decide +kernel, by decide +kernel⟩)).1

end LezPrograms.Lee
