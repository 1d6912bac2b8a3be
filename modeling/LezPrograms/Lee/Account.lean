import LezPrograms.Checked
import Mathlib.Logic.Function.Basic

/-! # Accounts and state diffs

A program sees its accounts together with their authorization and answers with
one diff for each of them. The runtime checks that a diff changes data only in
accounts the program owns or nobody owns, and makes the program the owner of
every account it changes. Identifiers and account data are left abstract; a
typed value is stored through `AccountType`. -/

set_option autoImplicit false
set_option linter.unusedSectionVars false

namespace LezPrograms.Lee
open LezPrograms.Checked

structure Account (Id D : Type) where
  programOwner : Id
  balance : ℕ
  data : D
  nonce : ℕ
deriving DecidableEq

structure AccountWithMetadata (Id D : Type) where
  account : Account Id D
  isAuthorized : Bool
  accountId : Id
deriving DecidableEq

/-- The change a program makes to one account. No program here moves native balance, so
the balance change of the source, `BalanceDiff::Add(0)`, is left out. -/
structure AccountStateDiff (Id D : Type) where
  preState : AccountWithMetadata Id D
  postData : Option D
deriving DecidableEq

class AccountType (D T : Type) where
  data : T → D
  tryFrom : D → Option T
  tryFrom_data : ∀ t, tryFrom (data t) = some t

export AccountType (tryFrom)

section
variable {Id D : Type}

instance [Inhabited Id] [Inhabited D] : Inhabited (Account Id D) :=
  ⟨⟨default, 0, default, 0⟩⟩

def AccountStateDiff.unchanged (a : AccountWithMetadata Id D) : AccountStateDiff Id D := ⟨a, none⟩

def AccountStateDiff.new (a : AccountWithMetadata Id D) (data : D) : AccountStateDiff Id D :=
  ⟨a, some data⟩

abbrev World (Id D : Type) := Id → Account Id D

variable [DecidableEq Id] [DecidableEq D] [Inhabited Id] [Inhabited D]

def view (w : World Id D) (authority : List Id) (id : Id) : AccountWithMetadata Id D :=
  ⟨w id, decide (id ∈ authority), id⟩

def MayWrite (program : Id) (account : Account Id D) (data : D) : Prop :=
  data = account.data ∨ account.programOwner = program ∨ account.programOwner = default

instance (program : Id) (account : Account Id D) (data : D) :
    Decidable (MayWrite program account data) := by
  unfold MayWrite
  infer_instance

/-- The account after the program left `data` in it. A change of data acquires ownership. -/
def writeData (program : Id) (account : Account Id D) (data : D) : Account Id D :=
  if data = account.data then account else { account with data := data, programOwner := program }

def put (program : Id) (w : World Id D) (id : Id) (data : D) : World Id D :=
  Function.update w id (writeData program (w id) data)

def applyDiff (program : Id) (w : World Id D) (diff : AccountStateDiff Id D) :
    Outcome (World Id D) :=
  match diff.postData with
  | none => .ok w
  | some data => do
    ensure (MayWrite program (w diff.preState.accountId) data) "account is not owned by the program"
    pure (put program w diff.preState.accountId data)

def applyDiffs (program : Id) : World Id D → List (AccountStateDiff Id D) → Outcome (World Id D)
  | w, [] => .ok w
  | w, diff :: diffs => do
    let w ← applyDiff program w diff
    applyDiffs program w diffs

def execute {Call : Type} (program : Id) (w : World Id D) (authority ids : List Id)
    (handler : List (AccountWithMetadata Id D) → Outcome (List (AccountStateDiff Id D) × List Call)) :
    Outcome (World Id D × List Call) := do
  ensure ids.Nodup "accounts of an instruction must be distinct"
  let (diffs, calls) ← handler (ids.map (view w authority))
  let w ← applyDiffs program w diffs
  pure (w, calls)

@[simp] theorem view_account (w : World Id D) (authority : List Id) (id : Id) :
    (view w authority id).account = w id := rfl

@[simp] theorem view_accountId (w : World Id D) (authority : List Id) (id : Id) :
    (view w authority id).accountId = id := rfl

@[simp] theorem view_isAuthorized (w : World Id D) (authority : List Id) (id : Id) :
    ((view w authority id).isAuthorized = true) ↔ id ∈ authority := by
  simp [view]

@[simp] theorem put_same (program : Id) (w : World Id D) (id : Id) (data : D) :
    put program w id data id = writeData program (w id) data := by
  simp [put]

theorem put_other (program : Id) (w : World Id D) (id other : Id) (data : D) (h : other ≠ id) :
    put program w id data other = w other := by
  simp [put, h]

@[simp] theorem writeData_data (program : Id) (a : Account Id D) (data : D) :
    (writeData program a data).data = data := by
  unfold writeData
  split <;> simp_all

theorem writeData_owner_of_ne (program : Id) (a : Account Id D) (data : D) (h : data ≠ a.data) :
    (writeData program a data).programOwner = program := by
  simp [writeData, h]

theorem writeData_owner (program : Id) (a : Account Id D) (data : D)
    (h : a.programOwner = program) : (writeData program a data).programOwner = program := by
  unfold writeData
  split
  · exact h
  · rfl

theorem writeData_same (program : Id) (a : Account Id D) : writeData program a a.data = a := by
  simp [writeData]

@[simp] theorem applyDiffs_nil (program : Id) (w : World Id D) :
    applyDiffs program w [] = .ok w := rfl

@[simp] theorem applyDiffs_unchanged (program : Id) (w : World Id D)
    (a : AccountWithMetadata Id D) (diffs : List (AccountStateDiff Id D)) :
    applyDiffs program w (.unchanged a :: diffs) = applyDiffs program w diffs := rfl

theorem applyDiff_new (program : Id) (w : World Id D) (a : AccountWithMetadata Id D) (data : D) :
    applyDiff program w (.new a data) = (do
      ensure (MayWrite program (w a.accountId) data) "account is not owned by the program"
      pure (put program w a.accountId data)) := rfl

theorem applyDiffs_new (program : Id) (w w' : World Id D) (a : AccountWithMetadata Id D)
    (data : D) (diffs : List (AccountStateDiff Id D)) :
    applyDiffs program w (.new a data :: diffs) = .ok w' ↔
      MayWrite program (w a.accountId) data ∧
        applyDiffs program (put program w a.accountId data) diffs = .ok w' := by
  simp only [applyDiffs, applyDiff_new, bind_eq_ok, ensure_eq_ok, exists_const, pure_eq_ok]
  constructor
  · rintro ⟨_, ⟨hm, rfl⟩, h⟩
    exact ⟨hm, h⟩
  · rintro ⟨hm, h⟩
    exact ⟨_, ⟨hm, rfl⟩, h⟩

theorem execute_eq_ok {Call : Type} (program : Id) (w w' : World Id D) (authority ids : List Id)
    (handler : List (AccountWithMetadata Id D) → Outcome (List (AccountStateDiff Id D) × List Call))
    (calls : List Call) :
    execute program w authority ids handler = .ok (w', calls) ↔
      ids.Nodup ∧ ∃ diffs, handler (ids.map (view w authority)) = .ok (diffs, calls) ∧
        applyDiffs program w diffs = .ok w' := by
  simp only [execute, bind_eq_ok, ensure_eq_ok, exists_const, pure_eq_ok, Prod.exists,
    Prod.mk.injEq]
  constructor
  · rintro ⟨hn, diffs, calls', hh, w'', ha, rfl, rfl⟩
    exact ⟨hn, diffs, hh, ha⟩
  · rintro ⟨hn, diffs, hh, ha⟩
    exact ⟨hn, diffs, calls, hh, w', ha, rfl, rfl⟩

theorem applyDiffs_eq_error (program : Id) (w : World Id D) (diffs : List (AccountStateDiff Id D))
    (m : String) (h : applyDiffs program w diffs = .error m) :
    m = "account is not owned by the program" := by
  induction diffs generalizing w with
  | nil => cases h
  | cons diff diffs ih =>
    rw [applyDiffs, bind_eq_error] at h
    rcases h with h | ⟨v, -, h⟩
    · unfold applyDiff at h
      split at h
      · cases h
      · simp only [bind_eq_error, ensure_eq_error, pure_eq_error, and_false, exists_false,
          or_false] at h
        exact h.2.symm
    · exact ih v h

/-- Only accounts that `program` owned or nobody owned differ, and `program` owns them now. -/
def Frame (program : Id) (w w' : World Id D) : Prop :=
  ∀ id, w' id = w id ∨ (((w id).programOwner = program ∨ (w id).programOwner = default) ∧
    (w' id).programOwner = program)

theorem Frame.refl (program : Id) (w : World Id D) : Frame program w w := fun _ => Or.inl rfl

theorem Frame.trans (program : Id) (w v u : World Id D) (h : Frame program w v)
    (k : Frame program v u) : Frame program w u := by
  intro id
  rcases h id with h1 | ⟨h1, h1'⟩
  · rw [← h1]
    exact k id
  · rcases k id with h2 | ⟨-, h2⟩
    · exact Or.inr ⟨h1, by rw [h2]; exact h1'⟩
    · exact Or.inr ⟨h1, h2⟩

theorem Frame.owner_kept (program : Id) (w w' : World Id D) (h : Frame program w w') (id : Id)
    (ho : (w id).programOwner = program) : (w' id).programOwner = program := by
  rcases h id with h | ⟨-, h⟩
  · rw [h, ho]
  · exact h

theorem Frame.eq_of_owner (program : Id) (w w' : World Id D) (h : Frame program w w') (id : Id)
    (ho : (w id).programOwner ≠ program) (hd : (w id).programOwner ≠ default) :
    w' id = w id := by
  rcases h id with h | ⟨h | h, -⟩
  · exact h
  · exact absurd h ho
  · exact absurd h hd

theorem Frame.owner_of_ne (program : Id) (w w' : World Id D) (h : Frame program w w') (id : Id)
    (hne : (w' id).programOwner ≠ program) : w' id = w id := by
  rcases h id with h | ⟨-, h⟩
  · exact h
  · exact absurd h hne

theorem applyDiff_frame (program : Id) (w w' : World Id D) (diff : AccountStateDiff Id D)
    (h : applyDiff program w diff = .ok w') : Frame program w w' := by
  intro id
  unfold applyDiff at h
  split at h
  · simp only [Except.ok.injEq] at h
    exact Or.inl (by rw [h])
  · rename_i data _
    simp only [bind_eq_ok, ensure_eq_ok, exists_const, pure_eq_ok] at h
    obtain ⟨hm, rfl⟩ := h
    by_cases hid : id = diff.preState.accountId
    · subst hid
      rw [put_same]
      by_cases hd : data = (w diff.preState.accountId).data
      · exact Or.inl (by rw [hd, writeData_same])
      · exact Or.inr ⟨hm.resolve_left hd, writeData_owner_of_ne _ _ _ hd⟩
    · exact Or.inl (put_other _ _ _ _ _ hid)

theorem applyDiffs_frame (program : Id) (diffs : List (AccountStateDiff Id D))
    (w w' : World Id D) (h : applyDiffs program w diffs = .ok w') : Frame program w w' := by
  induction diffs generalizing w with
  | nil =>
    simp only [applyDiffs_nil, Except.ok.injEq] at h
    exact h ▸ Frame.refl program w
  | cons diff diffs ih =>
    simp only [applyDiffs, bind_eq_ok] at h
    obtain ⟨v, hv, hw⟩ := h
    exact (applyDiff_frame program w v diff hv).trans _ _ _ _ (ih v hw)

theorem execute_frame {Call : Type} (program : Id) (w w' : World Id D) (authority ids : List Id)
    (handler : List (AccountWithMetadata Id D) → Outcome (List (AccountStateDiff Id D) × List Call))
    (calls : List Call) (h : execute program w authority ids handler = .ok (w', calls)) :
    Frame program w w' := by
  obtain ⟨-, diffs, -, ha⟩ := (execute_eq_ok program w w' authority ids handler calls).mp h
  exact applyDiffs_frame program diffs w w' ha

end

end LezPrograms.Lee
