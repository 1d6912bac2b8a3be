import LezPrograms.Ata.Program
import LezPrograms.Token.Effects

/-! # Custody of associated token accounts

The key of an associated account reaches only the token program that the account was
derived for, in calls that its owner has authorized. Its balance therefore falls only
by what the owner transfers or burns. -/

set_option autoImplicit false

namespace LezPrograms.Ata
open LezPrograms.Checked LezPrograms.Lee LezPrograms.Lee.Machine LezPrograms.Token

/-- Token programs at some addresses, the associated token account program at another, and
anything else elsewhere. -/
structure Deployment where
  programs : OpenPrograms
  ataProgramId : AccountId
  tokenPrograms : AccountId → Prop
  ata : programs ataProgramId = program ataProgramId
  token : ∀ p, tokenPrograms p → programs p = tokenProgram p
  apart : ¬tokenPrograms ataProgramId
  deployed : ∀ p, tokenPrograms p → p ≠ default

def balanceUnder (p : AccountId) (w : Accounts) (x : AccountId) : ℕ :=
  match owned p w x with
  | some (.tokenHolding held) => held.units
  | _ => 0

theorem balanceUnder_eq (p : AccountId) (w : Accounts) (x : AccountId) (held : Holding)
    (howner : (w x).programOwner = p) (hdata : (w x).data = .tokenHolding held) :
    balanceUnder p w x = held.units := by
  rw [balanceUnder, (owned_eq_some p w x _).mpr ⟨howner, hdata⟩]

theorem held_of_balanceUnder (p : AccountId) (w : Accounts) (x : AccountId)
    (h : balanceUnder p w x ≠ 0) :
    ∃ held, (w x).programOwner = p ∧ (w x).data = .tokenHolding held := by
  unfold balanceUnder at h
  split at h
  · rename_i held heq
    exact ⟨held, (owned_eq_some p w x _).mp heq⟩
  · exact absurd rfl h

namespace Deployment
variable (s : Deployment)

def ataId (p o d : AccountId) : AccountId :=
  getAssociatedTokenAccountId s.ataProgramId (computeAtaSeed p o d)

/-- Nobody signs for an address that the program derives. -/
def Signable (id : AccountId) : Prop := ¬id.DerivedBy s.ataProgramId

/-- A call carries the key of an associated account only if the program has chained it for that
account. -/
def Entrusted (p o d : AccountId) (pending : Pending AccountId PdaSeed Message) : Prop :=
  s.ataId p o d ∈ pending.authority → ∃ authority call instruction,
    pending.caller = some (authority, call) ∧ call.programId = s.ataProgramId ∧
    call.instruction = .ata instruction ∧
    Chains s.ataProgramId authority call.accountIds instruction pending.call ∧
    computeAtaSeed p o d ∈ pending.call.pdaSeeds

theorem chains_program (authority ids : List AccountId) (instruction : Instruction)
    (call : OpenCall) (h : Chains s.ataProgramId authority ids instruction call) (p o d : AccountId)
    (hs : computeAtaSeed p o d ∈ call.pdaSeeds) : call.programId = p := by
  cases h with
  | create q u e =>
    obtain ⟨rfl, rfl, rfl⟩ := computeAtaSeed_inj _ _ _ _ _ _ (List.mem_singleton.mp hs)
    rfl
  | transfer q u e r n ho =>
    obtain ⟨rfl, rfl, rfl⟩ := computeAtaSeed_inj _ _ _ _ _ _ (List.mem_singleton.mp hs)
    rfl
  | burn q u e n ho =>
    obtain ⟨rfl, rfl, rfl⟩ := computeAtaSeed_inj _ _ _ _ _ _ (List.mem_singleton.mp hs)
    rfl

/-- An execution entrusts a key as it should. -/
theorem entrusted_step (p o d : AccountId) (hp : s.tokenPrograms p) (t : OpenTurn)
    (valid : t.Valid s.programs) (h : s.Entrusted p o d t.pending) :
    ∀ call ∈ t.calls, s.Entrusted p o d (t.pending.chain AccountId.forPublicPda call) := by
  intro call hc hm
  rcases List.mem_append.mp hm with hm | hm
  · -- the token program that holds the key chains nothing
    obtain ⟨authority, parent, instruction, -, -, -, hchains, hseed⟩ := h hm
    have hprogram := s.chains_program _ _ _ _ hchains p o d hseed
    obtain ⟨hnone, -⟩ := tokenProgram_turn s.programs t (by rw [hprogram, s.token p hp]) valid
    rw [hnone] at hc
    exact absurd hc List.not_mem_nil
  · obtain ⟨seed, hseed, he⟩ := List.mem_map.mp hm
    rw [ataId, getAssociatedTokenAccountId, AccountId.forPublicPda, AccountId.forPublicPda,
      AccountId.pda.injEq] at he
    obtain ⟨hprogram, rfl⟩ := he
    obtain ⟨instruction, hi, hchains⟩ := program_turn s.programs t
      (by rw [hprogram, s.ata]) valid
    refine ⟨t.pending.authority, t.pending.call, instruction, rfl, hprogram, hi, ?_, hseed⟩
    have := hchains call hc
    rwa [hprogram] at this

theorem entrusted_run (start w : Accounts) (history : List OpenTurn)
    (run : OpenRun s.programs s.Signable start history w) (p o d : AccountId)
    (hp : s.tokenPrograms p) :
    ∀ t ∈ history, t.Valid s.programs ∧ s.Entrusted p o d t.pending := by
  refine run.handed_on _ _ _ _ _ (s.Entrusted p o d) ?_ (s.entrusted_step p o d hp)
  intro authority call hsigned hm
  exact absurd rfl (hsigned _ hm)

/-- Only the token program of a holding takes from it, and only with its key. -/
theorem balance_taken (p x : AccountId) (hp : s.tokenPrograms p) (t : OpenTurn)
    (valid : t.Valid s.programs) (h : balanceUnder p t.after x < balanceUnder p t.before x) :
    t.pending.call.programId = p ∧ x ∈ t.pending.authority ∧ ∃ instruction,
      t.pending.call.instruction = .token instruction ∧ t.pending.call.accountIds.Nodup ∧
      balanceUnder p t.after x + debit x t.pending.call.accountIds instruction
        = balanceUnder p t.before x + credit x t.pending.call.accountIds instruction := by
  obtain ⟨held, howner, hdata⟩ := held_of_balanceUnder p t.before x (by omega)
  have hframe := valid.frame
  have hprogram : t.pending.call.programId = p := by
    by_contra hne
    have hsame := hframe.eq_of_owner _ _ _ x (by rw [howner]; exact Ne.symm hne)
      (by rw [howner]; exact s.deployed p hp)
    rw [balanceUnder, owned_congr p _ _ x hsame, ← balanceUnder] at h
    exact lt_irrefl _ h
  obtain ⟨-, instruction, hi, hn, hstep⟩ := tokenProgram_turn s.programs t
    (by rw [hprogram, s.token p hp]) valid
  obtain ⟨held', hdata', -, -, hflow⟩ := hstep.holding_flows _ _ _ _ _ _ x held hdata
  have howner' := hframe.owner_kept _ _ _ x (howner.trans hprogram.symm)
  rw [balanceUnder_eq p _ x held howner hdata,
    balanceUnder_eq p _ x held' (howner'.trans hprogram) hdata'] at h ⊢
  refine ⟨hprogram, ?_, instruction, hi, hn, hflow⟩
  by_contra hx
  have hzero := hstep.debit_eq_zero _ _ _ _ _ _ x hx
  omega

/-- A chained call that takes from an associated account takes what its owner has named. -/
theorem chains_spent (authority ids : List AccountId) (instruction : Instruction)
    (call : OpenCall) (h : Chains s.ataProgramId authority ids instruction call) (p o d : AccountId)
    (hs : computeAtaSeed p o d ∈ call.pdaSeeds) (i : Token.Instruction AccountId)
    (hi : call.instruction = .token i) (hn : call.accountIds.Nodup)
    (hdebit : debit (s.ataId p o d) call.accountIds i ≠ 0) :
    ∃ amount : U128, o ∈ authority ∧ ids.head? = some o ∧
      (instruction = .transfer p amount ∨ instruction = .burn p amount) ∧
      debit (s.ataId p o d) call.accountIds i = amount.val ∧
      credit (s.ataId p o d) call.accountIds i = 0 := by
  cases h with
  | create q u e =>
    cases hi
    exact absurd rfl hdebit
  | transfer q u e r n ho =>
    obtain ⟨rfl, rfl, rfl⟩ := computeAtaSeed_inj _ _ _ _ _ _ (List.mem_singleton.mp hs)
    cases hi
    have hne : s.ataId p o d ≠ r := fun he => (List.nodup_cons.mp hn).1 (List.mem_singleton.mpr he)
    exact ⟨n, ho, rfl, Or.inl rfl, if_pos rfl, if_neg hne⟩
  | burn q u e n ho =>
    obtain ⟨rfl, rfl, rfl⟩ := computeAtaSeed_inj _ _ _ _ _ _ (List.mem_singleton.mp hs)
    cases hi
    exact ⟨n, ho, rfl, Or.inr rfl, if_pos rfl, rfl⟩

def Spends (p o : AccountId) (amount : U128) (parent : OpenTurn) : Prop :=
  parent.pending.call.programId = s.ataProgramId ∧ o ∈ parent.pending.authority ∧
    parent.pending.call.accountIds.head? = some o ∧
    (parent.pending.call.instruction = .ata (.transfer p amount) ∨
      parent.pending.call.instruction = .ata (.burn p amount))

/-- A balance that is lower after a run has fallen in one of its executions. -/
theorem fallen_in_turn (start w : Accounts) (history : List OpenTurn)
    (run : OpenRun s.programs s.Signable start history w) (p x : AccountId)
    (h : balanceUnder p w x < balanceUnder p start x) :
    ∃ t ∈ history, balanceUnder p t.after x < balanceUnder p t.before x := by
  by_contra hnone
  refine absurd h (not_lt.mpr (run.keeps _ _ _ _ _ (fun history w =>
    (∀ t ∈ history, balanceUnder p t.before x ≤ balanceUnder p t.after x) →
      balanceUnder p start x ≤ balanceUnder p w x) (fun _ => le_rfl) ?_ ?_ _ ?_))
  · intro history t ih _ hall
    exact (ih fun u hu => hall u (List.mem_append_left _ hu)).trans
      (hall t (List.mem_append_right _ (List.mem_singleton_self t)))
  · intro history w w' ih hu hall
    obtain ⟨howner, hdata⟩ := hu x
    have hsame : balanceUnder p w' x = balanceUnder p w x := by
      unfold balanceUnder owned
      rw [howner, hdata]
    exact hsame ▸ ih hall
  · exact fun t ht => not_lt.mp fun hlt => hnone ⟨t, ht, hlt⟩

/-- An associated account loses only what its owner transfers or burns, and its key is passed to
the token program that the account was derived for and to nobody else. -/
theorem spent_by_owner_only (start w : Accounts) (history : List OpenTurn)
    (run : OpenRun s.programs s.Signable start history w) :
    (∀ p o d, balanceUnder p w (s.ataId p o d) < balanceUnder p start (s.ataId p o d) →
      ∃ t ∈ history, balanceUnder p t.after (s.ataId p o d)
        < balanceUnder p t.before (s.ataId p o d)) ∧
    (∀ t ∈ history, ∀ p o d, s.tokenPrograms p →
      balanceUnder p t.after (s.ataId p o d) < balanceUnder p t.before (s.ataId p o d) →
      t.pending.call.programId = p ∧ ∃ parent ∈ history, t.pending.call ∈ parent.calls ∧
        ∃ amount, s.Spends p o amount parent ∧
          balanceUnder p t.after (s.ataId p o d) + amount.val
            = balanceUnder p t.before (s.ataId p o d)) ∧
    (∀ t ∈ history, t.pending.call.programId = s.ataProgramId → ∀ call ∈ t.calls, ∀ p o d,
      computeAtaSeed p o d ∈ call.pdaSeeds → call.programId = p) ∧
    ∀ t ∈ history, ∀ p o d, s.tokenPrograms p → s.ataId p o d ∈ t.pending.authority →
      t.pending.call.programId = p := by
  refine ⟨fun p o d => s.fallen_in_turn start w history run p _,
    fun t ht p o d hp hfalls => ?_, fun t ht hprogram call hc p o d hseed => ?_,
    fun t ht p o d hp hm => ?_⟩
  · obtain ⟨valid, hentrusted⟩ := s.entrusted_run start w history run p o d hp t ht
    obtain ⟨hprogram, hkey, i, hi, hn, hflow⟩ := s.balance_taken p _ hp t valid hfalls
    obtain ⟨authority, call, instruction, hcaller, hata, hinstruction, hchains, hseed⟩ :=
      hentrusted hkey
    refine ⟨hprogram, ?_⟩
    rcases run.origin _ _ _ _ _ _ t ht with hnone | ⟨parent, hparent, chained, hchained, he⟩
    · rw [hnone] at hcaller
      cases hcaller
    · rw [he, Pending.chain, Option.some.injEq, Prod.mk.injEq] at hcaller
      obtain ⟨rfl, rfl⟩ := hcaller
      obtain ⟨amount, ho, hhead, hspent, hdebit, hcredit⟩ := s.chains_spent _ _ _ _ hchains p o d
        hseed i hi hn (by omega)
      refine ⟨parent, hparent, by rw [he]; exact hchained, amount, ⟨hata, ho, hhead, ?_⟩,
        by omega⟩
      rw [hinstruction]
      exact hspent.imp (congrArg Message.ata) (congrArg Message.ata)
  · obtain ⟨valid, -⟩ := run.handed_on _ _ _ _ _ (fun _ => True) (fun _ _ _ => trivial)
      (fun _ _ _ _ _ => trivial) _ t ht
    obtain ⟨instruction, -, hchains⟩ := program_turn s.programs t (by rw [hprogram, s.ata]) valid
    have hchained := hchains call hc
    rw [hprogram] at hchained
    exact s.chains_program _ _ _ _ hchained p o d hseed
  · obtain ⟨-, hentrusted⟩ := s.entrusted_run start w history run p o d hp t ht
    obtain ⟨_, _, _, -, -, -, hchains, hseed⟩ := hentrusted hm
    exact s.chains_program _ _ _ _ hchains p o d hseed

end Deployment

/-- A token program at `.key 1`, the program of associated accounts at `.key 7`. -/
def firstDeployment : Deployment where
  programs id := if id = .key 7 then program id else if id = .key 1 then tokenProgram id
    else fun _ _ => .error "no program"
  ataProgramId := .key 7
  tokenPrograms p := p = .key 1
  ata := if_pos rfl
  token p hp := by
    subst hp
    exact (if_neg (by decide)).trans (if_pos rfl)
  apart := by decide
  deployed p hp := by
    subst hp
    decide

/-- The owner `.key 30` has 100 of the token `.key 20`, and `.key 21` has none yet. -/
def firstAccounts : Accounts := fun id =>
  if id = .key 20 then ⟨.key 1, 0, .tokenDefinition (.fungible "AAA" 100 none none), 0⟩
  else if id = .key 21 then ⟨.key 1, 0, .tokenHolding (.fungible (.key 20) 0), 0⟩
  else if id = firstDeployment.ataId (.key 1) (.key 30) (.key 20) then
    ⟨.key 1, 0, .tokenHolding (.fungible (.key 20) 100), 0⟩
  else default

def firstTransfer : OpenCall :=
  .new (.key 7) [.key 30, firstDeployment.ataId (.key 1) (.key 30) (.key 20), .key 21]
    (.ata (.transfer (.key 1) 40)) []

def firstOutcome : Outcome (List OpenTurn × Accounts) :=
  settle AccountId.forPublicPda firstDeployment.programs 2 firstAccounts
    [⟨[.key 30], firstTransfer, none⟩]

theorem first_transfer_spent :
    ∃ history w, OpenRun firstDeployment.programs firstDeployment.Signable firstAccounts history w ∧
      ∃ t ∈ history, ∃ parent ∈ history, t.pending.call ∈ parent.calls ∧
        ∃ amount, firstDeployment.Spends (.key 1) (.key 30) amount parent := by
  have hbalance : firstOutcome.toOption.map (fun r => balanceUnder (.key 1) r.2
      (firstDeployment.ataId (.key 1) (.key 30) (.key 20))) = some 60 := by decide +kernel
  cases h : firstOutcome with
  | error m =>
    rw [h] at hbalance
    cases hbalance
  | ok r =>
    obtain ⟨turns, w⟩ := r
    rw [h] at hbalance
    have run : OpenRun firstDeployment.programs firstDeployment.Signable firstAccounts ([] ++ turns)
        w := .transaction [] turns _ w .start [.key 30] firstTransfer
      (List.forall_mem_singleton.mpr fun h => h) (settles_of_settle _ _ 2 _ _ _ _ h)
    obtain ⟨hfallen, hspent, -⟩ := firstDeployment.spent_by_owner_only _ _ _ run
    have hsixty : balanceUnder (.key 1) w (firstDeployment.ataId (.key 1) (.key 30) (.key 20))
        = 60 := Option.some.inj hbalance
    obtain ⟨t, ht, hfalls⟩ := hfallen (.key 1) (.key 30) (.key 20) (by
      rw [hsixty]
      decide +kernel)
    obtain ⟨-, parent, hparent, hcall, amount, hspends, -⟩ := hspent t ht _ _ _ rfl hfalls
    exact ⟨_, w, run, t, ht, parent, hparent, hcall, amount, hspends⟩

end LezPrograms.Ata
