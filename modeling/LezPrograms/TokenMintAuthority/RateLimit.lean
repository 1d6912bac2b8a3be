import LezPrograms.Spacing
import LezPrograms.TokenMintAuthority.Program

/-! # The rate limit of the faucet

The allowance of a recipient and a token is written by the faucet only, with the time
of each mint. Successive times are a cooldown apart, whatever the clock does, so the
amount that is minted in a window is bounded by its length. -/

set_option autoImplicit false

namespace LezPrograms.TokenMintAuthority
open LezPrograms.Checked LezPrograms.Lee LezPrograms.Lee.Machine

structure Deployment where
  programs : OpenPrograms
  faucetId : AccountId
  faucet : programs faucetId = program faucetId
  deployed : faucetId ≠ default

def mintedIn (call : OpenCall) : ℕ :=
  match call.instruction with
  | .token (.mintWithAuthority n) => n.val
  | _ => 0

namespace Deployment
variable (s : Deployment) (r d : AccountId)

def Mints (call : OpenCall) : Prop :=
  call.programId = s.faucetId ∧ call.accountIds.head? = some r ∧ call.accountIds[3]? = some d

instance (call : OpenCall) : Decidable (s.Mints r d call) := by
  unfold Mints
  infer_instance

def allowanceId : AccountId := computeMintAllowancePda s.faucetId r d

def recordedTime (t : OpenTurn) : Option ℕ :=
  if s.Mints r d t.pending.call then
    match (t.after (s.allowanceId r d)).data with
    | .mintAllowance allowance => some allowance.lastMintMs.val
    | _ => none
  else none

def mintTimes (history : List OpenTurn) : List ℕ := history.filterMap (s.recordedTime r d)

def mintedWithin (first last : ℕ) (history : List OpenTurn) : ℕ :=
  (history.map fun t => match s.recordedTime r d t with
    | some now => if first ≤ now ∧ now ≤ last then (t.calls.map mintedIn).sum else 0
    | none => 0).sum

def mintedFor (pending : Pending AccountId PdaSeed Message) : ℕ :=
  match pending.caller with
  | some (_, call) => if s.Mints r d call then mintedIn pending.call else 0
  | none => 0

section
variable (t : OpenTurn) (valid : t.Valid s.programs)
include valid

/-- A mint for the pair: what it found and what it left. -/
theorem minted_turn (hm : s.Mints r d t.pending.call) :
    ∃ now, ((t.before (s.allowanceId r d)).programOwner ≠ s.faucetId ∨
        ∃ previous, (t.before (s.allowanceId r d)).data = .mintAllowance previous ∧
          previous.lastMintMs.val + mintCooldownMs.val ≤ now.val) ∧
      (t.after (s.allowanceId r d)).programOwner = s.faucetId ∧
      (t.after (s.allowanceId r d)).data = .mintAllowance ⟨r, d, now⟩ ∧
      (t.calls.map mintedIn).sum = faucetMintAmount.val := by
  obtain ⟨hprogram, hr, hd⟩ := hm
  obtain ⟨r', k, d', now, hids, hgranted⟩ :=
    program_turn s.programs t (by rw [hprogram, s.faucet]) valid
  rw [hids] at hr hd
  obtain rfl : r' = r := Option.some.inj hr
  obtain rfl : d' = d := Option.some.inj hd
  rw [hprogram] at hgranted
  refine ⟨now, ?_, ?_, ?_, ?_⟩
  · rcases hgranted.cooled with hdefault | ⟨-, hprevious⟩
    · refine Or.inl ?_
      rw [allowanceId, hdefault]
      exact Ne.symm s.deployed
    · exact Or.inr hprevious
  · rw [hgranted.written, allowanceId, put_same]
    rcases hgranted.cooled with hdefault | ⟨howner, -⟩
    · exact writeData_owner_of_ne _ _ _ (by rw [hdefault]; exact Data.noConfusion)
    · exact writeData_owner _ _ _ howner
  · rw [hgranted.written, allowanceId, put_same, writeData_data]
  · rw [hgranted.called, List.map_singleton, List.sum_singleton]
    rfl

omit valid in
theorem recordedTime_eq (hm : s.Mints r d t.pending.call) (now : U64)
    (h : (t.after (s.allowanceId r d)).data = .mintAllowance ⟨r, d, now⟩) :
    s.recordedTime r d t = some now.val := by
  rw [recordedTime, if_pos hm, h]

/-- Every other execution leaves the allowance of the pair to the faucet. -/
theorem allowance_kept (hm : ¬s.Mints r d t.pending.call) :
    t.after (s.allowanceId r d) = t.before (s.allowanceId r d) ∨
      ((t.before (s.allowanceId r d)).programOwner ≠ s.faucetId ∧
        (t.after (s.allowanceId r d)).programOwner ≠ s.faucetId) := by
  by_cases hprogram : t.pending.call.programId = s.faucetId
  · obtain ⟨r', k, d', now, hids, hgranted⟩ :=
      program_turn s.programs t (by rw [hprogram, s.faucet]) valid
    rw [hprogram] at hgranted hids
    have hne : s.allowanceId r d ≠ computeMintAllowancePda s.faucetId r' d' := by
      intro he
      simp only [allowanceId, computeMintAllowancePda, computeMintAllowancePdaSeed,
        AccountId.forPublicPda, AccountId.pda.injEq, PdaSeed.account.injEq, and_true,
        true_and] at he
      obtain ⟨rfl, rfl⟩ := he
      exact hm ⟨hprogram, by rw [hids]; rfl, by rw [hids]; rfl⟩
    rw [hgranted.written]
    exact Or.inl (put_other _ _ _ _ _ hne)
  · rcases valid.frame _ _ (s.allowanceId r d) with he | ⟨howner, howner'⟩
    · exact Or.inl he
    · refine Or.inr ⟨?_, by rwa [howner']⟩
      rcases howner with howner | howner
      · rwa [howner]
      · rw [howner]
        exact Ne.symm s.deployed

end

/-- The recorded times keep their distance, and the allowance holds the last of them. -/
structure Tracked (history : List OpenTurn) (w : Accounts) : Prop where
  spaced : Spaced mintCooldownMs.val (s.mintTimes r d history)
  last : match (s.mintTimes r d history).getLast? with
    | none => (w (s.allowanceId r d)).programOwner ≠ s.faucetId
    | some now => (w (s.allowanceId r d)).programOwner = s.faucetId ∧ ∃ allowance,
        (w (s.allowanceId r d)).data = .mintAllowance allowance ∧ allowance.lastMintMs.val = now

theorem mintTimes_concat (history : List OpenTurn) (t : OpenTurn) :
    s.mintTimes r d (history ++ [t])
      = s.mintTimes r d history ++ (s.recordedTime r d t).toList := by
  rw [mintTimes, List.filterMap_append, mintTimes]
  cases h : s.recordedTime r d t with
  | none => rw [List.filterMap_cons_none h]; rfl
  | some now => rw [List.filterMap_cons_some h]; rfl

theorem Tracked.turn (history : List OpenTurn) (t : OpenTurn)
    (h : s.Tracked r d history t.before) (valid : t.Valid s.programs) :
    s.Tracked r d (history ++ [t]) t.after := by
  by_cases hm : s.Mints r d t.pending.call
  · obtain ⟨now, hprevious, howner, hdata, -⟩ := s.minted_turn r d t valid hm
    have htimes := s.mintTimes_concat r d history t
    rw [s.recordedTime_eq r d t hm now hdata] at htimes
    have hlast := h.last
    constructor
    · rw [htimes]
      refine h.spaced.concat _ _ _ fun last hl => ?_
      rw [Option.mem_def.mp hl] at hlast
      obtain ⟨howner', allowance, hallowance, rfl⟩ := hlast
      rcases hprevious with hne | ⟨previous, hdata', hle⟩
      · exact absurd howner' hne
      · rw [hallowance, Data.mintAllowance.injEq] at hdata'
        rw [hdata']
        exact hle
    · rw [htimes, Option.toList_some, List.getLast?_concat]
      exact ⟨howner, _, hdata, rfl⟩
  · have hnone : s.recordedTime r d t = none := if_neg hm
    have htimes := s.mintTimes_concat r d history t
    rw [hnone, Option.toList_none, List.append_nil] at htimes
    refine ⟨htimes ▸ h.spaced, ?_⟩
    have hlast := h.last
    rw [htimes]
    rcases s.allowance_kept r d t valid hm with he | ⟨hbefore, hafter⟩
    · rwa [he]
    · cases hl : (s.mintTimes r d history).getLast? with
      | none => exact hafter
      | some now =>
        rw [hl] at hlast
        exact absurd hlast.1 hbefore

theorem tracked_run (signable : AccountId → Prop) (start w : Accounts)
    (fresh : ∀ id, (start id).programOwner ≠ s.faucetId) (history : List OpenTurn)
    (run : OpenRun s.programs signable start history w) : s.Tracked r d history w := by
  refine run.keeps _ _ _ _ _ (s.Tracked r d) ⟨List.Pairwise.nil, fresh _⟩
    (fun history t h valid => h.turn s r d history t valid) ?_
  intro history w w' h hu
  obtain ⟨howner, hdata⟩ := hu (s.allowanceId r d)
  refine ⟨h.spaced, ?_⟩
  have hlast := h.last
  rwa [howner, hdata]

section
variable (history : List OpenTurn) (valid : ∀ t ∈ history, t.Valid s.programs)
include valid

theorem mintedWithin_eq (first last : ℕ) :
    s.mintedWithin r d first last history
      = ((s.mintTimes r d history).filter fun now => first ≤ now ∧ now ≤ last).length
        * faucetMintAmount.val := by
  induction history with
  | nil => exact (Nat.zero_mul _).symm
  | cons t history ih =>
    have hrest := ih fun u hu => valid u (List.mem_cons_of_mem _ hu)
    have hsplit : s.mintedWithin r d first last (t :: history)
        = (match s.recordedTime r d t with
          | some now => if first ≤ now ∧ now ≤ last then (t.calls.map mintedIn).sum else 0
          | none => 0) + s.mintedWithin r d first last history := rfl
    rw [hsplit, hrest]
    by_cases hm : s.Mints r d t.pending.call
    · obtain ⟨now, -, -, hdata, hamount⟩ := s.minted_turn r d t (valid t (List.mem_cons_self ..)) hm
      have htime := s.recordedTime_eq r d t hm now hdata
      simp only [mintTimes, List.filterMap_cons_some htime, htime, hamount, List.filter_cons,
        decide_eq_true_eq]
      split
      · rw [List.length_cons]
        ring
      · ring
    · have hnone : s.recordedTime r d t = none := if_neg hm
      simp only [mintTimes, List.filterMap_cons_none hnone, hnone, Nat.zero_add]

/-- What the executed mints for the pair have chained. -/
theorem sum_mintedFor :
    (history.map fun t => (t.calls.map fun call =>
      s.mintedFor r d (t.pending.chain AccountId.forPublicPda call)).sum).sum
      = (s.mintTimes r d history).length * faucetMintAmount.val := by
  induction history with
  | nil => exact (Nat.zero_mul _).symm
  | cons t history ih =>
    rw [List.map_cons, List.sum_cons, ih fun u hu => valid u (List.mem_cons_of_mem _ hu)]
    by_cases hm : s.Mints r d t.pending.call
    · obtain ⟨now, -, -, hdata, hamount⟩ := s.minted_turn r d t (valid t (List.mem_cons_self ..)) hm
      have htime := s.recordedTime_eq r d t hm now hdata
      simp only [mintedFor, Pending.chain, if_pos hm, hamount, mintTimes,
        List.filterMap_cons_some htime, List.length_cons]
      ring
    · have hnone : s.recordedTime r d t = none := if_neg hm
      simp only [mintedFor, Pending.chain, if_neg hm, mintTimes, List.filterMap_cons_none hnone,
        List.map_const', List.sum_replicate_nat, Nat.mul_zero, Nat.zero_add]

end

/-- The recorded times of successive mints for a pair are a cooldown apart, so they increase, and
what is minted with recorded times in a window is bounded by its length. Exactly the fixed amount
is minted for each recorded time. -/
theorem faucet_rate_limit (signable : AccountId → Prop) (start w : Accounts)
    (fresh : ∀ id, (start id).programOwner ≠ s.faucetId) (history : List OpenTurn)
    (run : OpenRun s.programs signable start history w) :
    Spaced mintCooldownMs.val (s.mintTimes r d history) ∧
    (s.mintTimes r d history).Pairwise (· < ·) ∧
    (∀ first last, s.mintedWithin r d first last history
      ≤ (1 + (last - first) / mintCooldownMs.val) * faucetMintAmount.val) ∧
    (history.map fun t => s.mintedFor r d t.pending).sum
      = (s.mintTimes r d history).length * faucetMintAmount.val := by
  have hspaced := (s.tracked_run r d signable start w fresh history run).spaced
  have hpositive : 0 < mintCooldownMs.val := by decide
  have hvalid : ∀ t ∈ history, t.Valid s.programs := fun t ht =>
    (run.handed_on _ _ _ _ _ (fun _ => True) (fun _ _ _ => trivial) (fun _ _ _ _ _ => trivial) _
      t ht).1
  refine ⟨hspaced, hspaced.increasing _ hpositive _, fun first last => ?_, ?_⟩
  · rw [s.mintedWithin_eq r d history hvalid first last]
    exact Nat.mul_le_mul_right _ (hspaced.window _ hpositive _ first last)
  · rw [run.executed_once _ _ _ _ _ (s.mintedFor r d) (fun _ _ => rfl)]
    exact s.sum_mintedFor r d history hvalid

end Deployment

def clockProgram (accounts : List InputAccount) (message : Message) : OpenResult :=
  match message, accounts with
  | .foreign time, [clock] => do
    let now ← expect (Unsigned.tryFrom 64 time) "the time does not fit"
    pure ([.new clock (.clock now)], [])
  | _, _ => .error "not a message of the clock"

/-- A token program at `.key 1`, the faucet at `.key 8`, the clock at `.key 9`. -/
def firstDeployment : Deployment where
  programs id := if id = .key 8 then program id else if id = .key 1 then tokenProgram id
    else if id = .key 9 then clockProgram else fun _ _ => .error "no program"
  faucetId := .key 8
  faucet := if_pos rfl
  deployed := by decide

def firstAccounts : Accounts := fun id =>
  if id = .key 20 then
    ⟨.key 1, 0, .tokenDefinition (.fungible "AAA" 0 none (some (computeMintAuthorityPda (.key 8)))),
      0⟩
  else if id = .key 21 then ⟨.key 1, 0, .tokenHolding (.fungible (.key 20) 0), 0⟩
  else if id = clock01ProgramAccountId then ⟨.key 9, 0, .clock 100000000, 0⟩
  else default

def firstMint : OpenCall :=
  .new (.key 8) [.key 30, computeMintAllowancePda (.key 8) (.key 30) (.key 20), .key 21, .key 20,
    computeMintAuthorityPda (.key 8), clock01ProgramAccountId] (.tokenMintAuthority .faucetMint) []

/-- The recipient mints, the clock moves on by the cooldown, and the recipient mints again. -/
def twoMints : List (List AccountId × OpenCall) :=
  [([.key 30], firstMint),
    ([], .new (.key 9) [clock01ProgramAccountId] (.foreign 186400000) []),
    ([.key 30], firstMint)]

def twoMintsOutcome : Outcome (List OpenTurn × Accounts) :=
  settleAll AccountId.forPublicPda firstDeployment.programs 2 firstAccounts twoMints

theorem firstAccounts_fresh (id : AccountId) :
    (firstAccounts id).programOwner ≠ firstDeployment.faucetId := by
  unfold firstAccounts
  split_ifs <;> decide

theorem two_mints_limited :
    ∃ history w, OpenRun firstDeployment.programs (fun _ => True) firstAccounts history w ∧
      firstDeployment.mintTimes (.key 30) (.key 20) history = [100000000, 186400000] ∧
      firstDeployment.mintedWithin (.key 30) (.key 20) 100000000 186400000 history
        ≤ 2 * faucetMintAmount.val ∧
      (history.map fun t => firstDeployment.mintedFor (.key 30) (.key 20) t.pending).sum
        = 2 * faucetMintAmount.val := by
  have htimes : twoMintsOutcome.toOption.map (fun r =>
      firstDeployment.mintTimes (.key 30) (.key 20) r.1) = some [100000000, 186400000] := by
    decide +kernel
  cases h : twoMintsOutcome with
  | error m =>
    rw [h] at htimes
    cases htimes
  | ok r =>
    obtain ⟨turns, w⟩ := r
    rw [h] at htimes
    have run : OpenRun firstDeployment.programs (fun _ => True) firstAccounts ([] ++ turns) w :=
      Run.settleAll _ _ 2 _ _ _ w twoMints [] turns (fun _ _ _ _ => trivial) .start h
    obtain ⟨-, -, hwindow, hminted⟩ := firstDeployment.faucet_rate_limit (.key 30) (.key 20) _ _ _
      firstAccounts_fresh _ run
    have hmints := Option.some.inj htimes
    rw [List.nil_append] at run hminted hwindow
    dsimp only at hmints
    rw [hmints] at hminted
    exact ⟨_, w, run, hmints, hwindow 100000000 186400000, hminted⟩

end LezPrograms.TokenMintAuthority
