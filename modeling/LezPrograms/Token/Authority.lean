import LezPrograms.Lee.Executions
import LezPrograms.Token.Balances

/-! # Who changes a fungible definition

An execution of the token program burns supply, or mints with the authority
that the definition stores, or replaces that authority with its consent. A
transaction is a chain of executions, so a supply that grew was minted in one
of them, and a definition without an authority never gets one again. -/

set_option autoImplicit false

namespace LezPrograms.Token
open LezPrograms.Checked LezPrograms.Lee TokenHolding

def Mints (d a : AccountId) (n : U128) (authority ids : List AccountId)
    (instruction : Instruction AccountId) : Prop :=
  a ∈ authority ∧ ∃ h, (ids = [d, h] ∧ instruction = .mint n ∧ a = d) ∨
    (ids = [d, h, a] ∧ instruction = .mintWithAuthority n)

def Rotates (d a : AccountId) (new : Option AccountId) (authority ids : List AccountId)
    (instruction : Instruction AccountId) : Prop :=
  a ∈ authority ∧ ((ids = [d] ∧ instruction = .setAuthority new ∧ a = d) ∨
    (ids = [d, a] ∧ instruction = .setAuthorityWithAuthority new))

inductive Amends (d : AccountId) (authority ids : List AccountId)
    (instruction : Instruction AccountId) (supply : U128) (stored : Option AccountId) :
    U128 → Option AccountId → Prop
  | lowers (supply' : U128) (le : supply'.val ≤ supply.val) :
      Amends d authority ids instruction supply stored supply' stored
  | mints (a : AccountId) (n supply' : U128) (current : stored = some a)
      (mints : Mints d a n authority ids instruction) (grown : supply'.val = supply.val + n.val) :
      Amends d authority ids instruction supply stored supply' stored
  | rotates (a : AccountId) (new : Option AccountId) (current : stored = some a)
      (rotates : Rotates d a new authority ids instruction) :
      Amends d authority ids instruction supply stored supply new

section
variable (authority ids : List AccountId) (instruction : Instruction AccountId) (w w' : Accounts)
  (x : AccountId) (name : String) (supply : U128) (metadata stored : Option AccountId)

theorem Step.fungible_amended (self : AccountId) (h : Step self authority w ids instruction w')
    (hd : (w x).data = .tokenDefinition (.fungible name supply metadata stored)) :
    ∃ supply' stored', (w' x).data = .tokenDefinition (.fungible name supply' metadata stored') ∧
      Amends x authority ids instruction supply stored supply' stored' := by
  have hne : w x ≠ default := data_ne_default _ (by rw [hd]; exact Data.noConfusion)
  have hsame : ∃ supply' stored',
      (w x).data = .tokenDefinition (.fungible name supply' metadata stored') ∧
        Amends x authority ids instruction supply stored supply' stored' :=
    ⟨supply, stored, hd, .lowers supply le_rfl⟩
  have hholding : ∀ (y : AccountId) (empty holding : Holding),
      Credits (w y) empty holding → x ≠ y := by
    rintro y empty holding (⟨hc, -⟩ | ⟨-, hc⟩) rfl
    · exact hne hc
    · rw [tryFrom_holding, hd] at hc
      cases hc
  have hread : ∀ (y : AccountId) (holding : Holding),
      tryFrom (w y).data = some holding → x ≠ y := by
    rintro y holding hc rfl
    rw [tryFrom_holding, hd] at hc
    cases hc
  have hfresh : ∀ y, w y = default → x ≠ y := by
    rintro y hy rfl
    exact hne hy
  cases h with
  | transfer s r n sender recipient sender' recipient' _ _ hs hr _ _ _ _ =>
    simpa only [put_data, if_neg (hread s _ hs), if_neg (hholding r _ _ hr)] using hsame
  | burn y k n definition definition' holding holding' _ _ hdef hk _ hburn _ _ =>
    simp only [put_data, if_neg (hread k _ hk)]
    by_cases hxy : x = y
    · subst hxy
      rw [tryFrom_definition, hd] at hdef
      cases hdef
      rw [if_pos rfl]
      cases holding with
      | fungible y balance =>
        simp only [burnBalance, bind_eq_ok, expect_eq_ok, Unsigned.checkedSub_eq_some, pure_eq_ok,
          Prod.mk.injEq] at hburn
        obtain ⟨_, -, supply', hsupply, rfl, -⟩ := hburn
        exact ⟨supply', stored, rfl, .lowers supply' (by omega)⟩
      | nftMaster y balance => exact absurd hburn (error_ne_ok _ _)
      | nftPrintedCopy y owned => exact absurd hburn (error_ne_ok _ _)
    · rw [if_neg hxy]
      exact hsame
  | mint y k a n _ _ definition definition' holding holding' hcalled _ _ hdef ha hcur hk _ hmint =>
    simp only [put_data, if_neg (hholding k _ _ hk)]
    split
    · rename_i hxy
      subst hxy
      rw [tryFrom_definition, hd] at hdef
      cases hdef
      cases holding with
      | fungible y balance =>
        simp only [mintBalance, bind_eq_ok, expect_eq_ok, Unsigned.checkedAdd_eq_some, pure_eq_ok,
          Prod.mk.injEq] at hmint
        obtain ⟨_, -, supply', hsupply, rfl, -⟩ := hmint
        exact ⟨supply', stored, rfl, .mints a n supply' hcur ⟨ha, k, hcalled⟩ hsupply⟩
      | nftMaster y balance => exact absurd hmint (error_ne_ok _ _)
      | nftPrintedCopy y owned => exact absurd hmint (error_ne_ok _ _)
    · exact hsame
  | initializeAccount y k definition hk _ _ _ _ =>
    simpa only [put_data, if_neg (hfresh k hk)] using hsame
  | newFungibleDefinition y k name supply mintAuthority hy hk _ _ _ _ =>
    simpa only [put_data, if_neg (hfresh y hy), if_neg (hfresh k hk)] using hsame
  | newDefinitionWithMetadata y k m new metadata definition holding hy hk hm _ _ _ _ _ =>
    simpa only [put_data, if_neg (hfresh y hy), if_neg (hfresh k hk), if_neg (hfresh m hm)]
      using hsame
  | printNft m p y balance balance' _ _ hp _ hm _ _ =>
    simpa only [put_data, if_neg (hread m _ hm), if_neg (hfresh p hp)] using hsame
  | setAuthority y a new _ _ definition definition' hcalled _ hdef ha hcur hrep =>
    simp only [put_data]
    split
    · rename_i hxy
      subst hxy
      rw [tryFrom_definition, hd] at hdef
      cases hdef
      simp only [replaceAuthority, bind_eq_ok, ensure_eq_ok, exists_const, pure_eq_ok] at hrep
      obtain ⟨-, rfl⟩ := hrep
      exact ⟨supply, new, rfl, .rotates a new hcur ⟨ha, hcalled⟩⟩
    · exact hsame

theorem Transition.fungible_amended (h : Transition authority ids instruction w w')
    (hd : DefinitionAt w x (.fungible name supply metadata stored)) :
    ∃ supply' stored', DefinitionAt w' x (.fungible name supply' metadata stored') ∧
      Amends x authority ids instruction supply stored supply' stored' := by
  obtain ⟨supply', stored', h1, h2⟩ := h.step.fungible_amended authority ids instruction w w' x name
    supply metadata stored _ hd.data
  exact ⟨supply', stored', (owned_eq_some _ _ _ _).mpr ⟨h.frame.owner_kept _ _ _ x hd.owner, h1⟩, h2⟩

end

end LezPrograms.Token

namespace LezPrograms.Lee
open LezPrograms.Checked LezPrograms.Token

def Execution.Mints (e : Execution) (d a : AccountId) (n : U128) : Prop :=
  ∃ i, e.call.instruction = .token i ∧ Token.Mints d a n e.authority e.call.accountIds i

def Execution.Rotates (e : Execution) (d a : AccountId) (new : Option AccountId) : Prop :=
  ∃ i, e.call.instruction = .token i ∧ Token.Rotates d a new e.authority e.call.accountIds i

section
variable (platform : Platform) (w : Accounts) (event : Event) (d : AccountId) (name : String)
  (metadata : Option AccountId)

theorem Execution.fungible_amended (e : Execution) (h : event.Executes platform w e)
    (supply : U128) (stored : Option AccountId)
    (hd : DefinitionAt e.before d (.fungible name supply metadata stored)) :
    ∃ supply' stored', DefinitionAt e.after d (.fungible name supply' metadata stored') ∧
      (supply.val < supply'.val → ∃ a n, stored = some a ∧ e.Mints d a n) ∧
      (stored' ≠ stored → ∃ a, stored = some a ∧ e.Rotates d a stored') := by
  obtain ⟨authority, call, w', -, -, hin⟩ := h
  obtain ⟨calls, he⟩ := hin.executed
  rcases e.tokens _ _ he with ⟨i, hi, ht⟩ | howned
  · obtain ⟨supply', stored', hd', hamends⟩ := ht.fungible_amended _ _ _ _ _ d name supply metadata
      stored hd
    refine ⟨supply', stored', hd', ?_, ?_⟩
    · intro hlt
      cases hamends with
      | lowers _ hle => omega
      | mints a n _ hcur hmints => exact ⟨a, n, hcur, i, hi, hmints⟩
      | rotates => omega
    · intro hne
      cases hamends with
      | lowers => exact absurd rfl hne
      | mints => exact absurd rfl hne
      | rotates a _ hcur hrotates => exact ⟨a, hcur, i, hi, hrotates⟩
  · exact ⟨supply, stored, by rwa [DefinitionAt, howned], fun hlt => absurd hlt (lt_irrefl _),
      fun hne => absurd rfl hne⟩

/-- A supply that grew was minted in an execution of the event, and an authority that changed was
replaced in one, each with the consent of the authority stored just before. -/
theorem Event.fungible_amended (supply : U128) (stored : Option AccountId)
    (hd : DefinitionAt w d (.fungible name supply metadata stored)) :
    ∃ supply' stored',
      DefinitionAt (event.apply platform w) d (.fungible name supply' metadata stored') ∧
      (supply.val < supply'.val → ∃ e s a n, event.Executes platform w e ∧
        DefinitionAt e.before d (.fungible name s metadata (some a)) ∧ e.Mints d a n) ∧
      (stored' ≠ stored → ∃ e s a new, event.Executes platform w e ∧
        DefinitionAt e.before d (.fungible name s metadata (some a)) ∧ e.Rotates d a new) := by
  cases event with
  | environment change =>
    refine ⟨supply, stored, ?_, fun hlt => absurd hlt (lt_irrefl _), fun hne => absurd rfl hne⟩
    rw [DefinitionAt, Event.apply, owned_environment tokenProgramId w change (by decide)]
    exact hd
  | transaction authority call =>
    have hchain := Event.chain platform w authority call
    generalize Event.apply platform w (.transaction authority call) = w' at hchain
    induction hchain with
    | refl =>
      exact ⟨supply, stored, hd, fun hlt => absurd hlt (lt_irrefl _), fun hne => absurd rfl hne⟩
    | tail _ hs ih =>
      obtain ⟨s, a, hb, hgrew, hchanged⟩ := ih
      obtain ⟨e, he, rfl, rfl⟩ := hs
      obtain ⟨s', a', ha, hmints, hrotates⟩ := e.fungible_amended platform w _ d name metadata he s a
        hb
      refine ⟨s', a', ha, ?_, ?_⟩
      · intro hlt
        by_cases hsupply : supply.val < s.val
        · exact hgrew hsupply
        · obtain ⟨m, n, hcur, hm⟩ := hmints (by omega)
          exact ⟨e, s, m, n, he, hcur ▸ hb, hm⟩
      · intro hne
        by_cases hstored : a = stored
        · obtain ⟨m, hcur, hm⟩ := hrotates (hstored ▸ hne)
          exact ⟨e, s, m, a', he, hcur ▸ hb, hm⟩
        · exact hchanged hstored

def Renounced (w : Accounts) (supply : U128) : Prop :=
  ∃ s : U128, DefinitionAt w d (.fungible name s metadata none) ∧ s.val ≤ supply.val

theorem renounced_event (supply : U128) (h : Renounced d name metadata w supply) :
    Renounced d name metadata (event.apply platform w) supply := by
  cases event with
  | environment change =>
    obtain ⟨s, hd, hle⟩ := h
    refine ⟨s, ?_, hle⟩
    rw [DefinitionAt, Event.apply, owned_environment tokenProgramId w change (by decide)]
    exact hd
  | transaction authority call =>
    refine (Event.chain platform w authority call).preserves
      (fun u => Renounced d name metadata u supply) ?_ h
    rintro e he ⟨s, hd, hle⟩
    obtain ⟨s', a', hd', hmints, hrotates⟩ := e.fungible_amended platform w _ d name metadata he s
      none hd
    have hnone : a' = none := by
      by_contra hne
      obtain ⟨a, hcur, -⟩ := hrotates hne
      cases hcur
    refine ⟨s', hnone ▸ hd', ?_⟩
    by_contra hlt
    obtain ⟨a, n, hcur, -⟩ := hmints (by omega)
    cases hcur

end

end LezPrograms.Lee

namespace LezPrograms.Token
open LezPrograms.Checked LezPrograms.Lee

/-- After every run the supply of a fungible token grows only in a mint that the stored authority
authorizes, its authority changes only with the consent of the stored one, and a definition that
has no authority never gets one again, nor any more supply. -/
theorem mint_authority_is_the_only_source (platform : Platform) (genesis : Genesis)
    (events : List Event) :
    let w := run platform genesis.world events
    ∀ d name supply metadata stored,
      DefinitionAt w d (.fungible name supply metadata stored) →
      (∀ event : Event, ∃ supply' stored',
        DefinitionAt (Event.apply platform w event) d (.fungible name supply' metadata stored') ∧
        (supply.val < supply'.val → ∃ e s a n, event.Executes platform w e ∧
          DefinitionAt e.before d (.fungible name s metadata (some a)) ∧ e.Mints d a n) ∧
        (stored' ≠ stored → ∃ e s a new, event.Executes platform w e ∧
          DefinitionAt e.before d (.fungible name s metadata (some a)) ∧ e.Rotates d a new)) ∧
      (∀ (event : Event) (e : Execution), event.Executes platform w e → ∀ before authority,
        DefinitionAt e.before d (.fungible name before metadata authority) →
        ∃ after authority',
          DefinitionAt e.after d (.fungible name after metadata authority') ∧
          (before.val < after.val → ∃ a n, authority = some a ∧ e.Mints d a n) ∧
          (authority' ≠ authority → ∃ a, authority = some a ∧ e.Rotates d a authority')) ∧
      (stored = none → ∀ later, ∃ supply',
        DefinitionAt (run platform w later) d (.fungible name supply' metadata none) ∧
        supply'.val ≤ supply.val) := by
  intro w d name supply metadata stored hd
  refine ⟨?_, ?_, ?_⟩
  · intro event
    exact event.fungible_amended platform w d name metadata supply stored hd
  · intro event e he before authority hb
    exact e.fungible_amended platform w event d name metadata he before authority hb
  · rintro rfl later
    exact run_preserves platform (fun u => Renounced d name metadata u supply)
      (fun u event => renounced_event platform u event d name metadata supply) w ⟨supply, hd, le_rfl⟩ later

def emptyGenesis : Genesis := ⟨fun _ => default, fun _ => by decide, fun _ _ => rfl⟩

def issuingPlatform : Platform :=
  ⟨⟨fun _ => some ⟨0, zero_mem_i32⟩, fun _ => some ⟨2 ^ 96, two_pow_96_lt_u256⟩⟩, 1⟩

def issue : Event :=
  .transaction [.key 20, .key 21] ⟨tokenProgramId, [.key 20, .key 21],
    .token (.newFungibleDefinition "COL" 100 none), []⟩

/-- The token that was issued cannot be issued again. -/
theorem issued_token_stays_renounced :
    ∃ supply' : U128, DefinitionAt
      (run issuingPlatform (run issuingPlatform emptyGenesis.world [issue]) [issue]) (.key 20)
        (.fungible "COL" supply' none none) ∧ supply'.val ≤ (100 : U128).val :=
  (mint_authority_is_the_only_source issuingPlatform emptyGenesis [issue] (.key 20) "COL" 100 none
    none (by decide +kernel : owned _ _ _ = _)).2.2 rfl [issue]

end LezPrograms.Token
