import LezPrograms.Lee.Invocation
import Mathlib.Algebra.BigOperators.Group.List.Basic

/-! # Balances and supplies

The holdings and definitions that the token program owns, and how a token
instruction changes their units. -/

set_option autoImplicit false

namespace LezPrograms.Token
open LezPrograms.Checked LezPrograms.Lee

def unitsAt (w : Accounts) (id : AccountId) : ℕ :=
  match owned tokenProgramId w id with
  | some (.tokenHolding holding) => holding.units
  | _ => 0

def supplyAt (w : Accounts) (id : AccountId) : ℕ :=
  match owned tokenProgramId w id with
  | some (.tokenDefinition definition) => definition.supply
  | _ => 0

def HoldingAt (w : Accounts) (id : AccountId) (holding : Holding) : Prop :=
  owned tokenProgramId w id = some (.tokenHolding holding)

def DefinitionAt (w : Accounts) (id : AccountId) (definition : Definition) : Prop :=
  owned tokenProgramId w id = some (.tokenDefinition definition)

theorem HoldingAt.unitsAt_eq (w : Accounts) (id : AccountId) (holding : Holding)
    (h : HoldingAt w id holding) : unitsAt w id = holding.units := by
  rw [unitsAt, h]

theorem DefinitionAt.supplyAt_eq (w : Accounts) (id : AccountId) (definition : Definition)
    (h : DefinitionAt w id definition) : supplyAt w id = definition.supply := by
  rw [supplyAt, h]

theorem HoldingAt.data (w : Accounts) (id : AccountId) (holding : Holding)
    (h : HoldingAt w id holding) : (w id).data = .tokenHolding holding :=
  ((owned_eq_some _ _ _ _).mp h).2

theorem HoldingAt.owner (w : Accounts) (id : AccountId) (holding : Holding)
    (h : HoldingAt w id holding) : (w id).programOwner = tokenProgramId :=
  ((owned_eq_some _ _ _ _).mp h).1

theorem DefinitionAt.data (w : Accounts) (id : AccountId) (definition : Definition)
    (h : DefinitionAt w id definition) : (w id).data = .tokenDefinition definition :=
  ((owned_eq_some _ _ _ _).mp h).2

theorem DefinitionAt.owner (w : Accounts) (id : AccountId) (definition : Definition)
    (h : DefinitionAt w id definition) : (w id).programOwner = tokenProgramId :=
  ((owned_eq_some _ _ _ _).mp h).1

structure Grown (held held' : Holding) : Prop where
  token : held'.definitionId = held.definitionId
  kind : held'.kind = held.kind
  units : held.units ≤ held'.units

theorem Grown.refl (held : Holding) : Grown held held := ⟨rfl, rfl, le_rfl⟩

theorem Grown.trans (a b c : Holding) (h : Grown a b) (k : Grown b c) : Grown a c :=
  ⟨k.token.trans h.token, k.kind.trans h.kind, h.units.trans k.units⟩

section
variable (authority ids : List AccountId) (instruction : Instruction AccountId) (w w' : Accounts)
  (h : Transition authority ids instruction w w')
include h

theorem Transition.holding_grows (x : AccountId) (hx : x ∉ authority) (held : Holding)
    (hh : HoldingAt w x held) : ∃ held', HoldingAt w' x held' ∧ Grown held held' := by
  obtain ⟨held', h1, h2, h3, h4⟩ := h.step.holding_kept _ _ _ _ _ _ x hx held hh.data
  have ho := h.frame.owner_kept _ _ _ x hh.owner
  exact ⟨held', (owned_eq_some _ _ _ _).mpr ⟨ho, h1⟩, h2, h3, h4⟩

theorem Transition.definition_changes (x : AccountId) (d : Definition) (hd : DefinitionAt w x d) :
    ∃ d', DefinitionAt w' x d' ∧ DefinitionChange authority (burnedOf x ids instruction) d d' := by
  obtain ⟨d', h1, h2⟩ := h.step.definition_kept _ _ _ _ _ _ x d hd.data
  have ho := h.frame.owner_kept _ _ _ x hd.owner
  exact ⟨d', (owned_eq_some _ _ _ _).mpr ⟨ho, h1⟩, h2⟩

end

section
variable (authority : List AccountId) (a b : AccountId) (n : U128) (w w' : Accounts)

theorem Transition.sent (h : Transition authority [a, b] (.transfer n) w w') (held : Holding)
    (hh : HoldingAt w a held) :
    ∃ held', HoldingAt w' a held' ∧ held'.definitionId = held.definitionId ∧
      held'.kind = held.kind ∧ held'.units + n.val = held.units := by
  obtain ⟨sender, _, sender', _, -, ⟨h1, h2, h3, h4, h5⟩, -⟩ := h.transfer
  rw [hh.data, Data.tokenHolding.injEq] at h1
  subst h1
  have ho := h.frame.owner_kept _ _ _ a hh.owner
  exact ⟨sender', (owned_eq_some _ _ _ _).mpr ⟨ho, h2⟩, h3, h4, h5⟩

theorem Transition.received (h : Transition authority [a, b] (.transfer n) w w') (held : Holding)
    (hh : HoldingAt w b held) :
    ∃ held', HoldingAt w' b held' ∧ held'.definitionId = held.definitionId ∧
      held'.kind = held.kind ∧ held'.units = held.units + n.val := by
  obtain ⟨sender, recipient, _, recipient', -, -, h1, h2, h3, h4, h5, h6, h7⟩ := h.transfer
  have hr : recipient = held := by
    rcases h1 with ⟨h1, -⟩ | h1
    · have hd := hh.data
      rw [h1] at hd
      cases hd
    · rw [hh.data, Data.tokenHolding.injEq] at h1
      exact h1.symm
  subst hr
  have ho := h.frame.owner_kept _ _ _ b hh.owner
  exact ⟨recipient', (owned_eq_some _ _ _ _).mpr ⟨ho, h2⟩, h3.trans h5.symm, h4.trans h6.symm, h7⟩

theorem Transition.minted (h : Transition authority [a, b] (.mint n) w w') (d : Definition)
    (hd : DefinitionAt w a d) :
    ∃ d', DefinitionAt w' a d' ∧ d'.mintAuthority = d.mintAuthority ∧
      (d'.isFungible ↔ d.isFungible) ∧ d'.supply = d.supply + n.val := by
  obtain ⟨_, d', _, _, -, ⟨h1, h2, h3, h4, h5⟩, -⟩ := h.mint
  rw [hd.data, Data.tokenDefinition.injEq] at h1
  subst h1
  have ho := h.frame.owner_kept _ _ _ a hd.owner
  exact ⟨d', (owned_eq_some _ _ _ _).mpr ⟨ho, h2⟩, h3, h4, h5⟩

theorem Transition.burned (h : Transition authority [a, b] (.burn n) w w') (d : Definition)
    (hd : DefinitionAt w a d) :
    ∃ d', DefinitionAt w' a d' ∧ d'.mintAuthority = d.mintAuthority ∧
      (d'.isFungible ↔ d.isFungible) ∧ d'.supply + n.val = d.supply := by
  obtain ⟨_, d', _, _, -, ⟨h1, h2, h3, h4, h5⟩, -⟩ := h.burn
  rw [hd.data, Data.tokenDefinition.injEq] at h1
  subst h1
  have ho := h.frame.owner_kept _ _ _ a hd.owner
  exact ⟨d', (owned_eq_some _ _ _ _).mpr ⟨ho, h2⟩, h3, h4, h5⟩

end

end LezPrograms.Token

namespace LezPrograms.Lee
open LezPrograms.Token

theorem ne_default_of_deployed (program : AccountId) (hp : program ∈ deployedPrograms) :
    program ≠ default := by
  rintro rfl
  revert hp
  decide

section
variable (program : AccountId) (w w' : Accounts)

theorem Foreign.owned_eq (hp : program ∈ deployedPrograms) (hne : program ≠ tokenProgramId)
    (h : Foreign program w w') : owned program w' = owned program w := by
  have hd := ne_default_of_deployed program hp
  cases h with
  | token _ _ _ _ ht => exact owned_frame _ _ _ _ ht.frame hne.symm hd
  | frame other ho _ hf => exact owned_frame _ _ _ _ hf ho hd
  | environment change he => rw [he, owned_environment program w change hp]

/-- Outside the token program itself, only token instructions touch what it owns. -/
theorem Foreign.tokens_eq (h : Foreign program w w') :
    owned tokenProgramId w' = owned tokenProgramId w ∨
      ∃ authority ids instruction, Outside program authority ∧
        Transition authority ids instruction w w' := by
  cases h with
  | token authority ids i ho ht => exact Or.inr ⟨authority, ids, i, ho, ht⟩
  | frame other _ hb hf => exact Or.inl (owned_frame _ _ _ _ hf hb (by decide))
  | environment change he =>
    exact Or.inl (by rw [he, owned_environment tokenProgramId w change (by decide)])

/-- Holdings at derived addresses only grow. -/
theorem Foreign.holding_grows (h : Foreign program w w') (x : AccountId) (hx : x.DerivedBy program)
    (held : Holding) (hh : HoldingAt w x held) :
    ∃ held', HoldingAt w' x held' ∧ Grown held held' := by
  rcases h.tokens_eq program w w' with he | ⟨authority, ids, i, ho, ht⟩
  · exact ⟨held, by rwa [HoldingAt, he], Grown.refl held⟩
  · exact ht.holding_grows _ _ _ _ _ x (fun hm => ho x hm hx) held hh

/-- A definition under the authority of a derived address can only lose supply. -/
theorem Foreign.definition_diminished (h : Foreign program w w') (x a : AccountId)
    (ha : a.DerivedBy program) (d : Definition) (hd : DefinitionAt w x d)
    (hm : d.mintAuthority = some a) :
    ∃ d', DefinitionAt w' x d' ∧ d'.mintAuthority = some a ∧ (d'.isFungible ↔ d.isFungible) ∧
      d'.supply ≤ d.supply := by
  rcases h.tokens_eq program w w' with he | ⟨authority, ids, i, ho, ht⟩
  · exact ⟨d, by rwa [DefinitionAt, he], hm, Iff.rfl, le_rfl⟩
  · obtain ⟨d', h1, h2⟩ := ht.definition_changes _ _ _ _ _ x d hd
    have hg : ∀ b, d.mintAuthority = some b → b ∉ authority := by
      intro b hb hmem
      rw [hm, Option.some.injEq] at hb
      exact ho b hmem (hb ▸ ha)
    obtain ⟨h3, h4⟩ := h2.guarded hg
    exact ⟨d', h1, h3.trans hm, h2.shape, by omega⟩

theorem Foreign.definition_shape (h : Foreign program w w') (x : AccountId) (d : Definition)
    (hd : DefinitionAt w x d) : ∃ d', DefinitionAt w' x d' ∧ (d'.isFungible ↔ d.isFungible) := by
  rcases h.tokens_eq program w w' with he | ⟨authority, ids, i, ho, ht⟩
  · exact ⟨d, by rwa [DefinitionAt, he], Iff.rfl⟩
  · obtain ⟨d', h1, h2⟩ := ht.definition_changes _ _ _ _ _ x d hd
    exact ⟨d', h1, h2.shape⟩

end

section
variable (callerId : AccountId) (authority : List AccountId)

theorem settled_append (w w' : Accounts) (calls more : List ChainedCall) :
    Settled callerId authority w (calls ++ more) w' ↔
      ∃ v, Settled callerId authority w calls v ∧ Settled callerId authority v more w' := by
  induction calls generalizing w with
  | nil =>
    constructor
    · intro h
      exact ⟨w, .nil w, h⟩
    · rintro ⟨v, h, k⟩
      cases h
      exact k
  | cons call calls ih =>
    constructor
    · intro h
      cases h with
      | cons _ u _ _ _ first rest =>
        obtain ⟨v, h1, h2⟩ := (ih u).mp rest
        exact ⟨v, .cons w u v call calls first h1, h2⟩
    · rintro ⟨v, h, k⟩
      cases h with
      | cons _ u _ _ _ first rest =>
        exact .cons w u w' call _ first ((ih u).mpr ⟨v, rest, k⟩)

theorem settled_singleton (w w' : Accounts) (call : ChainedCall) :
    Settled callerId authority w [call] w' ↔
      Leaf (callAuthority authority callerId call) w call w' := by
  constructor
  · intro h
    cases h with
    | cons _ _ _ _ _ first rest =>
      cases rest
      exact first
  · intro h
    exact .cons w w' w' call [] h (.nil w')

theorem Leaf.transition (w w' : Accounts) (call : ChainedCall)
    (instruction : Token.Instruction AccountId) (hi : call.instruction = .token instruction)
    (h : Leaf authority w call w') :
    call.programId = tokenProgramId ∧ Transition authority call.accountIds instruction w w' := by
  cases h with
  | token i hc hp ht =>
    rw [hi] at hc
    cases hc
    exact ⟨hp, ht⟩
  | oracle i hc => rw [hi] at hc; cases hc

theorem Leaf.tokens (w w' : Accounts) (call : ChainedCall) (h : Leaf authority w call w') :
    owned tokenProgramId w' = owned tokenProgramId w ∨ ∃ instruction,
      call.instruction = .token instruction ∧
        Transition authority call.accountIds instruction w w' := by
  cases h with
  | token i hc _ ht => exact Or.inr ⟨i, hc, ht⟩
  | oracle i _ hf => exact Or.inl (owned_frame _ _ _ _ hf (by decide) (by decide))

theorem Settled.owned_eq (program : AccountId) (hp : program ∈ deployedPrograms)
    (hne : program ≠ tokenProgramId) (w w' : Accounts) (calls : List ChainedCall)
    (h : Settled callerId authority w calls w') : owned program w' = owned program w := by
  have hd := ne_default_of_deployed program hp
  have ho : twapOracleProgramId ≠ program := by
    rintro rfl
    revert hp
    decide
  induction h with
  | nil w => rfl
  | cons w v w' call calls first rest ih =>
    rw [ih]
    cases first with
    | token _ _ _ ht => exact owned_frame _ _ _ _ ht.frame hne.symm hd
    | oracle _ _ hf => exact owned_frame _ _ _ _ hf ho hd

/-- A holding that neither the transaction nor a seed authorizes only grows. -/
theorem Settled.holding_grows (x : AccountId) (hx : x ∉ authority) (w w' : Accounts)
    (calls : List ChainedCall)
    (hseeds : ∀ call ∈ calls, ∀ seed ∈ call.pdaSeeds, x ≠ .forPublicPda callerId seed)
    (h : Settled callerId authority w calls w') (held : Holding) (hh : HoldingAt w x held) :
    ∃ held', HoldingAt w' x held' ∧ Grown held held' := by
  induction h generalizing held with
  | nil w => exact ⟨held, hh, Grown.refl held⟩
  | cons w v w' call calls first rest ih =>
    have hca : x ∉ callAuthority authority callerId call := by
      rw [callAuthority, List.mem_append, List.mem_map]
      rintro (hm | ⟨seed, hs, hm⟩)
      · exact hx hm
      · exact hseeds call (List.mem_cons_self ..) seed hs hm.symm
    obtain ⟨b, hb, hg⟩ : ∃ b, HoldingAt v x b ∧ Grown held b := by
      rcases first.tokens with he | ⟨i, -, ht⟩
      · exact ⟨held, by rwa [HoldingAt, he], Grown.refl held⟩
      · exact ht.holding_grows _ _ _ _ _ x hca held hh
    obtain ⟨c, hc, hg'⟩ := ih (fun c hc => hseeds c (List.mem_cons_of_mem _ hc)) b hb
    exact ⟨c, hc, hg.trans _ _ _ hg'⟩

theorem Settled.definition_shape (x : AccountId) (w w' : Accounts) (calls : List ChainedCall)
    (h : Settled callerId authority w calls w') (d : Definition) (hd : DefinitionAt w x d) :
    ∃ d', DefinitionAt w' x d' ∧ (d'.isFungible ↔ d.isFungible) := by
  induction h generalizing d with
  | nil w => exact ⟨d, hd, Iff.rfl⟩
  | cons w v w' call calls first rest ih =>
    obtain ⟨b, hb, hs⟩ : ∃ b, DefinitionAt v x b ∧ (b.isFungible ↔ d.isFungible) := by
      rcases first.tokens with he | ⟨i, -, ht⟩
      · exact ⟨d, by rwa [DefinitionAt, he], Iff.rfl⟩
      · obtain ⟨b, hb, hc⟩ := ht.definition_changes _ _ _ _ _ x d hd
        exact ⟨b, hb, hc.shape⟩
    obtain ⟨c, hc, hs'⟩ := ih b hb
    exact ⟨c, hc, hs'.trans hs⟩

def ChainedCall.burned (call : ChainedCall) (x : AccountId) : ℕ :=
  match call.instruction with
  | .token instruction => burnedOf x call.accountIds instruction
  | _ => 0

/-- Without the mint authority of a definition, calls change its supply by what they burn. -/
theorem Settled.definition_burned (x m : AccountId) (hm : m ∉ authority) (w w' : Accounts)
    (calls : List ChainedCall)
    (hseeds : ∀ call ∈ calls, ∀ seed ∈ call.pdaSeeds, m ≠ .forPublicPda callerId seed)
    (h : Settled callerId authority w calls w') (d : Definition) (hd : DefinitionAt w x d)
    (hmint : d.mintAuthority = some m) :
    ∃ d', DefinitionAt w' x d' ∧ d'.mintAuthority = some m ∧
      (d'.isFungible ↔ d.isFungible) ∧
      d'.supply + (calls.map fun call => call.burned x).sum = d.supply := by
  induction h generalizing d with
  | nil w => exact ⟨d, hd, hmint, Iff.rfl, rfl⟩
  | cons w v w' call calls first rest ih =>
    have hca : m ∉ callAuthority authority callerId call := by
      rw [callAuthority, List.mem_append, List.mem_map]
      rintro (hmem | ⟨seed, hs, hmem⟩)
      · exact hm hmem
      · exact hseeds call (List.mem_cons_self ..) seed hs hmem.symm
    obtain ⟨b, hb, hbm, hs, hsup⟩ : ∃ b, DefinitionAt v x b ∧ b.mintAuthority = some m ∧
        (b.isFungible ↔ d.isFungible) ∧ b.supply + call.burned x = d.supply := by
      cases first with
      | oracle i hi hf =>
        have he := owned_frame tokenProgramId _ _ _ hf (by decide) (by decide)
        refine ⟨d, by rwa [DefinitionAt, he], hmint, Iff.rfl, ?_⟩
        rw [ChainedCall.burned, hi]
        rfl
      | token i hi _ ht =>
        obtain ⟨b, hb, hc⟩ := ht.definition_changes _ _ _ _ _ x d hd
        obtain ⟨h1, h2⟩ := hc.guarded fun a ha => by
          rw [hmint, Option.some.injEq] at ha
          exact ha ▸ hca
        refine ⟨b, hb, h1.trans hmint, hc.shape, ?_⟩
        rw [ChainedCall.burned, hi]
        exact h2
    obtain ⟨c, hc, hcm, hs', hsup'⟩ := ih (fun c hc => hseeds c (List.mem_cons_of_mem _ hc)) b hb hbm
    refine ⟨c, hc, hcm, hs'.trans hs, ?_⟩
    rw [List.map_cons, List.sum_cons]
    omega

/-- Calls that neither burn nor carry the mint authority leave a supply as it is. -/
theorem Settled.definition_fixed (x m : AccountId) (hm : m ∉ authority) (w w' : Accounts)
    (calls : List ChainedCall)
    (hseeds : ∀ call ∈ calls, ∀ seed ∈ call.pdaSeeds, m ≠ .forPublicPda callerId seed)
    (hburn : ∀ call ∈ calls, ∀ n, call.instruction ≠ .token (.burn n))
    (h : Settled callerId authority w calls w') (d : Definition) (hd : DefinitionAt w x d)
    (hmint : d.mintAuthority = some m) :
    ∃ d', DefinitionAt w' x d' ∧ d'.mintAuthority = some m ∧
      (d'.isFungible ↔ d.isFungible) ∧ d'.supply = d.supply := by
  obtain ⟨d', h1, h2, h3, h4⟩ := h.definition_burned callerId authority x m hm w w' calls hseeds d
    hd hmint
  have hzero : (calls.map fun call => call.burned x).sum = 0 := by
    refine List.sum_eq_zero fun n hn => ?_
    obtain ⟨call, hc, rfl⟩ := List.mem_map.mp hn
    rw [ChainedCall.burned]
    split
    · rename_i instruction hi
      cases instruction with
      | burn n => exact absurd hi (hburn call hc n)
      | _ => rfl
    · rfl
  exact ⟨d', h1, h2, h3, by omega⟩

end

end LezPrograms.Lee
