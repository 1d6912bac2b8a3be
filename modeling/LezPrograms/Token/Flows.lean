import LezPrograms.Token.Credits

/-! # What flows into and out of a holding

Each token instruction credits at most one holding and debits at most one. The
balance of a holding changes by exactly these amounts, over one instruction and
over the chained calls of a caller. -/

set_option autoImplicit false

namespace LezPrograms.Token
open LezPrograms.Checked LezPrograms.Lee

section
variable (authority ids : List AccountId) (instruction : Instruction AccountId) (w w' : Accounts)
  (h : Transition authority ids instruction w w')
include h

theorem Transition.holding_flows (x : AccountId) (held : Holding) (hh : HoldingAt w x held) :
    ∃ held', HoldingAt w' x held' ∧ held'.definitionId = held.definitionId ∧
      held'.kind = held.kind ∧
      held'.units + debit x ids instruction = held.units + credit x ids instruction := by
  obtain ⟨held', h1, h2, h3, h4⟩ := h.step.holding_flows _ _ _ _ _ _ x held hh.data
  have ho := h.frame.owner_kept _ _ _ x hh.owner
  exact ⟨held', (owned_eq_some _ _ _ _).mpr ⟨ho, h1⟩, h2, h3, h4⟩

end

/-- A definition and its first holding, created together. -/
theorem Transition.founded (authority : List AccountId) (d k : AccountId) (name : String)
    (supply : U128) (mintAuthority : Option AccountId) (w w' : Accounts)
    (h : Transition authority [d, k] (.newFungibleDefinition name supply mintAuthority) w w') :
    DefinitionAt w' d (.fungible name supply none mintAuthority) ∧
      HoldingAt w' k (.fungible d supply) := by
  obtain ⟨⟨-, hd, hk, -⟩, hd', hk'⟩ := h.newFungibleDefinition
  have howner : ∀ x, w x = default → (w' x).data ≠ .empty → (w' x).programOwner = tokenProgramId := by
    intro x hx hne
    rcases h.frame x with he | ⟨-, ho⟩
    · rw [he, hx] at hne
      exact absurd rfl hne
    · exact ho
  exact ⟨(owned_eq_some _ _ _ _).mpr ⟨howner d hd (by rw [hd']; exact Data.noConfusion), hd'⟩,
    (owned_eq_some _ _ _ _).mpr ⟨howner k hk (by rw [hk']; exact Data.noConfusion), hk'⟩⟩

section
variable (authority : List AccountId) (s r : AccountId) (n : U128) (w w' : Accounts)

/-- What is transferred arrives in a holding of the sender's token. -/
theorem Transition.delivered (h : Transition authority [s, r] (.transfer n) w w')
    (hn : n.val ≠ 0) (held : Holding) (hs : (w s).data = .tokenHolding held) :
    ∃ held', HoldingAt w' r held' ∧ held'.definitionId = held.definitionId ∧
      n.val ≤ held'.units := by
  obtain ⟨sender, recipient, _, recipient', -, ⟨hs', -⟩, hr, hr', htoken, -, -, -, hreceived⟩ :=
    h.transfer
  rw [hs, Data.tokenHolding.injEq] at hs'
  subst hs'
  have howner : (w' r).programOwner = tokenProgramId := by
    rcases h.frame r with he | ⟨-, ho⟩
    · rw [he] at hr'
      rcases hr with ⟨hr, -⟩ | hr
      · rw [hr] at hr'
        cases hr'
      · rw [hr, Data.tokenHolding.injEq] at hr'
        subst hr'
        omega
    · exact ho
  exact ⟨recipient', (owned_eq_some _ _ _ _).mpr ⟨howner, hr'⟩, htoken, by omega⟩

section
variable (hbare : Bare w)
include hbare

/-- A holding that a program rewrites is one of that program. -/
theorem holdingAt_or_same (hf : Frame tokenProgramId w w') (x : AccountId) (held held' : Holding)
    (h : (w x).data = .tokenHolding held) (h' : (w' x).data = .tokenHolding held') :
    w' x = w x ∨ (HoldingAt w x held ∧ HoldingAt w' x held') := by
  rcases hf x with he | ⟨ho | ho, ho'⟩
  · exact Or.inl he
  · exact Or.inr ⟨(owned_eq_some _ _ _ _).mpr ⟨ho, h⟩, (owned_eq_some _ _ _ _).mpr ⟨ho', h'⟩⟩
  · have hdata := hbare x ho
    rw [h] at hdata
    cases hdata

theorem units_debited (hf : Frame tokenProgramId w w') (x : AccountId) (n : ℕ) (held held' : Holding)
    (h : (w x).data = .tokenHolding held) (h' : (w' x).data = .tokenHolding held')
    (hunits : held'.units + n = held.units) : unitsAt w' x + n = unitsAt w x := by
  rcases holdingAt_or_same w w' hbare hf x _ _ h h' with he | ⟨hw, hw'⟩
  · rw [he, h, Data.tokenHolding.injEq] at h'
    subst h'
    rw [unitsAt, owned_congr _ _ _ x he, unitsAt]
    omega
  · rw [hw.unitsAt_eq, hw'.unitsAt_eq]
    exact hunits

theorem units_credited (hf : Frame tokenProgramId w w') (x : AccountId) (n : ℕ) (held held' : Holding)
    (h : (w x = default ∧ held.units = 0) ∨ (w x).data = .tokenHolding held)
    (h' : (w' x).data = .tokenHolding held') (hunits : held'.units = held.units + n) :
    unitsAt w' x = unitsAt w x + n := by
  rcases h with ⟨hx, hzero⟩ | hx
  · have howner : (w' x).programOwner = tokenProgramId := by
      rcases hf x with he | ⟨-, ho⟩
      · rw [he, hx] at h'
        cases h'
      · exact ho
    have hw' : HoldingAt w' x held' := (owned_eq_some _ _ _ _).mpr ⟨howner, h'⟩
    have hw : unitsAt w x = 0 := by
      rw [unitsAt, owned, hx]
      rfl
    rw [hw, hw'.unitsAt_eq, hunits, hzero]
  · rcases holdingAt_or_same w w' hbare hf x _ _ hx h' with he | ⟨hw, hw'⟩
    · rw [he, hx, Data.tokenHolding.injEq] at h'
      subst h'
      rw [unitsAt, owned_congr _ _ _ x he, unitsAt]
      omega
    · rw [hw.unitsAt_eq, hw'.unitsAt_eq]
      exact hunits

theorem Transition.moved (h : Transition authority [s, r] (.transfer n) w w') :
    unitsAt w' s + n.val = unitsAt w s ∧
      unitsAt w' r = unitsAt w r + n.val ∧ ∀ x, x ≠ s → x ≠ r → w' x = w x := by
  obtain ⟨sender, recipient, sender', recipient', ⟨-, -, hsame⟩, ⟨hs, hs', -, -, hsent⟩,
    hr, hr', -, -, -, -, hreceived⟩ := h.transfer
  refine ⟨units_debited w w' hbare h.frame s n.val _ _ hs hs' hsent,
    units_credited w w' hbare h.frame r n.val recipient recipient' ?_ hr' hreceived, hsame⟩
  rcases hr with ⟨hr, rfl⟩ | hr
  · exact Or.inl ⟨hr, TokenHolding.zeroizedCloneFrom_units _⟩
  · exact Or.inr hr

omit hbare in
theorem unitsAt_definition (d : Definition) (x : AccountId) (h : (w x).data = .tokenDefinition d) :
    unitsAt w x = 0 := by
  rw [unitsAt]
  cases ho : owned tokenProgramId w x with
  | none => rfl
  | some data =>
    have hdata := ((owned_eq_some _ _ _ _).mp ho).2
    rw [h] at hdata
    subst hdata
    rfl

theorem Transition.burned_from (d k : AccountId) (h : Transition authority [d, k] (.burn n) w w') :
    unitsAt w' k + n.val = unitsAt w k ∧ ∀ x, x ≠ k → unitsAt w' x = unitsAt w x := by
  obtain ⟨_, _, _, _, ⟨-, -, hsame⟩, ⟨hd, hd', -⟩, ⟨hk, hk', -, -, -, hunits⟩⟩ := h.burn
  refine ⟨units_debited w w' hbare h.frame k n.val _ _ hk hk' hunits, fun x hxk => ?_⟩
  by_cases hxd : x = d
  · subst hxd
    rw [unitsAt_definition w _ x hd, unitsAt_definition w' _ x hd']
  · rw [unitsAt, owned_congr _ _ _ x (hsame x hxd hxk), unitsAt]

theorem Transition.minted_to (d k : AccountId) (h : Transition authority [d, k] (.mint n) w w') :
    unitsAt w' k = unitsAt w k + n.val ∧ ∀ x, x ≠ k → unitsAt w' x = unitsAt w x := by
  obtain ⟨_, _, holding, holding', ⟨-, -, -, hsame⟩, ⟨hd, hd', -⟩, hk, hk', -, -, -, hunits⟩ := h.mint
  refine ⟨units_credited w w' hbare h.frame k n.val holding holding' ?_ hk' hunits, fun x hxk => ?_⟩
  · rcases hk with ⟨hk, rfl⟩ | hk
    · exact Or.inl ⟨hk, TokenHolding.zeroizedFromDefinition_units _ _⟩
    · exact Or.inr hk
  · by_cases hxd : x = d
    · subst hxd
      rw [unitsAt_definition w _ x hd, unitsAt_definition w' _ x hd']
    · rw [unitsAt, owned_congr _ _ _ x (hsame x hxd hxk), unitsAt]

end

end

end LezPrograms.Token

namespace LezPrograms.Lee
open LezPrograms.Token LezPrograms.Checked

def ChainedCall.credit (call : ChainedCall) (x : AccountId) : ℕ :=
  match call.instruction with
  | .token instruction => Token.credit x call.accountIds instruction
  | _ => 0

def ChainedCall.debit (call : ChainedCall) (x : AccountId) : ℕ :=
  match call.instruction with
  | .token instruction => Token.debit x call.accountIds instruction
  | _ => 0

section
variable (callerId : AccountId) (authority : List AccountId) (w w' : Accounts)

theorem Leaf.holding_flows (call : ChainedCall) (h : Leaf authority w call w') (x : AccountId)
    (held : Holding) (hh : HoldingAt w x held) :
    ∃ held', HoldingAt w' x held' ∧ held'.definitionId = held.definitionId ∧
      held'.kind = held.kind ∧ held'.units + call.debit x = held.units + call.credit x := by
  cases h with
  | token i hi _ ht =>
    rw [ChainedCall.debit, ChainedCall.credit, hi]
    exact ht.holding_flows _ _ _ _ _ x held hh
  | oracle i hi hf =>
    have he := owned_frame tokenProgramId _ _ _ hf (by decide) (by decide)
    rw [ChainedCall.debit, ChainedCall.credit, hi]
    exact ⟨held, by rwa [HoldingAt, he], rfl, rfl, rfl⟩

variable (calls : List ChainedCall) (h : Settled callerId authority w calls w')
include h

/-- An account that carries a holding carries one of the same token after token calls,
whoever owns it. -/
theorem Settled.token_kept (hl : ∀ call ∈ calls, ∃ i, call.instruction = .token i) (x : AccountId)
    (held : Holding) (hd : (w x).data = .tokenHolding held) :
    ∃ held' : Holding, (w' x).data = .tokenHolding held' ∧
      held'.definitionId = held.definitionId := by
  induction h generalizing held with
  | nil w => exact ⟨held, hd, rfl⟩
  | cons w v w' call calls first rest ih =>
    obtain ⟨i, hi⟩ := hl call (List.mem_cons_self ..)
    obtain ⟨-, ht⟩ := first.transition _ _ _ _ i hi
    obtain ⟨b, hb, hbt, -, -⟩ := ht.step.holding_flows _ _ _ _ _ _ x held hd
    obtain ⟨c, hc, hct⟩ := ih (fun c hc => hl c (List.mem_cons_of_mem _ hc)) b hb
    exact ⟨c, hc, hct.trans hbt⟩

/-- The balance of a holding after the calls of a caller. -/
theorem Settled.holding_flows (x : AccountId) (held : Holding) (hh : HoldingAt w x held) :
    ∃ held', HoldingAt w' x held' ∧ held'.definitionId = held.definitionId ∧
      held'.kind = held.kind ∧
      held'.units + (calls.map fun call => call.debit x).sum
        = held.units + (calls.map fun call => call.credit x).sum := by
  induction h generalizing held with
  | nil w => exact ⟨held, hh, rfl, rfl, rfl⟩
  | cons w v w' call calls first rest ih =>
    obtain ⟨b, hb, ht, hk, hf⟩ := first.holding_flows _ _ _ _ x held hh
    obtain ⟨c, hc, ht', hk', hf'⟩ := ih b hb
    refine ⟨c, hc, ht'.trans ht, hk'.trans hk, ?_⟩
    simp only [List.map_cons, List.sum_cons]
    omega

/-- A holding is debited only by calls that name it as their source and carry its key. -/
theorem Settled.debits_eq_zero (x : AccountId) (hx : x ∉ authority)
    (hcalls : ∀ call ∈ calls, call.debit x = 0 ∨
      ∀ seed ∈ call.pdaSeeds, x ≠ .forPublicPda callerId seed) :
    (calls.map fun call => call.debit x).sum = 0 := by
  induction h with
  | nil w => rfl
  | cons w v w' call calls first rest ih =>
    rw [List.map_cons, List.sum_cons, ih fun c hc => hcalls c (List.mem_cons_of_mem _ hc),
      Nat.add_zero]
    rcases hcalls call (List.mem_cons_self ..) with hzero | hseeds
    · exact hzero
    · have hca : x ∉ callAuthority authority callerId call := by
        rw [callAuthority, List.mem_append, List.mem_map]
        rintro (hm | ⟨seed, hs, hm⟩)
        · exact hx hm
        · exact hseeds seed hs hm.symm
      rw [ChainedCall.debit]
      cases first with
      | token i hi _ ht =>
        rw [hi]
        exact ht.step.debit_eq_zero _ _ _ _ _ _ x hca
      | oracle i hi =>
        rw [hi]

end

inductive ChainedCall.Routine (call : ChainedCall) : Prop
  | transfer (s r : AccountId) (n : U128) (called : call.instruction = .token (.transfer n))
      (accounts : call.accountIds = [s, r])
  | burn (d k : AccountId) (n : U128) (called : call.instruction = .token (.burn n))
      (accounts : call.accountIds = [d, k])
  | mint (d k : AccountId) (n : U128) (called : call.instruction = .token (.mint n))
      (accounts : call.accountIds = [d, k])
  | oracle (instruction : TwapOracle.Instruction)
      (called : call.instruction = .twapOracle instruction)

section
variable (callerId : AccountId) (authority : List AccountId) (w w' : Accounts) (hbare : Bare w)
include hbare

theorem Leaf.units_flow (call : ChainedCall) (hc : call.Routine) (h : Leaf authority w call w')
    (x : AccountId) :
    Bare w' ∧ unitsAt w' x + call.debit x = unitsAt w x + call.credit x := by
  cases hc with
  | transfer s r n hi hids =>
    obtain ⟨-, ht⟩ := h.transition _ _ _ _ _ hi
    rw [hids] at ht
    refine ⟨hbare.frame _ _ _ ht.frame (by decide), ?_⟩
    obtain ⟨-, -, -, -, ⟨-, hsr, -⟩, -⟩ := ht.transfer
    obtain ⟨hsent, hreceived, hsame⟩ := ht.moved _ _ _ _ _ _ hbare
    rw [ChainedCall.debit, ChainedCall.credit, hi, hids]
    simp only [Token.debit, Token.credit]
    by_cases hs : x = s
    · subst hs
      rw [if_pos rfl, if_neg hsr]
      exact hsent
    · by_cases hr : x = r
      · subst hr
        rw [if_neg hs, if_pos rfl]
        exact hreceived
      · rw [if_neg hs, if_neg hr, unitsAt, owned_congr _ _ _ x (hsame x hs hr), unitsAt]
  | burn d k n hi hids =>
    obtain ⟨-, ht⟩ := h.transition _ _ _ _ _ hi
    rw [hids] at ht
    refine ⟨hbare.frame _ _ _ ht.frame (by decide), ?_⟩
    obtain ⟨hk, hsame⟩ := ht.burned_from _ _ _ _ hbare
    rw [ChainedCall.debit, ChainedCall.credit, hi, hids]
    simp only [Token.debit, Token.credit]
    by_cases hx : x = k
    · subst hx
      rw [if_pos rfl]
      exact hk
    · rw [if_neg hx, hsame x hx]
  | mint d k n hi hids =>
    obtain ⟨-, ht⟩ := h.transition _ _ _ _ _ hi
    rw [hids] at ht
    refine ⟨hbare.frame _ _ _ ht.frame (by decide), ?_⟩
    obtain ⟨hk, hsame⟩ := ht.minted_to _ _ _ _ hbare
    rw [ChainedCall.debit, ChainedCall.credit, hi, hids]
    simp only [Token.debit, Token.credit]
    by_cases hx : x = k
    · subst hx
      rw [if_pos rfl]
      exact hk
    · rw [if_neg hx, hsame x hx]
  | oracle i hi =>
    cases h with
    | token _ hi' => rw [hi] at hi'; cases hi'
    | oracle _ _ hf =>
      have he := owned_frame tokenProgramId _ _ _ hf (by decide) (by decide)
      refine ⟨hbare.frame _ _ _ hf (by decide), ?_⟩
      rw [ChainedCall.debit, ChainedCall.credit, hi, unitsAt, he, unitsAt]

/-- What any account holds after calls. -/
theorem Settled.units_flow (calls : List ChainedCall) (hc : ∀ call ∈ calls, call.Routine)
    (h : Settled callerId authority w calls w') (x : AccountId) :
    unitsAt w' x + (calls.map fun call => call.debit x).sum
      = unitsAt w x + (calls.map fun call => call.credit x).sum := by
  induction h with
  | nil w => rfl
  | cons w v w' call calls first rest ih =>
    obtain ⟨hv, hfirst⟩ := first.units_flow _ _ _ hbare call (hc call (List.mem_cons_self ..)) x
    have hrest := ih hv fun c h => hc c (List.mem_cons_of_mem _ h)
    simp only [List.map_cons, List.sum_cons]
    omega

end

def ChainedCall.minted (call : ChainedCall) (x : AccountId) : ℕ :=
  match call.instruction, call.accountIds with
  | .token (.mint n), [d, _] => if d = x then n.val else 0
  | _, _ => 0

structure Resupplied (minted burned : ℕ) (d d' : Definition) : Prop where
  mintAuthority : d'.mintAuthority = d.mintAuthority
  shape : d'.isFungible ↔ d.isFungible
  supply : d'.supply + burned = d.supply + minted

theorem Resupplied.refl (d : Definition) : Resupplied 0 0 d d := ⟨rfl, Iff.rfl, rfl⟩

section
variable (callerId : AccountId) (authority : List AccountId) (w w' : Accounts)

theorem Leaf.resupplied (call : ChainedCall) (hr : call.Routine) (h : Leaf authority w call w')
    (x : AccountId) (d : Definition) (hd : DefinitionAt w x d) :
    ∃ d', DefinitionAt w' x d' ∧ Resupplied (call.minted x) (call.burned x) d d' := by
  have hholding : ∀ (y : AccountId) (held : Holding), (w y).data = .tokenHolding held → x ≠ y := by
    rintro y held hy rfl
    rw [hd.data] at hy
    cases hy
  have hfresh : ∀ y, w y = default → x ≠ y := by
    rintro y hy rfl
    have hdata := hd.data
    rw [hy] at hdata
    cases hdata
  cases hr with
  | transfer s r n hi hids =>
    obtain ⟨-, ht⟩ := h.transition _ _ _ _ _ hi
    rw [hids] at ht
    obtain ⟨_, _, _, _, ⟨-, -, hsame⟩, ⟨hs, -⟩, hto, -⟩ := ht.transfer
    have hxr : x ≠ r := hto.elim (fun hto => hfresh r hto.1) (hholding r _)
    refine ⟨d, (owned_congr _ _ _ x (hsame x (hholding s _ hs) hxr)).trans hd, ?_⟩
    rw [ChainedCall.minted, ChainedCall.burned, hi, hids]
    exact Resupplied.refl d
  | burn y k n hi hids =>
    obtain ⟨-, ht⟩ := h.transition _ _ _ _ _ hi
    rw [hids] at ht
    obtain ⟨_, _, _, _, ⟨-, -, hsame⟩, -, ⟨hk, -⟩⟩ := ht.burn
    simp only [ChainedCall.minted, ChainedCall.burned, hi, hids, burnedOf]
    by_cases hxy : y = x
    · subst hxy
      obtain ⟨d', hd', hm, hshape, hsupply⟩ := ht.burned _ _ _ _ _ _ d hd
      rw [if_pos rfl]
      exact ⟨d', hd', hm, hshape, hsupply⟩
    · rw [if_neg hxy]
      exact ⟨d, (owned_congr _ _ _ x (hsame x (Ne.symm hxy) (hholding k _ hk))).trans hd,
        Resupplied.refl d⟩
  | mint y k n hi hids =>
    obtain ⟨-, ht⟩ := h.transition _ _ _ _ _ hi
    rw [hids] at ht
    obtain ⟨_, _, _, _, ⟨-, -, -, hsame⟩, -, hto, -⟩ := ht.mint
    have hxk : x ≠ k := hto.elim (fun hto => hfresh k hto.1) (hholding k _)
    simp only [ChainedCall.minted, ChainedCall.burned, hi, hids, burnedOf]
    by_cases hxy : y = x
    · subst hxy
      obtain ⟨d', hd', hm, hshape, hsupply⟩ := ht.minted _ _ _ _ _ _ d hd
      rw [if_pos rfl]
      exact ⟨d', hd', hm, hshape, hsupply⟩
    · rw [if_neg hxy]
      exact ⟨d, (owned_congr _ _ _ x (hsame x (Ne.symm hxy) hxk)).trans hd, Resupplied.refl d⟩
  | oracle instruction hi =>
    have hsame : owned tokenProgramId w' = owned tokenProgramId w := by
      rcases h.tokens with he | ⟨i, hi', -⟩
      · exact he
      · rw [hi] at hi'
        cases hi'
    refine ⟨d, by rwa [DefinitionAt, hsame], ?_⟩
    rw [ChainedCall.minted, ChainedCall.burned, hi]
    exact Resupplied.refl d

/-- The supply of a token after the calls of a caller. -/
theorem Settled.resupplied (calls : List ChainedCall) (hr : ∀ call ∈ calls, call.Routine)
    (h : Settled callerId authority w calls w') (x : AccountId) (d : Definition)
    (hd : DefinitionAt w x d) :
    ∃ d', DefinitionAt w' x d' ∧
      Resupplied (calls.map fun call => call.minted x).sum
        (calls.map fun call => call.burned x).sum d d' := by
  induction h generalizing d with
  | nil w => exact ⟨d, hd, Resupplied.refl d⟩
  | cons w v w' call calls first rest ih =>
    obtain ⟨b, hb, hfirst⟩ := first.resupplied _ _ _ _ (hr call (List.mem_cons_self ..)) x d hd
    obtain ⟨c, hc, hrest⟩ := ih (fun c hc => hr c (List.mem_cons_of_mem _ hc)) b hb
    refine ⟨c, hc, hrest.mintAuthority.trans hfirst.mintAuthority,
      hrest.shape.trans hfirst.shape, ?_⟩
    have hb' := hfirst.supply
    have hc' := hrest.supply
    simp only [List.map_cons, List.sum_cons]
    omega

end

end LezPrograms.Lee
