import LezPrograms.Amm.Tick

/-! # The number of shares of a pool

A pool starts with the integer square root of the product of its reserves, and its
moves only improve the backing of a share. So the shares never exceed the geometric
mean of the reserves. -/

set_option autoImplicit false

namespace LezPrograms.Amm
open LezPrograms.Checked LezPrograms.Checked.Unsigned LezPrograms.Lee

def Backed (w : Accounts) : Prop := ∀ x q, PoolAt w x q → q.pool.Backed

theorem isqrtProduct_sq_le (a b r : U128) (h : isqrtProduct a b = .ok r) :
    r.val ^ 2 ≤ a.val * b.val := by
  simp only [isqrtProduct, bind_eq_ok, expect_eq_ok, checkedMul_eq_some, widen_val,
    Unsigned.tryFrom_eq_some] at h
  obtain ⟨product, hp, hr⟩ := h
  rw [hr, ← hp]
  exact Nat.sqrt_le' _

/-- An instruction stores a pool where there was one, or it stores a new one with backed shares. -/
theorem Step.founded (w v : Accounts) (authority ids : List AccountId) (instruction : Instruction)
    (calls : List ChainedCall) (h : Step ammProgramId w authority ids instruction v calls)
    (y : AccountId) (q : PoolDefinition) (hq : (v y).data = .poolDefinition q) :
    (∃ p, (w y).data = .poolDefinition p) ∨ q.pool.Backed := by
  have hother : ∀ (x : AccountId) (data : Data), v = put ammProgramId w x data → y ≠ x →
      ∃ p, (w y).data = .poolDefinition p := by
    rintro x data rfl hy
    exact ⟨q, by rwa [put_other _ _ _ _ _ hy] at hq⟩
  have hstored : ∀ (x : AccountId) (p q' : PoolDefinition),
      v = put ammProgramId w x (.poolDefinition q') → (w x).data = .poolDefinition p →
        ∃ p, (w y).data = .poolDefinition p := by
    intro x p q' hv hp
    by_cases hy : y = x
    · exact ⟨p, hy ▸ hp⟩
    · exact hother x _ hv hy
  cases h with
  | initializeConfig owner nonce cfg authorized fresh swapFee protocolFee =>
    refine Or.inl (hother _ _ rfl ?_)
    rintro rfl
    rw [put_same, writeData_data] at hq
    cases hq
  | updateConfig c a new cfg config entitled authorized =>
    refine Or.inl (hother _ _ rfl ?_)
    rintro rfl
    rw [put_same, writeData_data] at hq
    cases hq
  | withdrawProtocolFees => exact Or.inl ⟨q, hq⟩
  | newDefinition c x ua ub ul a b deadline cfg holdingA holdingB initialLp userLp price seed config
      dataA dataB distinct derived fresh positiveA positiveB root above rest spot seeded =>
    by_cases hy : y = x
    · rw [hy, put_same, writeData_data, Data.poolDefinition.injEq] at hq
      rw [← hq]
      exact Or.inr (isqrtProduct_sq_le a b initialLp root)
    · exact Or.inl (hother _ _ rfl hy)
  | addLiquidity c x ua ub ul minLp maxA maxB deadline cfg p q' token balance amountA amountB deltaLp
      price seed reads vaults amounts updated written spot seeded =>
    exact Or.inl (hstored x p q' rfl reads.stored)
  | removeLiquidity c x ua ub ul amount minA minB deadline cfg p q' lpBalance amountA amountB price
      seed reads positive lpData positiveA positiveB amounts updated written spot seeded =>
    exact Or.inl (hstored x p q' rfl reads.stored)
  | syncReserves c x cfg p token balance price seed reads owned vaults spot seeded =>
    exact Or.inl (hstored x p _ rfl reads.stored)
  | swap instruction side c x i o cfg p q' token balance holding amounts swapFee protocolFee net price
      seed reads vaults input inputToken priced fee share rest updated written spot seeded =>
    exact Or.inl (hstored x p q' rfl reads.stored)

theorem backed_event (platform : Platform) (w : Accounts) (event : Event) (hbare : Bare w)
    (hw : Sound w) (hb : Backed w) :
    Backed (event.apply platform w) := by
  intro x q hq
  have hkept : (∃ p, PoolAt w x p) → q.pool.Backed := by
    rintro ⟨p, hp⟩
    obtain ⟨q', hq', -, hmoves⟩ := pool_event platform w event hbare hw x p hp
    obtain rfl := PoolAt.unique _ _ _ _ hq hq'
    have healthy := (hw.pools x p hp).healthy
    exact (ConstantProduct.moves_rise 1000 (by decide) _ _ hmoves healthy).2.backed p.pool q.pool
      (Nat.mul_pos healthy.first healthy.second) (hb x p hp)
  rcases event_cases platform w event with
    ⟨he, -⟩ | ⟨authority, call, instruction, v, calls, rfl, ht⟩
  · have hown := elsewhere_preserves ammProgramId
      (fun w' => owned ammProgramId w' = owned ammProgramId w)
      (fun v v' hv hf => (hf.owned_eq _ _ _ (by decide) (by decide)).trans hv) w _ he rfl
    exact hkept ⟨q, by rwa [PoolAt, hown] at hq⟩
  · have hown := ht.settled.owned_eq _ _ ammProgramId (by decide) (by decide)
    rw [PoolAt, hown] at hq
    refine (ht.step.founded w v _ _ instruction calls x q
      (PoolAt.data v x q hq)).elim ?_ id
    rintro ⟨p, hp⟩
    exact hkept ⟨p, poolAt_before w v hbare ht.frame x q p hq hp⟩

theorem backed_genesis (genesis : Genesis) : Backed genesis.world := by
  intro x q hq
  exact absurd ((owned_eq_some _ _ _ _).mp hq).1 fun ho =>
    genesis.unowned x (by rw [ho]; decide)

theorem run_backed (platform : Platform) (genesis : Genesis) (events : List Event) :
    Backed (run platform genesis.world events) :=
  (run_preserves platform (fun w => (Bare w ∧ Sound w) ∧ Backed w)
    (fun w event h => ⟨⟨bare_event platform w event h.1.1, sound_event platform w event h.1.1 h.1.2⟩,
      backed_event platform w event h.1.1 h.1.2 h.2⟩) _
    ⟨⟨genesis.bare, sound_genesis genesis⟩, backed_genesis genesis⟩ events).2

end LezPrograms.Amm
