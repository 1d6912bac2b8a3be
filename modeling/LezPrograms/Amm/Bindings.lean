import LezPrograms.Amm.Tick

/-! # The programs that a pool works with

A configuration names the token program and the oracle that its pools call. A pool is
only created when both calls succeed, and the configuration keeps the names. -/

set_option autoImplicit false

namespace LezPrograms.Amm
open LezPrograms.Checked LezPrograms.Lee LezPrograms.Token

def Bound (w : Accounts) : Prop :=
  ∀ x q c cfg, PoolAt w x q → PoolOf c x q → ConfigAt w c cfg →
    cfg.tokenProgramId = tokenProgramId ∧ cfg.twapOracleProgramId = twapOracleProgramId

/-- The calls that create a pool succeed with the deployed programs only. -/
theorem creation_bound (tickMath : TwapOracle.TickMath) (depth : ℕ) (v w' : Accounts)
    (authority : List AccountId) (cfg : AmmConfig) (x ua ub ul tokenA tokenB : AccountId)
    (a b userLp price : U128) (seed : PdaSeed)
    (h : (creationCalls cfg x ua ub ul tokenA tokenB a b userLp price seed).foldlM (fun w chained =>
      invoke tickMath depth w (callAuthority authority ammProgramId chained) chained) v = .ok w') :
    cfg.tokenProgramId = tokenProgramId ∧ cfg.twapOracleProgramId = twapOracleProgramId := by
  simp only [creationCalls, List.foldlM_cons, List.foldlM_nil, bind_eq_ok] at h
  obtain ⟨u, hlock, _, -, _, -, _, -, _, htick, -⟩ := h
  have hleaf := invoke_leaf tickMath depth v u _ _ (Or.inl ⟨_, rfl⟩) hlock
  exact ⟨(hleaf.transition _ _ _ _ _ rfl).1, (oracle_invoked _ _ _ _ _ _ _ rfl htick).1⟩

theorem Bound.effect (w v : Accounts) (authority ids : List AccountId) (instruction : Instruction)
    (calls : List ChainedCall) (hw : Sound w) (hb : Bound w)
    (h : Effect w authority ids instruction v calls)
    (hcreated : ∀ cfg x ua ub ul tokenA tokenB a b userLp price seed,
      calls = creationCalls cfg x ua ub ul tokenA tokenB a b userLp price seed →
        cfg.tokenProgramId = tokenProgramId ∧ cfg.twapOracleProgramId = twapOracleProgramId) :
    Bound v := by
  intro x q c cfg hq hof hcfg
  cases h with
  | configured d _ _ new valid previous =>
    have hx : x ≠ d := by
      rintro rfl
      have hdata := PoolAt.data _ _ _ hq
      rw [put_same, writeData_data] at hdata
      cases hdata
    rw [PoolAt, owned_congr _ _ _ _ (put_other _ _ _ _ _ hx)] at hq
    obtain ⟨d', old, hold, hof'⟩ := (hw.pools x q hq).configured
    obtain rfl := hof'.config_unique _ _ _ _ _ hof
    by_cases hd : d' = d
    · subst hd
      have hnew := ConfigAt.data _ _ _ hcfg
      rw [put_same, writeData_data, Data.ammConfig.injEq] at hnew
      rcases previous with hfresh | ⟨old', hold', hsame⟩
      · have hdata := hold.data
        rw [hfresh] at hdata
        cases hdata
      · have hbound := hb x q d' old' hq hof hold'
        rw [← hnew, hsame]
        exact hbound
    · rw [ConfigAt, owned_congr _ _ _ _ (put_other _ _ _ _ _ hd)] at hcfg
      exact hb x q d' cfg hq hof hcfg
  | withdrawn => exact hb x q c cfg hq hof hcfg
  | created _ d y ua ub ul a b old holdingA holdingB initialLp userLp price seed _ config _ _ poolOf =>
    have hc : c ≠ y := by
      rintro rfl
      have hdata := ConfigAt.data _ _ _ hcfg
      rw [put_same, writeData_data] at hdata
      cases hdata
    rw [ConfigAt, owned_congr _ _ _ _ (put_other _ _ _ _ _ hc)] at hcfg
    by_cases hx : x = y
    · subst hx
      obtain rfl := hof.config_unique _ _ _ _ _ poolOf
      obtain rfl := ConfigAt.unique _ _ _ _ hcfg config
      exact hcreated _ _ _ _ _ _ _ _ _ _ _ _ rfl
    · rw [PoolAt, owned_congr _ _ _ _ (put_other _ _ _ _ _ hx)] at hq
      exact hb x q c cfg hq hof hcfg
  | operated _ d y rest p q' _ op =>
    have hc : c ≠ y := by
      rintro rfl
      have hdata := ConfigAt.data _ _ _ hcfg
      rw [put_same, writeData_data] at hdata
      cases hdata
    rw [ConfigAt, owned_congr _ _ _ _ (put_other _ _ _ _ _ hc)] at hcfg
    by_cases hx : x = y
    · subst hx
      obtain rfl := PoolAt.unique _ _ _ _ hq (poolAt_put w x p q' op.stored)
      rw [PoolOf, op.same.tokenA, op.same.tokenB] at hof
      exact hb x p c cfg op.stored hof hcfg
    · rw [PoolAt, owned_congr _ _ _ _ (put_other _ _ _ _ _ hx)] at hq
      exact hb x q c cfg hq hof hcfg

theorem bound_event (platform : Platform) (w : Accounts) (event : Event) (hbare : Bare w)
    (hw : Sound w) (hb : Bound w) : Bound (event.apply platform w) := by
  rcases event_cases platform w event with
    ⟨he, -⟩ | ⟨authority, call, instruction, _, _, rfl, ht⟩
  · have hown := elsewhere_preserves ammProgramId
      (fun w' => owned ammProgramId w' = owned ammProgramId w)
      (fun v v' hv hf => (hf.owned_eq _ _ _ (by decide) (by decide)).trans hv) w _ he rfl
    intro x q c cfg hq hof hcfg
    rw [PoolAt, hown] at hq
    rw [ConfigAt, hown] at hcfg
    exact hb x q c cfg hq hof hcfg
  · obtain ⟨v, calls, depth, hv, hsettle⟩ :=
      transacted_invoked platform w _ authority call instruction ht.called ht.succeeded
    have hown := hv.settled.owned_eq _ _ ammProgramId (by decide) (by decide)
    have hbound := hb.effect w v authority call.accountIds instruction calls hw
      (hv.effect platform w v _ authority call instruction calls hbare hw)
      fun cfg y ua ub ul tokenA tokenB a b userLp price seed he =>
        creation_bound _ _ _ _ _ _ _ _ _ _ _ _ _ _ _ _ _ (he ▸ hsettle)
    intro x q c cfg hq hof hcfg
    rw [PoolAt, hown] at hq
    rw [ConfigAt, hown] at hcfg
    exact hbound x q c cfg hq hof hcfg

theorem bound_genesis (genesis : Genesis) : Bound genesis.world := by
  intro x q c cfg hq
  exact absurd ((owned_eq_some _ _ _ _).mp hq).1 fun ho =>
    genesis.unowned x (by rw [ho]; decide)

theorem run_bound (platform : Platform) (genesis : Genesis) (events : List Event) :
    Bound (run platform genesis.world events) :=
  (run_preserves platform (fun w => (Bare w ∧ Sound w) ∧ Bound w)
    (fun w event h => ⟨⟨bare_event platform w event h.1.1, sound_event platform w event h.1.1 h.1.2⟩,
      bound_event platform w event h.1.1 h.1.2 h.2⟩) _
    ⟨⟨genesis.bare, sound_genesis genesis⟩, bound_genesis genesis⟩ events).2

end LezPrograms.Amm
