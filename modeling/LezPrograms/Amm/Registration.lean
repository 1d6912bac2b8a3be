import LezPrograms.Amm.Tick
import LezPrograms.TwapOracle.Identity

/-! # Registering a pool with the oracle

Two instructions of the AMM change nothing that the AMM keeps: they check a pool and
chain the creation of a feed or of a price account for it, with the pool as the price
source. The seed of either is read from stored state, never from the caller. -/

set_option autoImplicit false

namespace LezPrograms.Amm
open LezPrograms.Checked LezPrograms.Lee

/-- `Instruction::CreatePriceObservations` and `Instruction::CreateOraclePriceAccount` -/
inductive OracleInstruction where
  | createPriceObservations (windowDuration : U64)
  | createOraclePriceAccount (windowDuration : U64)
deriving DecidableEq

/-- A pool counts as a price source when the AMM owns it and it is derived under `config`. -/
def decodePriceSource (pool config : InputAccount) (ammProgramId : AccountId) (context : String) :
    Outcome PoolDefinition := do
  ensure (pool.account.programOwner = ammProgramId)
    (context ++ ": Pool account must be owned by the AMM Program")
  let poolDef : PoolDefinition ← expect (tryFrom pool.account.data)
    (context ++ ": AMM Program expects a valid Pool Definition Account")
  let poolId ← computePoolPda ammProgramId config.accountId poolDef.definitionTokenAId
    poolDef.definitionTokenBId
  ensure (pool.accountId = poolId) (context ++ ": Pool Account ID does not match PDA")
  pure poolDef

def createPriceObservations (config pool currentTickAccount priceObservations clock : InputAccount)
    (windowDuration : U64) (ammProgramId : AccountId) : HandlerResult := do
  let configData ← decodeConfig config ammProgramId "Create price observations"
  let twapOracleProgramId := configData.twapOracleProgramId
  ensure (clock.accountId = clock01ProgramAccountId)
    ("Create price observations: clock account must be the canonical 1-block LEZ clock "
      ++ "account")
  let poolDef ← decodePriceSource pool config ammProgramId "Create price observations"
  ensure (currentTickAccount.accountId
      = TwapOracle.computeCurrentTickAccountPda twapOracleProgramId pool.accountId)
    "Create price observations: current tick Account ID does not match PDA"
  ensure (currentTickAccount.account.programOwner = twapOracleProgramId)
    "Create price observations: current tick account must be owned by the TWAP oracle"
  let current : TwapOracle.CurrentTickAccount ← expect (tryFrom currentTickAccount.account.data)
    "Create price observations: AMM Program expects a valid CurrentTickAccount"
  ensure (priceObservations.accountId
      = TwapOracle.computePriceObservationsPda twapOracleProgramId pool.accountId windowDuration)
    "Create price observations: price observations Account ID does not match PDA"
  ensure (priceObservations.account = default)
    "Create price observations: price observations account already exists"
  let poolSeed ← computePoolPdaSeed config.accountId poolDef.definitionTokenAId
    poolDef.definitionTokenBId
  pure ([.unchanged config, .unchanged pool, .unchanged currentTickAccount,
      .unchanged priceObservations, .unchanged clock],
    [(ChainedCall.new twapOracleProgramId
      [priceObservations.accountId, pool.accountId, clock.accountId]
      (.twapOracle (.createPriceObservations current.tick windowDuration))).withPdaSeeds [poolSeed]])

def createOraclePriceAccount (config pool oraclePriceAccount clock : InputAccount)
    (windowDuration : U64) (ammProgramId : AccountId) : HandlerResult := do
  let configData ← decodeConfig config ammProgramId "Create oracle price account"
  let twapOracleProgramId := configData.twapOracleProgramId
  ensure (clock.accountId = clock01ProgramAccountId)
    ("Create oracle price account: clock account must be the canonical 1-block LEZ clock "
      ++ "account")
  ensure (TwapOracle.observationsCapacity ≤ windowDuration.val)
    ("Create oracle price account: window_duration must be >= OBSERVATIONS_CAPACITY so a "
      ++ "matching PriceObservations account can exist and PublishPrice can update this price "
      ++ "account")
  let poolDef ← decodePriceSource pool config ammProgramId "Create oracle price account"
  let initialPrice ← spotPriceQ6464 poolDef.reserveA poolDef.reserveB
  ensure (initialPrice.val ≠ 0)
    ("Create oracle price account: pool spot price must be non-zero (zero is the no-price "
      ++ "sentinel; pool reserve_b is zero or negligible relative to reserve_a)")
  ensure (oraclePriceAccount.accountId
      = TwapOracle.computeOraclePriceAccountPda twapOracleProgramId pool.accountId windowDuration)
    "Create oracle price account: oracle price Account ID does not match PDA"
  ensure (oraclePriceAccount.account = default)
    "Create oracle price account: oracle price account already exists"
  let poolSeed ← computePoolPdaSeed config.accountId poolDef.definitionTokenAId
    poolDef.definitionTokenBId
  pure ([.unchanged config, .unchanged pool, .unchanged oraclePriceAccount, .unchanged clock],
    [(ChainedCall.new twapOracleProgramId
      [oraclePriceAccount.accountId, pool.accountId, clock.accountId]
      (.twapOracle (.createOraclePriceAccount poolDef.definitionTokenAId poolDef.definitionTokenBId
        initialPrice windowDuration))).withPdaSeeds [poolSeed]])

def oracleMain (ammProgramId : AccountId) (accounts : List InputAccount)
    (instruction : OracleInstruction) : HandlerResult :=
  match instruction, accounts with
  | .createPriceObservations windowDuration, [config, pool, currentTickAccount, priceObservations,
      clock] =>
    createPriceObservations config pool currentTickAccount priceObservations clock windowDuration
      ammProgramId
  | .createOraclePriceAccount windowDuration, [config, pool, oraclePriceAccount, clock] =>
    createOraclePriceAccount config pool oraclePriceAccount clock windowDuration ammProgramId
  | _, _ => .error "wrong number of accounts"

def invokeRegistration (tickMath : TwapOracle.TickMath) :
    ℕ → Accounts → List AccountId → List AccountId → OracleInstruction → Outcome Accounts
  | 0, _, _, _, _ => .error "chained calls are nested too deeply"
  | depth + 1, w, authority, ids, instruction => do
    let (w', calls) ← execute ammProgramId w authority ids
      fun accounts => oracleMain ammProgramId accounts instruction
    calls.foldlM (fun w chained =>
      invoke tickMath depth w (callAuthority authority ammProgramId chained) chained) w'

def register (platform : Platform) (w : Accounts) (authority ids : List AccountId)
    (instruction : OracleInstruction) : Outcome Accounts := do
  ensure (∀ id ∈ authority, ∀ program ∈ deployedPrograms, ¬id.DerivedBy program)
    "a derived address is authorized by its program only"
  invokeRegistration platform.tickMath platform.callDepth w authority ids instruction

structure Registrable (w : Accounts) (c x : AccountId) (q : PoolDefinition) : Prop where
  configured : ∃ cfg, ConfigAt w c cfg ∧ cfg.twapOracleProgramId = twapOracleProgramId
  pool : PoolAt w x q
  derived : PoolOf c x q

inductive Registration (w : Accounts) :
    List AccountId → OracleInstruction → AccountId → Data → Prop
  | priceObservations (c x : AccountId) (q : PoolDefinition) (windowDuration now : U64)
      (current : TwapOracle.CurrentTickAccount) (registrable : Registrable w c x q)
      (reported : Holds twapOracleProgramId
        (w (TwapOracle.computeCurrentTickAccountPda twapOracleProgramId x)) (.currentTick current))
      (wide : TwapOracle.observationsCapacity ≤ windowDuration.val)
      (clock : (w clock01ProgramAccountId).data = .clock now) :
      Registration w [c, x, TwapOracle.computeCurrentTickAccountPda twapOracleProgramId x,
          TwapOracle.computePriceObservationsPda twapOracleProgramId x windowDuration,
          clock01ProgramAccountId] (.createPriceObservations windowDuration)
        (TwapOracle.computePriceObservationsPda twapOracleProgramId x windowDuration)
        (.priceObservations (TwapOracle.initialObservations x current.tick now))
  | oraclePriceAccount (c x : AccountId) (q : PoolDefinition) (windowDuration now : U64)
      (price : U128) (registrable : Registrable w c x q)
      (wide : TwapOracle.observationsCapacity ≤ windowDuration.val)
      (clock : (w clock01ProgramAccountId).data = .clock now)
      (spot : spotPriceQ6464 q.reserveA q.reserveB = .ok price)
      (priced : price.val ≠ 0) (timed : now.val ≠ 0) :
      Registration w [c, x,
          TwapOracle.computeOraclePriceAccountPda twapOracleProgramId x windowDuration,
          clock01ProgramAccountId] (.createOraclePriceAccount windowDuration)
        (TwapOracle.computeOraclePriceAccountPda twapOracleProgramId x windowDuration)
        (.oraclePrice ⟨q.definitionTokenAId, q.definitionTokenBId, price, now, x,
          Unsigned.zero 128⟩)

theorem decodePriceSource_eq_ok (pool config : InputAccount) (context : String)
    (q : PoolDefinition) :
    decodePriceSource pool config ammProgramId context = .ok q ↔
      Holds ammProgramId pool.account (.poolDefinition q) ∧ PoolOf config.accountId pool.accountId q := by
  simp only [decodePriceSource, bind_eq_ok, ensure_eq_ok, exists_const, expect_eq_ok,
    tryFrom_poolDefinition, pure_eq_ok, Holds, PoolOf]
  constructor
  · rintro ⟨ho, _, hq, x, hx, he, rfl⟩
    exact ⟨⟨ho, hq⟩, by rw [he]; exact hx⟩
  · rintro ⟨⟨ho, hq⟩, hx⟩
    exact ⟨ho, q, hq, _, hx, rfl, rfl⟩

/-- A chained creation is carried out by the oracle, for the source that the call names. -/
theorem creation_invoked (tickMath : TwapOracle.TickMath) (depth : ℕ) (w w' : Accounts)
    (authority : List AccountId) (oracle id x : AccountId) (i : TwapOracle.Instruction)
    (seeds : List PdaSeed) (hi : TwapOracle.Creating i)
    (h : invoke tickMath depth w authority
      ((ChainedCall.new oracle [id, x, clock01ProgramAccountId] (.twapOracle i)).withPdaSeeds seeds)
        = .ok w') :
    oracle = twapOracleProgramId ∧ ∃ windowDuration now data,
      TwapOracle.Creation twapOracleProgramId authority w x id windowDuration now i data ∧
      w' = put twapOracleProgramId w id data := by
  obtain ⟨hp, diffs, hmain, ha⟩ := oracle_invoked tickMath depth w w' authority _ i rfl h
  obtain ⟨s, y, d, now, data, hids, hcreation, hw'⟩ :=
    TwapOracle.creation_of_main tickMath _ authority w w' _ i diffs hi hmain ha
  obtain ⟨rfl, rfl⟩ : id = y ∧ x = s := by simpa [ChainedCall.new, ChainedCall.withPdaSeeds] using hids
  exact ⟨hp, d, now, data, hcreation, hw'⟩

section
variable (tickMath : TwapOracle.TickMath) (depth : ℕ) (w w' u : Accounts) (authority : List AccountId)

theorem createPriceObservations_registers (c x t o k : AccountId) (windowDuration : U64)
    (diffs : List StateDiff) (calls : List ChainedCall)
    (h : createPriceObservations (view w authority c) (view w authority x) (view w authority t)
      (view w authority o) (view w authority k) windowDuration ammProgramId = .ok (diffs, calls))
    (ha : applyDiffs ammProgramId w diffs = .ok w')
    (hs : calls.foldlM (fun w chained => invoke tickMath depth w
      (callAuthority authority ammProgramId chained) chained) w' = .ok u) :
    ∃ data, Registration w [c, x, t, o, k] (.createPriceObservations windowDuration) o data ∧
      w o = default ∧ u = put twapOracleProgramId w o data := by
  simp only [createPriceObservations, decodeConfig_eq_ok, decodePriceSource_eq_ok, bind_eq_ok,
    ensure_eq_ok, exists_const, expect_eq_ok, tryFrom_currentTick, pure_eq_ok,
    Prod.mk.injEq] at h
  simp only [view_account, view_accountId] at h
  obtain ⟨cfg, hcfg, rfl, q, ⟨hq, hof⟩, rfl, howner, current, hcurrent, -, hfresh, seed, -, rfl,
    rfl⟩ := h
  simp only [applyDiffs_unchanged, applyDiffs_nil, Except.ok.injEq] at ha
  subst ha
  rw [List.foldlM_cons, bind_eq_ok] at hs
  obtain ⟨v, hv, hs⟩ := hs
  rw [List.foldlM_nil, pure_eq_ok] at hs
  subst hs
  obtain ⟨horacle, d, now, data, hcreation, rfl⟩ :=
    creation_invoked tickMath depth w v _ _ _ _ _ _ (.priceObservations _ _) hv
  rw [horacle] at howner hcurrent ⊢
  cases hcreation.created
  exact ⟨_, .priceObservations c x q windowDuration now current
    ⟨⟨cfg, (owned_eq_some _ _ _ _).mpr hcfg, horacle⟩, (owned_eq_some _ _ _ _).mpr hq, hof⟩
    ⟨howner, hcurrent⟩ hcreation.wide hcreation.clock, hfresh, rfl⟩

theorem createOraclePriceAccount_registers (c x p k : AccountId) (windowDuration : U64)
    (diffs : List StateDiff) (calls : List ChainedCall)
    (h : createOraclePriceAccount (view w authority c) (view w authority x) (view w authority p)
      (view w authority k) windowDuration ammProgramId = .ok (diffs, calls))
    (ha : applyDiffs ammProgramId w diffs = .ok w')
    (hs : calls.foldlM (fun w chained => invoke tickMath depth w
      (callAuthority authority ammProgramId chained) chained) w' = .ok u) :
    ∃ data, Registration w [c, x, p, k] (.createOraclePriceAccount windowDuration) p data ∧
      w p = default ∧ u = put twapOracleProgramId w p data := by
  simp only [createOraclePriceAccount, decodeConfig_eq_ok, decodePriceSource_eq_ok, bind_eq_ok,
    ensure_eq_ok, exists_const, pure_eq_ok, Prod.mk.injEq] at h
  simp only [view_account, view_accountId] at h
  obtain ⟨cfg, hcfg, rfl, -, q, ⟨hq, hof⟩, price, hspot, -, -, hfresh, seed, -, rfl, rfl⟩ := h
  simp only [applyDiffs_unchanged, applyDiffs_nil, Except.ok.injEq] at ha
  subst ha
  rw [List.foldlM_cons, bind_eq_ok] at hs
  obtain ⟨v, hv, hs⟩ := hs
  rw [List.foldlM_nil, pure_eq_ok] at hs
  subst hs
  obtain ⟨horacle, d, now, data, hcreation, rfl⟩ :=
    creation_invoked tickMath depth w v _ _ _ _ _ _ (.oraclePriceAccount _ _ _ _) hv
  cases hcreation.created with
  | oraclePriceAccount _ _ _ priced timed =>
    exact ⟨_, .oraclePriceAccount c x q windowDuration now price
      ⟨⟨cfg, (owned_eq_some _ _ _ _).mpr hcfg, horacle⟩, (owned_eq_some _ _ _ _).mpr hq, hof⟩
      hcreation.wide hcreation.clock hspot priced timed, hfresh, rfl⟩

/-- A successful registration creates one account of the oracle and changes nothing else. -/
theorem registration_of_ok (platform : Platform) (ids : List AccountId)
    (instruction : OracleInstruction)
    (h : register platform w authority ids instruction = .ok u) :
    ∃ id data, Registration w ids instruction id data ∧ w id = default ∧
      u = put twapOracleProgramId w id data := by
  simp only [register, bind_eq_ok, ensure_eq_ok, exists_const] at h
  obtain ⟨-, h⟩ := h
  cases hd : platform.callDepth with
  | zero =>
    rw [hd] at h
    exact absurd h (error_ne_ok _ _)
  | succ depth =>
    simp only [hd, invokeRegistration, bind_eq_ok, Prod.exists, execute_eq_ok] at h
    obtain ⟨w', calls, ⟨-, diffs, hmain, ha⟩, hs⟩ := h
    rcases ids with _ | ⟨c, _ | ⟨x, _ | ⟨i, _ | ⟨j, _ | ⟨k, _ | ⟨l, ids⟩⟩⟩⟩⟩⟩
    · cases instruction <;> exact absurd hmain (error_ne_ok _ _)
    · cases instruction <;> exact absurd hmain (error_ne_ok _ _)
    · cases instruction <;> exact absurd hmain (error_ne_ok _ _)
    · cases instruction <;> exact absurd hmain (error_ne_ok _ _)
    · cases instruction with
      | createPriceObservations => exact absurd hmain (error_ne_ok _ _)
      | createOraclePriceAccount windowDuration =>
        obtain ⟨data, hfound⟩ := createOraclePriceAccount_registers platform.tickMath depth w w' u
          authority c x i j windowDuration diffs calls hmain ha hs
        exact ⟨i, data, hfound⟩
    · cases instruction with
      | createPriceObservations windowDuration =>
        obtain ⟨data, hfound⟩ := createPriceObservations_registers platform.tickMath depth w w' u
          authority c x i j k windowDuration diffs calls hmain ha hs
        exact ⟨j, data, hfound⟩
      | createOraclePriceAccount => exact absurd hmain (error_ne_ok _ _)
    · cases instruction <;> exact absurd hmain (error_ne_ok _ _)

end

/-- An event of a platform whose AMM has all of its instructions. -/
inductive AmmEvent where
  | event (e : Event)
  | registration (authority ids : List AccountId) (instruction : OracleInstruction)

/-- A failed registration leaves the world as it was. -/
def AmmEvent.apply (platform : Platform) (w : Accounts) (event : AmmEvent) : Accounts :=
  match event with
  | .event e => e.apply platform w
  | .registration authority ids instruction =>
    match register platform w authority ids instruction with
    | .ok w' => w'
    | .error _ => w

def runAmm (platform : Platform) (w : Accounts) (events : List AmmEvent) : Accounts :=
  events.foldl (AmmEvent.apply platform) w

theorem Registration.created (w : Accounts) (ids : List AccountId) (instruction : OracleInstruction)
    (id : AccountId) (data : Data) (h : Registration w ids instruction id data) :
    id.DerivedBy twapOracleProgramId ∧ data ≠ default := by
  cases h with
  | priceObservations => exact ⟨derivedBy_forPublicPda _ _, Data.noConfusion⟩
  | oraclePriceAccount => exact ⟨derivedBy_forPublicPda _ _, Data.noConfusion⟩

theorem AmmEvent.registration_cases (platform : Platform) (w : Accounts)
    (authority ids : List AccountId) (instruction : OracleInstruction) :
    AmmEvent.apply platform w (.registration authority ids instruction) = w ∨
      ∃ id data, Registration w ids instruction id data ∧ w id = default ∧
        AmmEvent.apply platform w (.registration authority ids instruction)
          = put twapOracleProgramId w id data := by
  rw [AmmEvent.apply]
  split
  · rename_i u h
    exact Or.inr (registration_of_ok w u authority platform ids instruction h)
  · exact Or.inl rfl

/-- The environment may leave a world as it is. -/
theorem environment_idle (w : Accounts) (hbare : Bare w) :
    (fun id => environmentAccount (w id) (w id)) = w := by
  funext id
  unfold environmentAccount
  split
  · rfl
  · split
    · rename_i hd
      rw [← hbare id hd]
    · rfl

/-- The environment may create an account of the oracle. -/
theorem environment_creates (w : Accounts) (id : AccountId) (data : Data) (hbare : Bare w)
    (hfresh : w id = default) (hdata : data ≠ default) :
    (fun x => environmentAccount (w x) (put twapOracleProgramId w id data x))
      = put twapOracleProgramId w id data := by
  funext x
  by_cases hx : x = id
  · subst hx
    have howner : (put twapOracleProgramId w x data x).programOwner = twapOracleProgramId := by
      rw [put_same, hfresh]
      exact writeData_owner_of_ne _ _ _ hdata
    rw [environmentAccount, if_neg, if_neg, if_neg]
    · rw [howner]
      decide
    · rw [howner]
      decide
    · rw [hfresh]
      decide
  · rw [put_other _ _ _ _ _ hx]
    exact congrFun (environment_idle w hbare) x

/-- An event that stands for another one: a registration is a change of the environment. -/
inductive AmmEvent.Shadow : AmmEvent → Event → Prop
  | event (e : Event) : Shadow (.event e) e
  | registration (authority ids : List AccountId) (instruction : OracleInstruction)
      (change : Accounts) : Shadow (.registration authority ids instruction) (.environment change)

theorem AmmEvent.shadowed (platform : Platform) (w : Accounts) (hbare : Bare w)
    (event : AmmEvent) :
    ∃ shadow, event.Shadow shadow ∧ event.apply platform w = shadow.apply platform w := by
  cases event with
  | event e => exact ⟨e, .event e, rfl⟩
  | registration authority ids instruction =>
    rcases AmmEvent.registration_cases platform w authority ids instruction with
      he | ⟨id, data, hr, hfresh, he⟩
    · exact ⟨_, .registration _ _ _ w, he.trans (environment_idle w hbare).symm⟩
    · exact ⟨_, .registration _ _ _ (put twapOracleProgramId w id data),
        he.trans (environment_creates w id data hbare hfresh (hr.created _ _ _ _ _).2).symm⟩

/-- Registrations are invisible to everything but the oracle. A run with registrations reaches
what the same run reaches when the environment acts in their place, and each of them changes
at most one account, at an address of the oracle that was unused. -/
theorem registrations_are_invisible (platform : Platform) (genesis : Genesis)
    (events : List AmmEvent) :
    (∃ shadows, List.Forall₂ AmmEvent.Shadow events shadows ∧
      runAmm platform genesis.world events = run platform genesis.world shadows) ∧
    ∀ authority ids instruction,
      let w := runAmm platform genesis.world events
      let w' := AmmEvent.apply platform w (.registration authority ids instruction)
      w' = w ∨ ∃ id, (w id = default ∧ id.DerivedBy twapOracleProgramId) ∧
        (w' id).programOwner = twapOracleProgramId ∧ ∀ other, other ≠ id → w' other = w other := by
  constructor
  · have hruns : ∀ (events : List AmmEvent) (w : Accounts), Bare w →
        ∃ shadows, List.Forall₂ AmmEvent.Shadow events shadows ∧
          runAmm platform w events = run platform w shadows := by
      intro events
      induction events with
      | nil => exact fun w _ => ⟨[], .nil, rfl⟩
      | cons event events ih =>
        intro w hbare
        obtain ⟨shadow, hshadow, he⟩ := event.shadowed platform w hbare
        obtain ⟨shadows, hshadows, hrun⟩ := ih _ (bare_event platform w shadow hbare)
        refine ⟨shadow :: shadows, .cons hshadow hshadows, ?_⟩
        rw [runAmm, List.foldl_cons, he]
        exact hrun
    exact hruns events genesis.world genesis.bare
  · intro authority ids instruction w w'
    refine (AmmEvent.registration_cases platform w authority ids instruction).imp_right ?_
    rintro ⟨id, data, hregistration, hfresh, hcreates⟩
    obtain ⟨hderived, hdata⟩ := hregistration.created _ _ _ _ _
    refine ⟨id, ⟨hfresh, hderived⟩, ?_, fun other hother => ?_⟩
    · rw [show w' = _ from hcreates, put_same, hfresh]
      exact writeData_owner_of_ne _ _ _ hdata
    · rw [show w' = _ from hcreates]
      exact put_other _ _ _ _ _ hother

end LezPrograms.Amm
