import LezPrograms.Amm.Program
import LezPrograms.Stablecoin.Program
import LezPrograms.Token.Step
import LezPrograms.TwapOracle.Program
import LezPrograms.TwapOracle.TickTable

/-! # Transactions and runs

A transaction invokes one program; its chained calls run in order, each with
the authority of its caller and of the seeds the caller presents. An error
anywhere discards the whole transaction. Between transactions the environment
changes what the deployed programs do not own: accounts of other programs, the
clock, native balances and nonces. Stored values are typed, so the model holds
as long as the bytes of one stored type are not read as another. -/

set_option autoImplicit false

namespace LezPrograms.Lee
open LezPrograms.Checked

/-- The parameters of a deployment: the tick-math library and how deep calls may nest. -/
structure Platform where
  tickMath : TwapOracle.TickMath
  callDepth : ℕ

/-- The timestamp the runtime checks validity windows against. -/
def blockTimestamp (w : Accounts) : U64 :=
  match (w clock01ProgramAccountId).data with
  | .clock timestamp => timestamp
  | _ => Unsigned.zero 64

def dispatch (tickMath : TwapOracle.TickMath) (now : U64) (programId : AccountId)
    (instruction : Instruction) (accounts : List InputAccount) : HandlerResult :=
  match instruction with
  | .token instruction => do
    ensure (programId = tokenProgramId) "not an instruction of this program"
    let diffs ← Token.main programId accounts instruction
    pure (diffs, [])
  | .twapOracle instruction => do
    ensure (programId = twapOracleProgramId) "not an instruction of this program"
    let diffs ← TwapOracle.main tickMath programId accounts instruction
    pure (diffs, [])
  | .amm instruction => do
    ensure (programId = ammProgramId) "not an instruction of this program"
    Amm.main programId now accounts instruction
  | .stablecoin instruction => do
    ensure (programId = stablecoinProgramId) "not an instruction of this program"
    Stablecoin.main programId accounts instruction

/-- The identifiers a caller authorizes for a chained call. -/
def callAuthority (authority : List AccountId) (callerId : AccountId) (call : ChainedCall) :
    List AccountId :=
  authority ++ call.pdaSeeds.map (.forPublicPda callerId)

def invoke (tickMath : TwapOracle.TickMath) :
    ℕ → Accounts → List AccountId → ChainedCall → Outcome Accounts
  | 0, _, _, _ => .error "chained calls are nested too deeply"
  | depth + 1, w, authority, call => do
    let (w', calls) ← execute call.programId w authority call.accountIds
      (dispatch tickMath (blockTimestamp w) call.programId call.instruction)
    calls.foldlM (fun w chained =>
      invoke tickMath depth w (callAuthority authority call.programId chained) chained) w'

/-- The programs whose accounts and derived addresses no other program touches. -/
def deployedPrograms : List AccountId := [tokenProgramId, ammProgramId, stablecoinProgramId]

/-- A transaction may be authorized by any account that no deployed program derives. -/
def transact (platform : Platform) (w : Accounts) (authority : List AccountId)
    (call : ChainedCall) : Outcome Accounts := do
  ensure (∀ id ∈ authority, ∀ program ∈ deployedPrograms, ¬id.DerivedBy program)
    "a derived address is authorized by its program only"
  invoke platform.tickMath platform.callDepth w authority call

/-- What the rest of the world makes of an account that it would like to be `new`. -/
def environmentAccount (old new : Account AccountId Data) : Account AccountId Data :=
  if old.programOwner ∈ deployedPrograms then
    { old with balance := new.balance, nonce := new.nonce }
  else if new.programOwner ∈ deployedPrograms then old
  else if new.programOwner = default then { new with data := default }
  else new

inductive Event where
  | transaction (authority : List AccountId) (call : ChainedCall)
  | environment (change : Accounts)

/-- A failed transaction leaves the world as it was. -/
def Event.apply (platform : Platform) (w : Accounts) : Event → Accounts
  | .transaction authority call =>
    match transact platform w authority call with
    | .ok w' => w'
    | .error _ => w
  | .environment change => fun id => environmentAccount (w id) (change id)

def run (platform : Platform) (w : Accounts) (events : List Event) : Accounts :=
  events.foldl (Event.apply platform) w

/-- A world before the first transaction: the deployed programs own nothing, and an
account that nobody owns carries no data. -/
structure Genesis where
  world : Accounts
  unowned : ∀ id, (world id).programOwner ∉ deployedPrograms
  bare : ∀ id, (world id).programOwner = default → (world id).data = default

theorem run_concat (platform : Platform) (w : Accounts) (events : List Event) (event : Event) :
    run platform w (events ++ [event]) = event.apply platform (run platform w events) := by
  simp [run]

theorem run_append (platform : Platform) (w : Accounts) (events later : List Event) :
    run platform w (events ++ later) = run platform (run platform w events) later := by
  simp only [run, List.foldl_append]

theorem transact_apply (platform : Platform) (w : Accounts) (authority : List AccountId)
    (call : ChainedCall) (h : (transact platform w authority call).toBool = true) :
    transact platform w authority call
      = .ok (Event.apply platform w (.transaction authority call)) := by
  rw [Event.apply]
  cases ht : transact platform w authority call with
  | ok w' => rfl
  | error message =>
    rw [ht] at h
    cases h

/-- What holds at the start and survives every event holds after every run. -/
theorem run_preserves (platform : Platform) (Inv : Accounts → Prop)
    (step : ∀ w event, Inv w → Inv (Event.apply platform w event)) (w : Accounts)
    (start : Inv w) (events : List Event) : Inv (run platform w events) := by
  induction events generalizing w with
  | nil => exact start
  | cons event events ih => exact ih _ (step w event start)

/-- The sum over a run of what each event contributes in the world it meets. -/
def tally (platform : Platform) (measure : Accounts → Event → ℕ) : Accounts → List Event → ℕ
  | _, [] => 0
  | w, event :: events =>
    measure w event + tally platform measure (event.apply platform w) events

/-- A quantity that every event raises by at most its measure, compared with another, is raised
over a run by at most the tally. -/
theorem run_bounded (platform : Platform) (Inv : Accounts → Prop) (lower upper : Accounts → ℕ)
    (measure : Accounts → Event → ℕ)
    (step : ∀ w event, Inv w → Inv (Event.apply platform w event) ∧
      lower (event.apply platform w) + upper w ≤
        lower w + upper (event.apply platform w) + measure w event)
    (w : Accounts) (start : Inv w) (events : List Event) :
    lower (run platform w events) + upper w ≤
      lower w + upper (run platform w events) + tally platform measure w events := by
  induction events generalizing w with
  | nil => exact le_refl _
  | cons event events ih =>
    obtain ⟨hinv, hstep⟩ := step w event start
    have hrest := ih _ hinv
    simp only [run, List.foldl_cons, tally] at hrest ⊢
    omega

theorem tally_linear (platform : Platform) (j k : ℕ) (f g h : Accounts → Event → ℕ)
    (w : Accounts) (events : List Event) :
    tally platform (fun w event => j * f w event + g w event + k * h w event) w events =
      j * tally platform f w events + tally platform g w events
        + k * tally platform h w events := by
  induction events generalizing w with
  | nil => rfl
  | cons event events ih =>
    simp only [tally, ih, Nat.mul_add]
    omega

def Outside (program : AccountId) (authority : List AccountId) : Prop :=
  ∀ id ∈ authority, ¬id.DerivedBy program

theorem derivedBy_forPublicPda (program : AccountId) (seed : PdaSeed) :
    (AccountId.forPublicPda program seed).DerivedBy program := rfl

theorem Outside.not_mem (program : AccountId) (authority : List AccountId) (seed : PdaSeed)
    (h : Outside program authority) : AccountId.forPublicPda program seed ∉ authority :=
  fun hm => h _ hm rfl

theorem outside_callAuthority (program callerId : AccountId) (authority : List AccountId)
    (call : ChainedCall) (ho : Outside program authority) (hc : callerId ≠ program) :
    Outside program (callAuthority authority callerId call) := by
  intro id hid
  rw [callAuthority, List.mem_append, List.mem_map] at hid
  rcases hid with hid | ⟨seed, -, rfl⟩
  · exact ho id hid
  · rw [AccountId.forPublicPda, AccountId.derivedBy_pda]
    exact hc

def clockedGenesis (start : U64) : Genesis where
  world := fun id => if id = clock01ProgramAccountId then ⟨.key 6, 0, .clock start, 0⟩ else default
  unowned := by
    intro id
    by_cases hc : id = clock01ProgramAccountId
    · simp only [hc, if_true]
      decide
    · simp only [hc, if_false]
      decide
  bare := by
    intro id h
    by_cases hc : id = clock01ProgramAccountId
    · simp only [hc, if_true] at h
      cases h
    · simp only [hc, if_false]
      rfl

def tablePlatform : Platform := ⟨TwapOracle.tableTickMath, 2⟩

end LezPrograms.Lee
