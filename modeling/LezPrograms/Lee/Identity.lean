import LezPrograms.Lee.Histories
import LezPrograms.Amm.Reachable
import LezPrograms.Stablecoin.Governance
import LezPrograms.Token.Authority

/-! # What an account is

An account that a program owns keeps its type and what identifies it: a holding
its token, a definition its name, a pool its tokens and vaults, a position its
owner. A position may be closed, and then stays closed. -/

set_option autoImplicit false

namespace LezPrograms.Token
open LezPrograms.Checked LezPrograms.Lee TokenHolding

inductive SameToken : Definition → Definition → Prop
  | fungible (name : String) (supply supply' : U128) (metadata authority authority' : Option AccountId) :
      SameToken (.fungible name supply metadata authority) (.fungible name supply' metadata authority')
  | nonFungible (name : String) (supply supply' : U128) (metadata : AccountId)
      (le : supply'.val ≤ supply.val) :
      SameToken (.nonFungible name supply metadata) (.nonFungible name supply' metadata)

theorem SameToken.refl (d : Definition) : SameToken d d := by
  cases d with
  | fungible name supply metadata authority => exact .fungible name supply supply metadata _ _
  | nonFungible name supply metadata => exact .nonFungible name supply supply metadata le_rfl

theorem SameToken.trans {a b c : Definition} (h : SameToken a b) (k : SameToken b c) :
    SameToken a c := by
  cases h with
  | fungible name supply _ metadata authority _ =>
    cases k with
    | fungible _ _ supply' _ _ authority' => exact .fungible name supply supply' metadata _ _
  | nonFungible name supply _ metadata h =>
    cases k with
    | nonFungible _ _ supply' _ k => exact .nonFungible name supply supply' metadata (k.trans h)

theorem burnBalance_sameToken (d d' : Definition) (h h' : Holding) (n : U128)
    (hb : burnBalance d h n = .ok (d', h')) : SameToken d d' := by
  unfold burnBalance at hb
  split at hb
  · simp only [bind_eq_ok, expect_eq_ok, pure_eq_ok, Prod.mk.injEq] at hb
    obtain ⟨_, -, _, -, rfl, -⟩ := hb
    exact .fungible _ _ _ _ _ _
  · simp only [bind_eq_ok, expect_eq_ok, Unsigned.checkedSub_eq_some, pure_eq_ok,
      Prod.mk.injEq] at hb
    obtain ⟨s, hs, _, -, rfl, -⟩ := hb
    exact .nonFungible _ _ s _ (by omega)
  · simp only [bind_eq_ok, ensure_eq_ok, exists_const, expect_eq_ok, Unsigned.checkedSub_eq_some,
      pure_eq_ok, Prod.mk.injEq] at hb
    obtain ⟨-, -, s, hs, rfl, -⟩ := hb
    exact .nonFungible _ _ s _ (by omega)
  · exact absurd hb (error_ne_ok _ _)

theorem mintBalance_sameToken (d d' : Definition) (h h' : Holding) (n : U128)
    (hm : mintBalance d h n = .ok (d', h')) : SameToken d d' := by
  unfold mintBalance at hm
  split at hm
  · simp only [bind_eq_ok, expect_eq_ok, pure_eq_ok, Prod.mk.injEq] at hm
    obtain ⟨_, -, _, -, rfl, -⟩ := hm
    exact .fungible _ _ _ _ _ _
  all_goals exact absurd hm (error_ne_ok _ _)

theorem replaceAuthority_sameToken (d d' : Definition) (new : Option AccountId)
    (h : replaceAuthority d new = .ok d') : SameToken d d' := by
  cases d with
  | fungible name supply metadata authority =>
    simp only [replaceAuthority, bind_eq_ok, ensure_eq_ok, exists_const, pure_eq_ok] at h
    obtain ⟨-, rfl⟩ := h
    exact .fungible _ _ _ _ _ _
  | nonFungible name supply metadata => exact absurd h (error_ne_ok _ _)

end LezPrograms.Token

namespace LezPrograms.Lee
open LezPrograms.Checked LezPrograms.Token

inductive Succeeds : Data → Data → Prop
  | same (data : Data) : Succeeds data data
  | definition (d d' : Definition) (token : SameToken d d') :
      Succeeds (.tokenDefinition d) (.tokenDefinition d')
  | holding (held held' : Holding) (token : held'.definitionId = held.definitionId)
      (kind : held'.kind = held.kind) : Succeeds (.tokenHolding held) (.tokenHolding held')
  | config (cfg : Amm.AmmConfig) (authority : AccountId) :
      Succeeds (.ammConfig cfg) (.ammConfig { cfg with authority := authority })
  | pool (q q' : Amm.PoolDefinition) (same : Amm.SamePool q q') :
      Succeeds (.poolDefinition q) (.poolDefinition q')
  | parameters (p p' : Stablecoin.ProtocolParameters)
      (stablecoin : p'.stablecoinDefinitionId = p.stablecoinDefinitionId)
      (collateral : p'.collateralDefinitionId = p.collateralDefinitionId) :
      Succeeds (.protocolParameters p) (.protocolParameters p')
  | accumulator (a a' : Stablecoin.StabilityFeeAccumulator)
      (le : a.accumulatedRateAtLastAccrual.val ≤ a'.accumulatedRateAtLastAccrual.val) :
      Succeeds (.stabilityFeeAccumulator a) (.stabilityFeeAccumulator a')
  | redemption (r r' : Stablecoin.RedemptionPriceState) :
      Succeeds (.redemptionPriceState r) (.redemptionPriceState r')
  | position (p : Stablecoin.Position) (collateral debt : U128) :
      Succeeds (.position p)
        (.position { p with collateralAmount := collateral, normalizedDebtAmount := debt })
  | closed (p : Stablecoin.Position) : Succeeds (.position p) .empty

theorem Succeeds.trans {a b c : Data} (h : Succeeds a b) (k : Succeeds b c) : Succeeds a c := by
  cases h with
  | same => exact k
  | definition d d' h =>
    cases k with
    | same => exact .definition d d' h
    | definition _ d'' k => exact .definition d d'' (h.trans k)
  | holding x y h1 h2 =>
    cases k with
    | same => exact .holding x y h1 h2
    | holding _ z k1 k2 => exact .holding x z (k1.trans h1) (k2.trans h2)
  | config cfg m =>
    cases k with
    | same => exact .config cfg m
    | config _ n => exact .config cfg n
  | pool q q' h =>
    cases k with
    | same => exact .pool q q' h
    | pool _ q'' k => exact .pool q q'' (h.trans _ _ _ k)
  | parameters p p' h1 h2 =>
    cases k with
    | same => exact .parameters p p' h1 h2
    | parameters _ p'' k1 k2 => exact .parameters p p'' (k1.trans h1) (k2.trans h2)
  | accumulator x y h =>
    cases k with
    | same => exact .accumulator x y h
    | accumulator _ z k => exact .accumulator x z (h.trans k)
  | redemption x y =>
    cases k with
    | same => exact .redemption x y
    | redemption _ z => exact .redemption x z
  | position p c d =>
    cases k with
    | same => exact .position p c d
    | position _ c' d' => exact .position p c' d'
    | closed => exact .closed p
  | closed p =>
    cases k with
    | same => exact .closed p

def Keeps (program : AccountId) (w w' : Accounts) : Prop :=
  ∀ x data, owned program w x = some data →
    ∃ data', owned program w' x = some data' ∧ Succeeds data data'

section
variable (program : AccountId)

theorem Keeps.refl (w : Accounts) : Keeps program w w := fun _ data h => ⟨data, h, .same data⟩

theorem Keeps.trans {w v w' : Accounts} (h : Keeps program w v) (k : Keeps program v w') :
    Keeps program w w' := by
  intro x data hx
  obtain ⟨a, ha, hsa⟩ := h x data hx
  obtain ⟨b, hb, hsb⟩ := k x a ha
  exact ⟨b, hb, hsa.trans hsb⟩

theorem Keeps.of_owned {w w' : Accounts} (h : owned program w' = owned program w) :
    Keeps program w w' := fun _ data hx => ⟨data, h ▸ hx, .same data⟩

/-- A program writes into its accounts only what succeeds their data. -/
theorem keeps_put (w : Accounts) (x : AccountId) (new : Data)
    (h : ∀ data, owned program w x = some data → Succeeds data new) :
    Keeps program w (put program w x new) := by
  intro y data hy
  by_cases hyx : y = x
  · subst hyx
    refine ⟨new, (owned_eq_some _ _ _ _).mpr ⟨?_, by rw [put_same, writeData_data]⟩, h data hy⟩
    rw [put_same]
    exact writeData_owner _ _ _ ((owned_eq_some _ _ _ _).mp hy).1
  · exact ⟨data, (owned_congr _ _ _ y (put_other _ _ _ _ _ hyx)).trans hy, .same data⟩

theorem keeps_stored (w : Accounts) (x : AccountId) (data new : Data) (hd : (w x).data = data)
    (h : Succeeds data new) : Keeps program w (put program w x new) :=
  keeps_put program w x new fun _ hx => ((owned_eq_some _ _ _ _).mp hx).2.symm.trans hd ▸ h

theorem keeps_fresh (hp : program ≠ default) (w : Accounts) (x : AccountId) (new : Data)
    (hx : w x = default) : Keeps program w (put program w x new) := by
  refine keeps_put program w x new fun data hd => ?_
  have ho := ((owned_eq_some _ _ _ _).mp hd).1
  rw [hx] at ho
  exact absurd ho.symm hp

end

section
variable (authority ids : List AccountId) (w w' : Accounts)

theorem tokens_keep (instruction : Token.Instruction AccountId)
    (h : Token.Transition authority ids instruction w w') : Keeps tokenProgramId w w' := by
  have hp : tokenProgramId ≠ default := by decide
  cases h.step with
  | transfer s r n sender recipient sender' recipient' _ hne hs hr _ hmove =>
    obtain ⟨⟨h1, h2, -⟩, ⟨h3, h4, -⟩, -⟩ := moveBalance_spec _ _ _ _ _ hmove
    refine (keeps_stored _ w s _ _ ((tryFrom_holding _ _).mp hs) (.holding _ _ h1 h2)).trans _ ?_
    rcases hr with ⟨hr, -⟩ | ⟨-, hr⟩
    · exact keeps_fresh _ hp _ r _ (by rw [put_other _ _ _ _ _ hne.symm, hr])
    · refine keeps_stored _ _ r _ _ ?_ (.holding recipient recipient' h3 h4)
      rw [put_other _ _ _ _ _ hne.symm]
      exact (tryFrom_holding _ _).mp hr
  | burn d k n definition definition' holding holding' _ hne hd hk _ hburn =>
    obtain ⟨-, h1, h2, -⟩ := burnBalance_spec _ _ _ _ _ hburn
    refine (keeps_stored _ w d _ _ ((tryFrom_definition _ _).mp hd)
      (.definition _ _ (burnBalance_sameToken _ _ _ _ _ hburn))).trans _ ?_
    refine keeps_stored _ _ k _ _ ?_ (.holding holding holding' h1 h2)
    rw [put_other _ _ _ _ _ hne.symm]
    exact (tryFrom_holding _ _).mp hk
  | mint d k a n _ _ definition definition' holding holding' _ hne _ hd _ _ hk _ hmint =>
    obtain ⟨-, h1, h2, -⟩ := mintBalance_spec _ _ _ _ _ hmint
    refine (keeps_stored _ w d _ _ ((tryFrom_definition _ _).mp hd)
      (.definition _ _ (mintBalance_sameToken _ _ _ _ _ hmint))).trans _ ?_
    rcases hk with ⟨hk, -⟩ | ⟨-, hk⟩
    · exact keeps_fresh _ hp _ k _ (by rw [put_other _ _ _ _ _ hne.symm, hk])
    · refine keeps_stored _ _ k _ _ ?_ (.holding holding holding' h1 h2)
      rw [put_other _ _ _ _ _ hne.symm]
      exact (tryFrom_holding _ _).mp hk
  | initializeAccount d k definition hk => exact keeps_fresh _ hp w k _ hk
  | newFungibleDefinition d k name supply mintAuthority hd hk _ _ hne =>
    refine (keeps_fresh _ hp w d _ hd).trans _ (keeps_fresh _ hp _ k _ ?_)
    rw [put_other _ _ _ _ _ hne.symm, hk]
  | newDefinitionWithMetadata d k m new metadata definition holding hd hk hm _ _ _ hn =>
    simp only [List.nodup_cons, List.mem_cons, List.not_mem_nil, or_false, not_or] at hn
    obtain ⟨⟨hdk, hdm⟩, hkm, -⟩ := hn
    refine ((keeps_fresh _ hp w d _ hd).trans _ (keeps_fresh _ hp _ k _ ?_)).trans _
      (keeps_fresh _ hp _ m _ ?_)
    · rw [put_other _ _ _ _ _ (Ne.symm hdk), hk]
    · rw [put_other _ _ _ _ _ (Ne.symm hkm), put_other _ _ _ _ _ (Ne.symm hdm), hm]
  | printNft m p d balance balance' _ _ hfresh hne hm =>
    refine (keeps_stored _ w m _ _ ((tryFrom_holding _ _).mp hm)
      (.holding _ (.nftMaster d balance') rfl rfl)).trans _ (keeps_fresh _ hp _ p _ ?_)
    rw [put_other _ _ _ _ _ hne.symm, hfresh]
  | setAuthority d a new _ _ definition definition' _ _ hd _ _ hrep =>
    exact keeps_stored _ w d _ _ ((tryFrom_definition _ _).mp hd)
      (.definition _ _ (replaceAuthority_sameToken _ _ _ hrep))

theorem amm_keeps (instruction : Amm.Instruction) (calls : List ChainedCall)
    (h : Amm.Step ammProgramId w authority ids instruction w' calls) :
    Keeps ammProgramId w w' := by
  have hp : ammProgramId ≠ default := by decide
  cases h with
  | initializeConfig owner nonce cfg _ hfresh => exact keeps_fresh _ hp w _ _ hfresh
  | updateConfig c a new cfg hc => exact keeps_stored _ w c _ _ hc.2 (.config cfg new)
  | withdrawProtocolFees => exact Keeps.refl _ w
  | newDefinition c x _ _ _ _ _ _ _ _ _ _ _ _ _ _ _ _ _ _ hfresh =>
    exact keeps_fresh _ hp w x _ hfresh
  | addLiquidity c x _ _ _ _ _ _ _ _ q q' _ _ _ _ _ _ _ hreads _ _ hq =>
    exact keeps_stored _ w x _ _ hreads.stored (.pool q q' (Amm.addedPool_spec _ _ _ _ _ hq).1)
  | removeLiquidity c x _ _ _ _ _ _ _ _ q q' _ _ _ _ _ hreads _ _ _ _ _ hq =>
    exact keeps_stored _ w x _ _ hreads.stored (.pool q q' (Amm.removedPool_spec _ _ _ _ _ hq).1)
  | syncReserves c x cfg q token balance _ _ hreads =>
    exact keeps_stored _ w x _ _ hreads.stored (.pool q _ ⟨rfl, rfl, rfl, rfl, rfl⟩)
  | swap _ side c x _ _ _ q q' _ _ _ _ _ _ _ _ _ hreads _ _ _ _ _ _ _ hq =>
    exact keeps_stored _ w x _ _ hreads.stored (.pool q q' (Amm.swappedSide_spec _ _ _ _ _ hq).1)

section
open Stablecoin
variable (x d : AccountId) (params : ProtocolParameters) (accumulator : StabilityFeeAccumulator)
  (now : U64) (accrual : FeeAccrual)
  (h : AccrualReads stablecoinProgramId w x d params accumulator now accrual)
include h

/-- An accrual only raises the accumulated rate. -/
theorem accrual_keeps (total : U128) :
    Keeps stablecoinProgramId w (put stablecoinProgramId w
      (computeStabilityFeeAccumulatorPda stablecoinProgramId) (.stabilityFeeAccumulator
        { accrual.accumulator with totalNormalizedDebt := total })) :=
  keeps_stored _ w _ _ _ h.accumulates.2
    (.accumulator _ _ (accrueFees_spec params accumulator now accrual h.computed).1)

/-- An accrual that follows a change of another account. -/
theorem accrual_keeps_after (y : AccountId) (data new : Data) (hy : (w y).data = data)
    (hne : ∀ a, data ≠ .stabilityFeeAccumulator a) (hs : Succeeds data new) (total : U128) :
    Keeps stablecoinProgramId w (put stablecoinProgramId (put stablecoinProgramId w y new)
      (computeStabilityFeeAccumulatorPda stablecoinProgramId) (.stabilityFeeAccumulator
        { accrual.accumulator with totalNormalizedDebt := total })) := by
  refine (keeps_stored _ w y data new hy hs).trans _ (keeps_stored _ _ _ _ _ ?_
    (.accumulator accumulator _ (accrueFees_spec params accumulator now accrual h.computed).1))
  rw [put_other]
  · exact h.accumulates.2
  · rintro rfl
    exact hne accumulator (hy.symm.trans h.accumulates.2)

end

theorem stablecoin_keeps (instruction : Stablecoin.Instruction) (calls : List ChainedCall)
    (h : Stablecoin.Step stablecoinProgramId w authority ids instruction w' calls) :
    Keeps stablecoinProgramId w w' := by
  have hp : stablecoinProgramId ≠ default := by decide
  cases h with
  | initializeProgram admin c o params now collateral _ hparams hacc hred =>
    refine ((keeps_fresh _ hp w _ _ hparams).trans _ (keeps_fresh _ hp _ _ _ ?_)).trans _
      (keeps_fresh _ hp _ _ _ ?_)
    · rw [put_other _ _ _ _ _ (by decide), hacc]
    · rw [put_other _ _ _ _ _ (by decide), put_other _ _ _ _ _ (by decide), hred]
  | accrueStabilityFee caller p d params accumulator now accrual _ reads =>
    exact accrual_keeps w p d params accumulator now accrual reads _
  | updateRedemptionRate caller p o params redemption redemption' _ _ _ _ hr =>
    exact keeps_stored _ w _ _ _ hr.2 (.redemption redemption redemption')
  | refreshFee caller p d o params accumulator now accrual _ reads =>
    exact accrual_keeps w p d params accumulator now accrual reads _
  | refreshBoth caller p d o params accumulator now accrual redemption redemption' _ _ reads hr =>
    refine (accrual_keeps w p d params accumulator now accrual reads _).trans _
      (keeps_stored _ _ _ _ _ ?_ (.redemption redemption redemption'))
    rw [put_other _ _ _ _ _ (by decide)]
    exact hr.2
  | resetRedemptionRateController signer params redemption now _ _ _ hr =>
    exact keeps_stored _ w _ _ _ hr.2 (.redemption redemption _)
  | openPosition owner user c nonce amount params now holding _ _ hfresh =>
    exact keeps_fresh _ hp w _ _ hfresh
  | depositCollateral owner position user amount data _ _ _ collateral _ reads =>
    exact keeps_stored _ w _ _ _ reads.stored.2
      (.position data collateral data.normalizedDebtAmount)
  | closePosition owner position token data balance reads =>
    exact keeps_stored _ w _ _ _ reads.stored.2 (.closed data)
  | generateDebt owner position d user amount data params accumulator redemption now accrual _ debt
      total reads accrues =>
    exact accrual_keeps_after w _ d params accumulator now accrual accrues position _ _
      reads.stored.2 (fun _ => Data.noConfusion) (.position data data.collateralAmount debt) total
  | repayDebt owner position d user amount data params accumulator now accrual _ debt total reads _
      accrues =>
    exact accrual_keeps_after w _ d params accumulator now accrual accrues position _ _
      reads.stored.2 (fun _ => Data.noConfusion) (.position data data.collateralAmount debt) total
  | withdrawCollateral owner position user amount data _ _ _ _ collateral _ _ reads =>
    exact keeps_stored _ w _ _ _ reads.stored.2
      (.position data collateral data.normalizedDebtAmount)
  | setStabilityFeePerMillisecond admin d newRate params accumulator now accrual _ _ _ accrues =>
    exact accrual_keeps_after w _ d params accumulator now accrual accrues _ _ _
      accrues.parameters.2 (fun _ => Data.noConfusion)
      (.parameters params { params with stabilityFeePerMillisecond := newRate } rfl rfl) _
  | setParameters signer rest instruction params params' _ _ hparams hupdate =>
    obtain ⟨h1, h2⟩ := hupdate.governed.definitions_kept
    exact keeps_stored _ w _ _ _ hparams.2 (.parameters params params' h1 h2)

end

theorem Execution.keeps (tickMath : TwapOracle.TickMath) (e : Execution) (calls : List ChainedCall)
    (h : execute e.call.programId e.before e.authority e.call.accountIds
      (dispatch tickMath (blockTimestamp e.before) e.call.programId e.call.instruction)
        = .ok (e.after, calls)) (program : AccountId) (hp : program ∈ deployedPrograms) :
    Keeps program e.before e.after := by
  have hframe := execute_frame _ _ _ _ _ _ _ h
  obtain ⟨hn, diffs, hh, ha⟩ := (execute_eq_ok _ _ _ _ _ _ _).mp h
  -- a program other than the one that executes owns the same as before
  have hother : program ≠ e.call.programId → Keeps program e.before e.after := fun hne =>
    Keeps.of_owned _ (owned_frame _ _ _ _ hframe hne.symm (ne_default_of_deployed program hp))
  by_cases hne : program ≠ e.call.programId
  · exact hother hne
  · obtain rfl := not_not.mp hne
    cases hi : e.call.instruction with
    | token i =>
      obtain ⟨hprogram, -, ht⟩ := execute_token tickMath _ _ _ _ _ _ i hi h
      rw [hprogram]
      exact tokens_keep _ _ _ _ i ht
    | twapOracle i =>
      simp only [hi, dispatch, bind_eq_ok, ensure_eq_ok, exists_const] at hh
      rw [hh.1] at hp
      exact absurd hp (by decide)
    | amm i =>
      simp only [hi, dispatch, bind_eq_ok, ensure_eq_ok, exists_const] at hh
      obtain ⟨hprogram, hmain⟩ := hh
      rw [hprogram] at hmain ha ⊢
      exact amm_keeps _ _ _ _ i calls (Amm.step_of_main _ _ _ _ _ _ _ _ _ hmain ha)
    | stablecoin i =>
      simp only [hi, dispatch, bind_eq_ok, ensure_eq_ok, exists_const] at hh
      obtain ⟨hprogram, hmain⟩ := hh
      rw [hprogram] at hmain ha ⊢
      exact stablecoin_keeps _ _ _ _ i calls (Stablecoin.step_of_main _ _ _ _ _ _ _ _ hmain ha)

theorem event_keeps (platform : Platform) (program : AccountId) (hp : program ∈ deployedPrograms)
    (w : Accounts) (event : Event) : Keeps program w (event.apply platform w) := by
  cases event with
  | environment change =>
    exact Keeps.of_owned _ (owned_environment program w change hp)
  | transaction authority call =>
    refine (Event.chain platform w authority call).preserves (fun u => Keeps program w u) ?_
      (Keeps.refl program w)
    rintro e ⟨_, _, _, -, -, hin⟩ hw
    obtain ⟨calls, he⟩ := hin.executed
    exact hw.trans _ (e.keeps _ calls he program hp)

/-- Over every run an account stays with the program that owns it and goes on being the same
thing: the same token, pool, configuration or position. A closed position stays closed. -/
theorem accounts_keep_their_identity (platform : Platform) (w : Accounts) (events : List Event)
    (program : AccountId) (hp : program ∈ deployedPrograms) (x : AccountId) (data : Data)
    (h : owned program w x = some data) :
    ∃ data', owned program (run platform w events) x = some data' ∧ Succeeds data data' :=
  run_preserves platform (fun u => Keeps program w u)
    (fun u event hu => hu.trans _ (event_keeps platform program hp u event)) w
    (Keeps.refl program w) events x data h

theorem first_pool_keeps_its_identity :
    ∃ data', owned ammProgramId (run tablePlatform Amm.firstPoolWorld
        [.transaction [.key 21] Amm.firstSwap]) Amm.firstPoolId = some data' ∧
      Succeeds (.poolDefinition Amm.firstPool) data' :=
  accounts_keep_their_identity tablePlatform Amm.firstPoolWorld
    [.transaction [.key 21] Amm.firstSwap] ammProgramId (by decide) Amm.firstPoolId _
    (by decide +kernel)

end LezPrograms.Lee
