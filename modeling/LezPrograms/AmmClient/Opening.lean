import Mathlib
import LezPrograms.AmmClient.Requests

/-! # Opening a pool

The quote for a new pool shows the shares that its creator receives, and the least deposit
that opens a pool at its price. It divides by the price, so it has none for a pair of amounts
whose price rounds to zero, which the program takes. -/

set_option autoImplicit false

namespace LezPrograms.AmmClient
open LezPrograms.Checked LezPrograms.Checked.Unsigned LezPrograms.Lee LezPrograms.Amm

def q64 : U128 := ⟨2 ^ 64, by norm_num⟩

def wrappingMul (a b : U256) : U256 := ⟨a.val * b.val % 2 ^ 256, Nat.mod_lt _ (Nat.two_pow_pos 256)⟩

theorem wrappingMul_val (a b : U256) (h : a.val * b.val < 2 ^ 256) :
    (wrappingMul a b).val = a.val * b.val := Nat.mod_eq_of_lt h

theorem ceilDiv_le_self (n d : ℕ) : n ⌈/⌉ d ≤ n := by
  rcases Nat.eq_zero_or_pos d with rfl | hd
  · rw [ceilDiv_zero]
    exact Nat.zero_le n
  · exact (ceilDiv_le_iff_le_mul hd).mpr (Nat.le_mul_of_pos_left n hd)

def divCeilU256 (numerator denominator : U256) : Outcome U256 := do
  ensure (denominator.val ≠ 0) "attempt to divide by zero"
  pure ⟨numerator.val ⌈/⌉ denominator.val, lt_of_le_of_lt (ceilDiv_le_self _ _) numerator.isLt⟩

def midpoint (low high : U128) : U128 :=
  ⟨low.val + (high.val - low.val) / 2, by
    have := low.isLt
    have := high.isLt
    omega⟩

/-- The `while` loop of the search, with its rounds counted. -/
def binarySearchMin : ℕ → U128 → U128 → (U128 → Outcome Bool) → Outcome U128
  | 0, _, _, _ => .error "the search does not terminate"
  | rounds + 1, low, high, predicate =>
    if low.val < high.val then do
      let mid := midpoint low high
      let holds ← predicate mid
      if holds then binarySearchMin rounds low mid predicate
      else do
        let next ← expect (mid.checkedAdd ⟨1, one_lt_u128⟩) "attempt to add with overflow"
        binarySearchMin rounds next high predicate
    else pure low

/-- The search on one side of the pair: `factor / divisor` is the price of its token in the other
one. -/
def openingSide (targetProduct : U256) (high factor divisor : U128) : Outcome (U128 × U128) := do
  let amount ← binarySearchMin 129 ⟨1, one_lt_u128⟩ high fun amount => do
    let paired ← divCeilU256 (wrappingMul (widen amount u128_le_u256) (widen factor u128_le_u256))
      (widen divisor u128_le_u256)
    pure (decide (targetProduct.val ≤ (wrappingMul (widen amount u128_le_u256) paired).val))
  let paired ← divCeilU256 (wrappingMul (widen amount u128_le_u256) (widen factor u128_le_u256))
    (widen divisor u128_le_u256)
  let paired ← expect (Unsigned.tryFrom 128 paired.val) "opening amount overflow"
  pure (amount, paired)

def minimumOpeningPair (price : U128) : Outcome (U128 × U128) := do
  let high ← expect (minimumLiquidity.checkedAdd ⟨1, one_lt_u128⟩) "attempt to add with overflow"
  let minimumInitialLp : U256 := widen high u128_le_u256
  let targetProduct ← expect (minimumInitialLp.checkedMul minimumInitialLp)
    "minimum liquidity product overflow"
  if q64.val ≤ price.val then openingSide targetProduct high price q64
  else do
    let (amountB, amountA) ← openingSide targetProduct high q64 price
    pure (amountA, amountB)

/-- The search ends at the least number from which on the predicate holds. -/
theorem binarySearchMin_least (rounds : ℕ) (predicate : U128 → Outcome Bool) (P : ℕ → Prop)
    (start : ℕ) (low high : U128)
    (hpredicate : ∀ n : U128, n.val < high.val →
      ∃ holds, predicate n = .ok holds ∧ (holds = true ↔ P n.val))
    (hgrows : ∀ m n, m ≤ n → P m → P n) (hle : low.val ≤ high.val)
    (hbelow : ∀ n, start ≤ n → n < low.val → ¬P n) (hhigh : P high.val)
    (hrounds : high.val - low.val < 2 ^ rounds) :
    ∃ least, binarySearchMin (rounds + 1) low high predicate = .ok least ∧
      low.val ≤ least.val ∧ least.val ≤ high.val ∧ P least.val ∧
      ∀ n, start ≤ n → n < least.val → ¬P n := by
  induction rounds generalizing low high with
  | zero =>
    have hend : low.val = high.val := by omega
    rw [binarySearchMin, if_neg (by omega)]
    exact ⟨low, rfl, le_rfl, hle, by rwa [hend], hbelow⟩
  | succ rounds ih =>
    rw [binarySearchMin]
    split
    · rename_i hlt
      have hmid : (midpoint low high).val = low.val + (high.val - low.val) / 2 := rfl
      obtain ⟨holds, hholds, hiff⟩ := hpredicate (midpoint low high) (by omega)
      simp only [hholds, ok_bind]
      cases holds with
      | true =>
        rw [if_pos rfl]
        obtain ⟨least, hleast, hlow, hupper, hP, hno⟩ := ih low (midpoint low high)
          (fun n hn => hpredicate n (by omega)) (by omega) hbelow (hiff.mp rfl) (by omega)
        exact ⟨least, hleast, hlow, by omega, hP, hno⟩
      | false =>
        have hnot : ¬P (midpoint low high).val := fun hP => Bool.noConfusion (hiff.mpr hP)
        have hfits : (midpoint low high).val + 1 < 2 ^ 128 := by
          have := high.isLt
          omega
        rw [if_neg Bool.false_ne_true, checkedAdd_of_lt _ _ hfits, expect_some, ok_bind]
        obtain ⟨least, hleast, hlow, hupper, hP, hno⟩ := ih ⟨_, hfits⟩ high hpredicate
          (by change (midpoint low high).val + 1 ≤ _; omega)
          (fun n hstart hn hPn => hnot (hgrows n _ (Nat.le_of_lt_succ hn) hPn)) hhigh
          (by change _ - ((midpoint low high).val + 1) < _; omega)
        refine ⟨least, hleast, ?_, hupper, hP, hno⟩
        change (midpoint low high).val + 1 ≤ _ at hlow
        omega
    · exact ⟨low, rfl, le_rfl, hle, by rwa [show low.val = high.val by omega], hbelow⟩

/-- `fixed` is the least amount that opens a pool with the amount that `ratio` pairs it with. -/
def LeastSide (ratio : ℕ → ℕ) (fixed : ℕ) : Prop :=
  minimumLiquidity.val < (fixed * ratio fixed).sqrt ∧
    ∀ n < fixed, (n * ratio n).sqrt ≤ minimumLiquidity.val

theorem opens_iff (n m : ℕ) : minimumLiquidity.val < (n * m).sqrt ↔ 1001 * 1001 ≤ n * m :=
  Nat.le_sqrt

theorem divCeilU256_of_ne_zero (n d : U256) (hd : d.val ≠ 0) :
    ∃ r, divCeilU256 n d = .ok r ∧ r.val = n.val ⌈/⌉ d.val :=
  ⟨_, by rw [divCeilU256, ensure_pos _ _ hd]; rfl, rfl⟩

theorem divCeilU256_paired (amount factor divisor : U128) (hd : divisor.val ≠ 0) :
    ∃ paired, divCeilU256 (wrappingMul (widen amount (by decide)) (widen factor (by decide)))
        (widen divisor (by decide)) = .ok paired ∧
      paired.val = amount.val * factor.val ⌈/⌉ divisor.val := by
  have hproduct : amount.val * factor.val < 2 ^ 256 := by
    rw [show (2 : ℕ) ^ 256 = 2 ^ 128 * 2 ^ 128 from pow_add 2 128 128]
    exact Nat.mul_lt_mul'' amount.isLt factor.isLt
  obtain ⟨paired, hpaired, hval⟩ := divCeilU256_of_ne_zero
    (wrappingMul (widen amount (by decide)) (widen factor (by decide))) (widen divisor (by decide))
    (by rwa [widen_val])
  exact ⟨paired, hpaired, by rw [hval, wrappingMul_val _ _ hproduct]; rfl⟩

/-- The product that the search compares does not wrap. -/
theorem paired_product (amount factor divisor : U128) (paired : U256) (hamount : amount.val ≤ 1001)
    (hpaired : paired.val = amount.val * factor.val ⌈/⌉ divisor.val) :
    amount.val * paired.val < 2 ^ 256 := by
  have hle : paired.val ≤ amount.val * factor.val := by
    rw [hpaired]
    exact ceilDiv_le_self _ _
  have hfactor := factor.isLt
  calc amount.val * paired.val ≤ 1001 * (1001 * 2 ^ 128) :=
        Nat.mul_le_mul hamount (hle.trans (Nat.mul_le_mul hamount hfactor.le))
    _ < 2 ^ 256 := by decide +kernel

theorem openingSide_least (targetProduct : U256) (high factor divisor : U128)
    (htarget : targetProduct.val = 1001 * 1001) (hhigh : high.val = 1001) (hd : divisor.val ≠ 0)
    (hle : divisor.val ≤ factor.val) (hfits : 1001 * factor.val ⌈/⌉ divisor.val < 2 ^ 128) :
    ∃ amount paired, openingSide targetProduct high factor divisor = .ok (amount, paired) ∧
      paired.val = amount.val * factor.val ⌈/⌉ divisor.val ∧
      LeastSide (fun n => n * factor.val ⌈/⌉ divisor.val) amount.val := by
  have hpos : 0 < divisor.val := Nat.pos_of_ne_zero hd
  have hmono : ∀ m n, m ≤ n → m * factor.val ⌈/⌉ divisor.val ≤ n * factor.val ⌈/⌉ divisor.val :=
    fun m n h => (gc_mul_ceilDiv hpos).monotone_l (Nat.mul_le_mul_right _ h)
  have hlargest : 1001 ≤ 1001 * factor.val ⌈/⌉ divisor.val := by
    refine Nat.le_of_mul_le_mul_left ?_ hpos
    calc divisor.val * 1001 ≤ 1001 * factor.val := by rw [Nat.mul_comm]; exact Nat.mul_le_mul_left _ hle
      _ ≤ divisor.val * (1001 * factor.val ⌈/⌉ divisor.val) := le_smul_ceilDiv hpos
  have hdecided : ∀ n : U128, n.val < high.val → ∃ holds, (do
      let paired ← divCeilU256 (wrappingMul (widen n (by decide)) (widen factor (by decide)))
        (widen divisor (by decide))
      pure (decide (targetProduct.val ≤ (wrappingMul (widen n (by decide)) paired).val)))
        = Except.ok holds ∧
      (holds = true ↔ 1001 * 1001 ≤ n.val * (n.val * factor.val ⌈/⌉ divisor.val)) := by
    intro n hn
    obtain ⟨paired, hpaired, hval⟩ := divCeilU256_paired n factor divisor hd
    have hproduct := paired_product n factor divisor paired (by omega) hval
    rw [hpaired, ok_bind]
    refine ⟨_, rfl, ?_⟩
    rw [decide_eq_true_iff, wrappingMul_val _ _ hproduct, widen_val, hval, htarget]
  obtain ⟨amount, hamount, -, hupper, hopens, hleast⟩ := binarySearchMin_least 128 _
    (fun n => 1001 * 1001 ≤ n * (n * factor.val ⌈/⌉ divisor.val)) 1 ⟨1, by norm_num⟩ high hdecided
    (fun m n hmn hm => hm.trans (Nat.mul_le_mul hmn (hmono m n hmn))) (by rw [hhigh]; decide)
    (fun n hn hlt => absurd hlt (not_lt.mpr hn))
    (by rw [hhigh]; exact Nat.mul_le_mul_left _ hlargest)
    (by rw [hhigh]; decide)
  obtain ⟨paired, hpaired, hval⟩ := divCeilU256_paired amount factor divisor hd
  have hnarrow : paired.val < 2 ^ 128 := by
    rw [hval]
    exact lt_of_le_of_lt (hmono _ _ (hhigh ▸ hupper)) hfits
  refine ⟨amount, ⟨paired.val, hnarrow⟩, ?_, hval, (opens_iff _ _).mpr hopens, fun n hn => ?_⟩
  · rw [openingSide, hamount, ok_bind, hpaired, ok_bind, tryFrom_of_lt _ hnarrow]
    rfl
  · rw [← not_lt, opens_iff]
    rcases Nat.eq_zero_or_pos n with rfl | hn'
    · simp only [Nat.zero_mul]
      omega
    · exact hleast n hn' hn

/-- At every price but zero the pair is found. The amount of the cheaper token is the least that
opens a pool with what the price pairs it with, rounded up. -/
theorem minimumOpeningPair_of_ne_zero (price : U128) (hprice : price.val ≠ 0) :
    ∃ pair : U128 × U128, minimumOpeningPair price = .ok pair ∧
      (2 ^ 64 ≤ price.val → pair.2.val = pair.1.val * price.val ⌈/⌉ 2 ^ 64 ∧
        LeastSide (fun n => n * price.val ⌈/⌉ 2 ^ 64) pair.1.val) ∧
      (price.val < 2 ^ 64 → pair.1.val = pair.2.val * 2 ^ 64 ⌈/⌉ price.val ∧
        LeastSide (fun n => n * 2 ^ 64 ⌈/⌉ price.val) pair.2.val) := by
  have hq64 : q64.val = 2 ^ 64 := rfl
  have hhigh : minimumLiquidity.checkedAdd ⟨1, by norm_num⟩ = some ⟨1001, by norm_num⟩ := rfl
  have htarget : ∃ target : U256, (widen (⟨1001, by norm_num⟩ : U128) (by decide) : U256).checkedMul
      (widen (⟨1001, by norm_num⟩ : U128) (by decide)) = some target ∧ target.val = 1001 * 1001 :=
    ⟨⟨1001 * 1001, by norm_num⟩, by decide +kernel, rfl⟩
  obtain ⟨target, htarget, htargetVal⟩ := htarget
  simp only [minimumOpeningPair, hhigh, expect_some, ok_bind, htarget]
  split
  · rename_i hle
    have hfits : 1001 * price.val ⌈/⌉ q64.val < 2 ^ 128 := by
      have hlt := price.isLt
      have hle' : 1001 * price.val ⌈/⌉ q64.val ≤ 1001 * 2 ^ 64 := by
        rw [hq64, ceilDiv_le_iff_le_mul (Nat.two_pow_pos 64)]
        omega
      exact lt_of_le_of_lt hle' (by decide)
    obtain ⟨amount, paired, hside, hpaired, hleast⟩ := openingSide_least target
      ⟨1001, by norm_num⟩ price q64 htargetVal rfl (by decide) hle hfits
    refine ⟨(amount, paired), hside, fun _ => ⟨?_, ?_⟩, fun hlt => absurd hlt (by omega)⟩
    · rw [hpaired, hq64]
    · rwa [hq64] at hleast
  · rename_i hlt
    have hfits : 1001 * q64.val ⌈/⌉ price.val < 2 ^ 128 :=
      lt_of_le_of_lt (ceilDiv_le_self _ _) (by decide)
    obtain ⟨amount, paired, hside, hpaired, hleast⟩ := openingSide_least target
      ⟨1001, by norm_num⟩ q64 price htargetVal rfl hprice (by omega) hfits
    refine ⟨(paired, amount), by rw [hside]; rfl, fun hle => absurd hle (by omega), fun _ => ⟨?_, ?_⟩⟩
    · rw [hpaired, hq64]
    · rwa [hq64] at hleast

theorem minimumOpeningPair_zero (price : U128) (hprice : price.val = 0) :
    minimumOpeningPair price = .error "attempt to divide by zero" := by
  have hzero : price = ⟨0, by norm_num⟩ := Fin.ext hprice
  rw [hzero]
  rfl

structure CreatePoolQuoteRequest where
  tokenAId : AccountId
  tokenBId : AccountId
  price : Option String
  amountA : Option String
  amountB : Option String

structure CreatePoolQuote where
  actualAmountA : U128
  actualAmountB : U128
  minimumAmountA : U128
  minimumAmountB : U128
  expectedLp : U128
  lockedLp : U128
  price : U128
deriving DecidableEq

def CreatePoolQuoteRequest.amounts (request : CreatePoolQuoteRequest) :
    Outcome (Option (U128 × U128)) :=
  if request.amountA.isSome ∨ request.amountB.isSome then do
    let amountA ← positiveAmount request.amountA
    let amountB ← positiveAmount request.amountB
    pure (some (amountA, amountB))
  else pure none

def createPoolQuote (request : CreatePoolQuoteRequest) : Outcome CreatePoolQuote := do
  ensure (request.tokenAId ≠ request.tokenBId) "same_token_pair"
  let amounts ← request.amounts
  let price ← match amounts with
    | some (amountA, amountB) => spotPriceQ6464 amountA amountB
    | none => positiveAmount request.price
  let minimum ← minimumOpeningPair price
  let actual := amounts.getD minimum
  let initialLp ← isqrtProduct actual.1 actual.2
  let expectedLp ← expect ((initialLp.checkedSub minimumLiquidity).filter fun userLp =>
    0 < userLp.val) "amount_too_low"
  pure ⟨actual.1, actual.2, minimum.1, minimum.2, expectedLp, minimumLiquidity, price⟩

/-- The checks of the amounts of a new pool, in the entry point and in the handler, and the shares
that the creator is minted. -/
def openingLp (tokenAAmount tokenBAmount : U128) : Outcome U128 := do
  ensure (tokenAAmount.val ≠ 0) "token_a_amount must be nonzero"
  ensure (tokenBAmount.val ≠ 0) "token_b_amount must be nonzero"
  let initialLp ← isqrtProduct tokenAAmount tokenBAmount
  ensure (minimumLiquidity.val < initialLp.val)
    "Initial liquidity must exceed minimum liquidity lock"
  expect (initialLp.checkedSub minimumLiquidity)
    "initial liquidity must exceed minimum liquidity after validation"

theorem isqrtProduct_spec (a b : U128) :
    ∃ root, isqrtProduct a b = .ok root ∧ root.val = (a.val * b.val).sqrt := by
  have hproduct : a.val * b.val < 2 ^ 128 * 2 ^ 128 := Nat.mul_lt_mul'' a.isLt b.isLt
  have hroot : (a.val * b.val).sqrt < 2 ^ 128 := Nat.sqrt_lt.mpr hproduct
  rw [← pow_add] at hproduct
  refine ⟨⟨_, hroot⟩, ?_, rfl⟩
  simp only [isqrtProduct, bind_eq_ok, expect_eq_ok, checkedMul_eq_some, widen_val,
    Unsigned.tryFrom_eq_some]
  exact ⟨⟨_, hproduct⟩, rfl, rfl⟩

theorem openingLp_eq_ok (a b lp : U128) :
    openingLp a b = .ok lp ↔ a.val ≠ 0 ∧ b.val ≠ 0 ∧ 0 < lp.val ∧
      lp.val + minimumLiquidity.val = (a.val * b.val).sqrt := by
  obtain ⟨root, hroot, hval⟩ := isqrtProduct_spec a b
  simp only [openingLp, bind_eq_ok, ensure_eq_ok, exists_const, expect_eq_ok, checkedSub_eq_some,
    hroot, Except.ok.injEq, exists_eq_left', hval]
  constructor
  · rintro ⟨ha, hb, habove, hlp⟩
    exact ⟨ha, hb, by omega, hlp⟩
  · rintro ⟨ha, hb, hpos, hlp⟩
    exact ⟨ha, hb, by omega, hlp⟩

/-- The program makes these checks, and it mints the creator what they leave. -/
theorem newDefinition_mints (self : AccountId) (w v : Accounts) (authority ids : List AccountId)
    (a b : U128) (deadline : U64) (calls : List ChainedCall)
    (h : Step self w authority ids (.newDefinition a b deadline) v calls) :
    ∃ lp, openingLp a b = .ok lp ∧ ∃ tokenProgramId pool holding,
      lpMintCall tokenProgramId pool (computeLiquidityTokenPda self pool) holding lp ∈ calls := by
  cases h with
  | newDefinition c x ua ub ul a b deadline cfg holdingA holdingB initialLp userLp price seed config
      dataA dataB distinct derived fresh positiveA positiveB root above rest spot seeded =>
    obtain ⟨root', hroot', hval⟩ := isqrtProduct_spec a b
    cases root.symm.trans hroot'
    refine ⟨userLp, (openingLp_eq_ok _ _ _).mpr ⟨positiveA, positiveB, by omega, ?_⟩,
      cfg.tokenProgramId, x, ul, by simp⟩
    rw [minimumLiquidity_val, rest, hval]
  | swap _ _ _ _ _ _ _ _ _ _ _ _ _ _ _ _ _ _ _ _ _ _ priced => cases priced

def Denotes (raw : Option String) (amount : U128) : Prop :=
  ∃ digits, raw = some digits ∧ digits ≠ "" ∧ digits.toList.all Char.isDigit ∧
    parse digits = .ok amount

theorem Denotes.positiveAmount (raw : Option String) (amount : U128) (h : Denotes raw amount) :
    positiveAmount raw = if amount.val = 0 then .error "amount_must_be_positive" else .ok amount := by
  obtain ⟨digits, rfl, hne, hdigits, hparse⟩ := h
  have hfilter : (some digits).filter (fun raw => raw ≠ "") = some digits := by
    simp [Option.filter, hne]
  simp only [AmmClient.positiveAmount, hfilter, expect_some, ok_bind, ensure_pos _ _ hdigits, hparse,
    Except.mapError]
  split
  · rename_i hzero
    rw [ensure, if_neg (not_not_intro hzero)]
    rfl
  · rename_i hpos
    rw [ensure_pos _ _ hpos]
    rfl

theorem CreatePoolQuoteRequest.amounts_of_denotes (request : CreatePoolQuoteRequest) (a b : U128)
    (ha : Denotes request.amountA a) (hb : Denotes request.amountB b) :
    request.amounts = if a.val = 0 ∨ b.val = 0 then .error "amount_must_be_positive"
      else .ok (some (a, b)) := by
  have hgiven : request.amountA.isSome ∨ request.amountB.isSome := by
    obtain ⟨digits, hdigits, -⟩ := ha
    exact Or.inl (by rw [hdigits]; rfl)
  rw [CreatePoolQuoteRequest.amounts, if_pos hgiven, ha.positiveAmount, hb.positiveAmount]
  by_cases hza : a.val = 0
  · rw [if_pos hza, if_pos (Or.inl hza)]
    rfl
  · by_cases hzb : b.val = 0
    · rw [if_neg hza, if_pos hzb, if_pos (Or.inr hzb)]
      rfl
    · rw [if_neg hza, if_neg hzb, if_neg (by omega)]
      rfl

theorem spotPriceQ6464_spec (base quote : U128) (hbase : base.val ≠ 0) :
    ∃ price, spotPriceQ6464 base quote = .ok price ∧
      (price.val = 0 ↔ quote.val * 2 ^ 64 < base.val) := by
  have hquote := quote.isLt
  have hfits : quote.val * 2 ^ 64 < 2 ^ 256 := by omega
  have hquotient : quote.val * 2 ^ 64 / base.val < 2 ^ 256 :=
    lt_of_le_of_lt (Nat.div_le_self _ _) hfits
  have hzero : quote.val * 2 ^ 64 / base.val = 0 ↔ quote.val * 2 ^ 64 < base.val :=
    Nat.div_eq_zero_iff_lt (Nat.pos_of_ne_zero hbase)
  refine ⟨(Unsigned.tryFrom 128 (quote.val * 2 ^ 64 / base.val)).getD (maxValue 128), ?_, ?_⟩
  · simp only [spotPriceQ6464, bind_eq_ok, ensure_eq_ok, exists_const, expect_eq_ok,
      checkedDiv_eq_some, widen_val, Unsigned.tryFrom_eq_some, pure_eq_ok]
    exact ⟨hbase, ⟨_, hfits⟩, rfl, ⟨_, hquotient⟩, ⟨hbase, rfl⟩, rfl⟩
  · rw [← hzero]
    cases hnarrow : Unsigned.tryFrom 128 (quote.val * 2 ^ 64 / base.val) with
    | some price => rw [Option.getD_some, (Unsigned.tryFrom_eq_some _ _).mp hnarrow]
    | none =>
      have hlarge := (Unsigned.tryFrom_eq_none _).mp hnarrow
      have hmax : (maxValue 128).val = 2 ^ 128 - 1 := rfl
      rw [Option.getD_none, hmax]
      omega

def createPoolQuoteErrors : List String :=
  ["same_token_pair", "amount_required", "invalid_raw_amount", "amount_must_be_positive",
    "amount_too_low"]

structure CreatePoolQuoteAgrees (request : CreatePoolQuoteRequest) (a b : U128) : Prop where
  sound : ∀ quote, createPoolQuote request = .ok quote → quote.actualAmountA = a ∧
    quote.actualAmountB = b ∧ openingLp a b = .ok quote.expectedLp
  complete : ∀ lp, openingLp a b = .ok lp → ∃ quote, createPoolQuote request = .ok quote
  reported : ∀ message, createPoolQuote request = .error message →
    message ∈ createPoolQuoteErrors

section
variable (request : CreatePoolQuoteRequest) (a b : U128)
  (htokens : request.tokenAId ≠ request.tokenBId) (ha : Denotes request.amountA a)
  (hb : Denotes request.amountB b)
include htokens ha hb

theorem createPoolQuote_zero (hzero : a.val = 0 ∨ b.val = 0) :
    createPoolQuote request = .error "amount_must_be_positive" := by
  rw [createPoolQuote, ensure_pos _ _ htokens, request.amounts_of_denotes a b ha hb, if_pos hzero]
  rfl

/-- The amounts are priced, and the least deposit is taken at their price. -/
theorem createPoolQuote_priced (ha0 : a.val ≠ 0) (hb0 : b.val ≠ 0) (price root : U128)
    (hprice : spotPriceQ6464 a b = .ok price) (hroot : isqrtProduct a b = .ok root) :
    createPoolQuote request = (do
      let minimum ← minimumOpeningPair price
      let expectedLp ← expect ((root.checkedSub minimumLiquidity).filter fun userLp =>
        0 < userLp.val) "amount_too_low"
      pure ⟨a, b, minimum.1, minimum.2, expectedLp, minimumLiquidity, price⟩) := by
  rw [createPoolQuote, ensure_pos _ _ htokens, request.amounts_of_denotes a b ha hb,
    if_neg (by omega)]
  simp only [ok_bind, hprice, Option.getD_some, hroot]

theorem createPoolQuote_agrees_of_priced (price : U128) (hprice : spotPriceQ6464 a b = .ok price)
    (ha0 : a.val ≠ 0) (hb0 : b.val ≠ 0) (hpos : price.val ≠ 0) :
    CreatePoolQuoteAgrees request a b := by
  obtain ⟨root, hroot, hval⟩ := isqrtProduct_spec a b
  obtain ⟨minimum, hminimum, -⟩ := minimumOpeningPair_of_ne_zero price hpos
  have hquote := createPoolQuote_priced request a b htokens ha hb ha0 hb0 price root hprice hroot
  rw [hminimum, ok_bind] at hquote
  have hlp : ∀ lp : U128, (root.checkedSub minimumLiquidity).filter (fun userLp => 0 < userLp.val)
      = some lp ↔ openingLp a b = .ok lp := by
    intro lp
    rw [Option.filter_eq_some_iff, checkedSub_eq_some, decide_eq_true_iff, openingLp_eq_ok, hval]
    exact ⟨fun h => ⟨ha0, hb0, h.2, h.1⟩, fun h => ⟨h.2.2.2, h.2.2.1⟩⟩
  refine ⟨fun quote h => ?_, fun lp h => ?_, fun message h => ?_⟩
  · rw [hquote] at h
    simp only [bind_eq_ok, expect_eq_ok, pure_eq_ok] at h
    obtain ⟨lp, hsome, rfl⟩ := h
    exact ⟨rfl, rfl, (hlp lp).mp hsome⟩
  · rw [hquote, (hlp lp).mpr h]
    exact ⟨_, rfl⟩
  · rw [hquote] at h
    cases hsome : (root.checkedSub minimumLiquidity).filter (fun userLp => 0 < userLp.val) with
    | some lp =>
      rw [hsome] at h
      cases h
    | none =>
      rw [hsome] at h
      cases h
      decide

theorem createPoolQuote_agrees_iff :
    CreatePoolQuoteAgrees request a b ↔ a.val = 0 ∨ b.val = 0 ∨ a.val ≤ b.val * 2 ^ 64 := by
  by_cases hzero : a.val = 0 ∨ b.val = 0
  · have hquote := createPoolQuote_zero request a b htokens ha hb hzero
    refine iff_of_true ⟨fun quote h => ?_, fun lp h => ?_, fun message h => ?_⟩ (by omega)
    · rw [hquote] at h
      cases h
    · obtain ⟨ha0, hb0, -⟩ := (openingLp_eq_ok a b lp).mp h
      exact absurd hzero (by omega)
    · rw [hquote] at h
      cases h
      decide
  · have ha0 : a.val ≠ 0 := fun h => hzero (Or.inl h)
    have hb0 : b.val ≠ 0 := fun h => hzero (Or.inr h)
    obtain ⟨price, hprice, hdust⟩ := spotPriceQ6464_spec a b ha0
    by_cases hpos : price.val = 0
    · -- the price rounds to zero, and the deposit is far above the least one
      have hlopsided := hdust.mp hpos
      refine iff_of_false (fun h => ?_) (by omega)
      obtain ⟨root, hroot, hval⟩ := isqrtProduct_spec a b
      have hopens : minimumLiquidity.val < (a.val * b.val).sqrt := by
        rw [opens_iff]
        nlinarith [Nat.pos_of_ne_zero hb0]
      have hlp : (a.val * b.val).sqrt - 1000 < 2 ^ 128 := by
        have := root.isLt
        omega
      obtain ⟨quote, hquote⟩ := h.complete ⟨_, hlp⟩ ((openingLp_eq_ok _ _ _).mpr
        ⟨ha0, hb0, Nat.sub_pos_of_lt hopens, Nat.sub_add_cancel hopens.le⟩)
      rw [createPoolQuote_priced request a b htokens ha hb ha0 hb0 price root hprice hroot,
        minimumOpeningPair_zero price hpos] at hquote
      cases hquote
    · refine iff_of_true ?_ (by omega)
      exact createPoolQuote_agrees_of_priced request a b htokens ha hb price hprice ha0 hb0 hpos

end

/-- The pair that the program opens with: the least on the side of the cheaper token, the other side
rounded up at the price. -/
structure LeastOpening (price : U128) (pair : U128 × U128) : Prop where
  aboveOne : 2 ^ 64 ≤ price.val → pair.2.val = pair.1.val * price.val ⌈/⌉ 2 ^ 64 ∧
    LeastSide (fun n => n * price.val ⌈/⌉ 2 ^ 64) pair.1.val
  belowOne : price.val < 2 ^ 64 → pair.1.val = pair.2.val * 2 ^ 64 ⌈/⌉ price.val ∧
    LeastSide (fun n => n * 2 ^ 64 ⌈/⌉ price.val) pair.2.val

theorem LeastOpening.opens (price : U128) (pair : U128 × U128) (h : LeastOpening price pair) :
    ∃ lp, openingLp pair.1 pair.2 = .ok lp := by
  have hroot : minimumLiquidity.val < (pair.1.val * pair.2.val).sqrt := by
    rcases Nat.lt_or_ge price.val (2 ^ 64) with hlt | hge
    · obtain ⟨hpaired, hleast⟩ := h.belowOne hlt
      rw [hpaired, Nat.mul_comm]
      exact hleast.1
    · obtain ⟨hpaired, hleast⟩ := h.aboveOne hge
      rw [hpaired]
      exact hleast.1
  obtain ⟨root, -, hval⟩ := isqrtProduct_spec pair.1 pair.2
  have hlp : (pair.1.val * pair.2.val).sqrt - 1000 < 2 ^ 128 := by
    have := root.isLt
    omega
  have hne := (opens_iff _ _).mp hroot
  refine ⟨⟨_, hlp⟩, (openingLp_eq_ok _ _ _).mpr ⟨fun hz => ?_, fun hz => ?_,
    Nat.sub_pos_of_lt hroot, Nat.sub_add_cancel hroot.le⟩⟩
  · rw [hz, Nat.zero_mul] at hne
    omega
  · rw [hz, Nat.mul_zero] at hne
    omega

/-- The quote agrees with the program for all amounts but those whose price rounds to zero, and the
least deposit is found at every price but zero. -/
theorem opening_quotes_agree_iff (request : CreatePoolQuoteRequest) (a b : U128)
    (htokens : request.tokenAId ≠ request.tokenBId) (ha : Denotes request.amountA a)
    (hb : Denotes request.amountB b) :
    (CreatePoolQuoteAgrees request a b ↔ a.val = 0 ∨ b.val = 0 ∨ a.val ≤ b.val * 2 ^ 64) ∧
    (∀ price : U128, price.val ≠ 0 → ∃ pair, minimumOpeningPair price = .ok pair ∧
      LeastOpening price pair ∧ ∃ lp, openingLp pair.1 pair.2 = .ok lp) ∧
    (∀ amount : U128, ∃ raw, Denotes raw amount) ∧
    ∀ (self : AccountId) (w v : Accounts) (authority ids : List AccountId) (a b : U128)
      (deadline : U64) (calls : List ChainedCall),
      Step self w authority ids (.newDefinition a b deadline) v calls →
      ∃ lp, openingLp a b = .ok lp ∧ ∃ tokenProgramId pool holding,
        lpMintCall tokenProgramId pool (computeLiquidityTokenPda self pool) holding lp ∈ calls := by
  refine ⟨createPoolQuote_agrees_iff request a b htokens ha hb, fun price hprice => ?_,
    fun amount => ?_, newDefinition_mints⟩
  · obtain ⟨pair, hpair, habove, hbelow⟩ := minimumOpeningPair_of_ne_zero price hprice
    have hleast : LeastOpening price pair := ⟨habove, hbelow⟩
    exact ⟨pair, hpair, hleast, hleast.opens⟩
  · obtain ⟨digits, hdigits⟩ := exists_parsed amount
    exact ⟨some digits, digits, rfl, hdigits⟩

def evenRequest : CreatePoolQuoteRequest :=
  ⟨.key 20, .key 10, none, some "1000000", some "4000000"⟩

theorem even_quote_agrees :
    CreatePoolQuoteAgrees evenRequest 1000000 4000000 ∧
    ∃ pair, minimumOpeningPair q64 = .ok pair ∧ LeastOpening q64 pair ∧
      ∃ lp, openingLp pair.1 pair.2 = .ok lp :=
  have hagree := opening_quotes_agree_iff evenRequest 1000000 4000000 (by decide)
    ⟨_, rfl, by decide, by decide, by decide⟩ ⟨_, rfl, by decide, by decide, by decide⟩
  ⟨hagree.1.mpr (by decide), hagree.2.1 q64 (by decide)⟩

/-- Forty units of a token with eighteen decimals against the least amount of another one. -/
def lopsidedRequest : CreatePoolQuoteRequest :=
  ⟨.key 20, .key 10, none, some "40000000000000000000", some "1"⟩

theorem lopsided_quote_fails :
    Denotes lopsidedRequest.amountA 40000000000000000000 ∧ Denotes lopsidedRequest.amountB 1 ∧
    createPoolQuote lopsidedRequest = .error "attempt to divide by zero" ∧
    openingLp 40000000000000000000 1 = .ok 6324554320 ∧
    ¬CreatePoolQuoteAgrees lopsidedRequest 40000000000000000000 1 := by
  have hquote : createPoolQuote lopsidedRequest = .error "attempt to divide by zero" := by
    decide +kernel
  have hopens : openingLp 40000000000000000000 1 = .ok 6324554320 := by decide +kernel
  refine ⟨⟨_, rfl, by decide, by decide, by decide +kernel⟩, ⟨_, rfl, by decide, by decide, by decide⟩,
    hquote, hopens, fun h => ?_⟩
  obtain ⟨quote, hok⟩ := h.complete _ hopens
  rw [hquote] at hok
  cases hok

end LezPrograms.AmmClient
