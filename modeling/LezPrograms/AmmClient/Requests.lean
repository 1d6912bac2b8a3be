import LezPrograms.Amm.Step

/-! # Requests to the client of the AMM

The quotes and plans of the client work on accounts that were read before and on raw
amounts. Identifiers and account data arrive decoded here; amounts are parsed. -/

set_option autoImplicit false

namespace LezPrograms.AmmClient
open LezPrograms.Checked LezPrograms.Checked.Unsigned LezPrograms.Lee LezPrograms.Amm

structure AccountRead where
  id : AccountId
  status : String
  account : Option (Account AccountId Data)

def decodeAccount (read : AccountRead) : Outcome (AccountId × Account AccountId Data) := do
  ensure (read.status = "ok") "account read failed"
  let source ← expect read.account "successful account read has no account"
  pure (read.id, source)

def readOf (w : Accounts) (id : AccountId) : AccountRead := ⟨id, "ok", some (w id)⟩

section
variable {w : ℕ}

def parseDigits (value : Unsigned w) : List Char → Outcome (Unsigned w)
  | [] => pure value
  | digit :: digits => do
    ensure digit.isDigit "invalid digit found in string"
    let value ← expect (Unsigned.tryFrom w (value.val * 10 + (digit.toNat - 48)))
      "number too large to fit in target type"
    parseDigits value digits

def parse (value : String) : Outcome (Unsigned w) :=
  match value.toList with
  | [] => .error "cannot parse integer from empty string"
  | ['+'] => .error "invalid digit found in string"
  | '+' :: digits => parseDigits (zero w) digits
  | digits => parseDigits (zero w) digits

def parseLabelled (value label : String) : Outcome (Unsigned w) :=
  (parse value).mapError fun error => "invalid " ++ label ++ ": " ++ error

end

def parseU128 (value label : String) : Outcome U128 := parseLabelled value label

def parseU64 (value label : String) : Outcome U64 := parseLabelled value label

def positiveAmount (value : Option String) : Outcome U128 := do
  let value ← expect (value.filter fun raw => raw ≠ "") "amount_required"
  ensure (value.toList.all Char.isDigit) "invalid_raw_amount"
  let amount : U128 ← (parse value).mapError fun _ => "invalid_raw_amount"
  ensure (amount.val ≠ 0) "amount_must_be_positive"
  pure amount

example : parseU128 "+1500" "amountIn" = .ok 1500 := by decide

section
variable {w : ℕ}

theorem parseDigits_concat (value : Unsigned w) (digits : List Char) (digit : Char) :
    parseDigits value (digits ++ [digit]) =
      parseDigits value digits >>= fun value => parseDigits value [digit] := by
  induction digits generalizing value with
  | nil => rfl
  | cons first digits ih =>
    simp only [List.cons_append, parseDigits, bind_assoc, ih]

theorem parseDigits_digit (value : Unsigned w) (d : ℕ) (hd : d < 10)
    (hfits : value.val * 10 + d < 2 ^ w) :
    (Nat.digitChar d).isDigit ∧ parseDigits value [Nat.digitChar d] = .ok ⟨_, hfits⟩ := by
  have hdigits : ∀ d < 10, (Nat.digitChar d).isDigit ∧ (Nat.digitChar d).toNat - 48 = d := by decide
  have hdigit := hdigits d hd
  refine ⟨hdigit.1, ?_⟩
  rw [parseDigits, ensure_pos _ _ hdigit.1, ok_bind, hdigit.2, tryFrom_of_lt _ hfits]
  rfl

/-- Every amount has decimal digits. -/
theorem exists_digits (n : ℕ) (hn : n < 2 ^ w) :
    ∃ digits : List Char, digits ≠ [] ∧ digits.all Char.isDigit ∧
      parseDigits (zero w) digits = .ok ⟨n, hn⟩ := by
  induction n using Nat.strong_induction_on with
  | _ n ih =>
    by_cases hsmall : n < 10
    · obtain ⟨hdigit, hparse⟩ := parseDigits_digit (zero w) n hsmall (by rw [zero_val]; omega)
      refine ⟨[Nat.digitChar n], by simp, by simpa using hdigit, hparse.trans ?_⟩
      simp only [zero_val, Nat.zero_mul, Nat.zero_add]
    · obtain ⟨digits, hne, hdigits, hparse⟩ := ih (n / 10) (by omega) (by omega)
      have hsplit : n / 10 * 10 + n % 10 = n := Nat.div_add_mod' n 10
      obtain ⟨hdigit, hlast⟩ := parseDigits_digit
        (⟨n / 10, by omega⟩ : Unsigned w) (n % 10)
        (Nat.mod_lt _ (by omega)) (by change n / 10 * 10 + n % 10 < _; omega)
      refine ⟨digits ++ [Nat.digitChar (n % 10)], by simp, ?_, ?_⟩
      · rw [List.all_append, hdigits, List.all_cons, hdigit]
        rfl
      · rw [parseDigits_concat, hparse, ok_bind, hlast]
        simp only [hsplit]

theorem exists_parsed (n : Unsigned w) :
    ∃ digits : String, digits ≠ "" ∧ digits.toList.all Char.isDigit ∧ parse digits = .ok n := by
  obtain ⟨digits, hne, hdigits, hparse⟩ := exists_digits n.val n.isLt
  refine ⟨String.ofList digits, fun h => hne (String.ofList_eq_empty_iff.mp h), ?_, ?_⟩
  · rwa [String.toList_ofList]
  · unfold parse
    rw [String.toList_ofList]
    split
    · exact absurd rfl hne
    · cases hdigits
    · cases hdigits
    · exact hparse

end

theorem parseLabelled_eq_ok {w : ℕ} (value label : String) (n : Unsigned w) :
    parseLabelled value label = .ok n ↔ parse value = .ok n := mapError_eq_ok _ _ _

def swapFeeBpsFromConfig (config : AccountRead) : Outcome U128 := do
  let (_, account) ← decodeAccount config
  let cfg : AmmConfig ← expect (tryFrom account.data) "invalid_config"
  pure cfg.swapFeeBps

def decodePool (poolData : Data) : Outcome PoolDefinition :=
  expect ((tryFrom poolData : Option PoolDefinition).filter fun pool =>
    pool.liquidityPoolSupply.val ≠ 0) "no_pool"

def sideOf (pool : PoolDefinition) (first second : AccountId) : Outcome Side :=
  if first = pool.definitionTokenAId ∧ second = pool.definitionTokenBId then pure .a
  else if first = pool.definitionTokenBId ∧ second = pool.definitionTokenAId then pure .b
  else .error "pair_mismatch"

theorem decodePool_eq_ok (poolData : Data) (pool : PoolDefinition) :
    decodePool poolData = .ok pool ↔
      poolData = .poolDefinition pool ∧ pool.liquidityPoolSupply.val ≠ 0 := by
  simp [decodePool, expect_eq_ok, Option.filter_eq_some_iff, tryFrom_poolDefinition]

def Decodes (config : AccountRead) (cfg : AmmConfig) : Prop :=
  config.status = "ok" ∧ ∃ account, config.account = some account ∧ account.data = .ammConfig cfg

theorem Decodes.swapFeeBps (config : AccountRead) (cfg : AmmConfig) (h : Decodes config cfg) :
    swapFeeBpsFromConfig config = .ok cfg.swapFeeBps := by
  obtain ⟨hstatus, account, haccount, hcfg⟩ := h
  simp only [swapFeeBpsFromConfig, decodeAccount, bind_eq_ok, ensure_eq_ok, exists_const,
    expect_eq_ok, pure_eq_ok, Prod.exists, Prod.mk.injEq, tryFrom_ammConfig]
  exact ⟨_, _, ⟨hstatus, _, haccount, rfl, rfl⟩, cfg, hcfg, rfl⟩

/-- Either display order of the pair of a pool is resolved, and no other pair. -/
theorem sideOf_eq_ok (pool : PoolDefinition) (first second : AccountId) (hne : first ≠ second)
    (side : Side) :
    sideOf pool first second = .ok side ↔
      first = pool.token side ∧ second = pool.token side.other := by
  unfold sideOf
  split
  · rename_i h
    rw [pure_eq_ok]
    cases side with
    | a => exact ⟨fun _ => h, fun _ => rfl⟩
    | b =>
      simp only [reduceCtorEq, false_iff]
      rintro ⟨hb, -⟩
      exact hne (hb.trans h.2.symm)
  · rename_i h
    rw [ite_eq_ok, pure_eq_ok]
    cases side with
    | a =>
      simp only [reduceCtorEq, and_false, false_or, iff_false_intro (error_ne_ok _ _), false_iff]
      exact h
    | b =>
      simp only [and_true, iff_false_intro (error_ne_ok _ _), and_false, or_false]
      rfl

end LezPrograms.AmmClient
