import Mathlib.Data.Nat.Basic
import Mathlib.Data.Fin.Basic
import Mathlib.Tactic.Linarith
import Mathlib.Tactic.Ring

/-! # Checked arithmetic and aborting computations

Fixed-width integers carry their range in their type. Every operation that can
leave the range returns an option, and a computation that can abort returns
the text it aborts with. Each operation has one lemma that says when it
succeeds and with which value; later proofs use only these lemmas. -/

set_option autoImplicit false

namespace LezPrograms.Checked

abbrev Outcome := Except String

def ensure (p : Prop) [Decidable p] (message : String) : Outcome Unit :=
  if p then .ok () else .error message

def expect {α : Type} (value : Option α) (message : String) : Outcome α :=
  match value with
  | some a => .ok a
  | none => .error message

section Outcomes
variable {α β : Type}

theorem bind_eq_ok (x : Outcome α) (f : α → Outcome β) (b : β) :
    (x >>= f) = .ok b ↔ ∃ a, x = .ok a ∧ f a = .ok b := by
  cases x with
  | error m => simp [bind, Except.bind]
  | ok a => simp [bind, Except.bind]

theorem pure_eq_ok (a b : α) : (pure a : Outcome α) = .ok b ↔ a = b := by
  simp [pure, Except.pure]

@[simp] theorem ok_bind (a : α) (f : α → Outcome β) : (Except.ok a >>= f) = f a := rfl

theorem ensure_eq_ok (p : Prop) [Decidable p] (m : String) (u : Unit) :
    ensure p m = .ok u ↔ p := by
  unfold ensure
  split <;> simp_all

theorem ensure_pos (p : Prop) [Decidable p] (m : String) (h : p) : ensure p m = .ok () := by
  simp [ensure, h]

theorem expect_eq_ok (value : Option α) (m : String) (a : α) :
    expect value m = .ok a ↔ value = some a := by
  cases value <;> simp [expect]

@[simp] theorem expect_some (a : α) (m : String) : expect (some a) m = .ok a := rfl

theorem mapError_eq_ok (x : Outcome α) (f : String → String) (a : α) :
    (x.mapError f : Outcome α) = .ok a ↔ x = .ok a := by
  cases x <;> simp [Except.mapError]

theorem ite_eq_ok (p : Prop) [Decidable p] (x y : Outcome α) (a : α) :
    (if p then x else y) = .ok a ↔ (p ∧ x = .ok a) ∨ (¬p ∧ y = .ok a) := by
  split <;> simp_all

@[simp] theorem error_ne_ok (m : String) (a : α) : (Except.error m : Outcome α) ≠ .ok a := by
  simp

@[simp] theorem throw_eq_ok (m : String) (a : α) : (throw m : Outcome α) = .ok a ↔ False := by
  simp [throw, throwThe, MonadExceptOf.throw]

theorem bind_eq_error (x : Outcome α) (f : α → Outcome β) (m : String) :
    (x >>= f) = .error m ↔ x = .error m ∨ ∃ a, x = .ok a ∧ f a = .error m := by
  cases x with
  | error m => simp [bind, Except.bind]
  | ok a => simp [bind, Except.bind]

/-- What every step keeps, a loop keeps. -/
theorem foldlM_preserves (f : β → α → Outcome β) (P : β → Prop) (items : List α)
    (step : ∀ b a b', a ∈ items → P b → f b a = .ok b' → P b') (b b' : β) (hb : P b)
    (h : items.foldlM f b = .ok b') : P b' := by
  induction items generalizing b with
  | nil =>
    rw [List.foldlM_nil, pure_eq_ok] at h
    exact h ▸ hb
  | cons a items ih =>
    rw [List.foldlM_cons, bind_eq_ok] at h
    obtain ⟨c, hc, h⟩ := h
    exact ih (fun b a b' ha => step b a b' (List.mem_cons_of_mem _ ha)) c
      (step b a c (List.mem_cons_self ..) hb hc) h

theorem pure_eq_error (a : α) (m : String) : (pure a : Outcome α) = .error m ↔ False := by
  simp [pure, Except.pure]

theorem ensure_eq_error (p : Prop) [Decidable p] (m m' : String) :
    ensure p m = .error m' ↔ ¬p ∧ m = m' := by
  by_cases hp : p <;> simp [ensure, hp]

theorem expect_eq_error (value : Option α) (m m' : String) :
    expect value m = .error m' ↔ value = none ∧ m = m' := by
  cases value <;> simp [expect]

/-- A failure, if there is one, has none of these texts. -/
def Avoids (texts : List String) (o : Outcome α) : Prop := ∀ m ∈ texts, o ≠ .error m

section
variable (texts : List String)

theorem avoids_pure (a : α) : Avoids texts (pure a : Outcome α) :=
  fun m _ h => (pure_eq_error a m).mp h

theorem avoids_error (m : String) (hm : m ∉ texts) : Avoids texts (.error m : Outcome α) := by
  intro m' hm' h
  cases h
  exact hm hm'

theorem avoids_expect (value : Option α) (m : String) (hm : m ∉ texts ∨ value ≠ none) :
    Avoids texts (expect value m) := by
  intro m' hm' h
  obtain ⟨hnone, rfl⟩ := (expect_eq_error value m m').mp h
  exact hm.elim (fun hm => hm hm') fun hsome => hsome hnone

theorem avoids_ensure (p : Prop) [Decidable p] (m : String) (hm : m ∉ texts ∨ p) :
    Avoids texts (ensure p m) := by
  intro m' hm' h
  obtain ⟨hp, rfl⟩ := (ensure_eq_error p m m').mp h
  exact hm.elim (fun hm => hm hm') fun hp' => hp hp'

theorem Avoids.bind (x : Outcome α) (f : α → Outcome β) (hx : Avoids texts x)
    (hf : ∀ a, x = .ok a → Avoids texts (f a)) : Avoids texts (x >>= f) := by
  intro m hm h
  rcases (bind_eq_error x f m).mp h with h | ⟨a, ha, h⟩
  · exact hx m hm h
  · exact hf a ha m hm h

/-- A check with another text in front. -/
theorem Avoids.guard (p : Prop) [Decidable p] (m : String) (f : Unit → Outcome β)
    (hm : m ∉ texts) (hf : p → Avoids texts (f ())) : Avoids texts (ensure p m >>= f) :=
  Avoids.bind texts _ _ (avoids_ensure texts p m (Or.inl hm)) fun _ ha =>
    hf ((ensure_eq_ok p m _).mp ha)

end

end Outcomes

abbrev Unsigned (bits : ℕ) := Fin (2 ^ bits)

abbrev U32 := Unsigned 32
abbrev U64 := Unsigned 64
abbrev U128 := Unsigned 128
abbrev U256 := Unsigned 256
abbrev U512 := Unsigned 512

instance neZero_u32 : NeZero (2 ^ 32) := ⟨by decide⟩
instance neZero_u64 : NeZero (2 ^ 64) := ⟨by decide⟩
instance neZero_u128 : NeZero (2 ^ 128) := ⟨by decide⟩
instance neZero_u256 : NeZero (2 ^ 256) := ⟨by decide⟩

/-! Bounds of constants and of widths, by name. -/

theorem one_lt_u64 : 1 < 2 ^ 64 := by norm_num

theorem two_lt_u64 : 2 < 2 ^ 64 := by norm_num

theorem four_lt_u64 : 4 < 2 ^ 64 := by norm_num

theorem one_lt_u128 : 1 < 2 ^ 128 := by norm_num

theorem two_pow_64_lt_u128 : 2 ^ 64 < 2 ^ 128 := by norm_num

theorem two_pow_66_lt_u128 : 2 ^ 66 < 2 ^ 128 := by norm_num

theorem two_pow_96_lt_u256 : 2 ^ 96 < 2 ^ 256 := by norm_num

theorem u32_le_u128 : 32 ≤ 128 := by decide

theorem u128_le_u256 : 128 ≤ 256 := by decide

theorem u128_le_u512 : 128 ≤ 512 := by decide

namespace Unsigned
variable {w v : ℕ}

def tryFrom (w n : ℕ) : Option (Unsigned w) :=
  if h : n < 2 ^ w then some ⟨n, h⟩ else none

def maxValue (w : ℕ) : Unsigned w := ⟨2 ^ w - 1, Nat.sub_lt (Nat.two_pow_pos w) Nat.one_pos⟩

def zero (w : ℕ) : Unsigned w := ⟨0, Nat.two_pow_pos w⟩

def checkedAdd (a b : Unsigned w) : Option (Unsigned w) := tryFrom w (a.val + b.val)

def checkedSub (a b : Unsigned w) : Option (Unsigned w) :=
  if b.val ≤ a.val then tryFrom w (a.val - b.val) else none

def checkedMul (a b : Unsigned w) : Option (Unsigned w) := tryFrom w (a.val * b.val)

def checkedDiv (a b : Unsigned w) : Option (Unsigned w) :=
  if b.val = 0 then none else tryFrom w (a.val / b.val)

def checkedRem (a b : Unsigned w) : Option (Unsigned w) :=
  if b.val = 0 then none else tryFrom w (a.val % b.val)

def saturatingSub (a b : Unsigned w) : Unsigned w :=
  ⟨a.val - b.val, lt_of_le_of_lt (Nat.sub_le _ _) a.isLt⟩

def saturatingMul (a b : Unsigned w) : Unsigned w := (checkedMul a b).getD (maxValue w)

def wrappingMul (a b : Unsigned w) : Unsigned w :=
  ⟨a.val * b.val % 2 ^ w, Nat.mod_lt _ (Nat.two_pow_pos w)⟩

def wrappingAdd (a b : Unsigned w) : Unsigned w :=
  ⟨(a.val + b.val) % 2 ^ w, Nat.mod_lt _ (Nat.two_pow_pos w)⟩

def divNat (a : Unsigned w) (n : ℕ) : Unsigned w :=
  ⟨a.val / n, lt_of_le_of_lt (Nat.div_le_self _ _) a.isLt⟩

def minimum (a b : Unsigned w) : Unsigned w := if a.val ≤ b.val then a else b

def maximum (a b : Unsigned w) : Unsigned w := if a.val ≤ b.val then b else a

def widen (a : Unsigned w) (h : w ≤ v) : Unsigned v :=
  ⟨a.val, lt_of_lt_of_le a.isLt (Nat.pow_le_pow_right (by decide) h)⟩

theorem tryFrom_eq_some (n : ℕ) (r : Unsigned w) : tryFrom w n = some r ↔ r.val = n := by
  unfold tryFrom
  split
  · simp [Fin.ext_iff, eq_comm]
  · have := r.isLt
    simp
    omega

theorem tryFrom_eq_none (n : ℕ) : tryFrom w n = none ↔ 2 ^ w ≤ n := by
  unfold tryFrom
  split <;> simp <;> omega

theorem tryFrom_of_lt (n : ℕ) (h : n < 2 ^ w) : tryFrom w n = some ⟨n, h⟩ := by
  simp [tryFrom, h]

@[simp] theorem zero_val : (zero w).val = 0 := rfl

theorem maxValue_val : (maxValue w).val + 1 = 2 ^ w := by
  have := Nat.two_pow_pos w
  simp only [maxValue]
  omega

theorem le_maxValue_iff (w n : ℕ) : n ≤ (maxValue w).val ↔ n < 2 ^ w := by
  have := maxValue_val (w := w)
  omega

theorem checkedAdd_eq_some (a b r : Unsigned w) :
    checkedAdd a b = some r ↔ r.val = a.val + b.val := tryFrom_eq_some _ _

theorem checkedAdd_of_lt (a b : Unsigned w) (h : a.val + b.val < 2 ^ w) :
    checkedAdd a b = some ⟨a.val + b.val, h⟩ := tryFrom_of_lt _ h

theorem checkedSub_eq_some (a b r : Unsigned w) :
    checkedSub a b = some r ↔ r.val + b.val = a.val := by
  unfold checkedSub
  split
  · rw [tryFrom_eq_some]
    omega
  · simp
    omega

theorem checkedSub_eq_none (a b : Unsigned w) : checkedSub a b = none ↔ a.val < b.val := by
  rw [Option.eq_none_iff_forall_ne_some]
  simp only [ne_eq, checkedSub_eq_some]
  constructor
  · intro h
    by_contra hle
    exact h ⟨a.val - b.val, lt_of_le_of_lt (Nat.sub_le _ _) a.isLt⟩ (by simp only; omega)
  · intro h r
    omega

theorem checkedSub_of_le (a b : Unsigned w) (h : b.val ≤ a.val) :
    checkedSub a b = some ⟨a.val - b.val, lt_of_le_of_lt (Nat.sub_le _ _) a.isLt⟩ :=
  (checkedSub_eq_some _ _ _).mpr (Nat.sub_add_cancel h)

theorem checkedMul_eq_some (a b r : Unsigned w) :
    checkedMul a b = some r ↔ r.val = a.val * b.val := tryFrom_eq_some _ _

theorem checkedMul_eq_none (a b : Unsigned w) :
    checkedMul a b = none ↔ 2 ^ w ≤ a.val * b.val := tryFrom_eq_none _

theorem checkedDiv_eq_some (a b r : Unsigned w) :
    checkedDiv a b = some r ↔ b.val ≠ 0 ∧ r.val = a.val / b.val := by
  unfold checkedDiv
  split <;> simp_all [tryFrom_eq_some]

theorem checkedDiv_ne_none (a b : Unsigned w) (hb : b.val ≠ 0) : checkedDiv a b ≠ none := by
  rw [checkedDiv, if_neg hb, Ne, tryFrom_eq_none, not_le]
  exact (Nat.div_le_self _ _).trans_lt a.isLt

theorem checkedRem_eq_some (a b r : Unsigned w) :
    checkedRem a b = some r ↔ b.val ≠ 0 ∧ r.val = a.val % b.val := by
  unfold checkedRem
  split <;> simp_all [tryFrom_eq_some]

@[simp] theorem saturatingSub_val (a b : Unsigned w) :
    (saturatingSub a b).val = a.val - b.val := rfl

theorem saturatingMul_val (a b : Unsigned w) :
    (saturatingMul a b).val = min (a.val * b.val) (maxValue w).val := by
  have hm := maxValue_val (w := w)
  unfold saturatingMul
  cases h : checkedMul a b with
  | none =>
    rw [checkedMul_eq_none] at h
    simp only [Option.getD_none]
    exact (min_eq_right (by omega)).symm
  | some r =>
    rw [checkedMul_eq_some] at h
    have := r.isLt
    simp only [Option.getD_some, h]
    exact (min_eq_left (by omega)).symm

theorem wrappingMul_val (a b : Unsigned w) (h : a.val * b.val ≤ (maxValue w).val) :
    (wrappingMul a b).val = a.val * b.val :=
  Nat.mod_eq_of_lt ((le_maxValue_iff w _).mp h)

theorem wrappingAdd_val (a b : Unsigned w) (h : a.val + b.val ≤ (maxValue w).val) :
    (wrappingAdd a b).val = a.val + b.val :=
  Nat.mod_eq_of_lt ((le_maxValue_iff w _).mp h)

@[simp] theorem divNat_val (a : Unsigned w) (n : ℕ) : (divNat a n).val = a.val / n := rfl

theorem minimum_val (a b : Unsigned w) : (minimum a b).val = min a.val b.val := by
  unfold minimum
  split
  · exact (min_eq_left ‹_›).symm
  · exact (min_eq_right (by omega)).symm

theorem maximum_val (a b : Unsigned w) : (maximum a b).val = max a.val b.val := by
  unfold maximum
  split
  · exact (max_eq_right ‹_›).symm
  · exact (max_eq_left (by omega)).symm

@[simp] theorem widen_val (a : Unsigned w) (h : w ≤ v) : (widen a h).val = a.val := rfl

end Unsigned

theorem product_lt (a b : U128) : a.val * b.val < 2 ^ 256 := by
  have ha := a.isLt
  have hb := b.isLt
  calc a.val * b.val < 2 ^ 128 * 2 ^ 128 := Nat.mul_lt_mul'' ha hb
    _ = 2 ^ 256 := by norm_num

structure MulDivTexts where
  zeroDivisor : String
  product : String
  division : String
  result : String

def floorMulDiv (texts : MulDivTexts) (a b c : U128) : Outcome U128 := do
  ensure (c.val ≠ 0) texts.zeroDivisor
  let product ← expect ((a.widen (by decide) : U256).checkedMul (b.widen (by decide))) texts.product
  let quotient ← expect (product.checkedDiv (c.widen (by decide))) texts.division
  expect (Unsigned.tryFrom 128 quotient.val) texts.result

theorem floorMulDiv_eq_ok (texts : MulDivTexts) (a b c r : U128) :
    floorMulDiv texts a b c = .ok r ↔ c.val ≠ 0 ∧ r.val = a.val * b.val / c.val := by
  simp only [floorMulDiv, bind_eq_ok, ensure_eq_ok, exists_const, expect_eq_ok,
    Unsigned.checkedMul_eq_some, Unsigned.checkedDiv_eq_some, Unsigned.tryFrom_eq_some,
    Unsigned.widen_val]
  constructor
  · rintro ⟨hc, product, hp, quotient, ⟨-, hq⟩, hr⟩
    exact ⟨hc, by rw [hr, hq, hp]⟩
  · rintro ⟨hc, hr⟩
    have hp := product_lt a b
    have hq : a.val * b.val / c.val < 2 ^ 256 := lt_of_le_of_lt (Nat.div_le_self _ _) hp
    exact ⟨hc, ⟨_, hp⟩, rfl, ⟨_, hq⟩, ⟨hc, rfl⟩, hr⟩

@[ext]
structure Signed (bits : ℕ) where
  val : ℤ
  range : -(2 ^ (bits - 1) : ℕ) ≤ val ∧ val < (2 ^ (bits - 1) : ℕ)
deriving DecidableEq

abbrev I32 := Signed 32
abbrev I64 := Signed 64
abbrev I128 := Signed 128
abbrev I256 := Signed 256

theorem zero_mem_i32 : -(2 ^ (32 - 1) : ℕ) ≤ (0 : ℤ) ∧ (0 : ℤ) < (2 ^ (32 - 1) : ℕ) := by norm_num

theorem zero_mem_i64 : -(2 ^ (64 - 1) : ℕ) ≤ (0 : ℤ) ∧ (0 : ℤ) < (2 ^ (64 - 1) : ℕ) := by norm_num

theorem zero_mem_i128 : -(2 ^ (128 - 1) : ℕ) ≤ (0 : ℤ) ∧ (0 : ℤ) < (2 ^ (128 - 1) : ℕ) := by
  norm_num

namespace Signed
variable {w v : ℕ}

def tryFrom (w : ℕ) (n : ℤ) : Option (Signed w) :=
  if h : -(2 ^ (w - 1) : ℕ) ≤ n ∧ n < (2 ^ (w - 1) : ℕ) then some ⟨n, h⟩ else none

def checkedAdd (a b : Signed w) : Option (Signed w) := tryFrom w (a.val + b.val)

def checkedSub (a b : Signed w) : Option (Signed w) := tryFrom w (a.val - b.val)

def checkedMul (a b : Signed w) : Option (Signed w) := tryFrom w (a.val * b.val)

def saturatingAdd (a b : Signed w) : Signed w :=
  ⟨max (-(2 ^ (w - 1) : ℕ)) (min (a.val + b.val) ((2 ^ (w - 1) : ℕ) - 1)), by
    have : 0 < 2 ^ (w - 1) := Nat.two_pow_pos _
    omega⟩

def saturatingSub (a b : Signed w) : Signed w :=
  ⟨max (-(2 ^ (w - 1) : ℕ)) (min (a.val - b.val) ((2 ^ (w - 1) : ℕ) - 1)), by
    have : 0 < 2 ^ (w - 1) := Nat.two_pow_pos _
    omega⟩

def clamp (a least greatest : Signed w) : Signed w :=
  if a.val < least.val then least else if greatest.val < a.val then greatest else a

def widen (a : Signed w) (h : w ≤ v) : Signed v :=
  ⟨a.val, by
    have hpow : 2 ^ (w - 1) ≤ 2 ^ (v - 1) :=
      Nat.pow_le_pow_right (by decide) (Nat.sub_le_sub_right h 1)
    have hr := a.range
    omega⟩

/-- Division rounded so that the remainder is not negative. -/
def checkedDivEuclid (a b : Signed w) : Option (Signed w) :=
  if b.val = 0 then none else tryFrom w (a.val / b.val)

def truncDiv (a : Signed w) (n : ℕ) : Signed w :=
  ⟨a.val.tdiv n, by
    have hr := a.range
    rcases Int.le_total 0 a.val with h | h
    · have h1 := Int.tdiv_nonneg h (Int.natCast_nonneg n)
      have h2 := Int.tdiv_le_self (n : ℤ) h
      omega
    · have h1 := Int.tdiv_nonneg (a := -a.val) (by omega) (Int.natCast_nonneg n)
      have h2 := Int.tdiv_le_self (a := -a.val) (n : ℤ) (by omega)
      rw [Int.neg_tdiv] at h1 h2
      omega⟩

theorem tryFrom_eq_some (n : ℤ) (r : Signed w) : tryFrom w n = some r ↔ r.val = n := by
  unfold tryFrom
  split
  · simp [Signed.ext_iff, eq_comm]
  · have := r.range
    simp only [reduceCtorEq, false_iff]
    rintro rfl
    exact absurd this ‹_›

theorem tryFrom_of_mem (w : ℕ) (n : ℤ) (h : -(2 ^ (w - 1) : ℕ) ≤ n ∧ n < (2 ^ (w - 1) : ℕ)) :
    tryFrom w n = some ⟨n, h⟩ := by
  simp only [tryFrom, h, and_self, dite_true]

theorem exists_tryFrom (w : ℕ) (n : ℤ)
    (h : -(2 ^ (w - 1) : ℕ) ≤ n ∧ n < (2 ^ (w - 1) : ℕ)) : ∃ r, tryFrom w n = some r :=
  ⟨_, tryFrom_of_mem w n h⟩

theorem checkedAdd_eq_some (a b r : Signed w) :
    checkedAdd a b = some r ↔ r.val = a.val + b.val := tryFrom_eq_some _ _

theorem checkedSub_eq_some (a b r : Signed w) :
    checkedSub a b = some r ↔ r.val = a.val - b.val := tryFrom_eq_some _ _

theorem checkedMul_eq_some (a b r : Signed w) :
    checkedMul a b = some r ↔ r.val = a.val * b.val := tryFrom_eq_some _ _

theorem checkedDivEuclid_eq_some (a b r : Signed w) :
    checkedDivEuclid a b = some r ↔ b.val ≠ 0 ∧ r.val = a.val / b.val := by
  unfold checkedDivEuclid
  split
  · simp_all
  · rw [tryFrom_eq_some]
    simp_all

theorem clamp_val (a least greatest : Signed w) (h : least.val ≤ greatest.val) :
    (clamp a least greatest).val = max least.val (min greatest.val a.val) := by
  unfold clamp
  split
  · omega
  · split <;> omega

@[simp] theorem widen_val (a : Signed w) (h : w ≤ v) : (widen a h).val = a.val := rfl

end Signed

end LezPrograms.Checked
