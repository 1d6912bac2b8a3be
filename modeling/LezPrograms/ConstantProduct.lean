import Mathlib.Algebra.Order.Ring.Nat
import Mathlib.Logic.Relation
import Mathlib.Tactic.Linarith
import Mathlib.Tactic.Ring

/-! # Constant-product pools

Two reserves and a number of shares in both. Deposits, withdrawals and trades
round in favour of the pool, so the product of the reserves never falls against
the square of the shares. -/

set_option autoImplicit false

namespace LezPrograms.ConstantProduct

structure Pool where
  first : ℕ
  second : ℕ
  shares : ℕ

def Pool.Rises (p q : Pool) : Prop :=
  p.first * p.second * q.shares ^ 2 ≤ q.first * q.second * p.shares ^ 2

theorem Pool.Rises.refl (p : Pool) : p.Rises p := le_rfl

theorem Pool.Rises.trans (p q r : Pool) (hq : 0 < q.shares) (h : p.Rises q) (k : q.Rises r) :
    p.Rises r := by
  have hleft := Nat.mul_le_mul_right (r.shares ^ 2) h
  have hright := Nat.mul_le_mul_right (p.shares ^ 2) k
  refine Nat.le_of_mul_le_mul_right (c := q.shares ^ 2) ?_ (by positivity)
  calc p.first * p.second * r.shares ^ 2 * q.shares ^ 2
      = p.first * p.second * q.shares ^ 2 * r.shares ^ 2 := by ring
    _ ≤ q.first * q.second * p.shares ^ 2 * r.shares ^ 2 := hleft
    _ = q.first * q.second * r.shares ^ 2 * p.shares ^ 2 := by ring
    _ ≤ r.first * r.second * q.shares ^ 2 * p.shares ^ 2 := hright
    _ = r.first * r.second * p.shares ^ 2 * q.shares ^ 2 := by ring

/-- Both reserves per share rise, so their product does. -/
theorem Pool.rises_of_each (p q : Pool) (h₁ : p.first * q.shares ≤ q.first * p.shares)
    (h₂ : p.second * q.shares ≤ q.second * p.shares) : p.Rises q := by
  have h := Nat.mul_le_mul h₁ h₂
  calc p.first * p.second * q.shares ^ 2
      = p.first * q.shares * (p.second * q.shares) := by ring
    _ ≤ q.first * p.shares * (q.second * p.shares) := h
    _ = q.first * q.second * p.shares ^ 2 := by ring

/-- The product rises at equal shares. -/
theorem Pool.rises_of_product (p q : Pool) (h : p.first * p.second ≤ q.first * q.second)
    (hs : q.shares = p.shares) : p.Rises q := by
  rw [Pool.Rises, hs]
  exact Nat.mul_le_mul_right _ h

def paid (x y input : ℕ) : ℕ := y * input / (x + input)

def needed (x y payment : ℕ) : ℕ := (x * payment + (y - payment - 1)) / (y - payment)

theorem product_le_paid (x y input : ℕ) :
    x * y ≤ (x + input) * (y - paid x y input) := by
  have hfloor : paid x y input * (x + input) ≤ y * input := Nat.div_mul_le_self _ _
  rw [Nat.mul_sub]
  have hexpand : (x + input) * y = x * y + y * input := by ring
  rw [hexpand, Nat.mul_comm (x + input)]
  omega

theorem product_le_needed (x y payment : ℕ) (h : payment < y) :
    x * y ≤ (x + needed x y payment) * (y - payment) := by
  obtain ⟨k, hk, rfl⟩ : ∃ k, 0 < k ∧ y = payment + k := ⟨y - payment, by omega, by omega⟩
  have hceil : x * payment ≤ needed x (payment + k) payment * k := by
    have h := Nat.lt_div_mul_add (a := x * payment + (k - 1)) hk
    rw [needed, Nat.add_sub_cancel_left]
    omega
  rw [Nat.add_sub_cancel_left, Nat.mul_add, Nat.add_mul]
  omega

theorem ceil_le_iff (n d m : ℕ) (hd : 0 < d) : (n + (d - 1)) / d ≤ m ↔ n ≤ m * d := by
  rw [← Nat.lt_succ_iff, Nat.div_lt_iff_lt_mul hd, Nat.succ_mul]
  omega

/-- Rounding down the payment and rounding up the input are adjoint. -/
theorem le_paid_iff (x y input payment : ℕ) (hx : 0 < x) (h : payment < y) :
    payment ≤ paid x y input ↔ needed x y payment ≤ input := by
  obtain ⟨k, hk, rfl⟩ : ∃ k, 0 < k ∧ y = payment + k := ⟨y - payment, by omega, by omega⟩
  have hneeded : needed x (payment + k) payment ≤ input ↔ x * payment ≤ input * k := by
    rw [needed, Nat.add_sub_cancel_left, ceil_le_iff _ _ _ hk]
  rw [hneeded, paid, Nat.le_div_iff_mul_le (Nat.add_pos_left hx _)]
  constructor <;> intro hle <;> nlinarith

/-- What two payments take together, the second from reserves that have kept at least the priced part
of the first input, a trade of both inputs pays. -/
theorem paid_add_le (x y first second kept whole : ℕ) (hx : 0 < x) (hkept : first ≤ kept)
    (hwhole : first + second ≤ whole) :
    paid x y first + paid (x + kept) (y - paid x y first) second ≤ paid x y whole := by
  have hy : paid x y first ≤ y := by
    refine Nat.div_le_of_le_mul ?_
    rw [Nat.mul_comm]
    exact Nat.mul_le_mul_right _ (Nat.le_add_left _ _)
  have hfirst : paid x y first * (x + first) ≤ y * first := Nat.div_mul_le_self _ _
  obtain ⟨rest, hrest⟩ : ∃ rest, y = paid x y first + rest := ⟨y - paid x y first, by omega⟩
  have hsub : y - paid x y first = rest := by omega
  rw [hsub]
  generalize paid x y first = p at *
  have hsecond : paid (x + kept) rest second * (x + first + second) ≤ rest * second := by
    calc paid (x + kept) rest second * (x + first + second)
        ≤ paid (x + kept) rest second * (x + kept + second) :=
          Nat.mul_le_mul_left _ (by omega)
      _ ≤ rest * second := Nat.div_mul_le_self _ _
  generalize paid (x + kept) rest second = r at *
  have hmono : y * (first + second) / (x + (first + second)) ≤ paid x y whole := by
    obtain ⟨d, rfl⟩ := Nat.exists_eq_add_of_le hwhole
    rw [paid, Nat.le_div_iff_mul_le (by omega)]
    have hdiv := Nat.div_mul_le_self (y * (first + second)) (x + (first + second))
    have hle : y * (first + second) / (x + (first + second)) ≤ y := by
      refine Nat.div_le_of_le_mul ?_
      rw [Nat.mul_comm]
      exact Nat.mul_le_mul_right _ (Nat.le_add_left _ _)
    generalize y * (first + second) / (x + (first + second)) = t at *
    nlinarith [Nat.mul_le_mul_right d hle]
  refine le_trans ?_ hmono
  rw [Nat.le_div_iff_mul_le (by omega)]
  calc (p + r) * (x + (first + second))
      = p * (x + first) + p * second + r * (x + first + second) := by ring
    _ ≤ y * first + p * second + rest * second := by omega
    _ = y * (first + second) := by
      rw [hrest]
      ring

def afterFee (scale fee amount : ℕ) : ℕ := amount * (scale - fee) / scale

def beforeFee (scale fee net : ℕ) : ℕ := (net * scale + (scale - fee - 1)) / (scale - fee)

theorem le_afterFee_iff (scale fee net amount : ℕ) (hfee : fee < scale) :
    net ≤ afterFee scale fee amount ↔ beforeFee scale fee net ≤ amount := by
  rw [afterFee, beforeFee, Nat.le_div_iff_mul_le (Nat.zero_lt_of_lt hfee),
    ceil_le_iff _ _ _ (Nat.sub_pos_of_lt hfee)]

theorem afterFee_le (scale fee amount : ℕ) : afterFee scale fee amount ≤ amount := by
  refine Nat.div_le_of_le_mul ?_
  rw [Nat.mul_comm]
  exact Nat.mul_le_mul_right _ (Nat.sub_le _ _)

theorem afterFee_add_le (scale fee a b : ℕ) :
    afterFee scale fee a + afterFee scale fee b ≤ afterFee scale fee (a + b) := by
  rw [afterFee, afterFee, afterFee, Nat.add_mul]
  exact Nat.div_add_div_le_add_div

/-- A deposit of at least the part of the reserve that is minted. -/
theorem deposited_ratio (a x s minted : ℕ) (h : minted * a ≤ s * x) :
    a * (s + minted) ≤ (a + x) * s := by
  rw [Nat.mul_add, Nat.add_mul]
  linarith

/-- The minted shares withdraw at most what was deposited for them. -/
theorem returned_le (a x s minted returned : ℕ) (hs : 0 < s) (h : minted * a ≤ s * x)
    (hr : returned * (s + minted) ≤ (a + x) * minted) : returned ≤ x := by
  refine Nat.le_of_mul_le_mul_right (c := s + minted) ?_ (Nat.add_pos_left hs _)
  calc returned * (s + minted) ≤ (a + x) * minted := hr
    _ = minted * a + x * minted := by ring
    _ ≤ s * x + x * minted := Nat.add_le_add_right h _
    _ = x * (s + minted) := by ring

/-- What remains of a reserve after its floored part for the burned shares was paid. -/
theorem remaining_ratio (a x rest s burned s' : ℕ) (h : x * s ≤ a * burned) (hx : rest + x = a)
    (hs : s' + burned = s) : a * s' ≤ rest * s := by
  have hleft : a * s' + a * burned = rest * s + x * s := by rw [← Nat.mul_add, hs, ← Nat.add_mul, hx]
  omega

def Pool.Backed (p : Pool) : Prop := p.shares ^ 2 ≤ p.first * p.second

theorem Pool.Rises.backed (p q : Pool) (hpos : 0 < p.first * p.second) (h : p.Rises q)
    (hp : p.Backed) : q.Backed := by
  rw [Pool.Backed]
  refine Nat.le_of_mul_le_mul_left ?_ hpos
  calc p.first * p.second * q.shares ^ 2 ≤ q.first * q.second * p.shares ^ 2 := h
    _ ≤ q.first * q.second * (p.first * p.second) := Nat.mul_le_mul_left _ hp
    _ = p.first * p.second * (q.first * q.second) := Nat.mul_comm _ _

theorem Pool.Backed.shares_lt (p : Pool) (n : ℕ) (h : p.Backed) (hfirst : p.first < n)
    (hsecond : p.second < n) : p.shares < n := by
  refine lt_of_pow_lt_pow_left₀ 2 (Nat.zero_le n) (lt_of_le_of_lt h ?_)
  rw [pow_two]
  exact Nat.mul_lt_mul'' hfirst hsecond

/-- The shares for `x` are less than `n`, when `x` and what the other reserve would take with it
are. -/
theorem minted_lt (a b s x m n : ℕ) (ha : 0 < a) (h : s ^ 2 ≤ a * b) (hx : x * b ≤ a * m)
    (hxn : x < n) (hm : m < n) : s * x / a < n := by
  refine (Nat.div_lt_iff_lt_mul ha).mpr ?_
  refine lt_of_pow_lt_pow_left₀ 2 (Nat.zero_le _) ?_
  calc (s * x) ^ 2 = s ^ 2 * x ^ 2 := Nat.mul_pow _ _ _
    _ ≤ a * b * x ^ 2 := Nat.mul_le_mul_right _ h
    _ = a * x * (x * b) := by ring
    _ ≤ a * x * (a * m) := Nat.mul_le_mul_left _ hx
    _ = a * a * (x * m) := by ring
    _ < a * a * (n * n) := Nat.mul_lt_mul_of_pos_left (Nat.mul_lt_mul'' hxn hm) (Nat.mul_pos ha ha)
    _ = (n * a) ^ 2 := by ring

/-- What may happen to a pool of which `locked` shares cannot be withdrawn. -/
inductive Move (locked : ℕ) (p : Pool) : Pool → Prop
  | deposit (x y minted : ℕ) (first : minted * p.first ≤ p.shares * x)
      (second : minted * p.second ≤ p.shares * y) :
      Move locked p ⟨p.first + x, p.second + y, p.shares + minted⟩
  | withdraw (q : Pool) (x y burned : ℕ) (first : x * p.shares ≤ p.first * burned)
      (second : y * p.shares ≤ p.second * burned) (kept : locked ≤ q.shares)
      (firstRest : q.first + x = p.first) (secondRest : q.second + y = p.second)
      (sharesRest : q.shares + burned = p.shares) : Move locked p q
  | trade (input priced payment rest : ℕ) (covered : priced ≤ input)
      (product : p.first * p.second ≤ (p.first + priced) * rest)
      (paid : rest + payment = p.second) :
      Move locked p ⟨p.first + input, rest, p.shares⟩
  | tradeBack (input priced payment rest : ℕ) (covered : priced ≤ input)
      (product : p.second * p.first ≤ (p.second + priced) * rest)
      (paid : rest + payment = p.first) :
      Move locked p ⟨rest, p.second + input, p.shares⟩
  | donate (x y : ℕ) : Move locked p ⟨p.first + x, p.second + y, p.shares⟩

structure Healthy (locked : ℕ) (p : Pool) : Prop where
  first : 0 < p.first
  second : 0 < p.second
  shares : locked ≤ p.shares

section
variable (locked : ℕ) (hl : 0 < locked) (p q : Pool)

theorem Move.rises (h : Move locked p q) : p.Rises q := by
  cases h with
  | deposit x y minted first second =>
    exact p.rises_of_each _ (deposited_ratio _ _ _ _ first) (deposited_ratio _ _ _ _ second)
  | withdraw q x y burned first second kept firstRest secondRest sharesRest =>
    exact p.rises_of_each q (remaining_ratio _ _ _ _ _ _ first firstRest sharesRest)
      (remaining_ratio _ _ _ _ _ _ second secondRest sharesRest)
  | trade input priced payment rest covered product paid =>
    refine p.rises_of_product _ (product.trans ?_) rfl
    exact Nat.mul_le_mul_right _ (Nat.add_le_add_left covered _)
  | tradeBack input priced payment rest covered product paid =>
    refine p.rises_of_product _ ?_ rfl
    rw [Nat.mul_comm p.first, Nat.mul_comm rest]
    exact product.trans (Nat.mul_le_mul_right _ (Nat.add_le_add_left covered _))
  | donate x y =>
    exact p.rises_of_product _ (Nat.mul_le_mul (Nat.le_add_right _ _) (Nat.le_add_right _ _)) rfl

include hl

theorem Move.healthy (h : Move locked p q) (hp : Healthy locked p) : Healthy locked q := by
  obtain ⟨h1, h2, h3⟩ := hp
  cases h with
  | deposit x y minted first second =>
    exact ⟨Nat.add_pos_left h1 _, Nat.add_pos_left h2 _, h3.trans (Nat.le_add_right _ _)⟩
  | withdraw q x y burned first second kept firstRest secondRest sharesRest =>
    have hq : 0 < q.shares := hl.trans_le kept
    have hfirst := remaining_ratio _ _ _ _ _ _ first firstRest sharesRest
    have hsecond := remaining_ratio _ _ _ _ _ _ second secondRest sharesRest
    exact ⟨Nat.pos_of_mul_pos_right ((Nat.mul_pos h1 hq).trans_le hfirst),
      Nat.pos_of_mul_pos_right ((Nat.mul_pos h2 hq).trans_le hsecond), kept⟩
  | trade input priced payment rest covered product paid =>
    exact ⟨Nat.add_pos_left h1 _,
      Nat.pos_of_mul_pos_left ((Nat.mul_pos h1 h2).trans_le product), h3⟩
  | tradeBack input priced payment rest covered product paid =>
    exact ⟨Nat.pos_of_mul_pos_left ((Nat.mul_pos h2 h1).trans_le product),
      Nat.add_pos_left h2 _, h3⟩
  | donate x y => exact ⟨Nat.add_pos_left h1 _, Nat.add_pos_left h2 _, h3⟩

/-- Over any number of moves a healthy pool stays healthy and its shares keep their backing. -/
theorem moves_rise (h : Relation.ReflTransGen (Move locked) p q) (hp : Healthy locked p) :
    Healthy locked q ∧ p.Rises q := by
  induction h with
  | refl => exact ⟨hp, Pool.Rises.refl p⟩
  | tail _ hm ih =>
    obtain ⟨hq, hr⟩ := ih
    exact ⟨hm.healthy locked hl _ _ hq,
      hr.trans _ _ _ (hl.trans_le hq.shares) (hm.rises locked _ _)⟩

end

end LezPrograms.ConstantProduct
