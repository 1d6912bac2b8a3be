import LezPrograms.Stablecoin.Saturation

/-! # The projections of the client

A quote projects the accumulator with 128-bit steps that may have no result, or in
512 bits with a flag that tells whether a product saturated. Both agree with the
projection of the program wherever that has a result. -/

set_option autoImplicit false

namespace LezPrograms.Stablecoin.Quotes
open LezPrograms.Checked LezPrograms.Checked.Unsigned LezPrograms.FlooredPower
open LezPrograms.Stablecoin.Math LezPrograms.Stablecoin.Compounding
open LezPrograms.Stablecoin.Saturation

def checkedMulDiv (a b divisor : U128) : Option U128 := do
  let product := wrappingMul (widen a u128_le_u256 : U256) (widen b u128_le_u256)
  let quotient ← checkedDiv product (widen divisor u128_le_u256)
  Unsigned.tryFrom 128 quotient.val

def checkedAccumulatorLoop (exponent : ℕ) (factor base : U128) : Option U128 :=
  if exponent = 0 then some factor
  else do
    let factor ← (if exponent % 2 = 1 then checkedMulDiv factor base fixedPointOne
      else some factor)
    let base ← (if 0 < exponent / 2 then checkedMulDiv base base fixedPointOne else some base)
    checkedAccumulatorLoop (exponent / 2) factor base
termination_by exponent
decreasing_by omega

def checkedAccumulator (anchor rate : U128) (last now : U64) : Option U128 := do
  let factor ← (if rate ≠ fixedPointOne then
      checkedAccumulatorLoop (clampedElapsed now last).val fixedPointOne rate
    else some fixedPointOne)
  checkedMulDiv anchor factor fixedPointOne

theorem checkedMulDiv_eq_some (a b d r : U128) :
    checkedMulDiv a b d = some r ↔ d.val ≠ 0 ∧ r.val = a.val * b.val / d.val := by
  have hfit : a.val * b.val ≤ (maxValue 256).val := (le_maxValue_iff 256 _).mpr (product_lt a b)
  have hproduct : (wrappingMul (widen a (by decide) : U256) (widen b (by decide))).val
      = a.val * b.val := wrappingMul_val _ _ hfit
  simp only [checkedMulDiv, Option.bind_eq_bind, Option.bind_eq_some_iff, checkedDiv_eq_some,
    Unsigned.tryFrom_eq_some, widen_val, hproduct]
  constructor
  · rintro ⟨quotient, ⟨hd, hq⟩, hr⟩
    exact ⟨hd, by rw [hr, hq]⟩
  · rintro ⟨hd, hr⟩
    exact ⟨⟨_, (Nat.div_le_self _ _).trans_lt (product_lt a b)⟩, ⟨hd, rfl⟩, hr⟩

theorem checkedMulDiv_eq (a b d r : U128) :
    checkedMulDiv a b d = some r ↔ mulDiv a b d = .ok r := by
  rw [checkedMulDiv_eq_some, mulDiv_eq_ok]

theorem checkedAccumulatorLoop_eq (exponent : ℕ) : ∀ factor base y : U128,
    checkedAccumulatorLoop exponent factor base = some y ↔
      compoundLoop exponent factor base = .ok y := by
  induction exponent using Nat.strong_induction_on with
  | h exponent ih =>
    intro factor base y
    rw [checkedAccumulatorLoop, compoundLoop]
    by_cases h0 : exponent = 0
    · simp only [h0, if_true, Option.some.injEq, Except.ok.injEq]
    · have hite : ∀ (p : Prop) [Decidable p] (a b c r : U128),
          (if p then checkedMulDiv a b fixedPointOne else some c) = some r ↔
            (if p then mulDiv a b fixedPointOne else pure c) = .ok r := by
        intro p _ a b c r
        by_cases hp : p
        · rw [if_pos hp, if_pos hp, checkedMulDiv_eq]
        · rw [if_neg hp, if_neg hp, pure_eq_ok, Option.some.injEq]
      simp only [if_neg h0, Option.bind_eq_bind, Option.bind_eq_some_iff, bind_eq_ok, hite,
        ih (exponent / 2) (by omega)]

theorem checkedAccumulator_eq (anchor rate v : U128) (last now : U64) :
    checkedAccumulator anchor rate last now = some v ↔
      computeCurrentAccumulatedRate anchor rate last now = .ok v := by
  have hfactor : ∀ y, (if rate ≠ fixedPointOne then
        checkedAccumulatorLoop (clampedElapsed now last).val fixedPointOne rate
      else some fixedPointOne) = some y ↔
      compoundRate rate (clampedElapsed now last) = .ok y := by
    intro y
    unfold compoundRate
    by_cases h1 : rate = fixedPointOne
    · rw [if_neg (not_not.mpr h1), if_pos h1]
      split <;> rw [Option.some.injEq, Except.ok.injEq]
    · rw [if_pos h1, if_neg h1, checkedAccumulatorLoop_eq]
      split
      · rename_i h0
        rw [h0, compoundLoop_zero]
      · rfl
  simp only [checkedAccumulator, computeCurrentAccumulatedRate, Option.bind_eq_bind,
    Option.bind_eq_some_iff, bind_eq_ok, hfactor, checkedMulDiv_eq]

theorem product_lt_of_le (a b : U128) (n : ℕ) (hn : 256 ≤ n) : a.val * b.val < 2 ^ n :=
  (product_lt a b).trans_le (Nat.pow_le_pow_right (by decide) hn)

theorem wideProduct_exact (a b : U512) (h : (wideProduct a b).2 = false) :
    (wideProduct a b).1.val = a.val * b.val := by
  unfold wideProduct at h ⊢
  cases hc : checkedMul a b with
  | none =>
    rw [hc] at h
    cases h
  | some product => exact (checkedMul_eq_some _ _ _).mp hc

theorem wideProduct_unsaturated (a b : U512) (h : a.val * b.val < 2 ^ 512) :
    (wideProduct a b).2 = false := by
  unfold wideProduct
  rw [checkedMul, tryFrom_of_lt _ h]

/-- One iteration with its flag. -/
theorem compoundLoopWide_step (exponent : ℕ) (result base : U512) (saturated : Bool)
    (h : exponent ≠ 0) : compoundLoopWide exponent result base saturated =
      compoundLoopWide (exponent / 2)
        (if exponent % 2 = 1 then wideStep result base else result)
        (if 0 < exponent / 2 then wideStep base base else base)
        ((saturated || (decide (exponent % 2 = 1) && (wideProduct result base).2)) ||
          (decide (0 < exponent / 2) && (wideProduct base base).2)) := by
  rw [compoundLoopWide, if_neg h]
  by_cases hm : exponent % 2 = 1 <;> by_cases hp : 0 < exponent / 2 <;>
    simp only [hm, hp, if_true, if_false, wideStep, decide_true, decide_false, Bool.true_and,
      Bool.false_and, Bool.or_false]

theorem wideStep_exact_of_unsaturated (a b : U512) (h : (wideProduct a b).2 = false) :
    (wideStep a b).val = scaledMul fixedPointOne.val a.val b.val := by
  rw [wideStep, divNat_val, wideProduct_exact a b h, scaledMul]

/-- An unflagged result is the unbounded power. -/
theorem compoundLoopWide_unsaturated (exponent : ℕ) : ∀ (result base : U512) (saturated : Bool),
    (compoundLoopWide exponent result base saturated).2 = false → saturated = false ∧
      (compoundLoopWide exponent result base saturated).1.val =
        power fixedPointOne.val exponent result.val base.val := by
  induction exponent using Nat.strong_induction_on with
  | h exponent ih =>
    intro result base saturated h
    by_cases h0 : exponent = 0
    · subst h0
      rw [compoundLoopWide_zero] at h ⊢
      exact ⟨h, (power_zero _ _ _).symm⟩
    · rw [compoundLoopWide_step _ _ _ _ h0] at h ⊢
      obtain ⟨hflag, hvalue⟩ := ih (exponent / 2) (by omega) _ _ _ h
      simp only [Bool.or_eq_false_iff, Bool.and_eq_false_iff, decide_eq_false_iff_not] at hflag
      obtain ⟨⟨hs, hresult⟩, hbase⟩ := hflag
      refine ⟨hs, ?_⟩
      rw [hvalue, power_pos _ _ _ _ h0]
      congr 1
      · split
        · rename_i hm
          exact wideStep_exact_of_unsaturated _ _ (hresult.resolve_left (not_not.mpr hm))
        · rfl
      · split
        · rename_i hp
          exact wideStep_exact_of_unsaturated _ _ (hbase.resolve_left (not_not.mpr hp))
        · rfl

/-- Where the 128-bit loop has a result, no product saturates. -/
theorem compoundLoopWide_unflagged (exponent : ℕ) : ∀ (result base y : U128) (x z : U512),
    x.val = result.val → z.val = base.val → compoundLoop exponent result base = .ok y →
    (compoundLoopWide exponent x z false).2 = false := by
  induction exponent using Nat.strong_induction_on with
  | h exponent ih =>
    intro result base y x z hx hz h
    rw [compoundLoop] at h
    by_cases h0 : exponent = 0
    · subst h0
      rw [compoundLoopWide_zero]
    · rw [if_neg h0] at h
      simp only [bind_eq_ok, ite_eq_ok, pure_eq_ok] at h
      obtain ⟨result', hr, base', hb, h⟩ := h
      have hnarrow : ∀ (a b : U128) (u v : U512), u.val = a.val → v.val = b.val →
          (wideProduct u v).2 = false := by
        intro a b u v hu hv
        refine wideProduct_unsaturated u v ?_
        rw [hu, hv]
        exact product_lt_of_le a b 512 (by decide)
      rw [compoundLoopWide_step _ _ _ _ h0, hnarrow _ _ _ _ hx hz, hnarrow _ _ _ _ hz hz,
        Bool.and_false, Bool.and_false, Bool.or_false, Bool.or_false]
      refine ih (exponent / 2) (by omega) result' base' y _ _ ?_ ?_ h
      · rcases hr with ⟨hm, hr⟩ | ⟨hm, rfl⟩
        · rw [if_pos hm]
          exact wideStep_of_mulDiv _ _ _ _ _ hx hz hr
        · rwa [if_neg hm]
      · rcases hb with ⟨hp, hb⟩ | ⟨hp, rfl⟩
        · rw [if_pos hp]
          exact wideStep_of_mulDiv _ _ _ _ _ hz hz hb
        · rwa [if_neg hp]

theorem compoundRateWideResult_exact (rate : U128) (elapsed : U64)
    (h : (compoundRateWideResult rate elapsed).2 = false) :
    (compoundRateWideResult rate elapsed).1.val = exactFactor rate elapsed := by
  unfold compoundRateWideResult at h ⊢
  split
  · rename_i hone
    rcases hone with h0 | h1
    · rw [exactFactor_zero _ _ h0]
      rfl
    · rw [h1, exactFactor_one]
      rfl
  · rename_i hne
    rw [if_neg hne] at h
    obtain ⟨-, hvalue⟩ := compoundLoopWide_unsaturated _ _ _ _ h
    rw [hvalue, oneWide_val, widen_val, exactFactor]

theorem compoundRateWideResult_unflagged (rate y : U128) (elapsed : U64)
    (h : compoundRate rate elapsed = .ok y) : (compoundRateWideResult rate elapsed).2 = false := by
  unfold compoundRate at h
  unfold compoundRateWideResult
  split
  · rfl
  · rename_i hne
    rw [not_or] at hne
    rw [if_neg hne.1, if_neg hne.2] at h
    exact compoundLoopWide_unflagged _ _ _ _ _ _ oneWide_val (widen_val _ _) h

theorem tryProjectRateWide_eq_some (anchor rate : U128) (since now : U64) (w : U512) :
    tryProjectRateWide anchor rate since now = some w ↔
      (compoundRateWideResult rate (clampedElapsed now since)).2 = false ∧
      anchor.val * exactFactor rate (clampedElapsed now since) < 2 ^ 512 ∧
      w.val = exactProjection anchor rate since now := by
  unfold tryProjectRateWide
  cases hflag : (compoundRateWideResult rate (clampedElapsed now since)).2 with
  | true => simp only [hflag, if_true, reduceCtorEq, false_and]
  | false =>
    have hvalue := compoundRateWideResult_exact _ _ hflag
    simp only [hflag, Bool.false_eq_true, if_false, true_and, Option.map_eq_some_iff,
      checkedMul_eq_some, widen_val, hvalue, exactProjection]
    constructor
    · rintro ⟨product, hp, rfl⟩
      exact ⟨hp ▸ product.isLt, by rw [divNat_val, hp]⟩
    · rintro ⟨hfit, hw⟩
      exact ⟨⟨_, hfit⟩, rfl, Fin.ext hw.symm⟩

/-- Where the program projects to a value, all projections give it; the client has none exactly
where the program has none; and an unflagged 512-bit projection is the one over unbounded
integers. -/
theorem projections_agree (anchor rate : U128) (since now : U64) :
    (∀ v, computeCurrentAccumulatedRate anchor rate since now = .ok v →
      (computeCurrentAccumulatedRateWide anchor rate since now).val = v.val ∧
      (∃ w, tryProjectRateWide anchor rate since now = some w ∧ w.val = v.val) ∧
      checkedAccumulator anchor rate since now = some v) ∧
    (checkedAccumulator anchor rate since now = none ↔
      ∃ m, computeCurrentAccumulatedRate anchor rate since now = .error m) ∧
    (∀ w, tryProjectRateWide anchor rate since now = some w →
      w.val = exactProjection anchor rate since now) := by
  refine ⟨?_, ?_, fun w hw => ((tryProjectRateWide_eq_some _ _ _ _ w).mp hw).2.2⟩
  · intro v hv
    have hexact := computeCurrentAccumulatedRate_eq _ _ _ _ _ hv
    have hchecked := (checkedAccumulator_eq _ _ _ _ _).mpr hv
    simp only [computeCurrentAccumulatedRate, bind_eq_ok] at hv
    obtain ⟨factor, hf, -⟩ := hv
    have hfit : anchor.val * exactFactor rate (clampedElapsed now since) < 2 ^ 512 := by
      rw [← compoundRate_eq _ _ _ hf]
      exact product_lt_of_le anchor factor 512 (by decide)
    have hlt : exactProjection anchor rate since now < 2 ^ 512 :=
      (Nat.div_le_self _ _).trans_lt hfit
    refine ⟨?_, ⟨⟨_, hlt⟩, (tryProjectRateWide_eq_some _ _ _ _ _).mpr
      ⟨compoundRateWideResult_unflagged _ _ _ hf, hfit, rfl⟩, hexact.symm⟩, hchecked⟩
    rw [hexact]
    exact projectForwardWide_of_ok anchor rate factor since now hf
  · rw [Option.eq_none_iff_forall_ne_some]
    simp only [ne_eq, checkedAccumulator_eq]
    cases computeCurrentAccumulatedRate anchor rate since now with
    | ok v => exact iff_of_false (fun h => h v rfl) (fun h => h.elim fun m h => by cases h)
    | error m => exact iff_of_true (fun v h => by cases h) ⟨m, rfl⟩

end LezPrograms.Stablecoin.Quotes
