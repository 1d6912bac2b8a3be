import Mathlib

/-! # Borsh

A format writes values and reads them back. What it reads is exactly what it writes,
followed by the rest of the input; formats compose along pairs, tagged variants and
bijections. Writing fails for a string whose length does not fit 32 bits. -/

set_option autoImplicit false

namespace LezPrograms.Borsh

def littleEndian : ℕ → ℕ → List UInt8
  | 0, _ => []
  | k + 1, n => UInt8.ofNat n :: littleEndian k (n / 256)

def ofLittleEndian : List UInt8 → ℕ
  | [] => 0
  | byte :: bytes => byte.toNat + 256 * ofLittleEndian bytes

@[simp] theorem length_littleEndian (k n : ℕ) : (littleEndian k n).length = k := by
  induction k generalizing n with
  | zero => rfl
  | succ k ih => rw [littleEndian, List.length_cons, ih]

theorem ofLittleEndian_lt (bytes : List UInt8) : ofLittleEndian bytes < 256 ^ bytes.length := by
  induction bytes with
  | nil => exact Nat.one_pos
  | cons byte bytes ih =>
    have hbyte := byte.toNat_lt
    rw [ofLittleEndian, List.length_cons, Nat.pow_succ]
    omega

theorem ofLittleEndian_littleEndian (k n : ℕ) :
    ofLittleEndian (littleEndian k n) = n % 256 ^ k := by
  induction k generalizing n with
  | zero => rw [Nat.pow_zero, Nat.mod_one]; rfl
  | succ k ih =>
    have hpow : 256 ^ (k + 1) = 256 * 256 ^ k := Nat.pow_succ'
    rw [littleEndian, ofLittleEndian, ih, UInt8.toNat_ofNat', hpow]
    exact Nat.mod_mul.symm

theorem littleEndian_ofLittleEndian (bytes : List UInt8) :
    littleEndian bytes.length (ofLittleEndian bytes) = bytes := by
  induction bytes with
  | nil => rfl
  | cons byte bytes ih =>
    have hbyte := byte.toNat_lt
    have hdiv : (byte.toNat + 256 * ofLittleEndian bytes) / 256 = ofLittleEndian bytes := by omega
    rw [List.length_cons, ofLittleEndian, littleEndian, hdiv, ih]
    congr 1
    apply UInt8.toNat_inj.mp
    rw [UInt8.toNat_ofNat']
    omega

/-- A number is written as its low bytes and then its high bytes. -/
theorem littleEndian_add (k l n : ℕ) :
    littleEndian (k + l) n = littleEndian k n ++ littleEndian l (n / 256 ^ k) := by
  induction k generalizing n with
  | zero => rw [Nat.zero_add, Nat.pow_zero, Nat.div_one, littleEndian, List.nil_append]
  | succ k ih =>
    rw [Nat.succ_add, littleEndian, ih, littleEndian, List.cons_append, Nat.div_div_eq_div_mul,
      ← Nat.pow_succ']

theorem littleEndian_zero (k : ℕ) : littleEndian k 0 = List.replicate k 0 := by
  induction k with
  | zero => rfl
  | succ k ih =>
    rw [littleEndian, Nat.zero_div, ih]
    rfl

theorem littleEndian_eq_zero_iff (k n : ℕ) :
    littleEndian k n = List.replicate k 0 ↔ n % 256 ^ k = 0 := by
  rw [← littleEndian_zero]
  constructor
  · intro h
    have hvalue := congrArg ofLittleEndian h
    rwa [ofLittleEndian_littleEndian, ofLittleEndian_littleEndian, Nat.zero_mod] at hvalue
  · intro h
    have hbytes := littleEndian_ofLittleEndian (littleEndian k n)
    rw [length_littleEndian, ofLittleEndian_littleEndian, h] at hbytes
    exact hbytes.symm

/-- Any `k` bytes write a number below `256 ^ k`. -/
theorem exists_littleEndian (bound k : ℕ) (h : bound = 256 ^ k) (bytes : List UInt8)
    (hk : bytes.length = k) : ∃ n : Fin bound, littleEndian k n.val = bytes := by
  subst hk h
  exact ⟨⟨ofLittleEndian bytes, ofLittleEndian_lt bytes⟩, littleEndian_ofLittleEndian bytes⟩

structure Format (α : Type) where
  write : α → Option (List UInt8)
  read : List UInt8 → Option (α × List UInt8)
  read_eq_some : ∀ input a rest,
    read input = some (a, rest) ↔ ∃ bytes, write a = some bytes ∧ input = bytes ++ rest

namespace Format
variable {α β : Type}

/-- `try_from_slice`: reads a value that takes up the whole input. -/
def parse (f : Format α) (input : List UInt8) : Option α :=
  match f.read input with
  | some (a, []) => some a
  | _ => none

theorem parse_eq_some (f : Format α) (input : List UInt8) (a : α) :
    f.parse input = some a ↔ f.write a = some input := by
  have hread : f.parse input = some a ↔ f.read input = some (a, []) := by
    unfold parse
    split
    · rename_i b h
      rw [h, Option.some.injEq, Option.some.injEq, Prod.mk.injEq, and_iff_left rfl]
    · rename_i hne
      exact ⟨fun h => absurd h (by simp), fun h => absurd h (hne a)⟩
  rw [hread, f.read_eq_some]
  constructor
  · rintro ⟨bytes, h, rfl⟩
    rwa [List.append_nil]
  · intro h
    exact ⟨input, h, (List.append_nil _).symm⟩

theorem parse_eq_none (f : Format α) (input : List UInt8) :
    f.parse input = none ↔ ¬∃ a, f.write a = some input := by
  rw [Option.eq_none_iff_forall_ne_some, not_exists]
  exact forall_congr' fun a => not_congr (f.parse_eq_some input a)

def unit : Format Unit where
  write _ := some []
  read input := some ((), input)
  read_eq_some input a rest := by simp

def array (k : ℕ) : Format {bytes : List UInt8 // bytes.length = k} where
  write a := some a.val
  read input :=
    if h : k ≤ input.length then
      some (⟨input.take k, by rw [List.length_take, min_eq_left h]⟩, input.drop k)
    else none
  read_eq_some := by
    rintro input ⟨bytes, hbytes⟩ rest
    constructor
    · intro h
      split at h
      · simp only [Option.some.injEq, Prod.mk.injEq, Subtype.mk.injEq] at h
        exact ⟨bytes, rfl, by rw [← h.1, ← h.2, List.take_append_drop]⟩
      · cases h
    · rintro ⟨_, ⟨⟩, rfl⟩
      have hle : k ≤ (bytes ++ rest).length := by
        rw [List.length_append]
        omega
      simp only [dif_pos hle, List.take_left' hbytes, List.drop_left' hbytes]

def pair (f : Format α) (g : Format β) : Format (α × β) where
  write p := do
    let first ← f.write p.1
    let second ← g.write p.2
    pure (first ++ second)
  read input := do
    let (a, input) ← f.read input
    let (b, rest) ← g.read input
    pure ((a, b), rest)
  read_eq_some := by
    rintro input ⟨a, b⟩ rest
    simp only [Option.bind_eq_bind, Option.bind_eq_some_iff, Prod.exists, Option.pure_def,
      Option.some.injEq, Prod.mk.injEq, f.read_eq_some, g.read_eq_some]
    constructor
    · rintro ⟨_, _, ⟨first, hfirst, rfl⟩, _, _, ⟨second, hsecond, rfl⟩, ⟨rfl, rfl⟩, rfl⟩
      exact ⟨first ++ second, ⟨first, hfirst, second, hsecond, rfl⟩, (List.append_assoc ..).symm⟩
    · rintro ⟨_, ⟨first, hfirst, second, hsecond, rfl⟩, rfl⟩
      exact ⟨a, second ++ rest, ⟨first, hfirst, List.append_assoc ..⟩, b, rest,
        ⟨second, hsecond, rfl⟩, ⟨rfl, rfl⟩, rfl⟩

def equiv (f : Format α) (e : α ≃ β) : Format β where
  write b := f.write (e.symm b)
  read input := (f.read input).map fun p => (e p.1, p.2)
  read_eq_some := by
    intro input b rest
    simp only [Option.map_eq_some_iff, Prod.exists, Prod.mk.injEq, f.read_eq_some]
    constructor
    · rintro ⟨a, rest, h, rfl, rfl⟩
      rwa [e.symm_apply_apply]
    · intro h
      exact ⟨e.symm b, rest, h, e.apply_symm_apply b, rfl⟩

def variants (k : ℕ) (hk : k ≤ 256) (γ : Fin k → Type) (f : ∀ i, Format (γ i)) :
    Format (Σ i, γ i) where
  write v := ((f v.1).write v.2).map fun bytes => UInt8.ofNat v.1.val :: bytes
  read
    | [] => none
    | tag :: input =>
      if h : tag.toNat < k then
        ((f ⟨tag.toNat, h⟩).read input).map fun p => (⟨_, p.1⟩, p.2)
      else none
  read_eq_some := by
    rintro input ⟨⟨i, hi⟩, a⟩ rest
    have htag : (UInt8.ofNat i).toNat = i := by
      rw [UInt8.toNat_ofNat']
      omega
    cases input with
    | nil => simp
    | cons tag input =>
      simp only [Option.map_eq_some_iff]
      constructor
      · intro h
        split at h
        · obtain ⟨⟨b, rest'⟩, hread, he⟩ := Option.map_eq_some_iff.mp h
          cases he
          obtain ⟨bytes, hwrite, rfl⟩ := ((f _).read_eq_some _ _ _).mp hread
          exact ⟨_, ⟨bytes, hwrite, rfl⟩, by simp⟩
        · cases h
      · rintro ⟨_, ⟨bytes, hwrite, rfl⟩, he⟩
        rw [List.cons_append, List.cons.injEq] at he
        obtain ⟨hi', rfl⟩ := he
        obtain rfl : i = tag.toNat := by rw [hi', htag]
        rw [dif_pos hi, ((f _).read_eq_some _ _ _).mpr ⟨bytes, hwrite, rfl⟩]
        rfl

theorem pair_write (f : Format α) (g : Format β) (p : α × β) (bytes : List UInt8) :
    (pair f g).write p = some bytes ↔
      ∃ first, f.write p.1 = some first ∧ ∃ second, g.write p.2 = some second ∧
        first ++ second = bytes := by
  simp only [pair, Option.bind_eq_bind, Option.bind_eq_some_iff, Option.pure_def,
    Option.some.injEq]

theorem variants_write (k : ℕ) (hk : k ≤ 256) (γ : Fin k → Type) (f : ∀ i, Format (γ i))
    (v : Σ i, γ i) (bytes : List UInt8) :
    (variants k hk γ f).write v = some bytes ↔
      ∃ payload, (f v.1).write v.2 = some payload ∧ UInt8.ofNat v.1.val :: payload = bytes := by
  simp only [variants, Option.map_eq_some_iff]

def number (bound k : ℕ) (h : bound = 256 ^ k) : Format (Fin bound) :=
  (array k).equiv {
    toFun := fun bytes => ⟨ofLittleEndian bytes.val, by
      have hlt := ofLittleEndian_lt bytes.val
      rwa [bytes.property, ← h] at hlt⟩
    invFun := fun n => ⟨littleEndian k n.val, length_littleEndian k n.val⟩
    left_inv := by
      rintro ⟨bytes, rfl⟩
      exact Subtype.ext (littleEndian_ofLittleEndian bytes)
    right_inv := fun n => Fin.ext ((ofLittleEndian_littleEndian k n.val).trans
      (Nat.mod_eq_of_lt (lt_of_lt_of_eq n.isLt h))) }

@[simp] theorem array_write (k : ℕ) (bytes : {bytes : List UInt8 // bytes.length = k}) :
    (array k).write bytes = some bytes.val := rfl

instance neZero_two : NeZero 2 := ⟨by decide⟩

theorem two_le_byte : 2 ≤ 256 := by decide

def bool : Format Bool :=
  (variants 2 two_le_byte (fun _ => Unit) fun _ => unit).equiv {
    toFun := fun v => decide (v.1 = 1)
    invFun := fun b => ⟨if b then 1 else 0, ()⟩
    left_inv := fun | ⟨0, _⟩ => rfl | ⟨1, _⟩ => rfl
    right_inv := fun | true => rfl | false => rfl }

abbrev OptionFields (α : Type) : Fin 2 → Type
  | 0 => Unit
  | 1 => α

def option (f : Format α) : Format (Option α) :=
  (variants 2 two_le_byte (OptionFields α) fun | 0 => unit | 1 => f).equiv {
    toFun := fun | ⟨0, _⟩ => none | ⟨1, a⟩ => some a
    invFun := fun | none => ⟨0, ()⟩ | some a => ⟨1, a⟩
    left_inv := fun | ⟨0, _⟩ => rfl | ⟨1, _⟩ => rfl
    right_inv := fun | none => rfl | some _ => rfl }

def utf8 (s : String) : List UInt8 := s.toByteArray.data.toList

theorem length_utf8 (s : String) : (utf8 s).length = s.utf8ByteSize := rfl

theorem fromUTF8?_eq_some (bytes : List UInt8) (s : String) :
    String.fromUTF8? ⟨bytes.toArray⟩ = some s ↔ utf8 s = bytes := by
  unfold String.fromUTF8?
  constructor
  · intro h
    split at h
    · rw [Option.some.injEq] at h
      subst h
      rfl
    · cases h
  · rintro rfl
    have hbytes : (⟨(utf8 s).toArray⟩ : ByteArray) = s.toByteArray := rfl
    have hvalid : (⟨(utf8 s).toArray⟩ : ByteArray).IsValidUTF8 := hbytes ▸ s.isValidUTF8
    rw [dif_pos hvalid]
    rfl

def string : Format String where
  write s :=
    if s.utf8ByteSize < 2 ^ 32 then some (littleEndian 4 s.utf8ByteSize ++ utf8 s) else none
  read input := do
    let (size, input) ← (number (2 ^ 32) 4 (by decide)).read input
    let (bytes, rest) ← (array size.val).read input
    let s ← String.fromUTF8? ⟨bytes.val.toArray⟩
    pure (s, rest)
  read_eq_some := by
    intro input s rest
    simp only [Option.bind_eq_bind, Option.bind_eq_some_iff, Prod.exists, Option.pure_def,
      Option.some.injEq, Prod.mk.injEq, read_eq_some, fromUTF8?_eq_some]
    constructor
    · rintro ⟨size, _, ⟨_, ⟨⟩, rfl⟩, bytes, _, ⟨_, ⟨⟩, rfl⟩, t, hutf8, rfl, rfl⟩
      have hsize : t.utf8ByteSize = size.val := by rw [← length_utf8, hutf8, bytes.property]
      refine ⟨_, if_pos (lt_of_eq_of_lt hsize size.isLt), ?_⟩
      rw [hsize, hutf8, List.append_assoc]
      rfl
    · rintro ⟨_, hs, rfl⟩
      split at hs
      · rename_i hlt
        cases hs
        exact ⟨⟨_, hlt⟩, utf8 s ++ rest, ⟨_, rfl, List.append_assoc ..⟩, ⟨utf8 s, rfl⟩, rest,
          ⟨_, rfl, rfl⟩, s, rfl, rfl, rfl⟩
      · cases hs

end Format

end LezPrograms.Borsh
