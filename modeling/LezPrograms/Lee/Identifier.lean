import Mathlib.Data.Nat.Pairing
import Mathlib.Tactic.Common

/-! # Account identifiers and program-derived addresses

The source hashes the bytes of a seed, and the seed together with the program,
to 32 bytes. The model keeps the hashed terms themselves, so that two derived
addresses are equal exactly when they were derived from the same program and
the same seed. `key` stands for every identifier that the modelled programs do
not derive. -/

set_option autoImplicit false

namespace LezPrograms.Lee

/-- The domain-separation texts of the seeds. -/
inductive SeedTag where
  | config
  | protocolFeeHolding
  | liquidityToken
  | lpLockHolding
  | currentTickAccount
  | position
  | positionVault
  | stablecoinDefinition
  | stablecoinMasterHolding
  | protocolParameters
  | stabilityFeeAccumulator
  | redemptionPriceState
  | priceObservations
  | oraclePriceAccount
  | mintAuthority
  | mintAllowance
deriving DecidableEq

mutual
inductive AccountId where
  | key (n : ℕ)
  | pda (program : AccountId) (seed : PdaSeed)

/-- The parts that the source concatenates before hashing. -/
inductive PdaSeed where
  | tag (tag : SeedTag)
  | nil
  | account (id : AccountId) (rest : PdaSeed)
  | word (n : ℕ) (rest : PdaSeed)
end

deriving instance DecidableEq for AccountId, PdaSeed

/-- The zero identifier, which also marks an account that nobody owns. -/
instance : Inhabited AccountId := ⟨.key 0⟩

namespace AccountId

def forPublicPda (program : AccountId) (seed : PdaSeed) : AccountId := .pda program seed

def DerivedBy : AccountId → AccountId → Prop
  | .key _, _ => False
  | .pda p _, program => p = program

instance (id program : AccountId) : Decidable (id.DerivedBy program) :=
  match id with
  | .key _ => inferInstanceAs (Decidable False)
  | .pda p _ => inferInstanceAs (Decidable (p = program))

@[simp] theorem derivedBy_pda (program p : AccountId) (seed : PdaSeed) :
    (AccountId.pda p seed).DerivedBy program ↔ p = program := Iff.rfl

@[simp] theorem not_derivedBy_key (program : AccountId) (n : ℕ) :
    ¬(AccountId.key n).DerivedBy program := id

end AccountId

/-- The source compares identifiers by their bytes. Any total order on the terms serves: it
comes from an injective code. -/
def SeedTag.code : SeedTag → ℕ
  | .config => 0
  | .protocolFeeHolding => 1
  | .liquidityToken => 2
  | .lpLockHolding => 3
  | .currentTickAccount => 4
  | .position => 5
  | .positionVault => 6
  | .stablecoinDefinition => 7
  | .stablecoinMasterHolding => 8
  | .protocolParameters => 9
  | .stabilityFeeAccumulator => 10
  | .redemptionPriceState => 11
  | .priceObservations => 12
  | .oraclePriceAccount => 13
  | .mintAuthority => 14
  | .mintAllowance => 15

mutual
def AccountId.code : AccountId → ℕ
  | .key n => 2 * n
  | .pda program seed => 2 * Nat.pair program.code seed.code + 1

def PdaSeed.code : PdaSeed → ℕ
  | .tag t => 4 * t.code
  | .nil => 1
  | .account id rest => 4 * Nat.pair id.code rest.code + 2
  | .word n rest => 4 * Nat.pair n rest.code + 3
end

theorem SeedTag.code_injective (s t : SeedTag) (h : s.code = t.code) : s = t := by
  cases s <;> cases t <;> first | rfl | exact absurd h (by decide)

mutual
theorem AccountId.code_injective : ∀ a b : AccountId, a.code = b.code → a = b
  | .key m, .key n, h => by
    simp only [AccountId.code] at h
    rw [show m = n by omega]
  | .key m, .pda p s, h => by
    simp only [AccountId.code] at h
    omega
  | .pda p s, .key n, h => by
    simp only [AccountId.code] at h
    omega
  | .pda p s, .pda q t, h => by
    simp only [AccountId.code] at h
    have hp : Nat.pair p.code s.code = Nat.pair q.code t.code := by omega
    rw [Nat.pair_eq_pair] at hp
    rw [AccountId.code_injective p q hp.1, PdaSeed.code_injective s t hp.2]

theorem PdaSeed.code_injective : ∀ a b : PdaSeed, a.code = b.code → a = b
  | .tag s, .tag t, h => by
    simp only [PdaSeed.code] at h
    rw [SeedTag.code_injective s t (by omega)]
  | .nil, .nil, _ => rfl
  | .account i r, .account j s, h => by
    simp only [PdaSeed.code] at h
    have hp : Nat.pair i.code r.code = Nat.pair j.code s.code := by omega
    rw [Nat.pair_eq_pair] at hp
    rw [AccountId.code_injective i j hp.1, PdaSeed.code_injective r s hp.2]
  | .word m r, .word n s, h => by
    simp only [PdaSeed.code] at h
    have hp : Nat.pair m r.code = Nat.pair n s.code := by omega
    rw [Nat.pair_eq_pair] at hp
    rw [hp.1, PdaSeed.code_injective r s hp.2]
  | .tag s, .nil, h => by simp only [PdaSeed.code] at h; omega
  | .tag s, .account j t, h => by simp only [PdaSeed.code] at h; omega
  | .tag s, .word n t, h => by simp only [PdaSeed.code] at h; omega
  | .nil, .tag t, h => by simp only [PdaSeed.code] at h; omega
  | .nil, .account j t, h => by simp only [PdaSeed.code] at h; omega
  | .nil, .word n t, h => by simp only [PdaSeed.code] at h; omega
  | .account i r, .tag t, h => by simp only [PdaSeed.code] at h; omega
  | .account i r, .nil, h => by simp only [PdaSeed.code] at h; omega
  | .account i r, .word n t, h => by simp only [PdaSeed.code] at h; omega
  | .word m r, .tag t, h => by simp only [PdaSeed.code] at h; omega
  | .word m r, .nil, h => by simp only [PdaSeed.code] at h; omega
  | .word m r, .account j t, h => by simp only [PdaSeed.code] at h; omega
end

end LezPrograms.Lee
