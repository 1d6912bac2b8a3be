import LezPrograms.Borsh
import LezPrograms.Token.Core

/-! # The bytes of token accounts

Definitions, holdings and metadata are stored in Borsh without a mark of their type. An
account counts as one of them when its bytes can be read as one. Few values of one type
have bytes that are those of a value of another type. -/

set_option autoImplicit false

namespace LezPrograms.Token
open LezPrograms.Checked LezPrograms.Borsh

/-- An account identifier as the bytes that are stored. -/
abbrev RawId := {bytes : List UInt8 // bytes.length = 32}

instance : Inhabited RawId := ⟨⟨List.replicate 32 0, List.length_replicate⟩⟩

abbrev idFormat : Format RawId := .array 32

def u128Format : Format U128 := .number (2 ^ 128) 16 (by decide)

def u64Format : Format U64 := .number (2 ^ 64) 8 (by decide)

abbrev DefinitionFields : Fin 2 → Type
  | 0 => String × U128 × Option RawId × Option RawId
  | 1 => String × U128 × RawId

def definitionFields : ∀ i, Format (DefinitionFields i)
  | 0 => .pair .string (.pair u128Format (.pair (.option idFormat) (.option idFormat)))
  | 1 => .pair .string (.pair u128Format idFormat)

def definitionFormat : Format (TokenDefinition RawId) :=
  (Format.variants 2 Format.two_le_byte DefinitionFields definitionFields).equiv {
    toFun := fun
      | ⟨0, name, totalSupply, metadataId, authority⟩ =>
        .fungible name totalSupply metadataId authority
      | ⟨1, name, printableSupply, metadataId⟩ => .nonFungible name printableSupply metadataId
    invFun := fun
      | .fungible name totalSupply metadataId authority =>
        ⟨0, name, totalSupply, metadataId, authority⟩
      | .nonFungible name printableSupply metadataId => ⟨1, name, printableSupply, metadataId⟩
    left_inv := fun | ⟨0, _⟩ => rfl | ⟨1, _⟩ => rfl
    right_inv := fun | .fungible .. => rfl | .nonFungible .. => rfl }

abbrev HoldingFields : Fin 3 → Type
  | 0 => RawId × U128
  | 1 => RawId × U128
  | 2 => RawId × Bool

def holdingFields : ∀ i, Format (HoldingFields i)
  | 0 => .pair idFormat u128Format
  | 1 => .pair idFormat u128Format
  | 2 => .pair idFormat .bool

def holdingFormat : Format (TokenHolding RawId) :=
  (Format.variants 3 (by decide) HoldingFields holdingFields).equiv {
    toFun := fun
      | ⟨0, definitionId, balance⟩ => .fungible definitionId balance
      | ⟨1, definitionId, printBalance⟩ => .nftMaster definitionId printBalance
      | ⟨2, definitionId, owned⟩ => .nftPrintedCopy definitionId owned
    invFun := fun
      | .fungible definitionId balance => ⟨0, definitionId, balance⟩
      | .nftMaster definitionId printBalance => ⟨1, definitionId, printBalance⟩
      | .nftPrintedCopy definitionId owned => ⟨2, definitionId, owned⟩
    left_inv := fun | ⟨0, _⟩ => rfl | ⟨1, _⟩ => rfl | ⟨2, _⟩ => rfl
    right_inv := fun | .fungible .. => rfl | .nftMaster .. => rfl | .nftPrintedCopy .. => rfl }

def standardFormat : Format MetadataStandard :=
  (Format.variants 2 Format.two_le_byte (fun _ => Unit) fun _ => .unit).equiv {
    toFun := fun | ⟨0, _⟩ => .simple | ⟨1, _⟩ => .expanded
    invFun := fun | .simple => ⟨0, ()⟩ | .expanded => ⟨1, ()⟩
    left_inv := fun | ⟨0, _⟩ => rfl | ⟨1, _⟩ => rfl
    right_inv := fun | .simple => rfl | .expanded => rfl }

def metadataFormat : Format (TokenMetadata RawId) :=
  (Format.pair idFormat (.pair standardFormat (.pair .string (.pair .string u64Format)))).equiv {
    toFun := fun (definitionId, standard, uri, creators, primarySaleDate) =>
      ⟨definitionId, standard, uri, creators, primarySaleDate⟩
    invFun := fun m => (m.definitionId, m.standard, m.uri, m.creators, m.primarySaleDate)
    left_inv := fun _ => rfl
    right_inv := fun _ => rfl }

def stringBytes (s : String) : List UInt8 := littleEndian 4 s.utf8ByteSize ++ Format.utf8 s

def optionBytes : Option RawId → List UInt8
  | none => [0]
  | some id => 1 :: id.val

def definitionBytes : TokenDefinition RawId → List UInt8
  | .fungible name totalSupply metadataId authority =>
    0 :: (stringBytes name ++ (littleEndian 16 totalSupply.val ++
      (optionBytes metadataId ++ optionBytes authority)))
  | .nonFungible name printableSupply metadataId =>
    1 :: (stringBytes name ++ (littleEndian 16 printableSupply.val ++ metadataId.val))

def holdingBytes : TokenHolding RawId → List UInt8
  | .fungible definitionId balance => 0 :: (definitionId.val ++ littleEndian 16 balance.val)
  | .nftMaster definitionId printBalance =>
    1 :: (definitionId.val ++ littleEndian 16 printBalance.val)
  | .nftPrintedCopy definitionId owned => 2 :: (definitionId.val ++ [if owned then 1 else 0])

def standardByte : MetadataStandard → UInt8
  | .simple => 0
  | .expanded => 1

def metadataBytes (m : TokenMetadata RawId) : List UInt8 :=
  m.definitionId.val ++ standardByte m.standard ::
    (stringBytes m.uri ++ (stringBytes m.creators ++ littleEndian 8 m.primarySaleDate.val))

theorem string_write (s : String) (bytes : List UInt8) :
    Format.string.write s = some bytes ↔ s.utf8ByteSize < 2 ^ 32 ∧ bytes = stringBytes s := by
  change (if s.utf8ByteSize < 2 ^ 32 then some (stringBytes s) else none) = some bytes ↔ _
  split
  · rename_i h
    rw [Option.some.injEq, and_iff_right h, eq_comm]
  · rename_i h
    exact ⟨fun he => absurd he (by simp), fun he => absurd he.1 h⟩

theorem option_write (id : Option RawId) :
    (Format.option idFormat).write id = some (optionBytes id) := by
  cases id <;> rfl

theorem u128Format_write (n : U128) : u128Format.write n = some (littleEndian 16 n.val) := rfl

theorem u64Format_write (n : U64) : u64Format.write n = some (littleEndian 8 n.val) := rfl

theorem holdingFormat_write (h : TokenHolding RawId) :
    holdingFormat.write h = some (holdingBytes h) := by
  cases h with
  | fungible definitionId balance => rfl
  | nftMaster definitionId printBalance => rfl
  | nftPrintedCopy definitionId owned => cases owned <;> rfl

def TokenDefinition.name {Id : Type} : TokenDefinition Id → String
  | .fungible name .. => name
  | .nonFungible name .. => name

theorem definitionFormat_write (d : TokenDefinition RawId) (bytes : List UInt8) :
    definitionFormat.write d = some bytes ↔
      d.name.utf8ByteSize < 2 ^ 32 ∧ bytes = definitionBytes d := by
  cases d with
  | fungible name totalSupply metadataId authority =>
    change (Format.variants 2 (by decide) DefinitionFields definitionFields).write
      ⟨0, name, totalSupply, metadataId, authority⟩ = some bytes ↔ _
    simp only [Format.variants_write, definitionFields, Format.pair_write, string_write, option_write,
      u128Format_write, Option.some.injEq, exists_eq_left, exists_eq_left', and_assoc, exists_and_left]
    exact and_congr_right fun _ => eq_comm
  | nonFungible name printableSupply metadataId =>
    change (Format.variants 2 (by decide) DefinitionFields definitionFields).write
      ⟨1, name, printableSupply, metadataId⟩ = some bytes ↔ _
    simp only [Format.variants_write, definitionFields, Format.pair_write, string_write,
      u128Format_write, Format.array_write, Option.some.injEq, exists_eq_left, exists_eq_left', and_assoc,
      exists_and_left]
    exact and_congr_right fun _ => eq_comm

theorem standardFormat_write (standard : MetadataStandard) :
    standardFormat.write standard = some [standardByte standard] := by
  cases standard <;> rfl

theorem metadataFormat_write (m : TokenMetadata RawId) (bytes : List UInt8) :
    metadataFormat.write m = some bytes ↔
      m.uri.utf8ByteSize < 2 ^ 32 ∧ m.creators.utf8ByteSize < 2 ^ 32 ∧ bytes = metadataBytes m := by
  change (Format.pair idFormat (.pair standardFormat (.pair .string (.pair .string u64Format)))).write
    (m.definitionId, m.standard, m.uri, m.creators, m.primarySaleDate) = some bytes ↔ _
  simp only [Format.pair_write, string_write, Format.array_write, standardFormat_write,
    u64Format_write, Option.some.injEq, exists_eq_left, exists_eq_left', and_assoc, exists_and_left]
  exact and_congr_right fun _ => and_congr_right fun _ => eq_comm

end LezPrograms.Token
