import LezPrograms.Token.Encoding

/-! # Values with the same bytes

A fungible definition with a name of 26 bytes is as long as a fungible holding, and both
begin with a zero. Metadata without texts are as long as a holding too, and what a holding
begins with may be read as the length of a name. These are the only collisions. -/

set_option autoImplicit false

namespace LezPrograms.Token
open LezPrograms.Checked LezPrograms.Borsh

def TokenDefinition.ReadsAsHolding {Id : Type} : TokenDefinition Id → Prop
  | .fungible name _ metadataId authority =>
    name.utf8ByteSize = 26 ∧ metadataId = none ∧ authority = none
  | .nonFungible .. => False

def TokenMetadata.ReadsAsHolding (m : TokenMetadata RawId) : Prop :=
  m.uri = "" ∧ m.creators = "" ∧
    (m.definitionId.val.head? = some 0 ∨ m.definitionId.val.head? = some 1)

/-- The bytes of the holding are also those of a definition: its token begins with the length and
the bytes of a name. -/
def TokenHolding.ReadsAsDefinition : TokenHolding RawId → Prop
  | .fungible definitionId balance => definitionId.val.take 4 = [26, 0, 0, 0] ∧
    (⟨((definitionId.val.drop 4).take 26).toArray⟩ : ByteArray).IsValidUTF8 ∧ balance.val < 2 ^ 112
  | _ => False

/-- The bytes of the holding are also those of metadata: its token ends with a standard. -/
def TokenHolding.ReadsAsMetadata : TokenHolding RawId → Prop
  | .fungible definitionId balance => (definitionId.val.drop 31 = [0] ∨
      definitionId.val.drop 31 = [1]) ∧ balance.val % 2 ^ 64 = 0
  | .nftMaster definitionId printBalance => (definitionId.val.drop 31 = [0] ∨
      definitionId.val.drop 31 = [1]) ∧ printBalance.val % 2 ^ 64 = 0
  | .nftPrintedCopy .. => False

@[simp] theorem length_stringBytes (s : String) : (stringBytes s).length = 4 + s.utf8ByteSize := by
  rw [stringBytes, List.length_append, length_littleEndian, Format.length_utf8]

theorem length_optionBytes (id : Option RawId) :
    (optionBytes id).length = if id = none then 1 else 33 := by
  cases id with
  | none => rfl
  | some id => simp [optionBytes, id.property]

theorem length_metadataBytes (m : TokenMetadata RawId) :
    (metadataBytes m).length = 49 + m.uri.utf8ByteSize + m.creators.utf8ByteSize := by
  simp only [metadataBytes, List.length_append, List.length_cons, length_stringBytes,
    length_littleEndian, m.definitionId.property]
  omega

/-- What follows the tag of a holding can be any 48 bytes. -/
theorem exists_fields (bytes : List UInt8) (h : bytes.length = 48) :
    ∃ (id : RawId) (balance : U128), id.val ++ littleEndian 16 balance.val = bytes := by
  obtain ⟨balance, hbalance⟩ := exists_littleEndian (2 ^ 128) 16 (by decide) (bytes.drop 32)
    (by rw [List.length_drop, h])
  refine ⟨⟨bytes.take 32, by rw [List.length_take, h]; rfl⟩, balance, ?_⟩
  rw [hbalance, List.take_append_drop]

/-- Only with a name of 26 bytes and without identifiers is a definition as long as a holding. -/
theorem length_fungible (name : String) (totalSupply : U128) (metadataId authority : Option RawId) :
    (definitionBytes (.fungible name totalSupply metadataId authority)).length = 49 ↔
      name.utf8ByteSize = 26 ∧ metadataId = none ∧ authority = none := by
  simp only [definitionBytes, List.length_cons, List.length_append, length_stringBytes,
    length_littleEndian, length_optionBytes]
  by_cases hmetadata : metadataId = none <;> by_cases hauthority : authority = none <;>
    simp only [hmetadata, hauthority, if_true, if_false, and_true, and_false, iff_false] <;> omega

theorem length_nonFungible (name : String) (printableSupply : U128) (metadataId : RawId) :
    (definitionBytes (.nonFungible name printableSupply metadataId)).length
      = 53 + name.utf8ByteSize := by
  simp only [definitionBytes, List.length_cons, List.length_append, length_stringBytes,
    length_littleEndian, metadataId.property]
  omega

theorem length_balance (tag : UInt8) (id : RawId) (balance : U128) :
    (tag :: (id.val ++ littleEndian 16 balance.val)).length = 49 := by
  rw [List.length_cons, List.length_append, length_littleEndian, id.property]

theorem length_owned (tag byte : UInt8) (id : RawId) : (tag :: (id.val ++ [byte])).length = 34 := by
  rw [List.length_cons, List.length_append, id.property]
  rfl

theorem definition_reads_as_holding (d : TokenDefinition RawId) :
    (∃ h, holdingBytes h = definitionBytes d) ↔ d.ReadsAsHolding := by
  cases d with
  | fungible name totalSupply metadataId authority =>
    constructor
    · rintro ⟨h, he⟩
      have hhead := congrArg List.head? he
      have hlength := congrArg List.length he
      cases h with
      | fungible definitionId balance =>
        exact (length_fungible _ _ _ _).mp (hlength.symm.trans (length_balance ..))
      | nftMaster definitionId printBalance => cases hhead
      | nftPrintedCopy definitionId owned => cases hhead
    · rintro ⟨hname, rfl, rfl⟩
      obtain ⟨id, balance, hfields⟩ := exists_fields (stringBytes name ++
        (littleEndian 16 totalSupply.val ++ (optionBytes none ++ optionBytes none)))
        (by simp [hname, optionBytes])
      exact ⟨.fungible id balance, congrArg (0 :: ·) hfields⟩
  | nonFungible name printableSupply metadataId =>
    refine ⟨?_, False.elim⟩
    rintro ⟨h, he⟩
    have hhead := congrArg List.head? he
    have hlength := congrArg List.length he
    rw [length_nonFungible] at hlength
    cases h with
    | fungible definitionId balance => cases hhead
    | nftMaster definitionId printBalance =>
      rw [holdingBytes, length_balance] at hlength
      omega
    | nftPrintedCopy definitionId owned => cases hhead

theorem head_metadataBytes (m : TokenMetadata RawId) :
    (metadataBytes m).head? = m.definitionId.val.head? := by
  obtain ⟨⟨_ | ⟨byte, bytes⟩, hid⟩, standard, uri, creators, primarySaleDate⟩ := m
  · cases hid
  · rfl

theorem metadata_reads_as_holding (m : TokenMetadata RawId) :
    (∃ h, holdingBytes h = metadataBytes m) ↔ m.ReadsAsHolding := by
  constructor
  · rintro ⟨h, he⟩
    have hhead := congrArg List.head? he
    have hlength := congrArg List.length he
    rw [head_metadataBytes] at hhead
    rw [length_metadataBytes] at hlength
    cases h with
    | fungible definitionId balance =>
      rw [holdingBytes, length_balance] at hlength
      exact ⟨String.utf8ByteSize_eq_zero_iff.mp (by omega),
        String.utf8ByteSize_eq_zero_iff.mp (by omega), Or.inl hhead.symm⟩
    | nftMaster definitionId printBalance =>
      rw [holdingBytes, length_balance] at hlength
      exact ⟨String.utf8ByteSize_eq_zero_iff.mp (by omega),
        String.utf8ByteSize_eq_zero_iff.mp (by omega), Or.inr hhead.symm⟩
    | nftPrintedCopy definitionId owned =>
      rw [holdingBytes, length_owned] at hlength
      omega
  · rintro ⟨huri, hcreators, hhead⟩
    have hlength := length_metadataBytes m
    rw [huri, hcreators] at hlength
    rw [← head_metadataBytes] at hhead
    rcases hhead with hhead | hhead
    · obtain ⟨rest, hrest⟩ := List.head?_eq_some_iff.mp hhead
      rw [hrest] at hlength ⊢
      obtain ⟨id, balance, hfields⟩ := exists_fields rest (Nat.succ_injective hlength)
      exact ⟨.fungible id balance, congrArg (0 :: ·) hfields⟩
    · obtain ⟨rest, hrest⟩ := List.head?_eq_some_iff.mp hhead
      rw [hrest] at hlength ⊢
      obtain ⟨id, balance, hfields⟩ := exists_fields rest (Nat.succ_injective hlength)
      exact ⟨.nftMaster id balance, congrArg (1 :: ·) hfields⟩

/-- The last two bytes of a balance are zero when it is small. -/
theorem littleEndian_small (n : U128) :
    littleEndian 16 n.val = littleEndian 14 n.val ++ [0, 0] ↔ n.val < 2 ^ 112 := by
  have hlt := n.isLt
  have hpow : (256 : ℕ) ^ 14 = 2 ^ 112 := by decide
  have hwide : (256 : ℕ) ^ 2 = 2 ^ 16 := by decide
  change _ = _ ++ List.replicate 2 0 ↔ _
  rw [littleEndian_add 14 2, List.append_cancel_left_eq, littleEndian_eq_zero_iff, hpow, hwide]
  omega

theorem holding_reads_as_definition (h : TokenHolding RawId) :
    (∃ d : TokenDefinition RawId, d.name.utf8ByteSize < 2 ^ 32 ∧
      definitionBytes d = holdingBytes h) ↔ h.ReadsAsDefinition := by
  cases h with
  | fungible definitionId balance =>
    have hid : definitionId.val = definitionId.val.take 4 ++
        ((definitionId.val.drop 4).take 26 ++ definitionId.val.drop 30) := by
      have hrest : definitionId.val.drop 30 = (definitionId.val.drop 4).drop 26 := by
        rw [List.drop_drop]
      rw [hrest, List.take_append_drop, List.take_append_drop]
    constructor
    · rintro ⟨d, -, he⟩
      have hhead := congrArg List.head? he
      have hlength := congrArg List.length he
      cases d with
      | nonFungible name printableSupply metadataId => cases hhead
      | fungible name totalSupply metadataId authority =>
        obtain ⟨hname, rfl, rfl⟩ := (length_fungible _ _ _ _).mp
          (hlength.trans (length_balance ..))
        have hfields := (List.cons.inj he).2
        rw [hid, stringBytes, hname, List.append_assoc, List.append_assoc, List.append_assoc]
          at hfields
        obtain ⟨hheading, hfields⟩ := List.append_inj hfields (by simp [definitionId.property])
        obtain ⟨htext, hfields⟩ := List.append_inj hfields
          (by simp [definitionId.property, Format.length_utf8, hname])
        refine ⟨hheading.symm, ?_, (littleEndian_small balance).mp ?_⟩
        · rw [← htext]
          exact name.isValidUTF8
        · have hsplit : littleEndian 16 balance.val
              = littleEndian 14 balance.val ++ littleEndian 2 (balance.val / 256 ^ 14) :=
            littleEndian_add 14 2 balance.val
          change littleEndian 16 totalSupply.val ++ [0, 0] = _ at hfields
          rw [hsplit, ← List.append_assoc (definitionId.val.drop 30)] at hfields
          obtain ⟨-, hzeros⟩ := List.append_inj hfields (by simp [definitionId.property])
          rw [hsplit, hzeros]
    · rintro ⟨hheading, hvalid, hsmall⟩
      obtain ⟨totalSupply, hsupply⟩ := exists_littleEndian (2 ^ 128) 16 (by decide)
        (definitionId.val.drop 30 ++ littleEndian 14 balance.val) (by simp [definitionId.property])
      have htext : Format.utf8 (String.fromUTF8 _ hvalid) = (definitionId.val.drop 4).take 26 := rfl
      have hname : (String.fromUTF8 _ hvalid).utf8ByteSize = 26 := by
        rw [← Format.length_utf8, htext, List.length_take, List.length_drop, definitionId.property]
        rfl
      refine ⟨.fungible (String.fromUTF8 _ hvalid) totalSupply none none,
        lt_of_eq_of_lt hname (by decide), congrArg (0 :: ·) ?_⟩
      have hheader : littleEndian 4 26 = definitionId.val.take 4 := hheading.symm
      change stringBytes _ ++ (littleEndian 16 totalSupply.val ++ [0, 0]) = _
      rw [stringBytes, hname, htext, hsupply, (littleEndian_small balance).mpr hsmall, hheader]
      conv_rhs => rw [hid]
      simp only [List.append_assoc]
  | nftMaster definitionId printBalance =>
    refine ⟨?_, False.elim⟩
    rintro ⟨d, -, he⟩
    have hhead := congrArg List.head? he
    have hlength := congrArg List.length he
    cases d with
    | fungible name totalSupply metadataId authority => cases hhead
    | nonFungible name printableSupply metadataId =>
      rw [length_nonFungible, holdingBytes, length_balance] at hlength
      omega
  | nftPrintedCopy definitionId owned =>
    refine ⟨?_, False.elim⟩
    rintro ⟨d, -, he⟩
    have hhead := congrArg List.head? he
    cases d <;> cases hhead

/-- The first eight bytes of a balance are zero when it is a multiple of `2 ^ 64`. -/
theorem littleEndian_multiple (n : U128) :
    littleEndian 16 n.val = List.replicate 8 0 ++ littleEndian 8 (n.val / 2 ^ 64) ↔
      n.val % 2 ^ 64 = 0 := by
  have hpow : (256 : ℕ) ^ 8 = 2 ^ 64 := by decide
  rw [littleEndian_add 8 8, hpow, List.append_cancel_right_eq, littleEndian_eq_zero_iff, hpow]

theorem empty_texts (rest : List UInt8) :
    stringBytes "" ++ (stringBytes "" ++ rest) = List.replicate 8 0 ++ rest := rfl

/-- Metadata without texts are a tag, a token without its last byte and a balance. -/
theorem metadata_collides (tag : UInt8) (id : RawId) (balance : U128) :
    (∃ m : TokenMetadata RawId, m.uri.utf8ByteSize < 2 ^ 32 ∧ m.creators.utf8ByteSize < 2 ^ 32 ∧
      metadataBytes m = tag :: (id.val ++ littleEndian 16 balance.val)) ↔
      (id.val.drop 31 = [0] ∨ id.val.drop 31 = [1]) ∧ balance.val % 2 ^ 64 = 0 := by
  constructor
  · rintro ⟨m, -, -, he⟩
    have hlength := congrArg List.length he
    rw [length_metadataBytes, length_balance] at hlength
    have huri : m.uri = "" := String.utf8ByteSize_eq_zero_iff.mp (by omega)
    have hcreators : m.creators = "" := String.utf8ByteSize_eq_zero_iff.mp (by omega)
    obtain ⟨byte, hbyte⟩ := List.length_eq_one_iff.mp
      (show (id.val.drop 31).length = 1 by rw [List.length_drop, id.property])
    have hsplit : tag :: (id.val ++ littleEndian 16 balance.val)
        = (tag :: id.val.take 31) ++ byte :: littleEndian 16 balance.val := by
      rw [List.cons_append, List.append_cons, ← hbyte, List.take_append_drop]
    rw [metadataBytes, huri, hcreators, hsplit] at he
    obtain ⟨-, hrest⟩ := List.append_inj he (by simp [id.property, m.definitionId.property])
    obtain ⟨hstandard, hfields⟩ := List.cons.inj hrest
    refine ⟨?_, ?_⟩
    · rw [hbyte, ← hstandard]
      cases m.standard with
      | simple => exact Or.inl rfl
      | expanded => exact Or.inr rfl
    · rw [empty_texts, littleEndian_add 8 8] at hfields
      obtain ⟨hzeros, -⟩ := List.append_inj hfields (by simp)
      exact (littleEndian_eq_zero_iff 8 _).mp hzeros.symm
  · rintro ⟨hstandard, hbalance⟩
    obtain ⟨standard, hstandard⟩ : ∃ standard, id.val.drop 31 = [standardByte standard] := by
      rcases hstandard with h | h
      · exact ⟨.simple, h⟩
      · exact ⟨.expanded, h⟩
    have hempty : ("" : String).utf8ByteSize < 2 ^ 32 := by decide
    refine ⟨⟨⟨tag :: id.val.take 31, by simp [id.property]⟩, standard, "", "",
      ⟨balance.val / 2 ^ 64, by omega⟩⟩, hempty, hempty, ?_⟩
    rw [(littleEndian_multiple balance).mpr hbalance]
    rw [metadataBytes, empty_texts, List.cons_append, List.append_cons, ← hstandard, List.take_append_drop]

theorem holding_reads_as_metadata (h : TokenHolding RawId) :
    (∃ m : TokenMetadata RawId, m.uri.utf8ByteSize < 2 ^ 32 ∧ m.creators.utf8ByteSize < 2 ^ 32 ∧
      metadataBytes m = holdingBytes h) ↔ h.ReadsAsMetadata := by
  cases h with
  | fungible definitionId balance => exact metadata_collides 0 definitionId balance
  | nftMaster definitionId printBalance => exact metadata_collides 1 definitionId printBalance
  | nftPrintedCopy definitionId owned =>
    refine ⟨?_, False.elim⟩
    rintro ⟨m, -, -, he⟩
    have hlength := congrArg List.length he
    rw [length_metadataBytes, holdingBytes, length_owned] at hlength
    omega

theorem definition_parses (d : TokenDefinition RawId) (bytes : List UInt8)
    (h : definitionFormat.write d = some bytes) :
    holdingFormat.parse bytes = none ↔ ¬d.ReadsAsHolding := by
  rw [Format.parse_eq_none, ((definitionFormat_write _ _).mp h).2, ← definition_reads_as_holding]
  simp only [holdingFormat_write, Option.some.injEq]

theorem metadata_parses (m : TokenMetadata RawId) (bytes : List UInt8)
    (h : metadataFormat.write m = some bytes) :
    holdingFormat.parse bytes = none ↔ ¬m.ReadsAsHolding := by
  rw [Format.parse_eq_none, ((metadataFormat_write _ _).mp h).2.2, ← metadata_reads_as_holding]
  simp only [holdingFormat_write, Option.some.injEq]

theorem holding_parses (h : TokenHolding RawId) (bytes : List UInt8)
    (hw : holdingFormat.write h = some bytes) :
    (definitionFormat.parse bytes = none ↔ ¬h.ReadsAsDefinition) ∧
      (metadataFormat.parse bytes = none ↔ ¬h.ReadsAsMetadata) := by
  rw [holdingFormat_write, Option.some.injEq] at hw
  subst hw
  rw [Format.parse_eq_none, Format.parse_eq_none, ← holding_reads_as_definition,
    ← holding_reads_as_metadata]
  simp only [definitionFormat_write, metadataFormat_write, @eq_comm _ (holdingBytes h), and_self]

end LezPrograms.Token
