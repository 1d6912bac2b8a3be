import LezPrograms.Token.Ambiguity
import LezPrograms.Token.Step

/-! # Accounts that are told apart by decoding

The token program on accounts that store bytes. What was created as a definition or as
metadata does not act as a holding, as long as no instruction writes a definition or
metadata with the bytes of a holding. -/

set_option autoImplicit false

namespace LezPrograms.Token
open LezPrograms.Checked LezPrograms.Lee LezPrograms.Borsh

/-- What `Data::from` leaves: the bytes of a value, or a value that cannot be serialized, at
which it panics. -/
inductive Stored where
  | bytes (content : List UInt8)
  | definition (value : TokenDefinition RawId) (overlong : definitionFormat.write value = none)
  | metadata (value : TokenMetadata RawId) (overlong : metadataFormat.write value = none)
deriving DecidableEq

instance : Inhabited Stored := ⟨.bytes []⟩

namespace Stored

def ofDefinition (d : TokenDefinition RawId) : Stored :=
  match h : definitionFormat.write d with
  | some content => .bytes content
  | none => .definition d h

def ofMetadata (m : TokenMetadata RawId) : Stored :=
  match h : metadataFormat.write m with
  | some content => .bytes content
  | none => .metadata m h

theorem ofDefinition_cases (d : TokenDefinition RawId) :
    (∃ content, definitionFormat.write d = some content ∧ ofDefinition d = .bytes content) ∨
      ∃ overlong, ofDefinition d = .definition d overlong := by
  unfold ofDefinition
  split
  · rename_i content h
    exact Or.inl ⟨content, h, rfl⟩
  · rename_i h
    exact Or.inr ⟨h, rfl⟩

theorem ofMetadata_cases (m : TokenMetadata RawId) :
    (∃ content, metadataFormat.write m = some content ∧ ofMetadata m = .bytes content) ∨
      ∃ overlong, ofMetadata m = .metadata m overlong := by
  unfold ofMetadata
  split
  · rename_i content h
    exact Or.inl ⟨content, h, rfl⟩
  · rename_i h
    exact Or.inr ⟨h, rfl⟩

def toDefinition : Stored → Option (TokenDefinition RawId)
  | .bytes content => definitionFormat.parse content
  | .definition d _ => some d
  | .metadata .. => none

def toHolding : Stored → Option (TokenHolding RawId)
  | .bytes content => holdingFormat.parse content
  | _ => none

def toMetadata : Stored → Option (TokenMetadata RawId)
  | .bytes content => metadataFormat.parse content
  | .metadata m _ => some m
  | .definition .. => none

end Stored

instance : AccountType Stored (TokenDefinition RawId) where
  data := Stored.ofDefinition
  tryFrom := Stored.toDefinition
  tryFrom_data d := by
    rcases Stored.ofDefinition_cases d with ⟨content, h, hd⟩ | ⟨overlong, hd⟩ <;> rw [hd]
    · exact (definitionFormat.parse_eq_some content d).mpr h
    · rfl

instance : AccountType Stored (TokenHolding RawId) where
  data h := .bytes (holdingBytes h)
  tryFrom := Stored.toHolding
  tryFrom_data h := (holdingFormat.parse_eq_some _ h).mpr (holdingFormat_write h)

instance : AccountType Stored (TokenMetadata RawId) where
  data := Stored.ofMetadata
  tryFrom := Stored.toMetadata
  tryFrom_data m := by
    rcases Stored.ofMetadata_cases m with ⟨content, h, hm⟩ | ⟨overlong, hm⟩ <;> rw [hm]
    · exact (metadataFormat.parse_eq_some content m).mpr h
    · rfl

abbrev Memory := World RawId Stored

def Stored.fits (limit : List UInt8 → Bool) : Stored → Bool
  | .bytes content => limit content
  | _ => false

def storedMain (self : RawId) (limit : List UInt8 → Bool)
    (accounts : List (AccountWithMetadata RawId Stored)) (instruction : Instruction RawId) :
    Outcome (List (AccountStateDiff RawId Stored) × List Empty) := do
  let diffs ← main self accounts instruction
  ensure ((diffs.all fun diff => diff.postData.all (Stored.fits limit)) = true)
    "encoded data should fit into Data"
  pure (diffs, [])

def storedCall (self : RawId) (limit : List UInt8 → Bool) (w : Memory) (authority ids : List RawId)
    (instruction : Instruction RawId) : Outcome Memory := do
  let (w, _) ← execute self w authority ids fun accounts =>
    storedMain self limit accounts instruction
  pure w

theorem storedCall_step (self : RawId) (limit : List UInt8 → Bool) (w w' : Memory)
    (authority ids : List RawId) (instruction : Instruction RawId)
    (h : storedCall self limit w authority ids instruction = .ok w') :
    Step self authority w ids instruction w' := by
  simp only [storedCall, bind_eq_ok, Prod.exists, execute_eq_ok, storedMain, ensure_eq_ok, exists_const,
    pure_eq_ok, Prod.mk.injEq] at h
  obtain ⟨v, calls, ⟨hn, diffs, ⟨_, hmain, -, rfl, -⟩, ha⟩, rfl⟩ := h
  exact step_of_main _ _ _ _ _ _ _ hn hmain ha

def holdingRoles {Id : Type} (ids : List Id) (instruction : Instruction Id) : List Id :=
  match instruction, ids with
  | .transfer _, [s, r] => [s, r]
  | .burn _, [_, k] => [k]
  | .mint _, [_, k] => [k]
  | .mintWithAuthority _, [_, k, _] => [k]
  | .printNft, [m, p] => [m, p]
  | .initializeAccount, [_, k] => [k]
  | .newFungibleDefinition .., [_, k] => [k]
  | .newDefinitionWithMetadata .., [_, k, _] => [k]
  | _, _ => []

def describes {Id : Type} (ids : List Id) (instruction : Instruction Id) : List Id :=
  match instruction, ids with
  | .newFungibleDefinition .., [d, _] => [d]
  | .newDefinitionWithMetadata .., [d, _, m] => [d, m]
  | _, _ => []

/-- Without its authority the definition at `d` would read as a holding. -/
def Exposed (w : Memory) (d : RawId) : Prop :=
  ∃ (name : String) (supply : U128) (authority : Option RawId),
    tryFrom (w d).data = some (TokenDefinition.fungible name supply none authority) ∧
      name.utf8ByteSize = 26

/-- The instruction writes no definition or metadata that reads as a holding. -/
def Unambiguous (w : Memory) (ids : List RawId) (instruction : Instruction RawId) : Prop :=
  match instruction, ids with
  | .newFungibleDefinition name _ mintAuthority, _ =>
    ¬(name.utf8ByteSize = 26 ∧ mintAuthority = none)
  | .newDefinitionWithMetadata _ metadata, d :: _ =>
    ¬(metadata.uri = "" ∧ metadata.creators = "" ∧
      (d.val.head? = some 0 ∨ d.val.head? = some 1))
  | .setAuthority none, d :: _ => ¬Exposed w d
  | .setAuthorityWithAuthority none, d :: _ => ¬Exposed w d
  | _, _ => True

structure Apart (program : RawId) (w : Memory) (x : RawId) : Prop where
  owner : (w x).programOwner = program
  written : (w x).data ≠ default
  unread : (tryFrom (w x).data : Option (TokenHolding RawId)) = none

theorem toHolding_ofDefinition (d : TokenDefinition RawId) :
    Stored.toHolding (Stored.ofDefinition d) = none ↔ ¬d.ReadsAsHolding := by
  rcases Stored.ofDefinition_cases d with ⟨content, h, hd⟩ | ⟨overlong, hd⟩
  · rw [hd]
    exact definition_parses d content h
  · rw [hd]
    refine iff_of_true rfl fun hreads => ?_
    cases d with
    | fungible name totalSupply metadataId authority =>
      have hsome := (definitionFormat_write (.fungible name totalSupply metadataId authority) _).mpr
        ⟨lt_of_eq_of_lt hreads.1 (by decide), rfl⟩
      rw [overlong] at hsome
      cases hsome
    | nonFungible name printableSupply metadataId => exact hreads

theorem eq_ofDefinition (data : Stored) (d : TokenDefinition RawId)
    (h : Stored.toDefinition data = some d) : data = Stored.ofDefinition d := by
  cases data with
  | bytes content =>
    have hw := (definitionFormat.parse_eq_some content d).mp h
    rcases Stored.ofDefinition_cases d with ⟨content', hw', hd⟩ | ⟨overlong, hd⟩
    · rw [hw, Option.some.injEq] at hw'
      rw [hd, hw']
    · rw [hw] at overlong
      cases overlong
  | definition value hvalue =>
    rw [Stored.toDefinition, Option.some.injEq] at h
    subst h
    rcases Stored.ofDefinition_cases value with ⟨content, hw, -⟩ | ⟨overlong, hd⟩
    · rw [hw] at hvalue
      cases hvalue
    · exact hd.symm
  | metadata value hvalue => cases h

theorem toHolding_ofMetadata (m : TokenMetadata RawId) (h : ¬m.ReadsAsHolding) :
    Stored.toHolding (Stored.ofMetadata m) = none := by
  rcases Stored.ofMetadata_cases m with ⟨content, hw, hm⟩ | ⟨overlong, hm⟩
  · rw [hm]
    exact (metadata_parses m content hw).mpr h
  · rw [hm]
    rfl

theorem ofDefinition_ne_default (d : TokenDefinition RawId) : Stored.ofDefinition d ≠ default := by
  rcases Stored.ofDefinition_cases d with ⟨content, hw, hd⟩ | ⟨overlong, hd⟩
  · rw [hd]
    rintro ⟨⟩
    have hbytes := ((definitionFormat_write d []).mp hw).2
    cases d <;> cases hbytes
  · rw [hd]
    exact Stored.noConfusion

theorem ofMetadata_ne_default (m : TokenMetadata RawId) : Stored.ofMetadata m ≠ default := by
  rcases Stored.ofMetadata_cases m with ⟨content, hw, hm⟩ | ⟨overlong, hm⟩
  · rw [hm]
    rintro ⟨⟩
    have hlength := congrArg List.length ((metadataFormat_write m []).mp hw).2.2
    rw [length_metadataBytes, List.length_nil] at hlength
    omega
  · rw [hm]
    exact Stored.noConfusion

section
variable (program : RawId) (w : Memory) (x : RawId)

/-- What is written into an account of the program, or into one without data. -/
theorem Apart.of_put (data : Stored) (howner : (w x).programOwner = program ∨ (w x).data = default)
    (hwritten : data ≠ default) (hread : Stored.toHolding data = none) :
    Apart program (put program w x data) x := by
  refine ⟨?_, ?_, ?_⟩
  · rw [put_same]
    rcases howner with howner | hempty
    · exact writeData_owner _ _ _ howner
    · exact writeData_owner_of_ne _ _ _ (hempty ▸ hwritten)
  · rwa [put_same, writeData_data]
  · rw [put_same, writeData_data]
    exact hread

theorem Apart.congr (w' : Memory) (h : Apart program w x) (he : w' x = w x) : Apart program w' x :=
  ⟨he ▸ h.owner, he ▸ h.written, he ▸ h.unread⟩

theorem Apart.put_other (id : RawId) (data : Stored) (hne : x ≠ id) (h : Apart program w x) :
    Apart program (put program w id data) x := h.congr _ _ _ _ (Lee.put_other _ _ _ _ _ hne)

theorem Apart.ne_holding (h : Apart program w x) (id : RawId) (held : TokenHolding RawId)
    (hid : tryFrom (w id).data = some held) : x ≠ id := by
  rintro rfl
  rw [h.unread] at hid
  cases hid

theorem Apart.ne_fresh (h : Apart program w x) (id : RawId) (hid : w id = default) : x ≠ id := by
  rintro rfl
  exact h.written (by rw [hid]; rfl)

theorem Apart.ne_credited (h : Apart program w x) (id : RawId) (empty held : TokenHolding RawId)
    (hid : Credits (w id) empty held) : x ≠ id := by
  rcases hid with ⟨hfresh, -⟩ | ⟨-, hheld⟩
  · exact h.ne_fresh _ _ _ id hfresh
  · exact h.ne_holding _ _ _ id held hheld

/-- The program writes another definition into the account that reads as a holding only if the
first one did. -/
theorem Apart.rewritten (h : Apart program w x) (definition definition' : TokenDefinition RawId)
    (hread : tryFrom (w x).data = some definition)
    (hkept : definition'.ReadsAsHolding → definition.ReadsAsHolding) :
    Apart program (put program w x (definitionData definition')) x := by
  refine .of_put program w x _ (Or.inl h.owner) (ofDefinition_ne_default _)
    ((toHolding_ofDefinition _).mpr fun hreads => ?_)
  have hunread := h.unread
  rw [eq_ofDefinition _ _ hread] at hunread
  exact (toHolding_ofDefinition _).mp hunread (hkept hreads)

end

theorem mintBalance_reads (d d' : TokenDefinition RawId) (held held' : TokenHolding RawId) (n : U128)
    (h : mintBalance d held n = .ok (d', held')) (hd : d'.ReadsAsHolding) : d.ReadsAsHolding := by
  unfold mintBalance at h
  split at h
  · simp only [bind_eq_ok, expect_eq_ok, pure_eq_ok, Prod.mk.injEq] at h
    obtain ⟨_, _, _, _, rfl, -⟩ := h
    exact hd
  · exact absurd h (error_ne_ok _ _)
  · exact absurd h (error_ne_ok _ _)
  · exact absurd h (error_ne_ok _ _)

theorem burnBalance_reads (d d' : TokenDefinition RawId) (held held' : TokenHolding RawId) (n : U128)
    (h : burnBalance d held n = .ok (d', held')) (hd : d'.ReadsAsHolding) : d.ReadsAsHolding := by
  unfold burnBalance at h
  split at h
  · simp only [bind_eq_ok, expect_eq_ok, pure_eq_ok, Prod.mk.injEq] at h
    obtain ⟨_, _, _, _, rfl, -⟩ := h
    exact hd
  · simp only [bind_eq_ok, expect_eq_ok, pure_eq_ok, Prod.mk.injEq] at h
    obtain ⟨_, _, _, _, rfl, -⟩ := h
    exact hd
  · simp only [bind_eq_ok, ensure_eq_ok, expect_eq_ok, exists_const, pure_eq_ok,
      Prod.mk.injEq] at h
    obtain ⟨-, -, _, _, rfl, -⟩ := h
    exact hd
  · exact absurd h (error_ne_ok _ _)

/-- Only a renounced authority makes a definition read as a holding. -/
theorem replaceAuthority_reads (d d' : TokenDefinition RawId) (new : Option RawId)
    (h : replaceAuthority d new = .ok d') (hd : d'.ReadsAsHolding) :
    new = none ∧ ∃ name supply authority, d = .fungible name supply none authority ∧
      name.utf8ByteSize = 26 := by
  unfold replaceAuthority at h
  split at h
  · rename_i name supply metadataId authority
    simp only [bind_eq_ok, ensure_eq_ok, exists_const, pure_eq_ok] at h
    obtain ⟨-, rfl⟩ := h
    obtain ⟨hname, rfl, rfl⟩ := hd
    exact ⟨rfl, name, supply, authority, rfl, hname⟩
  · exact absurd h (error_ne_ok _ _)

theorem describedToken_reads (d m : RawId) (new : NewTokenDefinition RawId)
    (definition : TokenDefinition RawId) (holding : TokenHolding RawId)
    (h : describedToken d m new = .ok (definition, holding)) : ¬definition.ReadsAsHolding := by
  intro hreads
  cases new with
  | fungible name totalSupply mintAuthority =>
    simp only [describedToken, bind_eq_ok, pure_eq_ok, Prod.mk.injEq] at h
    obtain ⟨authority, -, rfl, -⟩ := h
    cases hreads.2.1
  | nonFungible name printableSupply =>
    simp only [describedToken, pure_eq_ok, Prod.mk.injEq] at h
    obtain ⟨rfl, -⟩ := h
    exact hreads

section
variable (program : RawId) (w w' : Memory) (authority ids : List RawId)
  (instruction : Instruction RawId) (hs : Step program authority w ids instruction w') (x : RawId)
include hs

/-- Such an account does not act as a holding. -/
theorem Apart.not_holding (h : Apart program w x) : x ∉ holdingRoles ids instruction := by
  cases hs with
  | transfer s r n sender recipient sender' recipient' _ _ readSender readRecipient =>
    have hns := h.ne_holding _ _ _ s sender readSender
    have hnr := h.ne_credited _ _ _ r _ recipient readRecipient
    simp only [holdingRoles, List.mem_cons, List.not_mem_nil, or_false, not_or]
    exact ⟨hns, hnr⟩
  | burn d k n definition definition' holding holding' _ _ _ readHolding =>
    exact fun hm => h.ne_holding _ _ _ k holding readHolding (List.mem_singleton.mp hm)
  | mint d k a n _ _ definition definition' holding holding' called _ _ _ _ _ readHolding =>
    have hnk := h.ne_credited _ _ _ k _ holding readHolding
    rcases called with ⟨rfl, rfl, -⟩ | ⟨rfl, rfl⟩
    · exact fun hm => hnk (List.mem_singleton.mp hm)
    · exact fun hm => hnk (List.mem_singleton.mp hm)
  | initializeAccount d k definition fresh =>
    exact fun hm => h.ne_fresh _ _ _ k fresh (List.mem_singleton.mp hm)
  | newFungibleDefinition d k name supply mintAuthority _ freshHolding =>
    exact fun hm => h.ne_fresh _ _ _ k freshHolding (List.mem_singleton.mp hm)
  | newDefinitionWithMetadata d k m new metadata definition holding _ freshHolding =>
    exact fun hm => h.ne_fresh _ _ _ k freshHolding (List.mem_singleton.mp hm)
  | printNft m p d balance balance' _ _ fresh _ readMaster =>
    have hnm := h.ne_holding _ _ _ m _ readMaster
    have hnp := h.ne_fresh _ _ _ p fresh
    simp only [holdingRoles, List.mem_cons, List.not_mem_nil, or_false, not_or]
    exact ⟨hnm, hnp⟩
  | setAuthority d a new _ _ definition definition' called =>
    rcases called with ⟨rfl, rfl, -⟩ | ⟨rfl, rfl⟩ <;> exact List.not_mem_nil

/-- Such an account stays one. -/
theorem Apart.step (h : Apart program w x) (hu : Unambiguous w ids instruction) :
    Apart program w' x := by
  cases hs with
  | transfer s r n sender recipient sender' recipient' _ _ readSender readRecipient =>
    exact ((h.put_other _ _ _ s _ (h.ne_holding _ _ _ s sender readSender))).put_other _ _ _ r _
      (h.ne_credited _ _ _ r _ recipient readRecipient)
  | burn d k n definition definition' holding holding' _ _ readDefinition readHolding _ burned =>
    refine Apart.put_other _ _ _ k _ (h.ne_holding _ _ _ k holding readHolding) ?_
    by_cases hx : x = d
    · subst hx
      exact h.rewritten _ _ _ definition definition' readDefinition
        (burnBalance_reads _ _ _ _ _ burned)
    · exact h.put_other _ _ _ d _ hx
  | mint d k a n _ _ definition definition' holding holding' _ _ _ readDefinition _ _ readHolding _
      minted =>
    refine Apart.put_other _ _ _ k _ (h.ne_credited _ _ _ k _ holding readHolding) ?_
    by_cases hx : x = d
    · subst hx
      exact h.rewritten _ _ _ definition definition' readDefinition
        (mintBalance_reads _ _ _ _ _ minted)
    · exact h.put_other _ _ _ d _ hx
  | initializeAccount d k definition fresh =>
    exact h.put_other _ _ _ k _ (h.ne_fresh _ _ _ k fresh)
  | newFungibleDefinition d k name supply mintAuthority freshDefinition freshHolding =>
    exact (h.put_other _ _ _ d _ (h.ne_fresh _ _ _ d freshDefinition)).put_other _ _ _ k _
      (h.ne_fresh _ _ _ k freshHolding)
  | newDefinitionWithMetadata d k m new metadata definition holding freshDefinition freshHolding
      freshMetadata =>
    exact ((h.put_other _ _ _ d _ (h.ne_fresh _ _ _ d freshDefinition)).put_other _ _ _ k _
      (h.ne_fresh _ _ _ k freshHolding)).put_other _ _ _ m _ (h.ne_fresh _ _ _ m freshMetadata)
  | printNft m p d balance balance' _ _ fresh _ readMaster =>
    exact (h.put_other _ _ _ m _ (h.ne_holding _ _ _ m _ readMaster)).put_other _ _ _ p _
      (h.ne_fresh _ _ _ p fresh)
  | setAuthority d a new _ _ definition definition' called _ readDefinition _ _ replaced =>
    by_cases hx : x = d
    · subst hx
      refine h.rewritten _ _ _ definition definition' readDefinition fun hreads => ?_
      obtain ⟨rfl, name, supply, authority', rfl, hname⟩ :=
        replaceAuthority_reads _ _ _ replaced hreads
      have hexposed : Exposed w x := ⟨name, supply, authority', readDefinition, hname⟩
      rcases called with ⟨rfl, rfl, -⟩ | ⟨rfl, rfl⟩
      · exact absurd hexposed hu
      · exact absurd hexposed hu
    · exact h.put_other _ _ _ d _ hx

/-- What an instruction describes becomes such an account. -/
theorem Apart.described (hu : Unambiguous w ids instruction) (hx : x ∈ describes ids instruction) :
    Apart program w' x := by
  cases hs with
  | newFungibleDefinition d k name supply mintAuthority freshDefinition freshHolding _ _ distinct =>
    obtain rfl := List.mem_singleton.mp hx
    refine Apart.put_other _ _ _ k _ distinct (.of_put program w x _
      (Or.inr (by rw [freshDefinition]; rfl)) (ofDefinition_ne_default _)
      ((toHolding_ofDefinition _).mpr fun hreads => ?_))
    exact hu ⟨hreads.1, hreads.2.2⟩
  | newDefinitionWithMetadata d k m new metadata definition holding freshDefinition freshHolding
      freshMetadata _ _ _ distinct described =>
    simp only [List.nodup_cons, List.mem_cons, List.not_mem_nil, or_false, not_or, not_false_eq_true,
      List.nodup_nil, and_true] at distinct
    obtain ⟨⟨hdk, hdm⟩, hkm⟩ := distinct
    simp only [describes, List.mem_cons, List.not_mem_nil, or_false] at hx
    rcases hx with rfl | rfl
    · refine Apart.put_other _ _ _ m _ hdm (Apart.put_other _ _ _ k _ hdk (.of_put program w x _
        (Or.inr (by rw [freshDefinition]; rfl)) (ofDefinition_ne_default _)
        ((toHolding_ofDefinition _).mpr (describedToken_reads _ _ _ _ _ described))))
    · refine .of_put program _ x _ (Or.inr ?_) (ofMetadata_ne_default _)
        (toHolding_ofMetadata _ fun hreads => hu ⟨hreads.1, hreads.2.1, hreads.2.2⟩)
      rw [Lee.put_other _ _ _ _ _ (Ne.symm hkm), Lee.put_other _ _ _ _ _ (Ne.symm hdm),
        freshMetadata]
      rfl
  | mint d k a n _ _ definition definition' holding holding' called =>
    rcases called with ⟨rfl, rfl, -⟩ | ⟨rfl, rfl⟩ <;> cases hx
  | setAuthority d a new _ _ definition definition' called =>
    rcases called with ⟨rfl, rfl, -⟩ | ⟨rfl, rfl⟩ <;> cases hx
  | transfer | burn | initializeAccount | printNft => cases hx

end

/-- The memories that the token program and others reach by allowed instructions, with the accounts
that were created as definitions or metadata. Others leave the accounts of the program alone. -/
inductive Run (program : RawId) (limit : List UInt8 → Bool)
    (allowed : Memory → List RawId → Instruction RawId → Prop) : List RawId → Memory → Prop
  | start (w : Memory) (unowned : ∀ id, (w id).programOwner ≠ program) : Run program limit allowed [] w
  | elsewhere (described : List RawId) (w w' : Memory) (run : Run program limit allowed described w)
      (kept : ∀ id, (w id).programOwner = program →
        (w' id).programOwner = program ∧ (w' id).data = (w id).data) :
      Run program limit allowed described w'
  | called (described : List RawId) (w w' : Memory) (authority ids : List RawId)
      (instruction : Instruction RawId) (run : Run program limit allowed described w)
      (permitted : allowed w ids instruction)
      (success : storedCall program limit w authority ids instruction = .ok w') :
      Run program limit allowed (describes ids instruction ++ described) w'

/-- Without ambiguous instructions, definitions and metadata keep apart from holdings. -/
theorem Run.apart (program : RawId) (limit : List UInt8 → Bool) (described : List RawId) (w : Memory)
    (h : Run program limit Unambiguous described w) : ∀ x ∈ described, Apart program w x := by
  induction h with
  | start w unowned => exact fun _ hx => absurd hx List.not_mem_nil
  | elsewhere described w w' run kept ih =>
    intro x hx
    obtain ⟨howner, hwritten, hunread⟩ := ih x hx
    obtain ⟨howner', hdata⟩ := kept x howner
    exact ⟨howner', hdata ▸ hwritten, hdata ▸ hunread⟩
  | called described w w' authority ids instruction run permitted success ih =>
    intro x hx
    have hstep := storedCall_step _ _ _ _ _ _ _ success
    rcases List.mem_append.mp hx with hx | hx
    · exact Apart.described program w w' authority ids instruction hstep x permitted hx
    · exact Apart.step program w w' authority ids instruction hstep x (ih x hx) permitted

/-- Exactly which definitions, metadata and holdings decode as one another, and that definitions and
metadata never act as holdings while no instruction writes one that decodes as a holding. -/
theorem encodings_exclusive_iff (program : RawId) (limit : List UInt8 → Bool) :
    (∀ d bytes, definitionFormat.write d = some bytes →
      (holdingFormat.parse bytes = none ↔ ¬d.ReadsAsHolding)) ∧
    (∀ m bytes, metadataFormat.write m = some bytes →
      (holdingFormat.parse bytes = none ↔ ¬m.ReadsAsHolding)) ∧
    (∀ h bytes, holdingFormat.write h = some bytes →
      (definitionFormat.parse bytes = none ↔ ¬h.ReadsAsDefinition) ∧
        (metadataFormat.parse bytes = none ↔ ¬h.ReadsAsMetadata)) ∧
    ∀ described w, Run program limit Unambiguous described w → ∀ x ∈ described,
      ∀ authority ids instruction w',
        storedCall program limit w authority ids instruction = .ok w' →
          x ∉ holdingRoles ids instruction :=
  ⟨definition_parses, metadata_parses, holding_parses,
    fun _ w h x hx authority ids instruction w' hcall =>
      Apart.not_holding program w w' authority ids instruction
        (storedCall_step _ _ _ _ _ _ _ hcall) x (h.apart _ _ _ _ x hx)⟩

def rawId (byte : UInt8) : RawId := ⟨List.replicate 32 byte, List.length_replicate⟩

def smallLimit (bytes : List UInt8) : Bool := decide (bytes.length ≤ 102400)

def createdMemory (name : String) : Memory :=
  match storedCall (rawId 7) smallLimit (fun _ => default) [rawId 20, rawId 21] [rawId 20, rawId 21]
    (.newFungibleDefinition name 131072 none) with
  | .ok w => w
  | .error _ => fun _ => default

theorem created_run (allowed : Memory → List RawId → Instruction RawId → Prop) (name : String)
    (hallowed : allowed (fun _ => default) [rawId 20, rawId 21]
      (.newFungibleDefinition name 131072 none))
    (hok : (storedCall (rawId 7) smallLimit (fun _ => default) [rawId 20, rawId 21]
      [rawId 20, rawId 21] (.newFungibleDefinition name 131072 none)).isOk = true) :
    Run (rawId 7) smallLimit allowed [rawId 20] (createdMemory name) := by
  refine .called [] (fun _ => default) _ [rawId 20, rawId 21] _ _ (.start _ fun _ => by decide)
    hallowed ?_
  unfold createdMemory
  split
  · rename_i w h
    exact h
  · rename_i e h
    rw [h] at hok
    cases hok

def longName : String := "AAAAAAAAAAAAAAAAAAAAAAAAAA"

def longDefinition : TokenDefinition RawId := .fungible longName 131072 none none

def spentDefinition : TokenDefinition RawId := .fungible longName 65536 none none

def longHolding : TokenHolding RawId :=
  .fungible ⟨[26, 0, 0, 0] ++ List.replicate 26 65 ++ [0, 0], by decide⟩ 2

def emptyMetadata : TokenMetadata RawId := ⟨rawId 0, .simple, "", "", 0⟩

def emptyHolding : TokenHolding RawId := .fungible (rawId 0) 0

theorem named_definition_is_spent :
    definitionFormat.write longDefinition = holdingFormat.write longHolding ∧
    metadataFormat.write emptyMetadata = holdingFormat.write emptyHolding ∧
    (∃ bytes, holdingFormat.write longHolding = some bytes ∧
      holdingFormat.parse bytes = some longHolding ∧
      definitionFormat.parse bytes = some longDefinition) ∧
    (∃ bytes, holdingFormat.write emptyHolding = some bytes ∧
      holdingFormat.parse bytes = some emptyHolding ∧
      metadataFormat.parse bytes = some emptyMetadata) ∧
    Run (rawId 7) smallLimit (fun _ _ _ => True) [rawId 20] (createdMemory longName) ∧
    ∃ w', storedCall (rawId 7) smallLimit (createdMemory longName) [rawId 20]
        [rawId 20, rawId 22] (.transfer 1) = .ok w' ∧
      rawId 20 ∈ holdingRoles [rawId 20, rawId 22] (.transfer 1) ∧
      tryFrom (w' (rawId 20)).data = some spentDefinition := by
  have hdefinition : definitionFormat.write longDefinition = holdingFormat.write longHolding := by
    decide +kernel
  have hmetadata : metadataFormat.write emptyMetadata = holdingFormat.write emptyHolding := by
    decide +kernel
  refine ⟨hdefinition, hmetadata,
    ⟨_, holdingFormat_write _, (Format.parse_eq_some _ _ _).mpr (holdingFormat_write _),
      (Format.parse_eq_some _ _ _).mpr (hdefinition.trans (holdingFormat_write _))⟩,
    ⟨_, holdingFormat_write _, (Format.parse_eq_some _ _ _).mpr (holdingFormat_write _),
      (Format.parse_eq_some _ _ _).mpr (hmetadata.trans (holdingFormat_write _))⟩,
    created_run _ longName trivial (by decide +kernel), ?_⟩
  have hspent : (match storedCall (rawId 7) smallLimit (createdMemory longName) [rawId 20]
      [rawId 20, rawId 22] (.transfer 1) with
    | .ok w' => decide (tryFrom (w' (rawId 20)).data = some spentDefinition)
    | .error _ => false) = true := by
    decide +kernel
  split at hspent
  · rename_i w' h
    exact ⟨w', h, by decide, of_decide_eq_true hspent⟩
  · cases hspent

def shortName : String := "AAA"

/-- The same transfer fails where the name is short. -/
theorem short_definition_is_not_spent :
    Run (rawId 7) smallLimit Unambiguous [rawId 20] (createdMemory shortName) ∧
    holdingFormat.parse (definitionBytes (.fungible shortName 131072 none none)) = none ∧
    ¬∃ w', storedCall (rawId 7) smallLimit (createdMemory shortName) [rawId 20]
        [rawId 20, rawId 22] (.transfer 1) = .ok w' := by
  obtain ⟨hdefinitions, -, -, hruns⟩ := encodings_exclusive_iff (rawId 7) smallLimit
  have hrun : Run (rawId 7) smallLimit Unambiguous [rawId 20] (createdMemory shortName) :=
    created_run _ shortName (fun h => absurd h.1 (by decide)) (by decide +kernel)
  refine ⟨hrun, (hdefinitions (.fungible shortName 131072 none none) _
    ((definitionFormat_write _ _).mpr ⟨by decide, rfl⟩)).mpr (fun h => absurd h.1 (by decide)), ?_⟩
  rintro ⟨w', h⟩
  exact hruns _ _ hrun (rawId 20) (List.mem_singleton_self _) _ _ _ _ h (List.mem_cons_self ..)

end LezPrograms.Token
