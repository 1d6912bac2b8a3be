import LezPrograms.Lee.Runtime

/-! # The accounts of one program

`owned` reads the data of the accounts that a program owns; executions of other
programs and the environment leave it alone. -/

set_option autoImplicit false

namespace LezPrograms.Lee
open LezPrograms.Checked

def owned (program : AccountId) (w : Accounts) (id : AccountId) : Option Data :=
  if (w id).programOwner = program then some (w id).data else none

theorem owned_eq_some (program : AccountId) (w : Accounts) (id : AccountId) (data : Data) :
    owned program w id = some data ↔ (w id).programOwner = program ∧ (w id).data = data := by
  unfold owned
  split <;> simp_all

theorem owned_congr (program : AccountId) (w w' : Accounts) (id : AccountId) (h : w' id = w id) :
    owned program w' id = owned program w id := by
  simp [owned, h]

theorem owned_frame (program other : AccountId) (w w' : Accounts) (h : Frame other w w')
    (hne : other ≠ program) (hd : program ≠ default) : owned program w' = owned program w := by
  funext id
  rcases h id with h | ⟨h1, h2⟩
  · exact owned_congr program w w' id h
  · have hw : (w id).programOwner ≠ program := by
      rcases h1 with h1 | h1
      · rwa [h1]
      · rw [h1]
        exact hd.symm
    rw [owned, if_neg (by rwa [h2]), owned, if_neg hw]

theorem owned_put (program : AccountId) (w : Accounts) (id : AccountId) (data : Data)
    (h : (w id).programOwner = program ∨ data ≠ (w id).data) :
    owned program (put program w id data) = Function.update (owned program w) id (some data) := by
  funext x
  by_cases hx : x = id
  · subst hx
    rw [Function.update_self, owned_eq_some, put_same, writeData_data]
    refine ⟨?_, rfl⟩
    rcases h with h | h
    · exact writeData_owner _ _ _ h
    · exact writeData_owner_of_ne _ _ _ h
  · rw [Function.update_of_ne hx]
    exact owned_congr program _ _ x (put_other _ _ _ _ _ hx)

theorem environmentAccount_deployed (old new : Account AccountId Data)
    (h : old.programOwner ∈ deployedPrograms) :
    (environmentAccount old new).programOwner = old.programOwner ∧
      (environmentAccount old new).data = old.data := by
  rw [environmentAccount, if_pos h]
  exact ⟨rfl, rfl⟩

theorem environmentAccount_not_deployed (old new : Account AccountId Data)
    (h : old.programOwner ∉ deployedPrograms) :
    (environmentAccount old new).programOwner ∉ deployedPrograms := by
  rw [environmentAccount, if_neg h]
  split
  · exact h
  · rename_i hn
    split <;> exact hn

theorem owned_environment (program : AccountId) (w change : Accounts)
    (h : program ∈ deployedPrograms) :
    owned program (fun id => environmentAccount (w id) (change id)) = owned program w := by
  funext id
  by_cases hd : (w id).programOwner ∈ deployedPrograms
  · obtain ⟨h1, h2⟩ := environmentAccount_deployed (w id) (change id) hd
    simp only [owned, h1, h2]
  · have hn := environmentAccount_not_deployed (w id) (change id) hd
    have h1 : (w id).programOwner ≠ program := fun he => hd (he.symm ▸ h)
    have h2 : (environmentAccount (w id) (change id)).programOwner ≠ program :=
      fun he => hn (he.symm ▸ h)
    rw [owned, owned, if_neg h1, if_neg h2]

/-- Accounts that nobody owns carry no data. -/
def Bare (w : Accounts) : Prop := ∀ id, (w id).programOwner = default → (w id).data = default

theorem Bare.frame (program : AccountId) (w w' : Accounts) (h : Bare w)
    (hf : Frame program w w') (hp : program ≠ default) : Bare w' := by
  intro id hid
  have he := hf.owner_of_ne program w w' id (by rw [hid]; exact hp.symm)
  rw [he] at hid ⊢
  exact h id hid

theorem Bare.environment (w change : Accounts) (h : Bare w) :
    Bare fun id => environmentAccount (w id) (change id) := by
  intro id hid
  change (environmentAccount (w id) (change id)).data = default
  change (environmentAccount (w id) (change id)).programOwner = default at hid
  rw [environmentAccount] at hid ⊢
  split
  · rename_i hd
    rw [if_pos hd] at hid
    exact h id hid
  · rename_i hd
    rw [if_neg hd] at hid
    split
    · rename_i hn
      rw [if_pos hn] at hid
      exact h id hid
    · rename_i hn
      rw [if_neg hn] at hid
      split
      · rfl
      · rename_i hdef
        rw [if_neg hdef] at hid
        exact absurd hid hdef

end LezPrograms.Lee
