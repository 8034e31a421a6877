import Mathlib.Data.Finmap

/-!
# Lookups in finite maps

What a lookup finds after an insertion or an erasure, as one equation for every key, and how
many keys there are then.
-/

set_option autoImplicit false

namespace Tmuduo

variable {α β : Type*} [DecidableEq α] {m : Finmap fun _ : α => β}

theorem mem_of_lookup {a : α} {b : β} (h : m.lookup a = some b) : a ∈ m :=
  Finmap.mem_iff.mpr ⟨b, h⟩

variable (m)

/-- After an insertion only the new key is looked up differently. -/
theorem lookup_insert_eq (a a' : α) (b : β) :
    (m.insert a b).lookup a' = if a' = a then some b else m.lookup a' := by
  split_ifs with h
  · subst h
    exact Finmap.lookup_insert m
  · exact Finmap.lookup_insert_of_ne m h

/-- After an erasure only the erased key is looked up differently. -/
theorem lookup_erase_eq (a a' : α) :
    (m.erase a).lookup a' = if a' = a then none else m.lookup a' := by
  split_ifs with h
  · subst h
    exact Finmap.lookup_erase a' m
  · exact Finmap.lookup_erase_ne h

/-- A new key adds one to the size of the map. -/
theorem card_keys_insert {a : α} (b : β) (h : a ∉ m) :
    (m.insert a b).keys.card = m.keys.card + 1 := by
  have hkeys : (m.insert a b).keys = Insert.insert a m.keys := by
    ext a'
    simp [Finmap.mem_keys, Finmap.mem_insert]
  rw [hkeys, Finset.card_insert_of_notMem (by rwa [Finmap.mem_keys])]

/-- Erasing a key that is there takes one from the size. -/
theorem card_keys_erase {a : α} (h : a ∈ m) : (m.erase a).keys.card = m.keys.card - 1 := by
  rw [Finmap.keys_erase, Finset.card_erase_of_mem (Finmap.mem_keys.mpr h)]

end Tmuduo
