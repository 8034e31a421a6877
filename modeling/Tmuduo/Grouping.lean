import Mathlib.Data.List.Basic

/-!
# Items that are whole in a cell

A stream of items goes through buffers, files or packets : cells, each of which holds some items one
after the other. `Grouped cells items` says that the cells hold the items in their order and that
each item is whole in one of them. This survives everything that moves cells along and adds to the
last one, and it goes through two stages at once (`Grouped.trans`).
-/

set_option autoImplicit false

namespace Tmuduo

variable {α : Type*} {a b c cells items xs ys : List (List α)}

/-- The cells hold the items in their order, each whole in one cell. -/
def Grouped (cells items : List (List α)) : Prop :=
  ∃ groups : List (List (List α)), groups.map List.flatten = cells ∧ groups.flatten = items

namespace Grouped

theorem nil : Grouped ([] : List (List α)) [] := ⟨[], rfl, rfl⟩

/-- A cell that holds nothing yet. -/
theorem empty : Grouped [([] : List α)] [] := ⟨[[]], rfl, rfl⟩

theorem singleton (item : List α) : Grouped [item] [item] := ⟨[[item]], by simp, rfl⟩

theorem append (h : Grouped a xs) (h' : Grouped b ys) : Grouped (a ++ b) (xs ++ ys) := by
  obtain ⟨groups, rfl, rfl⟩ := h
  obtain ⟨groups', rfl, rfl⟩ := h'
  exact ⟨groups ++ groups', List.map_append, List.flatten_append⟩

theorem flatten_eq (h : Grouped cells items) : cells.flatten = items.flatten := by
  obtain ⟨groups, rfl, rfl⟩ := h
  exact List.flatten_flatten.symm

/-- The items of the first cells come first. -/
theorem split (h : Grouped (a ++ b) items) :
    ∃ xs ys, items = xs ++ ys ∧ Grouped a xs ∧ Grouped b ys := by
  obtain ⟨groups, hcells, rfl⟩ := h
  obtain ⟨front, rest, rfl, rfl, rfl⟩ := List.map_eq_append_iff.mp hcells
  exact ⟨front.flatten, rest.flatten, List.flatten_append, ⟨front, rfl, rfl⟩, ⟨rest, rfl, rfl⟩⟩

/-- An item is added to the last cell. -/
theorem extend {cell : List α} (h : Grouped (cells ++ [cell]) items) (item : List α) :
    Grouped (cells ++ [cell ++ item]) (items ++ [item]) := by
  obtain ⟨xs, ys, rfl, hcells, groups, hcell, rfl⟩ := h.split
  obtain ⟨group, rfl⟩ : ∃ group, groups = [group] := by
    rw [← List.length_eq_one_iff, ← groups.length_map, hcell]
    rfl
  obtain rfl : group.flatten = cell := List.singleton_inj.mp hcell
  have hlast : Grouped [group.flatten ++ item] (group ++ [item]) :=
    ⟨[group ++ [item]], by simp, by simp⟩
  rw [List.flatten_singleton, List.append_assoc]
  exact hcells.append hlast

/-- Cells that are items of a second stage. -/
theorem trans (h : Grouped a b) (h' : Grouped b c) : Grouped a c := by
  obtain ⟨groups, rfl, rfl⟩ := h
  induction groups generalizing c with
  | nil =>
    obtain ⟨groups', hnil, rfl⟩ := h'
    obtain rfl := List.map_eq_nil_iff.mp hnil
    exact nil
  | cons group groups ih =>
    rw [List.flatten_cons] at h'
    obtain ⟨xs, ys, rfl, ⟨first, rfl, rfl⟩, hrest⟩ := h'.split
    refine @append _ [_] _ _ _ ⟨[first.flatten], ?_, ?_⟩ (ih hrest)
    · rw [List.map_singleton, List.flatten_flatten]
    · rw [List.flatten_singleton]

end Grouped

end Tmuduo
