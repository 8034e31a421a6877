import Mathlib.Order.Lattice
import Mathlib.Tactic.Common

/-!
# Ordered sets

`OrderedSet α` is a finite set of a linear order, held as the increasing list of its elements.
The list is a field with its order, so every set is ordered and without duplicates.

`insert` and `erase` have their usual meaning (`mem_insert`, `mem_erase`). `below x` is what an
iteration from the beginning to the lower bound of `x` visits, and `dropBelow x` is what is left
when that range is erased (`below_eq_take`, `dropBelow_eq_drop`). `min?` is the first element.
-/

set_option autoImplicit false

namespace Tmuduo

variable {α : Type*} [LinearOrder α]

/-- A finite set as the increasing list of its elements. -/
@[ext]
structure OrderedSet (α : Type*) [LinearOrder α] where
  toList : List α
  sorted : toList.Pairwise (· < ·)
  deriving DecidableEq

namespace OrderedSet

instance : Membership α (OrderedSet α) :=
  ⟨fun s x => x ∈ s.toList⟩

def empty : OrderedSet α := ⟨[], List.Pairwise.nil⟩

variable (s : OrderedSet α)

/-- `x` between the smaller and the greater elements. -/
def insert (x : α) : OrderedSet α where
  toList := s.toList.filter (· < x) ++ x :: s.toList.filter (x < ·)
  sorted := by
    refine List.pairwise_append.mpr ⟨s.sorted.filter _, List.pairwise_cons.mpr ⟨?_, ?_⟩, ?_⟩
    · intro y hy
      simpa using (List.mem_filter.mp hy).2
    · exact s.sorted.filter _
    · intro y hy z hz
      have hyx : y < x := by simpa using (List.mem_filter.mp hy).2
      rcases List.mem_cons.mp hz with rfl | hz
      · exact hyx
      · exact hyx.trans (by simpa using (List.mem_filter.mp hz).2)

/-- All elements but `x`. -/
def erase (x : α) : OrderedSet α where
  toList := s.toList.filter (· ≠ x)
  sorted := s.sorted.filter _

/-- The elements before the lower bound of `x`, in order. -/
def below (x : α) : List α :=
  s.toList.filter (· < x)

/-- The elements from the lower bound of `x` on. -/
def dropBelow (x : α) : OrderedSet α where
  toList := s.toList.filter (x ≤ ·)
  sorted := s.sorted.filter _

/-- The position of the first element that is not before `x`. -/
def lowerBound (x : α) : ℕ :=
  s.toList.findIdx (x ≤ ·)

/-- The first element. -/
def min? : Option α :=
  s.toList.head?

variable {s} {x y : α}

@[simp] theorem not_mem_empty : x ∉ (empty : OrderedSet α) :=
  List.not_mem_nil

@[simp] theorem mem_insert : y ∈ s.insert x ↔ y = x ∨ y ∈ s := by
  change y ∈ s.toList.filter (· < x) ++ x :: s.toList.filter (x < ·) ↔ y = x ∨ y ∈ s.toList
  simp only [List.mem_append, List.mem_cons, List.mem_filter, decide_eq_true_eq]
  constructor
  · rintro (⟨h, -⟩ | h | ⟨h, -⟩)
    · exact Or.inr h
    · exact Or.inl h
    · exact Or.inr h
  · rintro (h | h)
    · exact Or.inr (Or.inl h)
    · rcases lt_trichotomy y x with hlt | heq | hgt
      · exact Or.inl ⟨h, hlt⟩
      · exact Or.inr (Or.inl heq)
      · exact Or.inr (Or.inr ⟨h, hgt⟩)

@[simp] theorem mem_erase : y ∈ s.erase x ↔ y ∈ s ∧ y ≠ x := by
  change y ∈ s.toList.filter (· ≠ x) ↔ y ∈ s.toList ∧ y ≠ x
  simp

@[simp] theorem mem_below : y ∈ s.below x ↔ y ∈ s ∧ y < x := by
  change y ∈ s.toList.filter (· < x) ↔ y ∈ s.toList ∧ y < x
  simp

@[simp] theorem mem_dropBelow : y ∈ s.dropBelow x ↔ y ∈ s ∧ x ≤ y := by
  change y ∈ s.toList.filter (x ≤ ·) ↔ y ∈ s.toList ∧ x ≤ y
  simp

theorem below_sorted (x : α) : (s.below x).Pairwise (· < ·) :=
  s.sorted.filter _

theorem below_nodup : (s.below x).Nodup :=
  (below_sorted x).imp fun h => ne_of_lt h

/-- In an increasing list the elements before `x` are a first part, and the rest are the others. -/
theorem filter_lt_eq_take {x : α} :
    ∀ {l : List α}, l.Pairwise (· < ·) →
      l.filter (· < x) = l.take (l.findIdx (x ≤ ·)) ∧ l.filter (x ≤ ·) = l.drop (l.findIdx (x ≤ ·))
  | [], _ => ⟨rfl, rfl⟩
  | y :: l, h => by
    obtain ⟨hy, hl⟩ := List.pairwise_cons.mp h
    obtain ⟨htake, hdrop⟩ := filter_lt_eq_take (x := x) hl
    by_cases hxy : x ≤ y
    · -- the rest is behind `y`, so nothing is before `x`
      have hrest : ∀ z ∈ l, x ≤ z := fun z hz => hxy.trans (hy z hz).le
      have hnone : l.filter (· < x) = [] :=
        List.filter_eq_nil_iff.mpr fun z hz => by simpa using hrest z hz
      have hall : l.filter (x ≤ ·) = l :=
        List.filter_eq_self.mpr fun z hz => by simpa using hrest z hz
      simp [List.findIdx_cons, hxy, hnone, hall]
    · simp [List.findIdx_cons, hxy, not_le.mp hxy, htake, hdrop]

/-- An iteration up to the lower bound of `x` visits `below x`. -/
theorem below_eq_take (x : α) : s.below x = s.toList.take (s.lowerBound x) :=
  (filter_lt_eq_take s.sorted).1

/-- Erasing that range leaves `dropBelow x`. -/
theorem dropBelow_eq_drop (x : α) : (s.dropBelow x).toList = s.toList.drop (s.lowerBound x) :=
  (filter_lt_eq_take s.sorted).2

/-- The lower bound cuts the set in two. -/
theorem below_append_dropBelow (x : α) : s.below x ++ (s.dropBelow x).toList = s.toList := by
  rw [below_eq_take, dropBelow_eq_drop, List.take_append_drop]

/-- Only the empty set has no first element. -/
theorem min?_eq_none_iff : s.min? = none ↔ ∀ y, y ∉ s := by
  unfold min?
  rw [List.head?_eq_none_iff, List.eq_nil_iff_forall_not_mem]
  exact Iff.rfl

theorem min?_mem (h : s.min? = some x) : x ∈ s :=
  List.mem_of_head? h

/-- The first element is the least. -/
theorem min?_le (h : s.min? = some x) (hy : y ∈ s) : x ≤ y := by
  obtain ⟨l, hl⟩ := List.head?_eq_some_iff.mp h
  have hsorted := s.sorted
  change y ∈ s.toList at hy
  rw [hl] at hsorted hy
  rcases List.mem_cons.mp hy with rfl | hy
  · exact le_rfl
  · exact ((List.pairwise_cons.mp hsorted).1 y hy).le

end OrderedSet

end Tmuduo
