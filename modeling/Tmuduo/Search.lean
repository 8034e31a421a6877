import Mathlib.Data.List.Basic
import Mathlib.Data.List.Infix
import Mathlib.Tactic.Common

/-!
# Searching a sequence

`search pat xs` is the position of the first occurrence of `pat` in `xs`, as `std::search`
finds it. More input does not move an occurrence that has been found (`search_append`), and
it lies where the text before it ends, if the first element of `pat` is not in that text
(`search_of_not_mem`). `std::find` is `List.idxOf`, which is the length when there is no
occurrence.
-/

set_option autoImplicit false

namespace Tmuduo

variable {α : Type*} [DecidableEq α]

/-- The position of the first occurrence of `pat`. -/
def search (pat : List α) : List α → Option ℕ
  | [] => if pat = [] then some 0 else none
  | x :: xs => if pat <+: x :: xs then some 0 else (search pat xs).map (· + 1)

theorem search_spec {pat : List α} :
    ∀ {xs : List α} {i : ℕ}, search pat xs = some i → pat <+: xs.drop i
  | [], i, h => by
    unfold search at h
    split_ifs at h with hpat
    rw [hpat]
    exact List.nil_prefix
  | x :: xs, i, h => by
    unfold search at h
    split_ifs at h with hpat
    · obtain rfl := Option.some.inj h
      exact hpat
    · obtain ⟨j, hj, rfl⟩ := Option.map_eq_some_iff.mp h
      rw [List.drop_succ_cons]
      exact search_spec hj

theorem search_le {pat xs : List α} {i : ℕ} (h : search pat xs = some i) (hpat : pat ≠ []) :
    i + pat.length ≤ xs.length := by
  have hlen := (search_spec h).length_le
  have hpos := List.length_pos_iff.mpr hpat
  rw [List.length_drop] at hlen
  omega

/-- An occurrence stays the first one when more input arrives. -/
theorem search_append {pat : List α} (ys : List α) :
    ∀ {xs : List α} {i : ℕ}, search pat xs = some i → search pat (xs ++ ys) = some i
  | [], i, h => by
    unfold search at h
    split_ifs at h with hpat
    obtain rfl := Option.some.inj h
    subst hpat
    cases ys <;> simp [search]
  | x :: xs, i, h => by
    unfold search at h
    rw [List.cons_append, search]
    split_ifs at h with hpat
    · obtain rfl := Option.some.inj h
      exact if_pos (hpat.trans (List.prefix_append (x :: xs) ys))
    · obtain ⟨j, hj, rfl⟩ := Option.map_eq_some_iff.mp h
      have hfound := search_append ys hj
      by_cases hpat' : pat <+: x :: (xs ++ ys)
      · refine absurd (List.prefix_of_prefix_length_le hpat' ?_ ?_) hpat
        · exact List.prefix_append (x :: xs) ys
        · have hlen := (search_spec hj).length_le
          rw [List.length_drop] at hlen
          rw [List.length_cons]
          omega
      · rw [if_neg hpat', hfound]
        rfl

theorem search_of_not_mem {p : α} (ps rest : List α) :
    ∀ {line : List α}, p ∉ line → search (p :: ps) (line ++ (p :: ps ++ rest)) = some line.length
  | [], _ => if_pos (List.prefix_append (p :: ps) rest)
  | x :: line, h => by
    have hx : ¬p :: ps <+: x :: (line ++ (p :: ps ++ rest)) := by
      intro hpre
      exact h (List.mem_cons.mpr (Or.inl (List.cons_prefix_cons.mp hpre).1))
    rw [List.cons_append, search, if_neg hx,
      search_of_not_mem ps rest fun hmem => h (List.mem_cons_of_mem x hmem)]
    rfl

/-- A part without the first element of the pattern is passed over. -/
theorem search_append_of_not_mem {p : α} (ps rest : List α) :
    ∀ {l : List α}, p ∉ l →
      search (p :: ps) (l ++ rest) = (search (p :: ps) rest).map (· + l.length)
  | [], _ => by simp
  | x :: l, h => by
    have hx : ¬p :: ps <+: x :: (l ++ rest) := by
      intro hpre
      exact h (List.mem_cons.mpr (Or.inl (List.cons_prefix_cons.mp hpre).1))
    rw [List.cons_append, search, if_neg hx,
      search_append_of_not_mem ps rest fun hmem => h (List.mem_cons_of_mem x hmem), Option.map_map]
    rfl

/-- So is a part in which a pattern of two elements does not occur, when what follows does not
start with the second one. -/
theorem search_append_of_not_infix {p p' : α} {rest : List α} (hrest : rest.head? ≠ some p') :
    ∀ {l : List α}, ¬[p, p'] <:+: l →
      search [p, p'] (l ++ rest) = (search [p, p'] rest).map (· + l.length)
  | [], _ => by simp
  | x :: l, h => by
    have hx : ¬[p, p'] <+: x :: (l ++ rest) := by
      intro hpre
      obtain ⟨rfl, hnext⟩ := List.cons_prefix_cons.mp hpre
      cases l with
      | nil =>
        cases rest with
        | nil => simp at hnext
        | cons y rest => exact hrest (congrArg some (List.cons_prefix_cons.mp hnext).1.symm)
      | cons y l =>
        obtain ⟨rfl, -⟩ := List.cons_prefix_cons.mp hnext
        exact h ⟨[], l, rfl⟩
    have htail : ¬[p, p'] <:+: l := fun hmem => h (List.infix_cons hmem)
    rw [List.cons_append, search, if_neg hx, search_append_of_not_infix hrest htail, Option.map_map]
    rfl

/-- There is no occurrence before the one that is found. -/
theorem not_infix_of_search {pat : List α} (hpat : pat ≠ []) :
    ∀ {xs : List α} {i : ℕ}, search pat xs = some i → ¬pat <:+: xs.take i
  | [], i, h => by
    rw [List.take_nil, List.infix_nil]
    exact hpat
  | x :: xs, i, h => by
    unfold search at h
    split_ifs at h with hx
    · obtain rfl := Option.some.inj h
      rw [List.take_zero, List.infix_nil]
      exact hpat
    · obtain ⟨j, hj, rfl⟩ := Option.map_eq_some_iff.mp h
      rw [List.take_succ_cons, List.infix_cons_iff, not_or]
      refine ⟨fun hpre => hx (hpre.trans ?_), not_infix_of_search hpat hj⟩
      rw [List.prefix_cons_inj]
      exact List.take_prefix j xs

/-- `std::find` stops at the first `x`. -/
theorem idxOf_append_cons {x : α} {l : List α} (h : x ∉ l) (r : List α) :
    (l ++ x :: r).idxOf x = l.length := by
  rw [List.idxOf_append_of_notMem h, List.idxOf_cons_self, Nat.add_zero]

/-- A list is cut at its first `x` in one way only. -/
theorem append_cons_inj {x : α} {l l' r r' : List α} (h : x ∉ l) (h' : x ∉ l')
    (heq : l ++ x :: r = l' ++ x :: r') : l = l' ∧ r = r' := by
  have hlen : l.length = l'.length := by
    rw [← idxOf_append_cons h r, heq, idxOf_append_cons h']
  obtain ⟨hl, hr⟩ := List.append_inj heq hlen
  exact ⟨hl, (List.cons.inj hr).2⟩

end Tmuduo
