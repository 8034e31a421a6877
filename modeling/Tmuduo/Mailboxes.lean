import Mathlib.Data.List.Basic
import Mathlib.Logic.Function.Basic
import Mathlib.Tactic.Common

/-!
# Queues of messages between parties

Each party of `L` has a queue. `post` puts a message at the end of a queue, and `take` removes the
first one. `about` is the part of a queue that satisfies a test, which for messages of one
conversation is all that an invariant of this conversation has to know : a message of another one
changes nothing (`about_post_of_ne`, `about_take_of_ne`).
-/

set_option autoImplicit false

namespace Tmuduo

/-- A queue for each party. -/
def Mailboxes (L μ : Type*) := L → List μ

namespace Mailboxes

variable {L μ : Type*}

def empty : Mailboxes L μ := fun _ => []

variable (q : Mailboxes L μ)

/-- The messages of the queue `ℓ` that satisfy `p`. -/
def about (p : μ → Bool) (ℓ : L) : List μ := (q ℓ).filter p

variable [DecidableEq L]

/-- A message at the end of the queue `ℓ`. -/
def post (ℓ : L) (m : μ) : Mailboxes L μ := Function.update q ℓ (q ℓ ++ [m])

/-- The first message of the queue `ℓ` is removed. -/
def take (ℓ : L) : Mailboxes L μ := Function.update q ℓ (q ℓ).tail

variable {q} {p : μ → Bool} {ℓ ℓ' : L} {m m' : μ}

@[simp] theorem post_self : q.post ℓ m ℓ = q ℓ ++ [m] := Function.update_self ..

theorem post_of_ne (h : ℓ' ≠ ℓ) : q.post ℓ m ℓ' = q ℓ' := Function.update_of_ne h ..

@[simp] theorem take_self : q.take ℓ ℓ = (q ℓ).tail := Function.update_self ..

theorem take_of_ne (h : ℓ' ≠ ℓ) : q.take ℓ ℓ' = q ℓ' := Function.update_of_ne h ..

/-- A post brings its message only. -/
theorem mem_of_mem_post (h : m' ∈ q.post ℓ m ℓ') : m' ∈ q ℓ' ∨ m' = m := by
  by_cases hℓ : ℓ' = ℓ
  · subst hℓ
    rw [post_self, List.mem_append, List.mem_singleton] at h
    exact h
  · rw [post_of_ne hℓ] at h
    exact .inl h

/-- What is left in a queue was in it. -/
theorem mem_of_mem_take (h : m' ∈ q.take ℓ ℓ') : m' ∈ q ℓ' := by
  by_cases hℓ : ℓ' = ℓ
  · subst hℓ
    rw [take_self] at h
    exact List.mem_of_mem_tail h
  · rwa [take_of_ne hℓ] at h

/-- A message of another conversation is not seen. -/
theorem about_post_of_ne (hp : p m = false) : (q.post ℓ m).about p ℓ' = q.about p ℓ' := by
  unfold about
  by_cases hℓ : ℓ' = ℓ
  · subst hℓ
    rw [post_self, List.filter_append, List.filter_singleton, hp]
    exact List.append_nil _
  · rw [post_of_ne hℓ]

/-- A message of the conversation is its last one, in its queue. -/
theorem about_post (hp : p m = true) :
    (q.post ℓ m).about p ℓ' = q.about p ℓ' ++ if ℓ' = ℓ then [m] else [] := by
  unfold about
  by_cases hℓ : ℓ' = ℓ
  · subst hℓ
    rw [post_self, List.filter_append, List.filter_singleton, hp, if_pos rfl]
    rfl
  · rw [post_of_ne hℓ, if_neg hℓ, List.append_nil]

theorem about_take_of_ne {rest : List μ} (hq : q ℓ = m :: rest) (hp : p m = false) :
    (q.take ℓ).about p ℓ' = q.about p ℓ' := by
  unfold about
  by_cases hℓ : ℓ' = ℓ
  · subst hℓ
    rw [take_self, hq, List.tail_cons, List.filter_cons_of_neg (by simp [hp])]
  · rw [take_of_ne hℓ]

/-- The message that is taken is the first of its conversation. -/
theorem about_take {rest : List μ} (hq : q ℓ = m :: rest) (hp : p m = true) :
    q.about p ℓ' = (if ℓ' = ℓ then [m] else []) ++ (q.take ℓ).about p ℓ' := by
  unfold about
  by_cases hℓ : ℓ' = ℓ
  · subst hℓ
    rw [take_self, hq, List.tail_cons, List.filter_cons_of_pos hp, if_pos rfl]
    rfl
  · rw [take_of_ne hℓ, if_neg hℓ, List.nil_append]

end Mailboxes

end Tmuduo
