import Mathlib.Logic.Relation
import Mathlib.Tactic.Common

/-!
# Readers that can be resumed

A `Reader` takes steps on a state and the input it has not read. A step that goes on reads a
part of the input and does not depend on what follows it (`stable`), so it is the same step
when more input has arrived. Where there is no step, the reader stops : it lacks input, or it
is done.

`Reads.stops_append` is what makes a reader resumable. Wherever it got to on the input so far,
it stops on the longer input where it would have stopped had it seen all of it at once.
-/

set_option autoImplicit false

namespace Tmuduo

variable {σ β : Type*}

/-- One step of a reader, on its state and the unread input. -/
structure Reader (σ β : Type*) where
  step : σ → List β → Option (σ × List β)
  stable : ∀ {s t : σ} {xs rest : List β} (ys : List β),
    step s xs = some (t, rest) → step s (xs ++ ys) = some (t, rest ++ ys)
  shrinks : ∀ {s t : σ} {xs rest : List β}, step s xs = some (t, rest) → rest.length < xs.length

namespace Reader

variable (R : Reader σ β)

/-- Steps lead from `p` to `q`. -/
def Reads (p q : σ × List β) : Prop :=
  Relation.ReflTransGen (fun p q => R.step p.1 p.2 = some q) p q

/-- Steps lead from `p` to `q`, and there is no further one. -/
def Stops (p q : σ × List β) : Prop :=
  R.Reads p q ∧ R.step q.1 q.2 = none

variable {R}

theorem Reads.append {s t : σ} {xs rest : List β} (h : R.Reads (s, xs) (t, rest)) (ys : List β) :
    R.Reads (s, xs ++ ys) (t, rest ++ ys) := by
  generalize hp : (s, xs) = p at h
  induction h using Relation.ReflTransGen.head_induction_on generalizing s xs with
  | refl =>
    obtain ⟨rfl, rfl⟩ := Prod.mk.inj hp
    exact Relation.ReflTransGen.refl
  | head hstep _ ih =>
    subst hp
    exact Relation.ReflTransGen.head (R.stable ys hstep) (ih rfl)

/-- Where the reader stops from `p` on does not depend on how far it has been taken. -/
theorem Reads.stops_iff {p q r : σ × List β} (h : R.Reads p q) : R.Stops p r ↔ R.Stops q r := by
  induction h using Relation.ReflTransGen.head_induction_on with
  | refl => exact Iff.rfl
  | head hstep _ ih =>
    rw [← ih]
    constructor
    · rintro ⟨hreads, hnone⟩
      rcases Relation.ReflTransGen.cases_head hreads with rfl | ⟨c, hc, hreads⟩
      · rw [hstep] at hnone
        cases hnone
      · obtain rfl := Option.some.inj (hstep.symm.trans hc)
        exact ⟨hreads, hnone⟩
    · rintro ⟨hreads, hnone⟩
      exact ⟨Relation.ReflTransGen.head hstep hreads, hnone⟩

theorem Stops.of_none {p : σ × List β} (h : R.step p.1 p.2 = none) : R.Stops p p :=
  ⟨Relation.ReflTransGen.refl, h⟩

theorem Stops.unique {p q r : σ × List β} (hq : R.Stops p q) (hr : R.Stops p r) : r = q := by
  rcases Relation.ReflTransGen.cases_head (hq.1.stops_iff.mp hr).1 with rfl | ⟨c, hc, -⟩
  · rfl
  · rw [hq.2] at hc
    cases hc

/-- A reader that is resumed on more input stops where it stops on the whole input. -/
theorem Reads.stops_append {s t : σ} {xs rest : List β} (h : R.Reads (s, xs) (t, rest))
    (ys : List β) (q : σ × List β) : R.Stops (t, rest ++ ys) q ↔ R.Stops (s, xs ++ ys) q :=
  (h.append ys).stops_iff.symm

end Reader

end Tmuduo
