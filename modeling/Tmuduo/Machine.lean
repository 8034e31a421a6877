import Mathlib.Data.List.Basic
import Mathlib.Data.List.Induction
import Mathlib.Tactic.Common

/-!
# Machines whose calls may be refused or fail

A `Machine` separates the two reasons a call does not happen. `enabled` is the contract of
the environment : the calls a client, a kernel or a scheduler may make in a state. `exec` is
the code : a new state, or a failure that the code does not survive (a failing assertion, a
dangling reference). `Machine.Run` chains enabled calls that succeed, so a theorem about
every run quantifies over the environment alone.

`Run.invariant` is the induction over a run. `Keeps.run` and `Keeps.safe` turn one step lemma
into a statement about runs and their safety, and `Refines` adds a pure specification to it.
`Run.restrict_iff` is for a property that one step keeps exactly under a condition on that
step : the property holds all along a run if and only if every step of the run meets the
condition. `Run.allSteps_iff` is the same for a property of the steps. `Machine.play` makes the
calls of a list, for runs on concrete input.
-/

set_option autoImplicit false

namespace Tmuduo

universe u

variable {σ τ ℓ ε : Type*}

/-! ## Assertions -/

/-- An assertion of the source : continue, or fail with `e`. -/
def check (p : Prop) [Decidable p] (e : ε) : Except ε Unit :=
  if p then .ok () else .error e

@[simp] theorem check_of {p : Prop} [Decidable p] (e : ε) (h : p) : check p e = .ok () :=
  if_pos h

@[simp] theorem check_of_not {p : Prop} [Decidable p] (e : ε) (h : ¬p) :
    check p e = .error e :=
  if_neg h

@[simp] theorem ok_bind {α β : Type u} (a : α) (f : α → Except ε β) :
    (Except.ok a >>= f) = f a :=
  rfl

theorem bind_eq_ok_iff {α β : Type u} {x : Except ε α} {f : α → Except ε β} {b : β} :
    (x >>= f) = .ok b ↔ ∃ a, x = .ok a ∧ f a = .ok b := by
  cases x with
  | error e =>
    constructor
    · rintro ⟨⟩
    · rintro ⟨a, ⟨⟩, -⟩
  | ok a =>
    constructor
    · intro h
      exact ⟨a, rfl, h⟩
    · rintro ⟨a, ⟨⟩, h⟩
      exact h

/-- A computation that ends with a value made from an earlier result. -/
theorem bind_pure_eq_ok_iff {α β : Type u} {x : Except ε α} {f : α → β} {b : β} :
    (x >>= fun a => pure (f a)) = .ok b ↔ ∃ a, x = .ok a ∧ b = f a := by
  rw [bind_eq_ok_iff]
  refine exists_congr fun a => and_congr_right fun _ => ?_
  exact ⟨fun h => (Except.ok.inj h).symm, fun h => congrArg Except.ok h.symm⟩

/-- A computation after an assertion. -/
theorem check_bind_eq_ok_iff {p : Prop} [Decidable p] {e : ε} {β : Type} {f : Unit → Except ε β}
    {b : β} : (check p e >>= f) = .ok b ↔ p ∧ f () = .ok b := by
  by_cases h : p
  · rw [check_of e h, ok_bind]
    exact ⟨fun hf => ⟨h, hf⟩, fun hf => hf.2⟩
  · rw [check_of_not e h]
    exact ⟨by rintro ⟨⟩, fun hf => absurd hf.1 h⟩

/-- A computation fails where its first part does, or after it. -/
theorem bind_eq_error_iff {α β : Type u} {x : Except ε α} {f : α → Except ε β} {e : ε} :
    (x >>= f) = .error e ↔ x = .error e ∨ ∃ a, x = .ok a ∧ f a = .error e := by
  cases x with
  | error e' =>
    constructor
    · rintro ⟨⟩
      exact .inl rfl
    · rintro (⟨⟨⟩⟩ | ⟨a, ⟨⟩, -⟩)
      rfl
  | ok a =>
    constructor
    · intro h
      exact .inr ⟨a, rfl, h⟩
    · rintro (⟨⟨⟩⟩ | ⟨a, ⟨⟩, h⟩)
      exact h

/-- A value made from an earlier result adds no failure. -/
theorem bind_pure_eq_error_iff {α β : Type u} {x : Except ε α} {f : α → β} {e : ε} :
    (x >>= fun a => pure (f a)) = .error e ↔ x = .error e := by
  rw [bind_eq_error_iff]
  exact ⟨fun h => h.resolve_right (by rintro ⟨a, -, ⟨⟩⟩), .inl⟩

theorem check_bind_eq_error_iff {p : Prop} [Decidable p] {e a : ε} {β : Type}
    {f : Unit → Except ε β} :
    (check p e >>= f) = .error a ↔ (¬p ∧ a = e) ∨ (p ∧ f () = .error a) := by
  by_cases h : p
  · rw [check_of e h, ok_bind]
    exact ⟨fun hf => .inr ⟨h, hf⟩, fun hf => (hf.resolve_left fun hn => hn.1 h).2⟩
  · rw [check_of_not e h]
    refine ⟨fun hf => .inl ⟨h, (Except.error.inj hf).symm⟩, ?_⟩
    rintro (⟨-, rfl⟩ | ⟨hp, -⟩)
    · rfl
    · exact absurd hp h

theorem mapError_eq_ok_iff {ε' α : Type*} {x : Except ε α} {f : ε → ε'} {a : α} :
    x.mapError f = .ok a ↔ x = .ok a := by
  cases x <;> simp [Except.mapError]

theorem map_eq_ok_iff {α β : Type*} {x : Except ε α} {f : α → β} {b : β} :
    x.map f = .ok b ↔ ∃ a, x = .ok a ∧ f a = b := by
  cases x <;> simp [Except.map]

@[simp] theorem except_pure {α : Type*} (a : α) : (pure a : Except ε α) = .ok a :=
  rfl

/-! ## Machines and runs -/

/-- A state machine. `enabled s l` : the environment may make the call `l` in `s`.
`exec s l` : what the call does. -/
structure Machine (σ ℓ ε : Type*) where
  enabled : σ → ℓ → Prop
  exec : σ → ℓ → Except ε σ

namespace Machine

variable (M : Machine σ ℓ ε)

/-- The calls `ls`, each enabled where it is made and none failing, lead from `s` to the
last argument. -/
inductive Run (s : σ) : List ℓ → σ → Prop
  | nil : Run s [] s
  | snoc {ls : List ℓ} {t u : σ} {l : ℓ} :
      Run s ls t → M.enabled t l → M.exec t l = .ok u → Run s (ls ++ [l]) u

/-- No enabled call fails, wherever a run from `s` leads. -/
def Safe (s : σ) : Prop :=
  ∀ ⦃ls t l⦄, M.Run s ls t → M.enabled t l → ∃ u, M.exec t l = .ok u

/-- `M` in an environment that makes the call `l` in `t` only when `P t l`. -/
def restrict (P : σ → ℓ → Prop) : Machine σ ℓ ε where
  enabled t l := M.enabled t l ∧ P t l
  exec := M.exec

instance [∀ s l, Decidable (M.enabled s l)] (P : σ → ℓ → Prop) [∀ s l, Decidable (P s l)] (s : σ)
    (l : ℓ) : Decidable ((M.restrict P).enabled s l) :=
  inferInstanceAs (Decidable (M.enabled s l ∧ P s l))

variable {M}

theorem run_nil_iff {s t : σ} : M.Run s [] t ↔ t = s := by
  constructor
  · intro h
    generalize hls : ([] : List ℓ) = ls at h
    cases h with
    | nil => rfl
    | snoc => simp at hls
  · rintro rfl
    exact .nil

theorem run_snoc_iff {s u : σ} {ls : List ℓ} {l : ℓ} :
    M.Run s (ls ++ [l]) u ↔ ∃ t, M.Run s ls t ∧ M.enabled t l ∧ M.exec t l = .ok u := by
  constructor
  · intro h
    generalize hls : ls ++ [l] = ls' at h
    cases h with
    | nil => simp at hls
    | snoc hr he hx =>
      obtain ⟨rfl, hl⟩ := List.append_inj' hls rfl
      obtain rfl := List.singleton_inj.mp hl
      exact ⟨_, hr, he, hx⟩
  · rintro ⟨t, hr, he, hx⟩
    exact .snoc hr he hx

/-- A property of the start that every call keeps holds wherever a run leads. -/
theorem Run.invariant {Inv : σ → Prop} {s t : σ} {ls : List ℓ} (h : M.Run s ls t)
    (start : Inv s)
    (step : ∀ ⦃t l u⦄, Inv t → M.enabled t l → M.exec t l = .ok u → Inv u) : Inv t := by
  induction h with
  | nil => exact start
  | snoc _ he hx ih => exact step ih he hx

/-- Make the calls `ls`, as long as they are enabled and succeed. -/
def play (M : Machine σ ℓ ε) [∀ s l, Decidable (M.enabled s l)] (s : σ) : List ℓ → Option σ
  | [] => some s
  | l :: ls =>
    if M.enabled s l then
      match M.exec s l with
      | .ok u => play M u ls
      | .error _ => none
    else none

theorem Run.trans {s t u : σ} {ls ls' : List ℓ} (h : M.Run s ls t) (h' : M.Run t ls' u) :
    M.Run s (ls ++ ls') u := by
  induction h' with
  | nil => rwa [List.append_nil]
  | snoc _ he hx ih =>
    rw [← List.append_assoc]
    exact .snoc ih he hx

theorem run_append_iff {s u : σ} {ls ls' : List ℓ} :
    M.Run s (ls ++ ls') u ↔ ∃ t, M.Run s ls t ∧ M.Run t ls' u := by
  refine ⟨fun h => ?_, fun ⟨t, ht, hu⟩ => ht.trans hu⟩
  induction ls' using List.reverseRecOn generalizing u with
  | nil => exact ⟨u, by rwa [List.append_nil] at h, .nil⟩
  | append_singleton ls' l ih =>
    rw [← List.append_assoc] at h
    obtain ⟨v, hv, he, hx⟩ := run_snoc_iff.mp h
    obtain ⟨t, ht, hv⟩ := ih hv
    exact ⟨t, ht, .snoc hv he hx⟩

/-- Where a property of the start is lost at the end of a run, one call of the run loses it. -/
theorem Run.exists_change {P : σ → Prop} {s t : σ} {ls : List ℓ} (h : M.Run s ls t) (start : P s)
    (stop : ¬P t) :
    ∃ pre l post u v, ls = pre ++ l :: post ∧ M.Run s pre u ∧ P u ∧ M.enabled u l ∧
      M.exec u l = .ok v ∧ ¬P v ∧ M.Run v post t := by
  induction h with
  | nil => exact absurd start stop
  | @snoc ls t u l hr he hx ih =>
    by_cases ht : P t
    · exact ⟨ls, l, [], t, u, rfl, hr, ht, he, hx, stop, .nil⟩
    · obtain ⟨pre, l', post, v, w, rfl, hv, hP, hve, hvx, hw, hpost⟩ := ih ht
      exact ⟨pre, l', post ++ [l], v, w, by simp, hv, hP, hve, hvx, hw, .snoc hpost he hx⟩

theorem Run.of_play [∀ s l, Decidable (M.enabled s l)] :
    ∀ {ls : List ℓ} {s t : σ}, M.play s ls = some t → M.Run s ls t
  | [], s, t, h => by
    obtain rfl := Option.some.inj h
    exact .nil
  | l :: ls, s, t, h => by
    unfold play at h
    split_ifs at h with he
    split at h
    · next u hx => exact (Run.snoc .nil he hx).trans (Run.of_play h)
    · cases h

/-- The calls of a run determine where it leads. -/
theorem Run.det {s t u : σ} {ls : List ℓ} (ht : M.Run s ls t) (hu : M.Run s ls u) : t = u := by
  induction ht generalizing u with
  | nil => exact (run_nil_iff.mp hu).symm
  | snoc _ _ hx ih =>
    obtain ⟨v, hv, -, hxv⟩ := run_snoc_iff.mp hu
    rw [← ih hv, hx] at hxv
    exact Except.ok.inj hxv

/-- Every enabled call succeeds and keeps `Inv`. -/
def Keeps (M : Machine σ ℓ ε) (Inv : σ → Prop) : Prop :=
  ∀ ⦃t l⦄, Inv t → M.enabled t l → ∃ u, M.exec t l = .ok u ∧ Inv u

theorem Keeps.run {Inv : σ → Prop} {s t : σ} {ls : List ℓ} (hM : M.Keeps Inv) (start : Inv s)
    (h : M.Run s ls t) : Inv t := by
  refine h.invariant start fun t l u ht he hx => ?_
  obtain ⟨u', hu', hinv⟩ := hM ht he
  obtain rfl := Except.ok.inj (hx.symm.trans hu')
  exact hinv

theorem Keeps.safe {Inv : σ → Prop} {s : σ} (hM : M.Keeps Inv) (start : Inv s) : M.Safe s := by
  intro ls t l hr he
  obtain ⟨u, hu, -⟩ := hM (hM.run start hr) he
  exact ⟨u, hu⟩

/-- Calls that are enabled wherever `Inv` holds can be made one after the other. -/
theorem Keeps.exists_run {Inv : σ → Prop} {s : σ} {ls : List ℓ} (hM : M.Keeps Inv) (start : Inv s)
    (henabled : ∀ l ∈ ls, ∀ t, Inv t → M.enabled t l) : ∃ t, M.Run s ls t := by
  induction ls using List.reverseRecOn with
  | nil => exact ⟨s, .nil⟩
  | append_singleton ls l ih =>
    obtain ⟨t, ht⟩ := ih fun l' hl' => henabled l' (List.mem_append_left _ hl')
    have hinv := hM.run start ht
    have he := henabled l (List.mem_append_right ls List.mem_cons_self) t hinv
    obtain ⟨u, hu, -⟩ := hM hinv he
    exact ⟨u, .snoc ht he hu⟩

theorem Run.restrict_mono {P Q : σ → ℓ → Prop} {s t : σ} {ls : List ℓ}
    (h : (M.restrict P).Run s ls t) (hPQ : ∀ t l, P t l → Q t l) : (M.restrict Q).Run s ls t := by
  induction h with
  | nil => exact .nil
  | snoc _ he hx ih => exact .snoc ih ⟨he.1, hPQ _ _ he.2⟩ hx

/-- A condition that every call meets is no restriction. -/
theorem Run.restrict_of_forall {P : σ → ℓ → Prop} {s t : σ} {ls : List ℓ} (h : M.Run s ls t)
    (hP : ∀ t l, P t l) : (M.restrict P).Run s ls t := by
  induction h with
  | nil => exact .nil
  | snoc _ he hx ih => exact .snoc ih ⟨he, hP _ _⟩ hx

theorem Run.of_restrict {P : σ → ℓ → Prop} {s t : σ} {ls : List ℓ}
    (h : (M.restrict P).Run s ls t) : M.Run s ls t := by
  induction h with
  | nil => exact .nil
  | snoc _ he hx ih => exact .snoc ih he.1 hx

/-- Let a call keep `Good` exactly when it meets `P`. Then `Good` holds all along a run if
and only if every call of the run meets `P`. -/
theorem Run.restrict_iff {Inv Good : σ → Prop} {P : σ → ℓ → Prop} {s t : σ} {ls : List ℓ}
    (h : M.Run s ls t) (start : Inv s) (good : Good s)
    (step : ∀ ⦃t l u⦄, Inv t → M.enabled t l → M.exec t l = .ok u → Inv u)
    (exact : ∀ ⦃t l u⦄, Inv t → Good t → M.enabled t l → M.exec t l = .ok u →
      (Good u ↔ P t l)) :
    (∀ pre post u, ls = pre ++ post → M.Run s pre u → Good u) ↔
      (M.restrict P).Run s ls t := by
  induction h with
  | nil =>
    refine ⟨fun _ => .nil, fun _ pre post u hls hu => ?_⟩
    obtain ⟨rfl, -⟩ := List.append_eq_nil_iff.mp hls.symm
    rwa [run_nil_iff.mp hu]
  | @snoc ls t u l hr he hx ih =>
    have hinv : Inv t := hr.invariant start step
    constructor
    · intro hall
      have hpre : (M.restrict P).Run s ls t :=
        ih.mp fun pre post v hls hv => hall pre (post ++ [l]) v (by simp [hls]) hv
      have ht : Good t := hall ls [l] t rfl hr
      have hu : Good u := hall (ls ++ [l]) [] u (by simp) (.snoc hr he hx)
      exact .snoc hpre ⟨he, (exact hinv ht he hx).mp hu⟩ hx
    · intro hP pre post v hls hv
      obtain ⟨t', hpre, ⟨-, hPl⟩, -⟩ := run_snoc_iff.mp hP
      obtain rfl : t = t' := hr.det hpre.of_restrict
      have hgood := ih.mpr hpre
      rcases List.eq_nil_or_concat post with rfl | ⟨post', y, rfl⟩
      · obtain rfl : ls ++ [l] = pre := by simpa using hls
        obtain rfl : u = v := (Run.snoc hr he hx).det hv
        exact (exact hinv (hgood ls [] t (by simp) hr) he hx).mpr hPl
      · have hlast : ls ++ [l] = pre ++ post' ++ [y] := by simpa using hls
        obtain ⟨hls', -⟩ := List.append_inj' hlast rfl
        exact hgood pre post' v hls' hv

/-- Every call of the run `ls` from `s` takes its state to one that `Q` relates to it. -/
def AllSteps (M : Machine σ ℓ ε) (Q : σ → ℓ → σ → Prop) (s : σ) (ls : List ℓ) : Prop :=
  ∀ ⦃pre l post t u⦄, ls = pre ++ l :: post → M.Run s pre t → M.exec t l = .ok u → Q t l u

/-- Under an invariant, let a call satisfy `Q` exactly when it meets `P`. Then all calls of a run
satisfy `Q` if and only if they all meet `P`. -/
theorem Run.allSteps_iff {Inv : σ → Prop} {Q : σ → ℓ → σ → Prop} {P : σ → ℓ → Prop} {s t : σ}
    {ls : List ℓ} (h : M.Run s ls t) (start : Inv s)
    (keeps : ∀ ⦃t l u⦄, Inv t → M.enabled t l → M.exec t l = .ok u → Inv u)
    (exact : ∀ ⦃t l u⦄, Inv t → M.enabled t l → M.exec t l = .ok u → (Q t l u ↔ P t l)) :
    M.AllSteps Q s ls ↔ (M.restrict P).Run s ls t := by
  induction h with
  | nil =>
    refine ⟨fun _ => .nil, fun _ pre l post t u hls => ?_⟩
    simp at hls
  | @snoc ls t u l hr he hx ih =>
    have hinv : Inv t := hr.invariant start keeps
    constructor
    · intro hall
      have hpre : (M.restrict P).Run s ls t := ih.mp fun pre l' post v w hls hv hw =>
        hall (by rw [hls, List.append_assoc, List.cons_append]) hv hw
      exact .snoc hpre ⟨he, (exact hinv he hx).mp (hall rfl hr hx)⟩ hx
    · intro hP pre l' post v w hls hv hw
      obtain ⟨t', hpre, ⟨-, hPl⟩, -⟩ := run_snoc_iff.mp hP
      obtain rfl : t = t' := hr.det hpre.of_restrict
      rcases List.eq_nil_or_concat post with rfl | ⟨post', y, rfl⟩
      · obtain ⟨rfl, hl⟩ := List.append_inj' hls rfl
        obtain rfl := List.singleton_inj.mp hl
        obtain rfl := hr.det hv
        exact (exact hinv he hw).mpr hPl
      · have hlast : ls ++ [l] = pre ++ l' :: post' ++ [y] := by simpa using hls
        obtain ⟨hls', -⟩ := List.append_inj' hlast rfl
        exact ih.mpr hpre hls' hv hw

/-! ## Refinement of a pure specification -/

/-- Every enabled call of `M` succeeds, keeps `Inv`, and does to `abs` of the state what
`spec` does. -/
structure Refines (M : Machine σ ℓ ε) (Inv : σ → Prop) (abs : σ → τ) (spec : τ → ℓ → τ) :
    Prop where
  step : ∀ t l, Inv t → M.enabled t l → ∃ u, M.exec t l = .ok u ∧ Inv u ∧ abs u = spec (abs t) l

variable {Inv : σ → Prop} {abs : σ → τ} {spec : τ → ℓ → τ}

theorem Refines.run (R : M.Refines Inv abs spec) {s t : σ} {ls : List ℓ} (start : Inv s)
    (h : M.Run s ls t) : Inv t ∧ abs t = ls.foldl spec (abs s) := by
  induction h with
  | nil => exact ⟨start, rfl⟩
  | snoc _ he hx ih =>
    obtain ⟨u, hu, hinv, habs⟩ := R.step _ _ ih.1 he
    obtain rfl := Except.ok.inj (hx.symm.trans hu)
    exact ⟨hinv, by rw [habs, ih.2, List.foldl_append, List.foldl_cons, List.foldl_nil]⟩

theorem Refines.keeps (R : M.Refines Inv abs spec) : M.Keeps Inv := by
  intro t l ht he
  obtain ⟨u, hu, hinv, -⟩ := R.step t l ht he
  exact ⟨u, hu, hinv⟩

theorem Refines.safe (R : M.Refines Inv abs spec) {s : σ} (start : Inv s) : M.Safe s :=
  R.keeps.safe start

end Machine

end Tmuduo
