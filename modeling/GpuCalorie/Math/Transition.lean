/-
# Labelled transition systems and their invariants

A state machine is given by its initial states and a labelled step relation.
`Reachable` is the set of states of its finite runs, and `Reachable.invariant`
is the only induction over runs the developments below it need: an invariant is
a predicate of the initial states that every step preserves.

A run "all of whose steps meet a condition" is a run of the `restrict`ed system,
so conditional safety is ordinary safety of a smaller system. Deterministic
partial and failing step functions give systems by `ofStep`, and `exec` replays a
list of labels on such a function, which is how a concrete run is exhibited.
-/

import GpuCalorie.Math.Outcome
import Mathlib.Logic.Relation

namespace GpuCalorie.Math

universe u v w

/-- A labelled transition system: initial states and labelled steps. -/
structure TransitionSystem (σ : Type u) (α : Type v) where
  /-- The states a run may start in. -/
  init : σ → Prop
  /-- `step s a t`: the label `a` takes the state `s` to `t`. -/
  step : σ → α → σ → Prop

namespace TransitionSystem

variable {σ : Type u} {α : Type v} {T : TransitionSystem σ α} {init : σ → Prop}
  {guard : σ → α → Prop} {s t : σ} {I : σ → Prop}

/-- The states of the finite runs of a transition system. -/
inductive Reachable (T : TransitionSystem σ α) : σ → Prop
  | init {s : σ} (start : T.init s) : Reachable T s
  | step {s t : σ} {a : α} (prior : Reachable T s) (taken : T.step s a t) : Reachable T t

theorem Reachable.invariant (start : ∀ s, T.init s → I s)
    (preserved : ∀ s a t, T.Reachable s → I s → T.step s a t → I t) {s : σ}
    (reached : T.Reachable s) : I s := by
  induction reached with
  | init h => exact start _ h
  | step prior taken ih => exact preserved _ _ _ prior ih taken

/-- The same system with only the steps that meet a condition on the state before
the step and its label. -/
def restrict (T : TransitionSystem σ α) (guard : σ → α → Prop) : TransitionSystem σ α where
  init := T.init
  step s a t := guard s a ∧ T.step s a t

theorem Reachable.restrict (hguard : ∀ s a, guard s a) {s : σ}
    (reached : T.Reachable s) : (T.restrict guard).Reachable s := by
  induction reached with
  | init h => exact .init h
  | step _ taken ih => exact .step ih ⟨hguard _ _, taken⟩

theorem Reachable.restrict_mono {guard guard' : σ → α → Prop}
    (himp : ∀ s a, guard s a → guard' s a) {s : σ}
    (reached : (T.restrict guard).Reachable s) : (T.restrict guard').Reachable s := by
  induction reached with
  | init h => exact .init h
  | step _ taken ih => exact .step ih ⟨himp _ _ taken.1, taken.2⟩

/-- The system of a deterministic step function that may refuse a label. -/
def ofStep (init : σ → Prop) (step : σ → α → Option σ) : TransitionSystem σ α where
  init := init
  step s a t := step s a = some t

/-- Replay a list of labels on a step function. -/
def exec (step : σ → α → Option σ) : σ → List α → Option σ
  | s, [] => some s
  | s, a :: rest => (step s a).bind fun t => exec step t rest

theorem Reachable.exec {step : σ → α → Option σ} (labels : List α)
    (reached : (ofStep init step).Reachable s)
    (replayed : TransitionSystem.exec step s labels = some t) :
    (ofStep init step).Reachable t := by
  induction labels generalizing s with
  | nil =>
      cases replayed
      exact reached
  | cons a rest ih =>
      obtain ⟨next, taken, later⟩ := Option.bind_eq_some_iff.mp replayed
      exact ih (.step reached taken) later

/-- Replay a list of labels, checking a condition before every step. -/
def execGuarded (guard : σ → α → Prop) [∀ s a, Decidable (guard s a)] (step : σ → α → Option σ) :
    σ → List α → Option σ
  | s, [] => some s
  | s, a :: rest =>
      if guard s a then (step s a).bind fun t => execGuarded guard step t rest else none

theorem Reachable.execGuarded {step : σ → α → Option σ}
    [∀ s a, Decidable (guard s a)] (labels : List α)
    (reached : ((ofStep init step).restrict guard).Reachable s)
    (replayed : TransitionSystem.execGuarded guard step s labels = some t) :
    ((ofStep init step).restrict guard).Reachable t := by
  induction labels generalizing s with
  | nil =>
      cases replayed
      exact reached
  | cons a rest ih =>
      rw [TransitionSystem.execGuarded] at replayed
      split at replayed
      case isTrue allowed =>
        obtain ⟨next, taken, later⟩ := Option.bind_eq_some_iff.mp replayed
        exact ih (.step reached ⟨allowed, taken⟩) later
      case isFalse => cases replayed

/-! ## Steps that may fail -/

variable {ε : Type w} {step : σ → α → Except ε σ} {enabled : σ → α → Prop}

/-- The system of a step function that may fail: a failure is a state without steps. A
label may be taken only where it is enabled. -/
def ofExcept (init : σ → Prop) (enabled : σ → α → Prop) (step : σ → α → Except ε σ) :
    TransitionSystem (Except ε σ) α where
  init r := ∃ s, r = .ok s ∧ init s
  step r a t := ∃ s, r = .ok s ∧ enabled s a ∧ step s a = t

/-- A condition on the steps out of states that are no failures. -/
def onOk (guard : σ → α → Prop) : Except ε σ → α → Prop
  | .ok s, a => guard s a
  | .error _, _ => True

theorem Reachable.invariant_ofExcept {F : ε → Prop} (start : ∀ s, init s → I s)
    (preserved : ∀ s a, I s → guard s a → enabled s a → OkOr I F (step s a))
    {r : Except ε σ} (reached : ((ofExcept init enabled step).restrict (onOk guard)).Reachable r) :
    OkOr I F r := by
  refine reached.invariant ?_ ?_
  · rintro _ ⟨s, rfl, hs⟩
    exact start s hs
  · rintro _ a _ - hI ⟨hguard, s, rfl, henabled, rfl⟩
    exact preserved s a hI hguard henabled

theorem Reachable.invariant_ofExcept_all {F : ε → Prop} (start : ∀ s, init s → I s)
    (preserved : ∀ s a, I s → enabled s a → OkOr I F (step s a)) {r : Except ε σ}
    (reached : (ofExcept init enabled step).Reachable r) : OkOr I F r := by
  have hall : ((ofExcept init enabled step).restrict (onOk fun _ _ => True)).Reachable r := by
    apply reached.restrict
    intro r a
    cases r <;> trivial
  exact hall.invariant_ofExcept start fun s a hI _ henabled => preserved s a hI henabled

/-- Replay a list of labels on a step function that may fail, where they are enabled. -/
def execOk (enabled : σ → α → Prop) [∀ s a, Decidable (enabled s a)] (step : σ → α → Except ε σ) :
    σ → List α → Option σ
  | s, [] => some s
  | s, a :: rest =>
      if enabled s a then
        match step s a with
        | .ok t => execOk enabled step t rest
        | .error _ => none
      else none

/-- A condition on the steps of a replay that do not fail. -/
def AlongOk (step : σ → α → Except ε σ) (P : σ → α → Prop) : σ → List α → Prop
  | _, [] => True
  | s, a :: rest => ∀ t, step s a = .ok t → P s a ∧ AlongOk step P t rest

theorem alongOk_congr {P Q : σ → α → Prop}
    (h : ∀ s a t, step s a = .ok t → (P s a ↔ Q s a)) (s : σ) (labels : List α) :
    AlongOk step P s labels ↔ AlongOk step Q s labels := by
  induction labels generalizing s with
  | nil => exact Iff.rfl
  | cons a rest ih =>
      exact forall_congr' fun t => forall_congr' fun ht => and_congr (h s a t ht) (ih t)

theorem Reachable.execOk [∀ s a, Decidable (enabled s a)] (labels : List α)
    (reached : (ofExcept init enabled step).Reachable (.ok s))
    (replayed : TransitionSystem.execOk enabled step s labels = some t) :
    (ofExcept init enabled step).Reachable (.ok t) := by
  induction labels generalizing s with
  | nil =>
      cases replayed
      exact reached
  | cons a rest ih =>
      rw [TransitionSystem.execOk] at replayed
      split at replayed
      case isTrue allowed =>
        cases hstep : step s a with
        | ok next =>
            rw [hstep] at replayed
            exact ih (.step reached ⟨s, rfl, allowed, hstep⟩) replayed
        | error e =>
            rw [hstep] at replayed
            cases replayed
      case isFalse => cases replayed

theorem Reachable.execOk_of_imp {enabled check guard : σ → α → Prop}
    [∀ s a, Decidable (enabled s a)] [∀ s a, Decidable (check s a)]
    (labels : List α) (himp : ∀ s a, check s a → guard s a)
    (reached : ((ofExcept init enabled step).restrict (onOk guard)).Reachable (.ok s))
    (replayed : TransitionSystem.execOk (fun s a => check s a ∧ enabled s a) step s labels =
    some t) :
    ((ofExcept init enabled step).restrict (onOk guard)).Reachable (.ok t) := by
  induction labels generalizing s with
  | nil =>
      cases replayed
      exact reached
  | cons a rest ih =>
      rw [TransitionSystem.execOk] at replayed
      split at replayed
      case isTrue allowed =>
        cases hstep : step s a with
        | ok next =>
            rw [hstep] at replayed
            exact ih (.step reached ⟨himp _ _ allowed.1, s, rfl, allowed.2, hstep⟩) replayed
        | error e =>
            rw [hstep] at replayed
            cases replayed
      case isFalse => cases replayed

theorem Reachable.execOk_restrict {enabled guard : σ → α → Prop}
    [∀ s a, Decidable (enabled s a)] [∀ s a, Decidable (guard s a)] (labels : List α)
    (reached : ((ofExcept init enabled step).restrict (onOk guard)).Reachable (.ok s))
    (replayed : TransitionSystem.execOk (fun s a => guard s a ∧ enabled s a) step s labels =
    some t) :
    ((ofExcept init enabled step).restrict (onOk guard)).Reachable (.ok t) :=
  reached.execOk_of_imp labels (fun _ _ h => h) replayed

end TransitionSystem

end GpuCalorie.Math
