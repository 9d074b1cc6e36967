/-
# Threads that share a mutex

A thread is what it still has to do: a list of instructions. Some of them acquire a mutex that
is not recursive or release it, and others are to be run only with the mutex or only without
it. A list of instructions is `Disciplined` if this is so when they are run one after the other,
and `Keeps` says so of all threads and of the one that holds the mutex. The rules below are for
the steps of a thread.
-/

import Mathlib.Logic.Function.Basic
import Mathlib.Tactic.Common

namespace GpuCalorie.Math

universe u v

/-- What an instruction has to do with the mutex. -/
inductive MutexUse
  | acquire
  | release
  /-- It is run by the thread that holds the mutex. -/
  | inside
  /-- It is run by a thread that does not hold the mutex. -/
  | outside
  | any
  deriving DecidableEq

variable {ι : Type u} {τ : Type v} (use : ι → MutexUse)

/-- The mutex is acquired when it is not held and released when it is, for a thread that holds
it or does not hold it at first, and does not hold it in the end. -/
def Disciplined : Bool → List ι → Prop
  | held, [] => held = false
  | held, i :: rest => match use i with
    | .acquire => held = false ∧ Disciplined true rest
    | .release => held = true ∧ Disciplined false rest
    | .inside => held = true ∧ Disciplined held rest
    | .outside => held = false ∧ Disciplined held rest
    | .any => Disciplined held rest

/-- All threads are disciplined. -/
def Keeps [DecidableEq τ] (holder : Option τ) (program : τ → List ι) : Prop :=
  ∀ t, Disciplined use (decide (holder = some t)) (program t)

namespace Disciplined

variable {use} {held : Bool} {i : ι} {p q rest : List ι}

theorem append (hp : Disciplined use held p) (hq : Disciplined use false q) :
    Disciplined use held (p ++ q) := by
  induction p generalizing held with
  | nil =>
      cases (hp : held = false)
      exact hq
  | cons i p ih =>
      rw [List.cons_append, Disciplined] at *
      cases huse : use i <;> rw [huse] at hp
      · exact ⟨hp.1, ih hp.2⟩
      · exact ⟨hp.1, ih hp.2⟩
      · exact ⟨hp.1, ih hp.2⟩
      · exact ⟨hp.1, ih hp.2⟩
      · exact ih hp

variable (h : Disciplined use held (i :: rest))
include h

theorem acquire (huse : use i = .acquire) : held = false ∧ Disciplined use true rest := by
  rwa [Disciplined, huse] at h

theorem release (huse : use i = .release) : held = true ∧ Disciplined use false rest := by
  rwa [Disciplined, huse] at h

theorem tail (hacquire : use i ≠ .acquire)
    (hrelease : use i ≠ .release) : Disciplined use held rest := by
  rw [Disciplined] at h
  cases huse : use i <;> rw [huse] at h
  · exact absurd huse hacquire
  · exact absurd huse hrelease
  · exact h.2
  · exact h.2
  · exact h

end Disciplined

namespace Keeps

variable {use} [DecidableEq τ] {holder : Option τ} {program : τ → List ι} {t : τ} {i : ι}
  {rest : List ι} (h : Keeps use holder program) {p : List ι}
include h

theorem not_acquire (hholder : holder = some t)
    (hprogram : program t = i :: rest) : use i ≠ .acquire := by
  intro huse
  have hdisciplined := h t
  rw [hprogram, decide_eq_true hholder] at hdisciplined
  exact Bool.noConfusion (hdisciplined.acquire huse).1

theorem update (hp : Disciplined use (decide (holder = some t)) p) :
    Keeps use holder (Function.update program t p) := by
  intro t'
  by_cases heq : t' = t
  · rw [heq, Function.update_self]
    exact hp
  · rw [Function.update_of_ne heq]
    exact h t'

theorem call (hidle : program t = [])
    (hp : Disciplined use false p) : Keeps use holder (Function.update program t p) := by
  have hfree := h t
  rw [hidle] at hfree
  exact h.update ((show decide (holder = some t) = false from hfree) ▸ hp)

theorem replace (hprogram : program t = i :: rest)
    (hp : ∀ held, Disciplined use held (i :: rest) → Disciplined use held p) :
    Keeps use holder (Function.update program t p) :=
  h.update (hp _ (hprogram ▸ h t))

omit h in
theorem acquire (h : Keeps use none program) (hprogram : program t = i :: rest)
    (huse : use i = .acquire) : Keeps use (some t) (Function.update program t rest) := by
  intro t'
  have hdisciplined := h t'
  by_cases heq : t' = t
  · rw [heq, hprogram] at hdisciplined
    rw [heq, Function.update_self, decide_eq_true rfl]
    exact (hdisciplined.acquire huse).2
  · have hother : ¬ (some t = some t') := fun hsame => heq (Option.some.inj hsame).symm
    rw [Function.update_of_ne heq, decide_eq_false hother]
    exact hdisciplined

theorem release (hprogram : program t = i :: rest)
    (huse : use i = .release) : Keeps use none (Function.update program t rest) := by
  have hself := h t
  rw [hprogram] at hself
  obtain ⟨hholder, hrest⟩ := hself.release huse
  have hholds := of_decide_eq_true hholder
  intro t'
  by_cases heq : t' = t
  · rw [heq, Function.update_self]
    exact hrest
  · have hother : ¬ holder = some t' := fun hsame =>
      heq (Option.some.inj (hsame.symm.trans hholds))
    have hdisciplined := h t'
    rw [decide_eq_false hother] at hdisciplined
    rw [Function.update_of_ne heq]
    exact hdisciplined

end Keeps

end GpuCalorie.Math
