/-
# Outcomes of computations that may fail

`OkOr P F x` says of a computation that its result has the property `P`, or that it fails
in a way `F` allows. It is a Hoare triple without a state: the rules below are its
consequence rule, and one for each way computations are put together. Two computations
are compared by a view of their results, which has a rule of the same kind.
-/

import Mathlib.Logic.Basic

namespace GpuCalorie.Math

universe u v

variable {α β : Type u} {ε : Type v} {f : α → Except ε β}

/-- A property of results and another one of failures. -/
def OkOr (P : α → Prop) (F : ε → Prop) : Except ε α → Prop
  | .ok a => P a
  | .error e => F e

namespace OkOr

variable {P : α → Prop} {Q : β → Prop} {F G : ε → Prop} {x : Except ε α}

theorem intro (hok : ∀ a, x = .ok a → P a) (herror : ∀ e, x = .error e → F e) : OkOr P F x := by
  cases x with
  | ok a => exact hok a rfl
  | error e => exact herror e rfl

section

variable (h : OkOr P F x)
include h

theorem of_ok {a : α} (hx : x = .ok a) : P a := by
  rw [hx] at h
  exact h

theorem of_error {e : ε} (hx : x = .error e) : F e := by
  rw [hx] at h
  exact h

theorem mono {P' : α → Prop} (hok : ∀ a, P a → P' a) (herror : ∀ e, F e → G e) : OkOr P' G x := by
  cases x with
  | ok a => exact hok a h
  | error e => exact herror e h

theorem imp {P' : α → Prop} (hok : ∀ a, P a → P' a) : OkOr P' F x :=
  h.mono hok fun _ he => he

theorem bind (hf : ∀ a, P a → OkOr Q F (f a)) : OkOr Q F (x >>= f) := by
  cases x with
  | ok a => exact hf a h
  | error e => exact h

theorem bind_eq (hf : ∀ a, x = .ok a → P a → OkOr Q F (f a)) : OkOr Q F (x >>= f) := by
  cases x with
  | ok a => exact hf a rfl h
  | error e => exact h

end

theorem bind_any (hf : ∀ a, OkOr Q (fun _ => True) (f a)) :
    OkOr Q (fun _ => True) (x >>= f) := by
  cases x with
  | ok a => exact hf a
  | error e => trivial

theorem ite {p : Prop} [Decidable p] {y : Except ε α} (hpos : p → OkOr P F x)
    (hneg : ¬ p → OkOr P F y) : OkOr P F (if p then x else y) := by
  by_cases hp : p
  · rw [if_pos hp]
    exact hpos hp
  · rw [if_neg hp]
    exact hneg hp

theorem mapError {ζ : Type v} {f : ε → ζ} {H : ζ → Prop} (h : OkOr P (fun e => H (f e)) x) :
    OkOr P H (x.mapError f) := by
  cases x with
  | ok a => exact h
  | error e => exact h

end OkOr

theorem bind_eq_ok {x : Except ε α} {b : β} : x >>= f = .ok b ↔ ∃ a, x = .ok a ∧ f a = .ok b := by
  cases x with
  | ok a =>
    constructor
    · intro h
      exact ⟨a, rfl, h⟩
    · rintro ⟨a', ha, hb⟩
      cases ha
      exact hb
  | error e =>
    constructor
    · intro h
      exact nomatch h
    · rintro ⟨a, ha, _⟩
      exact nomatch ha

theorem pure_eq_ok {a b : α} : (pure a : Except ε α) = .ok b ↔ a = b :=
  ⟨Except.ok.inj, congrArg Except.ok⟩

theorem guarded_eq_ok {q : Prop} [Decidable q] {e : ε} {x : Except ε β}
    {b : β} : (if q then throw e >>= f else x) = .ok b ↔ ¬ q ∧ x = .ok b := by
  by_cases hq : q
  · rw [if_pos hq]
    constructor
    · rintro ⟨⟩
    · rintro ⟨hnot, _⟩
      exact absurd hq hnot
  · rw [if_neg hq, and_iff_right hq]

theorem map_eq_ok {x : Except ε α} {f : α → β} {b : β} :
    f <$> x = .ok b ↔ ∃ a, x = .ok a ∧ f a = b := by
  cases x with
  | ok a =>
    constructor
    · intro h
      exact ⟨a, rfl, Except.ok.inj h⟩
    · rintro ⟨a', ha, rfl⟩
      cases ha
      rfl
  | error e =>
    constructor
    · intro h
      exact nomatch h
    · rintro ⟨a, ha, _⟩
      exact nomatch ha

/-! ## Two computations with one view of their results -/

section View

variable {γ : Type u} {δ : Type u} {x y : Except ε α} {p : α → γ} {q : β → δ}

theorem map_bind_congr {f g : α → Except ε β} (h : x.map p = y.map p)
    (hf : ∀ a b, p a = p b → (f a).map q = (g b).map q) :
    (x >>= f).map q = (y >>= g).map q := by
  cases x with
  | ok a =>
      cases y with
      | ok b => exact hf a b (Except.ok.inj h)
      | error e => exact nomatch h
  | error e =>
      cases y with
      | ok b => exact nomatch h
      | error e' =>
          have heq : e = e' := Except.error.inj h
          rw [heq]
          rfl

end View

end GpuCalorie.Math
