/-
# Loops

The two loop shapes of imperative code, over any state and any failure type:
`countDown` and `countUp` visit the indices below a bound in a fixed order, and
`repeatWhile` repeats a body for as long as it asks for it. A counted loop has a
rule that carries an invariant from index to index; a repeated one has a rule that
also needs a measure which every further round decreases, and gives the number of
rounds after which the loop has surely ended.

A loop that does not end runs through a sequence whose elements determine the next. Such a
sequence comes to rest or comes back to an element that it has left, if it takes only finitely
many values; and it cannot do both.
-/

import Mathlib.Data.Fintype.Pigeonhole
import Mathlib.Data.Nat.Basic
import Mathlib.Data.Set.Finite.Range
import Mathlib.Tactic.Common

namespace GpuCalorie.Math

universe u v

variable {ε : Type u} {σ : Type v}

/-- Run a body for the indices `n - 1, …, 0`. -/
def countDown (body : ℕ → σ → Except ε σ) : ℕ → σ → Except ε σ
  | 0, s => .ok s
  | n + 1, s => do countDown body n (← body n s)

/-- Run a body for the indices `0, …, n - 1`. -/
def countUp (body : ℕ → σ → Except ε σ) : ℕ → σ → Except ε σ
  | 0, s => .ok s
  | n + 1, s => do body n (← countUp body n s)

/-- Run a body until it returns `false`, for at most as many rounds as there is fuel. -/
def repeatWhile (exhausted : ε) (body : σ → Except ε (σ × Bool)) : ℕ → σ → Except ε σ
  | 0, _ => .error exhausted
  | fuel + 1, s => do
      let (next, again) ← body s
      if again then repeatWhile exhausted body fuel next else pure next

variable {body : ℕ → σ → Except ε σ} {s : σ}

theorem countDown_ok {I : ℕ → σ → Prop} (n : ℕ)
    (step : ∀ k < n, ∀ s, I (k + 1) s → ∃ t, body k s = .ok t ∧ I k t) (start : I n s) :
    ∃ t, countDown body n s = .ok t ∧ I 0 t := by
  induction n generalizing s with
  | zero => exact ⟨s, rfl, start⟩
  | succ n ih =>
      obtain ⟨next, hbody, hnext⟩ := step n (Nat.lt_succ_self n) s start
      obtain ⟨t, hrest, ht⟩ := ih (fun k hk => step k (Nat.lt_succ_of_lt hk)) hnext
      exact ⟨t, by rw [countDown, hbody]; exact hrest, ht⟩

theorem countUp_ok {I : ℕ → σ → Prop} (n : ℕ)
    (step : ∀ k < n, ∀ s, I k s → ∃ t, body k s = .ok t ∧ I (k + 1) t) (start : I 0 s) :
    ∃ t, countUp body n s = .ok t ∧ I n t := by
  induction n with
  | zero => exact ⟨s, rfl, start⟩
  | succ n ih =>
      obtain ⟨prior, hprior, hI⟩ := ih fun k hk => step k (Nat.lt_succ_of_lt hk)
      obtain ⟨t, hbody, ht⟩ := step n (Nat.lt_succ_self n) prior hI
      exact ⟨t, by rw [countUp, hprior]; exact hbody, ht⟩

theorem repeatWhile_ok (exhausted : ε) {body : σ → Except ε (σ × Bool)} {I Q : σ → Prop}
    (measure : σ → ℕ)
    (round : ∀ s, I s → ∃ t again, body s = .ok (t, again) ∧ I t ∧
      if again then measure t < measure s else Q t)
    (fuel : ℕ) (enough : measure s < fuel) (start : I s) :
    ∃ t, repeatWhile exhausted body fuel s = .ok t ∧ I t ∧ Q t := by
  induction fuel generalizing s with
  | zero => exact absurd enough (Nat.not_lt_zero _)
  | succ fuel ih =>
      obtain ⟨next, again, hbody, hI, hagain⟩ := round s start
      have hunfold : repeatWhile exhausted body (fuel + 1) s =
          if again then repeatWhile exhausted body fuel next else .ok next := by
        rw [repeatWhile, hbody]
        rfl
      rw [hunfold]
      cases again with
      | true =>
          have hless : measure next < measure s := by simpa using hagain
          exact ih (Nat.lt_of_lt_of_le hless (Nat.le_of_lt_succ enough)) hI
      | false => exact ⟨next, rfl, hI, by simpa using hagain⟩

/-! ## Sequences whose elements determine the next -/

section Orbit

variable {S : Type u} {σ : ℕ → S} {next : S → S} {i j n : ℕ}

/-- The sequence comes to rest. -/
def Rests (σ : ℕ → S) : Prop :=
  ∃ n, σ (n + 1) = σ n

/-- The sequence comes back to an element that it has left. -/
def Returns (σ : ℕ → S) : Prop :=
  ∃ i j, i < j ∧ σ j = σ i ∧ σ (i + 1) ≠ σ i

variable (hnext : ∀ n, σ (n + 1) = next (σ n))
include hnext

theorem orbit_add (heq : σ j = σ i) (k : ℕ) : σ (j + k) = σ (i + k) := by
  induction k with
  | zero => exact heq
  | succ k ih => rw [← Nat.add_assoc, ← Nat.add_assoc, hnext, hnext, ih]

theorem orbit_eq_of_rest (hrest : σ (n + 1) = σ n) {m : ℕ} (hle : n ≤ m) : σ m = σ n := by
  induction m, hle using Nat.le_induction with
  | base => rfl
  | succ m _ ih => rw [hnext, ih, ← hnext, hrest]

theorem orbit_period {p : ℕ} (hback : σ (i + p) = σ i) (t : ℕ) : σ (i + p * t) = σ i := by
  induction t with
  | zero => rfl
  | succ t ih =>
      calc σ (i + p * (t + 1))
          = σ (i + p + p * t) := by rw [Nat.mul_succ, Nat.add_comm (p * t), Nat.add_assoc]
        _ = σ (i + p * t) := orbit_add hnext hback (p * t)
        _ = σ i := ih

theorem not_returns_of_rests (hrests : Rests σ) : ¬ Returns σ := by
  rintro ⟨i, j, hij, hback, hleft⟩
  obtain ⟨n, hn⟩ := hrests
  have hp : 0 < j - i := Nat.sub_pos_of_lt hij
  have hperiod : ∀ k, i ≤ k → σ k = σ n := by
    intro k hk
    have hshift := orbit_add hnext hback (k - i)
    have hk' : σ (k + (j - i)) = σ k := by
      rw [show k + (j - i) = j + (k - i) by omega, hshift, show i + (k - i) = k by omega]
    have hfar := orbit_period hnext hk' n
    have hle : n ≤ k + (j - i) * n :=
      (Nat.le_mul_of_pos_left n hp).trans (Nat.le_add_left _ _)
    rw [← hfar]
    exact orbit_eq_of_rest hnext hn hle
  exact hleft ((hperiod (i + 1) (Nat.le_succ i)).trans (hperiod i le_rfl).symm)

theorem rests_iff_not_returns (hfinite : (Set.range σ).Finite) : Rests σ ↔ ¬ Returns σ := by
  refine ⟨not_returns_of_rests hnext, fun hreturns => ?_⟩
  have : Finite (Set.range σ) := hfinite
  obtain ⟨i, j, hne, heq⟩ :=
    Finite.exists_ne_map_eq_of_infinite (Set.rangeFactorization σ)
  have hval : σ i = σ j := congrArg Subtype.val heq
  have hstays : ∀ {i j}, i < j → σ j = σ i → Rests σ := by
    intro i j hij hback
    by_contra hrests
    exact hreturns ⟨i, j, hij, hback, fun hrest => hrests ⟨i, hrest⟩⟩
  rcases Nat.lt_or_gt_of_ne hne with hlt | hgt
  · exact hstays hlt hval.symm
  · exact hstays hgt hval

end Orbit

end GpuCalorie.Math
