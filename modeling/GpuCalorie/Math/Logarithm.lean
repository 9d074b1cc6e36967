/-
# Logarithms by shifts

The binary logarithm of a number is found from its highest bit on: a number of at most `2 ^ (j + 1)`
bits that does not fit `2 ^ j` bits is shifted by `2 ^ j`, which is put into the result. Behind the
last step, one is left of the number, and the result is its logarithm.
-/

import Mathlib.Algebra.Group.Nat.Defs
import Mathlib.Tactic.Common

namespace GpuCalorie.Math

/-- A step, on what is left of the number and on the result. -/
def logStep (j : ℕ) (s : ℕ × ℕ) : ℕ × ℕ :=
  if 2 ^ 2 ^ j ≤ s.1 then (s.1 >>> 2 ^ j, s.2 ||| 2 ^ j) else s

/-- The steps from some place down have still to be made. -/
structure LogSteps (n j : ℕ) (s : ℕ × ℕ) : Prop where
  left : s.1 = n / 2 ^ s.2
  pos : 0 < s.1
  lt : s.1 < 2 ^ 2 ^ j
  dvd : 2 ^ j ∣ s.2

namespace LogSteps

variable {n j : ℕ} {s : ℕ × ℕ}

theorem init (hpos : 0 < n) (hlt : n < 2 ^ 2 ^ j) : LogSteps n j (n, 0) where
  left := (Nat.div_one n).symm
  pos := hpos
  lt := hlt
  dvd := Nat.dvd_zero _

theorem step (h : LogSteps n (j + 1) s) : LogSteps n j (logStep j s) := by
  obtain ⟨q, hq⟩ := h.dvd
  rw [logStep]
  split_ifs with hle
  · have hor : s.2 ||| 2 ^ j = s.2 + 2 ^ j := by
      rw [hq, Nat.two_pow_add_eq_or_of_lt (Nat.pow_lt_pow_right (by decide) (Nat.lt_succ_self j))]
    have hshift : s.1 >>> 2 ^ j = s.1 / 2 ^ 2 ^ j := Nat.shiftRight_eq_div_pow _ _
    refine ⟨?_, ?_, ?_, ?_⟩
    · rw [hor, hshift, h.left, Nat.div_div_eq_div_mul, Nat.pow_add]
    · rw [hshift]
      exact Nat.div_pos hle (Nat.two_pow_pos _)
    · rw [hshift]
      refine Nat.div_lt_of_lt_mul ?_
      rw [← Nat.pow_add, ← Nat.two_mul, ← Nat.pow_succ']
      exact h.lt
    · rw [hor]
      exact Nat.dvd_add (Nat.dvd_trans (Nat.pow_dvd_pow 2 (Nat.le_succ j)) h.dvd) (Nat.dvd_refl _)
  · exact ⟨h.left, h.pos, Nat.not_le.1 hle, Nat.dvd_trans (Nat.pow_dvd_pow 2 (Nat.le_succ j)) h.dvd⟩

theorem eq_log2 (h : LogSteps n 0 s) : s.2 = Nat.log2 n := by
  have hpos := h.pos
  have hlt : s.1 < 2 := h.lt
  have hone : n / 2 ^ s.2 = 1 := by
    rw [← h.left]
    omega
  have hn : n ≠ 0 := by
    rintro rfl
    rw [Nat.zero_div] at hone
    cases hone
  refine ((Nat.log2_eq_iff hn).2 ⟨?_, ?_⟩).symm
  · exact (Nat.one_le_div_iff (Nat.two_pow_pos _)).1 (Nat.le_of_eq hone.symm)
  · rw [Nat.pow_succ', ← Nat.div_lt_iff_lt_mul (Nat.two_pow_pos _), hone]
    decide

end LogSteps

end GpuCalorie.Math
