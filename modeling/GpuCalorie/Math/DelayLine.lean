/-
# Delay lines

A delay line is a row of registers, of which position zero is the way out. With every tick
the contents move one position towards it. What a line holds is measured by a weight of the
values in it: the weight of the first value leaves with a tick, and a value that is put into
an empty register brings its own.
-/

import Mathlib.Algebra.BigOperators.Group.Finset.Piecewise
import Mathlib.Algebra.BigOperators.Intervals
import Mathlib.Algebra.Order.BigOperators.Group.Finset

namespace GpuCalorie.Math

open Finset

universe u

/-- A row of registers, each of which may be empty. -/
abbrev DelayLine (α : Type u) := ℕ → Option α

namespace DelayLine

variable {α : Type u} (line : DelayLine α)

/-- The contents one position further on. -/
def shift : DelayLine α := fun position => line (position + 1)

/-- The registers from a depth up are empty. -/
def Fits (depth : ℕ) : Prop := ∀ position, depth ≤ position → line position = none

/-- A line with a value put into one of its registers. -/
def load (position : ℕ) (a : α) : DelayLine α := Function.update line position (some a)

/-- The weight of what is in the registers below a depth. -/
def total (weight : α → ℕ) (depth : ℕ) : ℕ :=
  ∑ position ∈ range depth, ((line position).map weight).getD 0

variable {line} {depth : ℕ} {position : ℕ}

theorem Fits.shift (h : line.Fits depth) : line.shift.Fits depth := by
  intro position hposition
  exact h (position + 1) (Nat.le_succ_of_le hposition)

theorem load_eq_some {position other : ℕ} {a b : α} :
    line.load position a other = some b ↔
      other = position ∧ a = b ∨ other ≠ position ∧ line other = some b := by
  by_cases heq : other = position
  · rw [load, heq, Function.update_self]
    simp
  · rw [load, Function.update_of_ne heq]
    simp [heq]

theorem Fits.load (h : line.Fits depth) (hlt : position < depth) (a : α) :
    (line.load position a).Fits depth := by
  intro other hother
  have hne : other ≠ position := by omega
  rw [DelayLine.load, Function.update_of_ne hne]
  exact h other hother

theorem Fits.total_shift (h : line.Fits depth) (weight : α → ℕ) :
    line.total weight depth = ((line 0).map weight).getD 0 + line.shift.total weight depth := by
  have hlast : ((line depth).map weight).getD 0 = 0 := by rw [h depth le_rfl]; rfl
  calc line.total weight depth
      = ∑ position ∈ range (depth + 1), ((line position).map weight).getD 0 := by
        rw [sum_range_succ, hlast, Nat.add_zero, total]
    _ = ((line 0).map weight).getD 0 + line.shift.total weight depth := by
        rw [sum_range_succ', Nat.add_comm]
        rfl

theorem total_load (hlt : position < depth) (hempty : line position = none)
    (weight : α → ℕ) (a : α) :
    (line.load position a).total weight depth = weight a + line.total weight depth := by
  have hmem : position ∈ range depth := mem_range.mpr hlt
  have hcontents : ∀ other, (((line.load position a) other).map weight).getD 0
      = Function.update (fun p => ((line p).map weight).getD 0) position (weight a) other := by
    intro other
    by_cases heq : other = position
    · rw [heq, load, Function.update_self, Function.update_self]
      rfl
    · rw [load, Function.update_of_ne heq, Function.update_of_ne heq]
  have hrest : line.total weight depth
      = ∑ other ∈ range depth \ {position}, ((line other).map weight).getD 0 := by
    rw [total, sum_eq_add_sum_sdiff_singleton_of_mem hmem, hempty]
    exact Nat.zero_add _
  rw [total, sum_congr rfl fun other _ => hcontents other, sum_update_of_mem hmem, hrest]

theorem total_empty (weight : α → ℕ) (depth : ℕ) : total (fun _ => none) weight depth = 0 :=
  sum_eq_zero fun _ _ => rfl

theorem le_total (hlt : position < depth) (weight : α → ℕ) {a : α}
    (h : line position = some a) : weight a ≤ line.total weight depth := by
  have hone : ((line position).map weight).getD 0 = weight a := by rw [h]; rfl
  rw [← hone]
  exact single_le_sum (f := fun p => ((line p).map weight).getD 0) (fun _ _ => Nat.zero_le _)
    (mem_range.mpr hlt)

theorem total_eq_zero {weight : α → ℕ} (h : ∀ position a, line position = some a → weight a = 0) :
    line.total weight depth = 0 := by
  refine sum_eq_zero fun position _ => ?_
  cases hvalue : line position with
  | none => rfl
  | some a => exact h position a hvalue

end DelayLine

end GpuCalorie.Math
