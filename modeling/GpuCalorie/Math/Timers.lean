/-
# Down-counters and clocks

A controller can keep commands apart by counters. A command is issued only while all the
counters it waits for are zero, it loads other counters with their periods, and with every
tick of the clock a counter goes down by at most one. Then a command that waits for a
counter comes at least its period after every earlier command that loads it, however many
commands lie between them.

Several clocks share a simulated time that jumps from one tick to the next. Each has the
time of its next tick; a step goes to the earliest of these times and lets all clocks tick
whose time it is. After any number of steps every clock has ticked at the multiples of its
period up to the time reached, at each of them once and at no other time.
-/

import Mathlib.Algebra.Order.Field.Basic
import Mathlib.Algebra.Order.Floor.Semiring
import Mathlib.Data.List.Range
import Mathlib.Data.Nat.Basic
import Mathlib.Order.Basic
import Mathlib.Order.Monotone.Basic
import Mathlib.Tactic.Common
import Mathlib.Tactic.Linarith

namespace GpuCalorie.Math

universe u v

/-- What the counters are loaded with, which commands load them, and which wait for them. -/
structure TimerSpec (γ : Type u) (κ : Type v) where
  period : κ → ℕ
  starts : γ → κ → Prop
  waits : γ → κ → Prop

namespace TimerSpec

variable {γ : Type u} {κ : Type v} {spec : TimerSpec γ κ}

/-- An issued command with its time comes late enough after an earlier one. -/
def Spaced (spec : TimerSpec γ κ) (later earlier : ℕ × γ) : Prop :=
  earlier.1 ≤ later.1 ∧
    ∀ k, spec.starts earlier.2 k → spec.waits later.2 k → earlier.1 + spec.period k ≤ later.1

/-- The commands issued up to now, the last one first, are spaced, and the counters account
for the time that is left. -/
structure Running (spec : TimerSpec γ κ) (counter : κ → ℕ) (now : ℕ) (trace : List (ℕ × γ)) :
    Prop where
  past : ∀ e ∈ trace, e.1 ≤ now
  counting : ∀ e ∈ trace, ∀ k, spec.starts e.2 k → e.1 + spec.period k ≤ now + counter k
  spaced : trace.Pairwise spec.Spaced

theorem running_nil (spec : TimerSpec γ κ) (counter : κ → ℕ) (now : ℕ) :
    spec.Running counter now [] where
  past _ h := absurd h List.not_mem_nil
  counting _ h := absurd h List.not_mem_nil
  spaced := .nil

namespace Running

variable {counter counter' : κ → ℕ} {now : ℕ} {trace : List (ℕ × γ)}
  (h : spec.Running counter now trace)
include h

theorem past_cons (c : γ) : ∀ e ∈ (now, c) :: trace, e.1 ≤ now := by
  intro e he
  cases List.mem_cons.mp he with
  | inl heq => exact (congrArg Prod.fst heq).le
  | inr hmem => exact h.past e hmem

theorem issue {c : γ} (hready : ∀ k, spec.waits c k → counter k = 0)
    (hload : ∀ k, spec.starts c k → spec.period k ≤ counter' k)
    (hkeep : ∀ k, ¬ spec.starts c k → counter k ≤ counter' k) :
    spec.Running counter' now ((now, c) :: trace) where
  past := h.past_cons c
  counting e he k hstarts := by
    by_cases hc : spec.starts c k
    · have hpast := h.past_cons c e he
      have hfull := hload k hc
      omega
    · cases List.mem_cons.mp he with
      | inl heq =>
          rw [heq] at hstarts
          exact absurd hstarts hc
      | inr hmem =>
          have hcount := h.counting e hmem k hstarts
          have hkept := hkeep k hc
          omega
  spaced := by
    refine .cons (fun e he => ⟨h.past e he, fun k hstarts hwaits => ?_⟩) h.spaced
    have hcount := h.counting e he k hstarts
    have hzero := hready k hwaits
    show e.1 + spec.period k ≤ now
    omega

theorem tick (hless : ∀ k, counter k ≤ counter' k + 1) : spec.Running counter' (now + 1) trace where
  past e he := (h.past e he).trans (Nat.le_succ now)
  counting e he k hstarts := by
    have hcount := h.counting e he k hstarts
    have hone := hless k
    omega
  spaced := h.spaced

end Running

end TimerSpec

/-! ## Clocks that tick with fixed periods -/

variable {ι : Type u} {K : Type v} [LinearOrder K]

/-- The times at which a clock ticks in the first `n` steps. -/
def tickTimes (now : ℕ → K) (time : ℕ → ι → K) (d : ι) (n : ℕ) : List K :=
  ((List.range n).filter fun i => time i d = now i).map now

theorem tickTimes_succ (now : ℕ → K) (time : ℕ → ι → K) (d : ι) (n : ℕ) :
    tickTimes now time d (n + 1) =
      tickTimes now time d n ++ if time n d = now n then [now n] else [] := by
  rw [tickTimes, tickTimes, List.range_succ, List.filter_append, List.map_append]
  split_ifs with hdue <;> simp [hdue]

variable [Field K]

/-- The times `now n` at which the steps take place, and the next ticks `time n` before
each step. -/
structure TickRun (period : ι → K) (now : ℕ → K) (time : ℕ → ι → K) : Prop where
  start : ∀ d, time 0 d = 0
  earliest : ∀ n d, now n ≤ time n d
  due : ∀ n, ∃ d, time n d = now n
  next : ∀ n d, time (n + 1) d = if time n d = now n then time n d + period d else time n d

namespace TickRun

variable {period : ι → K} {now : ℕ → K} {time : ℕ → ι → K}

theorem now_zero (h : TickRun period now time) : now 0 = 0 := by
  obtain ⟨d, hd⟩ := h.due 0
  rw [← hd, h.start]

theorem tickTimes_eq_range (h : TickRun period now time) (d : ι) (n : ℕ) :
    ∃ c : ℕ, time n d = c * period d ∧
      tickTimes now time d n = (List.range c).map fun k : ℕ => (k : K) * period d := by
  induction n with
  | zero => exact ⟨0, by simp [h.start], rfl⟩
  | succ n ih =>
      obtain ⟨c, htime, hticks⟩ := ih
      rw [h.next, tickTimes_succ, hticks]
      split_ifs with hdue
      · refine ⟨c + 1, ?_, ?_⟩
        · rw [htime, Nat.cast_succ, add_one_mul]
        · rw [List.range_succ, List.map_append, ← hdue, htime]
          rfl
      · exact ⟨c, htime, List.append_nil _⟩

variable [IsStrictOrderedRing K]

section

variable (h : TickRun period now time) (hpos : ∀ d, 0 < period d)
include h hpos

theorem now_lt_next (n : ℕ) (d : ι) : now n < time (n + 1) d := by
  rw [h.next]
  split_ifs with hdue
  · rw [hdue]
    exact lt_add_of_pos_right _ (hpos d)
  · exact lt_of_le_of_ne (h.earliest n d) (Ne.symm hdue)

theorem strictMono_now : StrictMono now := by
  apply strictMono_nat_of_lt_succ
  intro n
  obtain ⟨d, hd⟩ := h.due (n + 1)
  rw [← hd]
  exact h.now_lt_next hpos n d

theorem time_le_add (n : ℕ) (d : ι) : time n d ≤ now n + period d := by
  induction n with
  | zero =>
      rw [h.start, h.now_zero, zero_add]
      exact (hpos d).le
  | succ n ih =>
      have hlater : now n < now (n + 1) := h.strictMono_now hpos (Nat.lt_succ_self n)
      rw [h.next]
      split_ifs with hdue <;> linarith

theorem next_le_add (n : ℕ) (d : ι) : time (n + 1) d ≤ now n + period d := by
  rw [h.next]
  split_ifs with hdue
  · rw [hdue]
  · exact h.time_le_add hpos n d

end

theorem tickTimes_eq [FloorSemiring K] (h : TickRun period now time) (hpos : ∀ d, 0 < period d)
    (n : ℕ) (d : ι) :
    tickTimes now time d (n + 1) =
      (List.range (⌊now n / period d⌋₊ + 1)).map fun k : ℕ => (k : K) * period d := by
  obtain ⟨c, htime, hticks⟩ := h.tickTimes_eq_range d (n + 1)
  rw [hticks]
  have hlast : (c : K) * period d ≤ now n + period d := htime ▸ h.next_le_add hpos n d
  have hnext : now n < c * period d := htime ▸ h.now_lt_next hpos n d
  have hnow : 0 ≤ now n := by
    rw [← h.now_zero]
    exact (h.strictMono_now hpos).monotone (Nat.zero_le n)
  have hc : c ≠ 0 := by
    rintro rfl
    rw [Nat.cast_zero, zero_mul] at hnext
    exact absurd hnow (not_le_of_gt hnext)
  obtain ⟨m, rfl⟩ := Nat.exists_eq_succ_of_ne_zero hc
  rw [Nat.succ_eq_add_one, Nat.cast_succ] at hlast hnext
  have hfloor : ⌊now n / period d⌋₊ = m := by
    rw [Nat.floor_eq_iff (div_nonneg hnow (hpos d).le), le_div_iff₀ (hpos d), div_lt_iff₀ (hpos d)]
    constructor
    · rw [add_one_mul] at hlast
      linarith
    · exact hnext
  rw [hfloor]

end TickRun

end GpuCalorie.Math
