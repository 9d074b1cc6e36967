/-
# Clock domains

The cores, the L2 cache, the interconnect and the memory have clocks of their own. Each
domain has the time of its next tick, and `next_clock_domain` goes to the earliest of these
times: it advances the domains whose time it is, and returns them as a mask. The L2 is
compared first and by itself, and the others with what is the earliest time then.

Times and periods are rational numbers here, with exact arithmetic, and the periods stay what
they are.
-/

import GpuCalorie.Math.Timers
import Mathlib.Data.Rat.Floor

namespace GpuCalorie.Clock

open GpuCalorie.Math

/-- The clock domains of the simulator. -/
inductive Domain
  | core
  | l2
  | dram
  | icnt
  deriving DecidableEq, Repr

/-- `CORE`, `L2`, `DRAM` and `ICNT` -/
def Domain.bit : Domain → BitVec 32
  | .core => 0x01
  | .l2 => 0x02
  | .dram => 0x04
  | .icnt => 0x08

/-- One value for each domain: `core_time` and its like, or `core_period`. -/
abbrev PerDomain := Domain → ℚ

/-- `min3` -/
def min3 (x y z : ℚ) : ℚ :=
  if x < y ∧ x < z then x else if y < z then y else z

/-- What a call of `next_clock_domain` computes: the mask, the times it leaves, and the time
of the call. -/
structure ClockStep where
  mask : BitVec 32
  time : PerDomain
  smallest : ℚ

/-- The update of a domain, if its time has come. -/
def ClockStep.advance (period : PerDomain) (d : Domain) (step : ClockStep) : ClockStep :=
  if step.time d ≤ step.smallest then
    { step with
      mask := step.mask ||| d.bit
      time := Function.update step.time d (step.time d + period d) }
  else step

/-- `next_clock_domain`. The L2 also lowers the time of the call to its own. -/
def nextClockDomain (period time : PerDomain) : ClockStep :=
  let start : ClockStep := ⟨0x00, time, min3 (time .core) (time .icnt) (time .dram)⟩
  let start :=
    if start.time .l2 ≤ start.smallest then
      ClockStep.advance period .l2 { start with smallest := start.time .l2 }
    else start
  ((start.advance period .icnt).advance period .dram).advance period .core

/-- A domain is in the mask. -/
def ClockStep.Ticks (step : ClockStep) (d : Domain) : Prop :=
  step.mask &&& d.bit ≠ 0

instance (step : ClockStep) (d : Domain) : Decidable (step.Ticks d) :=
  inferInstanceAs (Decidable (_ ≠ _))

/-- The times before a call, from `reinit_clock_domains` on. -/
def timeAfter (period : PerDomain) : ℕ → PerDomain
  | 0 => fun _ => 0
  | n + 1 => (nextClockDomain period (timeAfter period n)).time

/-- A call of `next_clock_domain`, by the number of calls before it. -/
def call (period : PerDomain) (n : ℕ) : ClockStep :=
  nextClockDomain period (timeAfter period n)

/-! ## One call -/

theorem min3_le (x y z : ℚ) : min3 x y z ≤ x ∧ min3 x y z ≤ y ∧ min3 x y z ≤ z := by
  rw [min3]
  split_ifs with hx hy
  · exact ⟨le_refl x, hx.1.le, hx.2.le⟩
  · exact ⟨not_lt.mp fun h => hx ⟨h, h.trans hy⟩, le_refl y, hy.le⟩
  · have hzy : z ≤ y := not_lt.mp hy
    exact ⟨not_lt.mp fun h => hx ⟨h.trans_le hzy, h⟩, hzy, le_refl z⟩

theorem min3_eq (x y z : ℚ) : min3 x y z = x ∨ min3 x y z = y ∨ min3 x y z = z := by
  rw [min3]
  split_ifs
  · exact .inl rfl
  · exact .inr (.inl rfl)
  · exact .inr (.inr rfl)

section Advance

variable {period : PerDomain} {step : ClockStep} {d e : Domain}

@[simp]
theorem advance_smallest : (step.advance period d).smallest = step.smallest := by
  rw [ClockStep.advance]
  split_ifs <;> rfl

theorem advance_time_self :
    (step.advance period d).time d =
      if step.time d ≤ step.smallest then step.time d + period d else step.time d := by
  rw [ClockStep.advance]
  split_ifs
  · exact Function.update_self ..
  · rfl

@[simp]
theorem advance_time_of_ne (hne : e ≠ d) : (step.advance period d).time e = step.time e := by
  rw [ClockStep.advance]
  split_ifs
  · exact Function.update_of_ne hne ..
  · rfl

theorem or_bit_and_bit (mask : BitVec 32) (d e : Domain) :
    (mask ||| d.bit) &&& e.bit ≠ 0 ↔ mask &&& e.bit ≠ 0 ∨ e = d := by
  have hbit : d.bit &&& e.bit ≠ 0 ↔ e = d := by cases d <;> cases e <;> decide
  rw [BitVec.and_or_distrib_right, ← hbit, ← not_and_or]
  exact not_congr BitVec.or_eq_zero_iff

theorem advance_ticks :
    (step.advance period d).Ticks e ↔ step.Ticks e ∨ (e = d ∧ step.time d ≤ step.smallest) := by
  rw [ClockStep.advance]
  split_ifs with hdue
  · exact (or_bit_and_bit ..).trans (or_congr_right (and_iff_left hdue).symm)
  · exact (or_iff_left fun h => hdue h.2).symm

theorem advance_get :
    (step.advance period d).time e =
      if e = d ∧ step.time d ≤ step.smallest then step.time e + period e else step.time e := by
  rcases eq_or_ne e d with rfl | hne
  · simp [advance_time_self]
  · rw [advance_time_of_ne hne, if_neg fun h => hne h.1]

end Advance

section

variable (period time : PerDomain)
include period time

theorem nextClockDomain_smallest : (nextClockDomain period time).smallest =
      min (time .l2) (min3 (time .core) (time .icnt) (time .dram)) := by
  simp only [nextClockDomain, advance_smallest]
  split_ifs with hl2
  · rw [advance_smallest, min_eq_left hl2]
  · rw [min_eq_right (not_le.mp hl2).le]

theorem smallest_le (d : Domain) : (nextClockDomain period time).smallest ≤ time d := by
  obtain ⟨hcore, hicnt, hdram⟩ := min3_le (time .core) (time .icnt) (time .dram)
  rw [nextClockDomain_smallest]
  cases d with
  | l2 => exact min_le_left ..
  | core => exact (min_le_right ..).trans hcore
  | icnt => exact (min_le_right ..).trans hicnt
  | dram => exact (min_le_right ..).trans hdram

theorem exists_eq_smallest : ∃ d, time d = (nextClockDomain period time).smallest := by
  rw [nextClockDomain_smallest]
  rcases min_choice (time .l2) (min3 (time .core) (time .icnt) (time .dram)) with hmin | hmin
  · exact ⟨.l2, hmin.symm⟩
  · rw [hmin]
    rcases min3_eq (time .core) (time .icnt) (time .dram) with heq | heq | heq
    · exact ⟨.core, heq.symm⟩
    · exact ⟨.icnt, heq.symm⟩
    · exact ⟨.dram, heq.symm⟩

theorem ticks_and_time_eq (d : Domain) : ((nextClockDomain period time).Ticks d ↔
        time d ≤ (nextClockDomain period time).smallest) ∧
      (nextClockDomain period time).time d =
        if time d ≤ (nextClockDomain period time).smallest then time d + period d else time d := by
  have hnone : ∀ s : ℚ, ¬ (ClockStep.mk 0#32 time s).Ticks d :=
    fun _ hticks => hticks BitVec.zero_and
  by_cases hl2 : time .l2 ≤ min3 (time .core) (time .icnt) (time .dram)
  · cases d <;> simp [nextClockDomain, hl2, advance_ticks, advance_get, hnone]
  · cases d <;> simp [nextClockDomain, hl2, advance_ticks, advance_get, hnone]

theorem le_smallest_iff (d : Domain) : time d ≤ (nextClockDomain period time).smallest ↔
      time d = (nextClockDomain period time).smallest :=
  ⟨fun hle => le_antisymm hle (smallest_le period time d), fun heq => heq.le⟩

theorem ticks_iff (d : Domain) : (nextClockDomain period time).Ticks d ↔
      time d = (nextClockDomain period time).smallest :=
  (ticks_and_time_eq period time d).1.trans (le_smallest_iff period time d)

theorem time_eq (d : Domain) : (nextClockDomain period time).time d =
      if time d = (nextClockDomain period time).smallest then time d + period d else time d :=
  (ticks_and_time_eq period time d).2.trans
    (if_congr (le_smallest_iff period time d) rfl rfl)

end

/-! ## Runs -/

/-- The times of the calls that tick a domain, among the first `n` calls. -/
def tickedAt (period : PerDomain) (d : Domain) (n : ℕ) : List ℚ :=
  ((List.range n).filter fun i => (call period i).Ticks d).map fun i => (call period i).smallest

/-- What holds of the first `n + 1` calls. -/
structure Scheduled (period : PerDomain) (n : ℕ) : Prop where
  nonempty : (call period n).mask ≠ 0
  progress : (call period n).smallest < (call period (n + 1)).smallest
  /-- Before and after the call the next tick of a domain is not over, and at most its period
  ahead. -/
  ahead : ∀ d, (call period n).smallest ≤ timeAfter period n d ∧
    timeAfter period n d - period d ≤ (call period n).smallest ∧
    (call period n).smallest ≤ timeAfter period (n + 1) d ∧
    timeAfter period (n + 1) d - period d ≤ (call period n).smallest
  /-- A domain has ticked at the multiples of its period. -/
  multiples : ∀ d, tickedAt period d (n + 1) =
    (List.range (⌊(call period n).smallest / period d⌋₊ + 1)).map fun k : ℕ => k * period d
  together : ∀ d e, timeAfter period n d = timeAfter period n e →
    ((call period n).Ticks d ↔ (call period n).Ticks e)

theorem tickRun (period : PerDomain) :
    TickRun period (fun n => (call period n).smallest) (timeAfter period) where
  start _ := rfl
  earliest _ d := smallest_le _ _ d
  due _ := exists_eq_smallest _ _
  next _ d := time_eq _ _ d

theorem tickedAt_eq (period : PerDomain) (d : Domain) (n : ℕ) :
    tickedAt period d n =
      tickTimes (fun n => (call period n).smallest) (timeAfter period) d n := by
  have hticks : ∀ i ∈ List.range n, decide ((call period i).Ticks d) =
      decide (timeAfter period i d = (call period i).smallest) :=
    fun i _ => decide_eq_decide.mpr (ticks_iff _ _ d)
  rw [tickedAt, tickTimes, List.filter_congr hticks]

/-- For all positive periods and after any number of calls: every call ticks some domain, time
goes on, no domain is late or more than its period ahead, every domain has ticked at the
multiples of its period up to the time of the last call, at each once, and domains with the
same time tick in the same call. -/
theorem scheduled_of_positive (period : PerDomain) (hpos : ∀ d, 0 < period d) (n : ℕ) :
    Scheduled period n where
  nonempty := by
    obtain ⟨d, hd⟩ := exists_eq_smallest period (timeAfter period n)
    have hticks : (call period n).Ticks d := (ticks_iff _ _ d).mpr hd
    intro hmask
    rw [ClockStep.Ticks, hmask] at hticks
    exact hticks BitVec.zero_and
  progress := (tickRun period).strictMono_now hpos (Nat.lt_succ_self n)
  ahead d := by
    refine ⟨smallest_le _ _ d, ?_, ((tickRun period).now_lt_next hpos n d).le, ?_⟩
    · exact sub_le_iff_le_add.mpr ((tickRun period).time_le_add hpos n d)
    · exact sub_le_iff_le_add.mpr ((tickRun period).next_le_add hpos n d)
  multiples d := by
    rw [tickedAt_eq]
    exact (tickRun period).tickTimes_eq hpos n d
  together d e h := by
    rw [call, ticks_iff, ticks_iff, h]

/-- Four periods that have nothing in common. -/
theorem scheduled_seven_steps :
    Scheduled (fun | .core => 1 / 2 | .l2 => 1 / 3 | .dram => 1 / 5 | .icnt => 1 / 7) 6 :=
  scheduled_of_positive _ (fun d => by cases d <;> norm_num) 6


end GpuCalorie.Clock
