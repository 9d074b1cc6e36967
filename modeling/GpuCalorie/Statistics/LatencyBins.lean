/-
# Bins of memory latencies

`shader_mem_lat_log` counts a latency in a histogram whose bins are two for each power of two. It
finds the logarithm of the latency by shifts, and takes the next bit of the latency for the half.
The guard lets the latency `2 ^ 24` through, for which there is no bin.
-/

import GpuCalorie.Math.Logarithm
import Mathlib.Data.Nat.Bitwise
import Mathlib.Data.Nat.Log

namespace GpuCalorie.Statistics

open GpuCalorie.Math

/-- `s_mem_lat_logger_nbins`. -/
def sMemLatLoggerNbins : ℕ := 48

/-- The assertions. -/
inductive LatencyFailure
  /-- `guard for out of bound bin` -/
  | guard
  | notPositive
  /-- That of `addsample`. -/
  | position
  deriving DecidableEq, Repr

/-! ## The histogram -/

/-- A step of the logarithm, on what is left of the latency and on the result. -/
def shiftStep (limit bit : ℕ) (s : ℕ × ℕ) : ℕ × ℕ :=
  let shift := (if limit < s.1 then 1 else 0) <<< bit
  (s.1 >>> shift, s.2 ||| shift)

/-- `LOG_2(latency)`. -/
def logLatency (latency : ℕ) : ℕ :=
  let s := shiftStep 0x3 1 (shiftStep 0xF 2 (shiftStep 0xFF 3 (shiftStep 0xFFFF 4 (latency, 0))))
  s.2 ||| s.1 >>> 1

/-- `latency_bin`. -/
def latencyBin (latency : ℕ) : ℕ :=
  let bin := logLatency latency
  if 0 < bin then 2 * bin + (if latency &&& 1 <<< (bin - 1) ≠ 0 then 1 else 0) else 2 * bin

/-- `addsample`. -/
def addsample (histogram : List ℤ) (pos : ℕ) : Except LatencyFailure (List ℤ) :=
  if pos < histogram.length then .ok (histogram.modify pos (· + 1)) else .error .position

/-- `shader_mem_lat_log`, on the histogram of a logger. -/
def shaderMemLatLog (used : Bool) (histogram : List ℤ) (latency : ℤ) :
    Except LatencyFailure (List ℤ) :=
  if ¬ used then .ok histogram
  else if 1 <<< (sMemLatLoggerNbins / 2) < latency then .error .guard
  else if ¬ 0 < latency then .error .notPositive
  else addsample histogram (latencyBin latency.toNat)

/-! ## The bin of a latency -/

variable {latency : ℕ}

theorem shiftStep_eq (bit : ℕ) (s : ℕ × ℕ) : shiftStep (2 ^ 2 ^ bit - 1) bit s = logStep bit s := by
  have hpow := Nat.two_pow_pos (2 ^ bit)
  rw [shiftStep, logStep]
  by_cases hle : 2 ^ 2 ^ bit ≤ s.1
  · rw [if_pos (by omega), if_pos hle, Nat.one_shiftLeft]
  · rw [if_neg (by omega), if_neg hle, Nat.zero_shiftLeft, Nat.shiftRight_zero, Nat.or_zero]

theorem logLatency_eq (hpos : 0 < latency) (hlt : latency < 2 ^ 32) :
    logLatency latency = Nat.log2 latency := by
  have h₅ : LogSteps latency 5 (latency, 0) := LogSteps.init hpos hlt
  have h₁ := h₅.step.step.step.step
  rw [← h₁.step.eq_log2, logLatency]
  simp only [show (0xFFFF : ℕ) = 2 ^ 2 ^ 4 - 1 from rfl, show (0xFF : ℕ) = 2 ^ 2 ^ 3 - 1 from rfl,
    show (0xF : ℕ) = 2 ^ 2 ^ 2 - 1 from rfl, show (0x3 : ℕ) = 2 ^ 2 ^ 1 - 1 from rfl, shiftStep_eq]
  generalize logStep 1 _ = s at h₁ ⊢
  have hlt : s.1 < 4 := h₁.lt
  have hpos := h₁.pos
  have hhalf : s.1 >>> 1 = s.1 / 2 := Nat.shiftRight_eq_div_pow s.1 1
  rw [logStep, hhalf]
  by_cases hle : 2 ^ 2 ^ 0 ≤ s.1
  · have hle' : 2 ≤ s.1 := hle
    rw [if_pos hle, show s.1 / 2 = 2 ^ 0 by omega]
  · have hlt' : ¬ 2 ≤ s.1 := hle
    rw [if_neg hle, show s.1 / 2 = 0 by omega, Nat.or_zero]

theorem latencyBin_eq_div {k : ℕ} (hlog : Nat.log2 latency = k + 1) (hlt : latency < 2 ^ 32) :
    latencyBin latency = 2 * k + latency / 2 ^ k ∧ 2 ≤ latency / 2 ^ k ∧ latency / 2 ^ k < 4 := by
  have hne : latency ≠ 0 := by
    rintro rfl
    cases hlog
  obtain ⟨hle, hlt'⟩ := (Nat.log2_eq_iff hne).1 hlog
  have hpow := Nat.two_pow_pos k
  have htwo : 2 ≤ latency / 2 ^ k := by
    rw [Nat.le_div_iff_mul_le hpow]
    rwa [Nat.pow_succ'] at hle
  have hfour : latency / 2 ^ k < 4 := by
    rw [Nat.div_lt_iff_lt_mul hpow]
    rw [Nat.pow_succ', Nat.pow_succ'] at hlt'
    omega
  have hbit : (latency &&& 1 <<< k ≠ 0) ↔ latency / 2 ^ k % 2 = 1 := by
    rw [Nat.one_shiftLeft, Nat.and_two_pow, Nat.testBit_eq_decide_div_mod_eq]
    by_cases hodd : latency / 2 ^ k % 2 = 1
    · rw [decide_eq_true hodd]
      simp [hodd]
    · rw [decide_eq_false hodd]
      simp [hodd]
  refine ⟨?_, htwo, hfour⟩
  rw [latencyBin, logLatency_eq (Nat.pos_of_ne_zero hne) hlt, hlog,
    if_pos (Nat.succ_pos k), Nat.add_sub_cancel]
  by_cases hodd : latency / 2 ^ k % 2 = 1
  · rw [if_pos (hbit.2 hodd)]
    omega
  · rw [if_neg fun h => hodd (hbit.1 h)]
    omega

theorem eq_one_of_log2 (hpos : 0 < latency) (hlog : Nat.log2 latency = 0) : latency = 1 := by
  have hlt := (Nat.log2_lt hpos.ne').1 (show Nat.log2 latency < 1 by omega)
  omega

theorem latencyBin_eq (hpos : 0 < latency) (hlt : latency < 2 ^ 32) :
    latencyBin latency = 2 * Nat.log2 latency +
      if 1 < latency ∧ 3 * 2 ^ Nat.log2 latency ≤ 2 * latency then 1 else 0 := by
  cases hlog : Nat.log2 latency with
  | zero =>
    obtain rfl := eq_one_of_log2 hpos hlog
    rfl
  | succ k =>
    obtain ⟨hbin, htwo, hfour⟩ := latencyBin_eq_div hlog hlt
    have hmany : 1 < latency := by
      have hle := Nat.log2_self_le hpos.ne'
      rw [hlog, Nat.pow_succ] at hle
      have hpow := Nat.two_pow_pos k
      omega
    have hhalf : 3 * 2 ^ (k + 1) ≤ 2 * latency ↔ 3 ≤ latency / 2 ^ k := by
      rw [Nat.le_div_iff_mul_le (Nat.two_pow_pos k), Nat.pow_succ]
      omega
    rw [hbin]
    split_ifs with hthree
    · have hle := hhalf.1 hthree.2
      omega
    · have hgt : ¬ 3 ≤ latency / 2 ^ k := fun h => hthree ⟨hmany, hhalf.2 h⟩
      omega

theorem latencyBin_bounds (hpos : 0 < latency) (hlt : latency < 2 ^ 32) :
    2 * Nat.log2 latency ≤ latencyBin latency ∧ latencyBin latency ≤ 2 * Nat.log2 latency + 1 := by
  rw [latencyBin_eq hpos hlt]
  split_ifs
  · omega
  · omega

theorem latencyBin_mono {l : ℕ} (hpos : 0 < l) (hle : l ≤ latency) (hlt : latency < 2 ^ 32) :
    latencyBin l ≤ latencyBin latency := by
  have hpos' : 0 < latency := lt_of_lt_of_le hpos hle
  have hlt' : l < 2 ^ 32 := lt_of_le_of_lt hle hlt
  have hlogs : Nat.log2 l ≤ Nat.log2 latency := by
    rw [Nat.log2_eq_log_two, Nat.log2_eq_log_two]
    exact Nat.log_mono_right hle
  obtain hlog | hlog := hlogs.lt_or_eq
  · have hup := (latencyBin_bounds hpos hlt').2
    have hlow := (latencyBin_bounds hpos' hlt).1
    omega
  · cases hk : Nat.log2 latency with
    | zero =>
      obtain rfl := eq_one_of_log2 hpos (hlog.trans hk)
      exact Nat.zero_le _
    | succ k =>
      obtain ⟨hbin, -, -⟩ := latencyBin_eq_div (hlog.trans hk) hlt'
      obtain ⟨hbin', -, -⟩ := latencyBin_eq_div hk hlt
      rw [hbin, hbin']
      exact Nat.add_le_add_left (Nat.div_le_div_right hle) _

/-! ## Every latency -/

/-- A latency has its bin. -/
structure WellBinned (latency : ℕ) : Prop where
  lt : latencyBin latency < sMemLatLoggerNbins
  eq : latencyBin latency = 2 * Nat.log2 latency +
    if 1 < latency ∧ 3 * 2 ^ Nat.log2 latency ≤ 2 * latency then 1 else 0
  mono : ∀ l, 0 < l → l ≤ latency → latencyBin l ≤ latencyBin latency
  /-- The assertion of `addsample` holds. -/
  logged : ∀ histogram : List ℤ, histogram.length = sMemLatLoggerNbins →
    shaderMemLatLog true histogram latency =
      .ok (histogram.modify (latencyBin latency) (· + 1))

/-- The latencies that pass the guards have a bin, all but the largest. -/
theorem wellBinned_iff (hpos : 0 < latency) (hle : latency ≤ 2 ^ (sMemLatLoggerNbins / 2)) :
    WellBinned latency ↔ latency < 2 ^ 24 := by
  have hle' : latency ≤ 2 ^ 24 := hle
  have hwidth : latency < 2 ^ 32 := by omega
  have hbounds := latencyBin_bounds hpos hwidth
  constructor
  · intro h
    have hbin : latencyBin latency < 48 := h.lt
    exact (Nat.log2_lt hpos.ne').1 (by omega)
  · intro hlt
    have hlog : Nat.log2 latency < 24 := (Nat.log2_lt hpos.ne').2 hlt
    have hbin : latencyBin latency < sMemLatLoggerNbins := by
      rw [sMemLatLoggerNbins]
      omega
    refine ⟨hbin, latencyBin_eq hpos hwidth, fun l hl hle => latencyBin_mono hl hle hwidth, ?_⟩
    intro histogram hlength
    have hguard : ¬ (1 <<< (sMemLatLoggerNbins / 2) : ℤ) < latency := by
      rw [not_lt]
      exact_mod_cast hle'
    rw [shaderMemLatLog, if_neg (by decide), if_neg hguard,
      if_neg (not_not.2 (by exact_mod_cast hpos)), Int.toNat_natCast, addsample,
      if_pos (by rwa [hlength])]

/-- The last latency that has a bin. -/
theorem wellBinned_last : WellBinned (2 ^ 24 - 1) :=
  (wellBinned_iff (by decide) (by decide)).2 (by decide)

/-- The largest latency passes the guards, and its bin is the first that is not there. -/
theorem not_wellBinned_largest : latencyBin (2 ^ 24) = sMemLatLoggerNbins ∧
    shaderMemLatLog true (List.replicate sMemLatLoggerNbins 0) (2 ^ 24) = .error .position := by
  decide

end GpuCalorie.Statistics
