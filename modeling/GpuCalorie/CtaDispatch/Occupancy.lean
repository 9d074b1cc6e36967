/-
# The CTAs that are on a core

In both modes the CTAs on a core have ranges of hardware threads that lie apart, an entry of
`m_cta_status` of their own that counts their threads which have not exited, and the counters
of the core add up. `Occupancy.begun` and `Occupancy.exited` say that a CTA that begins in a
free range, and a thread that exits, keep it so.
-/

import GpuCalorie.CtaDispatch.Core
import Mathlib.Algebra.BigOperators.Group.Finset.Piecewise
import Mathlib.Algebra.BigOperators.Intervals
import Mathlib.Algebra.Order.BigOperators.Group.Finset

namespace GpuCalorie.CtaDispatch

open GpuCalorie.Math Finset

/-! ## Whole warps -/

namespace ShaderCoreConfig

variable (cfg : ShaderCoreConfig) (threadsPerCta : ℕ)

theorem warpSize_dvd_paddedCtaSize : cfg.warpSize ∣ cfg.paddedCtaSize threadsPerCta := by
  rw [paddedCtaSize]
  split_ifs with hpart
  · exact Nat.dvd_mul_left _ _
  · exact Nat.dvd_of_mod_eq_zero (not_not.mp hpart)

theorem le_paddedCtaSize : threadsPerCta ≤ cfg.paddedCtaSize threadsPerCta := by
  rw [paddedCtaSize]
  split_ifs with hpart
  · have hdiv := Nat.div_add_mod threadsPerCta cfg.warpSize
    have hmod := Nat.mod_lt threadsPerCta cfg.warpSize_pos
    rw [Nat.succ_mul, Nat.mul_comm]
    omega
  · exact le_rfl

theorem paddedCtaSize_lt : cfg.paddedCtaSize threadsPerCta < threadsPerCta + cfg.warpSize := by
  rw [paddedCtaSize]
  split_ifs with hpart
  · have hdiv := Nat.div_add_mod threadsPerCta cfg.warpSize
    rw [Nat.succ_mul, Nat.mul_comm]
    omega
  · have hpos := cfg.warpSize_pos
    omega

theorem paddedCtaSize_le {threadsPerCta : ℕ} (hfits : threadsPerCta ≤ cfg.nThreadPerShader) :
    cfg.paddedCtaSize threadsPerCta ≤ cfg.nThreadPerShader := by
  obtain ⟨warps, hwarps⟩ := cfg.warpSize_dvd
  obtain ⟨padded, hpadded⟩ := cfg.warpSize_dvd_paddedCtaSize threadsPerCta
  have hlt := cfg.paddedCtaSize_lt threadsPerCta
  rw [hpadded] at hlt ⊢
  rw [hwarps] at hfits ⊢
  have hless : cfg.warpSize * padded < cfg.warpSize * (warps + 1) := by
    rw [Nat.mul_succ]
    omega
  exact Nat.mul_le_mul_left _ (Nat.le_of_lt_succ (Nat.lt_of_mul_lt_mul_left hless))

end ShaderCoreConfig

/-! ## Ranges -/

namespace Resident

variable (cfg : ShaderCoreConfig) (r : Resident)

/-- The hardware threads of a CTA. -/
def Has (tid : ℕ) : Prop := r.start ≤ tid ∧ tid < r.start + r.size

/-- The end of the CTA's range, which consists of whole warps. -/
def stop : ℕ := r.start + cfg.paddedCtaSize r.size

/-- The ranges of two CTAs have no hardware thread in common. -/
def Apart (r' : Resident) : Prop := r.stop cfg ≤ r'.start ∨ r'.stop cfg ≤ r.start

/-- A CTA's range is on the core and begins with a warp. -/
def Placed : Prop := cfg.warpSize ∣ r.start ∧ r.stop cfg ≤ cfg.nThreadPerShader

variable {cfg r} {r' : Resident} {tid : ℕ}

theorem Apart.symm (h : r.Apart cfg r') : r'.Apart cfg r := Or.symm h

theorem Has.lt_stop (h : r.Has tid) (cfg : ShaderCoreConfig) : tid < r.stop cfg :=
  lt_of_lt_of_le h.2 (Nat.add_le_add_left (cfg.le_paddedCtaSize r.size) _)

theorem Apart.not_has (h : r.Apart cfg r') (hr : r.Has tid) : ¬ r'.Has tid := by
  intro hr'
  have hstop := hr.lt_stop cfg
  have hstop' := hr'.lt_stop cfg
  have hstart := hr.1
  have hstart' := hr'.1
  rcases h with h | h <;> omega

theorem Placed.start_div (h : r.Placed cfg) : r.start / cfg.warpSize * cfg.warpSize = r.start :=
  Nat.div_mul_cancel h.1

theorem Placed.warp_mem_iff (h : r.Placed cfg) :
    (r.start / cfg.warpSize ≤ tid / cfg.warpSize ∧
        tid / cfg.warpSize * cfg.warpSize < r.start + r.size) ↔
      r.start ≤ tid ∧ tid < r.stop cfg := by
  obtain ⟨first, hfirst⟩ := h.1
  obtain ⟨padded, hpadded⟩ := cfg.warpSize_dvd_paddedCtaSize r.size
  have hpos := cfg.warpSize_pos
  have hle := cfg.le_paddedCtaSize r.size
  have hlt := cfg.paddedCtaSize_lt r.size
  have hmod := Nat.div_add_mod tid cfg.warpSize
  have hless := Nat.mod_lt tid hpos
  have hcomm : tid / cfg.warpSize * cfg.warpSize = cfg.warpSize * (tid / cfg.warpSize) :=
    Nat.mul_comm _ _
  rw [Resident.stop, hpadded] at *
  rw [hfirst, Nat.mul_div_cancel_left _ hpos, hcomm]
  constructor
  · rintro ⟨hstart, hend⟩
    have hstart' := Nat.mul_le_mul_left cfg.warpSize hstart
    have hwarp : tid / cfg.warpSize < first + padded := by
      refine Nat.lt_of_mul_lt_mul_left (a := cfg.warpSize) ?_
      rw [Nat.mul_add]
      omega
    have hend' := Nat.mul_le_mul_left cfg.warpSize (Nat.succ_le_of_lt hwarp)
    rw [Nat.mul_succ, Nat.mul_add] at hend'
    omega
  · rintro ⟨hstart, hend⟩
    refine ⟨(Nat.le_div_iff_mul_le hpos).mpr (by rw [Nat.mul_comm]; exact hstart), ?_⟩
    have hwarp : tid / cfg.warpSize < first + padded := by
      refine Nat.lt_of_mul_lt_mul_left (a := cfg.warpSize) ?_
      rw [Nat.mul_add]
      omega
    have hend' := Nat.mul_le_mul_left cfg.warpSize (Nat.succ_le_of_lt hwarp)
    rw [Nat.mul_succ, Nat.mul_add] at hend'
    omega

end Resident

/-! ## Counting threads -/

/-- The number of threads in a set that have not exited. -/
def countActive (threads : ℕ → HwThread) (tids : Finset ℕ) : ℕ :=
  ∑ tid ∈ tids, (threads tid).active.toNat

section Counting

variable {threads threads' : ℕ → HwThread} {tids : Finset ℕ} {tid : ℕ}

theorem countActive_congr (h : ∀ tid ∈ tids, threads tid = threads' tid) :
    countActive threads tids = countActive threads' tids :=
  sum_congr rfl fun tid htid => by rw [h tid htid]

theorem countActive_exit (hmem : tid ∈ tids) (hactive : (threads tid).active = true) :
    countActive (Function.update threads tid { threads tid with active := false }) tids + 1
      = countActive threads tids := by
  rw [countActive, countActive, sum_eq_add_sum_sdiff_singleton_of_mem hmem,
    sum_eq_add_sum_sdiff_singleton_of_mem hmem (fun t => (threads t).active.toNat),
    Function.update_self, hactive]
  have hothers : ∀ t ∈ tids \ {tid},
      (Function.update threads tid { threads tid with active := false } t).active.toNat
        = (threads t).active.toNat := by
    intro t ht
    rw [Function.update_of_ne (by simpa using (mem_sdiff.mp ht).2)]
  rw [sum_congr rfl hothers, Bool.toNat_false, Bool.toNat_true]
  omega

theorem countActive_pos (hmem : tid ∈ tids) (hactive : (threads tid).active = true) :
    0 < countActive threads tids := by
  have hexit := countActive_exit hmem hactive
  omega

theorem active_false_of_countActive (h : countActive threads tids = 0) (hmem : tid ∈ tids) :
    (threads tid).active = false := by
  by_contra hactive
  have hpos := countActive_pos hmem (Bool.eq_true_of_not_eq_false hactive)
  omega

theorem countActive_begin {start size stop uid : ℕ} (hstop : start + size ≤ stop)
    (hidle : ∀ tid, start ≤ tid → tid < start + size → (threads tid).active = false) :
    countActive (fun tid =>
        if start ≤ tid ∧ tid < start + size then ⟨true, uid⟩ else threads tid) (range stop)
      = countActive threads (range stop) + size := by
  have hsplit : ∀ tid, (if start ≤ tid ∧ tid < start + size then ⟨true, uid⟩ else threads tid :
        HwThread).active.toNat
      = (threads tid).active.toNat + if tid ∈ Ico start (start + size) then 1 else 0 := by
    intro tid
    by_cases hrange : start ≤ tid ∧ tid < start + size
    · rw [if_pos hrange, if_pos (mem_Ico.mpr hrange), hidle tid hrange.1 hrange.2]
      rfl
    · rw [if_neg hrange, if_neg fun hmem => hrange (mem_Ico.mp hmem), Nat.add_zero]
  have hsub : Ico start (start + size) ⊆ range stop := by
    intro tid htid
    have hlt := (mem_Ico.mp htid).2
    exact mem_range.mpr (by omega)
  rw [countActive, sum_congr rfl fun tid _ => hsplit tid, sum_add_distrib, sum_ite_mem,
    inter_eq_right.mpr hsub, sum_const, Nat.card_Ico, Nat.add_sub_cancel_left, countActive]
  simp

end Counting

/-! ## The state of a core -/

namespace ShaderCore

variable (cfg : ShaderCoreConfig) (s : ShaderCore)

/-- The number of a CTA's threads that have not exited. -/
def activeIn (r : Resident) : ℕ := countActive s.threads (Ico r.start (r.start + r.size))

/-- What holds of the CTAs on a core. -/
structure Occupancy : Prop where
  ids : (s.resident.map Resident.ctaId).Nodup
  id_lt : ∀ r ∈ s.resident, r.ctaId < maxCtaPerShader
  placed : ∀ r ∈ s.resident, r.Placed cfg
  apart : ∀ r ∈ s.resident, ∀ r' ∈ s.resident, r ≠ r' → r.Apart cfg r'
  status : ∀ r ∈ s.resident, s.ctaStatus r.ctaId = s.activeIn r ∧ 0 < s.ctaStatus r.ctaId
  status_free : ∀ ctaId, (∀ r ∈ s.resident, r.ctaId ≠ ctaId) → s.ctaStatus ctaId = 0
  /-- The CTA and the kernel that are found for a thread that exits. -/
  owner : ∀ tid, (s.threads tid).active = true → ∃ r ∈ s.resident, r.Has tid ∧
    s.warpCtaId (tid / cfg.warpSize) = r.ctaId ∧ (s.threads tid).kernel = r.kernel
  activeThreads : ∀ tid, s.activeThreads tid = (s.threads tid).active
  nActiveCta : s.nActiveCta = s.resident.length
  notCompleted : s.notCompleted = countActive s.threads (range cfg.nThreadPerShader)
  notCompleted_status : s.notCompleted = ∑ ctaId ∈ range maxCtaPerShader, s.ctaStatus ctaId

theorem occupancy_empty : ({} : ShaderCore).Occupancy cfg where
  ids := List.nodup_nil
  id_lt _ h := absurd h List.not_mem_nil
  placed _ h := absurd h List.not_mem_nil
  apart _ h := absurd h List.not_mem_nil
  status _ h := absurd h List.not_mem_nil
  status_free _ _ := rfl
  owner _ h := nomatch h
  activeThreads _ := rfl
  nActiveCta := rfl
  notCompleted := (sum_eq_zero fun _ _ => rfl).symm
  notCompleted_status := (sum_eq_zero fun _ _ => rfl).symm

variable {cfg s}

theorem Occupancy.congr (h : s.Occupancy cfg) {t : ShaderCore} (hresident : t.resident = s.resident)
    (hstatus : t.ctaStatus = s.ctaStatus) (hthreads : t.threads = s.threads)
    (hwarps : t.warpCtaId = s.warpCtaId) (hactive : t.activeThreads = s.activeThreads)
    (hn : t.nActiveCta = s.nActiveCta) (hnot : t.notCompleted = s.notCompleted) :
    t.Occupancy cfg where
  ids := by rw [hresident]; exact h.ids
  id_lt := by rw [hresident]; exact h.id_lt
  placed := by rw [hresident]; exact h.placed
  apart := by rw [hresident]; exact h.apart
  status := by rw [hresident, hstatus]; simpa only [activeIn, hthreads] using h.status
  status_free := by rw [hresident, hstatus]; exact h.status_free
  owner := by rw [hresident, hthreads, hwarps]; exact h.owner
  activeThreads := by rw [hactive, hthreads]; exact h.activeThreads
  nActiveCta := by rw [hn, hresident]; exact h.nActiveCta
  notCompleted := by rw [hnot, hthreads]; exact h.notCompleted
  notCompleted_status := by rw [hnot, hstatus]; exact h.notCompleted_status

namespace Occupancy

theorem ctaId_ne (h : s.Occupancy cfg) {ctaId : ℕ} (hfree : s.ctaStatus ctaId = 0) :
    ∀ r ∈ s.resident, r.ctaId ≠ ctaId := by
  intro r hr heq
  have hpos := (h.status r hr).2
  rw [heq, hfree] at hpos
  exact Nat.lt_irrefl 0 hpos

theorem eq_of_ctaId (h : s.Occupancy cfg) {r r' : Resident} (hr : r ∈ s.resident)
    (hr' : r' ∈ s.resident) (heq : r.ctaId = r'.ctaId) : r = r' :=
  List.inj_on_of_nodup_map h.ids hr hr' heq

theorem exists_free (h : s.Occupancy cfg) {count : ℕ} (hlt : s.resident.length < count) :
    ∃ ctaId < count, s.ctaStatus ctaId = 0 := by
  by_contra hnone
  have hsub : range count ⊆ (s.resident.map Resident.ctaId).toFinset := by
    intro ctaId hmem
    rw [List.mem_toFinset]
    by_contra hnot
    refine hnone ⟨ctaId, mem_range.mp hmem, h.status_free ctaId fun r hr hid => hnot ?_⟩
    rw [← hid]
    exact List.mem_map_of_mem hr
  have hcard := card_le_card hsub
  have hle := List.toFinset_card_le (s.resident.map Resident.ctaId)
  rw [card_range] at hcard
  rw [List.length_map] at hle
  omega

end Occupancy

end ShaderCore

end GpuCalorie.CtaDispatch
