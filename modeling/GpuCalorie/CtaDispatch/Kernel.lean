/-
# Kernels and their CTAs

`kernel_info_t`, as far as the cores and the GPU look at it when they dispatch its CTAs:
`m_next_cta` runs over the grid, x first, and `m_num_cores_running` counts the CTAs that are
on the cores. `ptx_sim_init_thread` makes the threads of the next CTA when it is called for
the first of them, and hands out one of them with every call.
-/

import Mathlib.Data.Nat.Basic
import Mathlib.Tactic.Common
import Mathlib.Tactic.Ring

namespace GpuCalorie.CtaDispatch

/-- The assertions and the other ways to fail of CTA dispatch. -/
inductive CtaFailure
  /-- A division by zero in `max_cta`. -/
  | divisionByZero
  /-- `assert(result <= MAX_CTA_PER_SHADER)`. -/
  | maxCta
  /-- `max_cta` gives up on a kernel that requires more than the shader has. -/
  | abort
  /-- A bit from `MAX_THREAD_PER_SM` up is tested. -/
  | hwtidRange
  /-- An entry of `m_cta_status` from `MAX_CTA_PER_SHADER` up is read. -/
  | ctaStatusRange
  /-- `assert(occupy_shader_resource_1block(kernel, true))`. -/
  | occupy
  /-- `assert(free_cta_hw_id != (unsigned)-1)`. -/
  | freeCtaHwId
  /-- `assert((int)start_thread != -1)`. -/
  | startThread
  /-- `assert(m_occupied_cta_to_hwtid.find(free_cta_hw_id) == m_occupied_cta_to_hwtid.end())`. -/
  | ctaToHwtid
  /-- `assert(thd->is_done())`. -/
  | threadDone
  /-- `assert(active_threads.size() <= threads_left)`. -/
  | threadsLeft
  /-- `assert(nthreads_in_block > 0 && nthreads_in_block <= m_config->n_thread_per_shader)`. -/
  | threadsInBlock
  /-- `assert(!m_active_threads.test(hwtid))`. -/
  | activeThread
  /-- `assert(m_cta_status[cta_num] > 0)`. -/
  | ctaStatus
  /-- `assert(m_kernel == NULL || !m_gpu->kernel_more_cta_left(m_kernel))`. -/
  | moreCtaLeft
  /-- One of the assertions of `release_shader_resource_1block`. -/
  | release
  /-- `assert(m_num_cores_running > 0)`. -/
  | numCoresRunning
  /-- `assert(n < m_running_kernels.size())`. -/
  | launch
  /-- The assertion of `select_kernel` that a kernel is selected for the first time. -/
  | selectKernel
  /-- `assert(k != m_running_kernels.end())`. -/
  | setKernelDone
  deriving DecidableEq, Repr

/-- `dim3`. -/
structure Dim3 where
  x : ℕ
  y : ℕ
  z : ℕ
  deriving DecidableEq, Repr

/-- `increment_x_then_y_then_z`. -/
def Dim3.incrementXThenYThenZ (i bound : Dim3) : Dim3 :=
  if bound.x ≤ i.x + 1 then
    if bound.y ≤ i.y + 1 then ⟨0, 0, if i.z < bound.z then i.z + 1 else i.z⟩
    else ⟨0, i.y + 1, i.z⟩
  else ⟨i.x + 1, i.y, i.z⟩

/-- `kernel_info_t`. A kernel's uid is its place in the table of all kernels. -/
structure KernelInfo where
  gridDim : Dim3
  /-- `threads_per_cta`. -/
  threadsPerCta : ℕ
  /-- The shared memory of a CTA. -/
  smem : ℕ
  /-- The registers of a thread. -/
  regs : ℕ
  /-- `m_kernel_TB_latency`. -/
  tbLatency : ℕ := 0
  nextCta : Dim3 := ⟨0, 0, 0⟩
  /-- The size of `m_active_threads`: threads that are made and not yet handed out. -/
  activeThreads : ℕ := 0
  numCoresRunning : ℕ := 0
  deriving DecidableEq, Repr

namespace KernelInfo

variable (k : KernelInfo)

/-- `num_blocks`, a product of 32-bit values. -/
def numBlocks : ℕ := k.gridDim.x * k.gridDim.y * k.gridDim.z % 2 ^ 32

/-- `no_more_ctas_to_run`. -/
def noMoreCtasToRun : Bool :=
  k.gridDim.x ≤ k.nextCta.x ∨ k.gridDim.y ≤ k.nextCta.y ∨ k.gridDim.z ≤ k.nextCta.z

/-- `running`. -/
def running : Bool := 0 < k.numCoresRunning

/-- `done`. -/
def done : Bool := k.noMoreCtasToRun && !k.running

/-- `increment_cta_id`. -/
def incrementCtaId : KernelInfo :=
  { k with nextCta := k.nextCta.incrementXThenYThenZ k.gridDim }

/-- A kernel of which one more CTA has begun. -/
def ctaBegun : KernelInfo :=
  { k with
    nextCta := k.nextCta.incrementXThenYThenZ k.gridDim
    numCoresRunning := k.numCoresRunning + 1 }

/-- `dec_running`. -/
def decRunning : Except CtaFailure KernelInfo :=
  if k.numCoresRunning = 0 then .error .numCoresRunning
  else .ok { k with numCoresRunning := k.numCoresRunning - 1 }

/-- `ptx_sim_init_thread`, without the state of the thread itself. -/
def simInitThread (threadsLeft : ℕ) : Except CtaFailure (ℕ × KernelInfo) :=
  if k.activeThreads ≠ 0 then
    if threadsLeft < k.activeThreads then .error .threadsLeft
    else .ok (1, { k with activeThreads := k.activeThreads - 1 })
  else if k.noMoreCtasToRun then .ok (0, k)
  else if threadsLeft < k.threadsPerCta then .ok (0, k)
  else .ok (1, { k.incrementCtaId with activeThreads := k.threadsPerCta - 1 })

end KernelInfo

end GpuCalorie.CtaDispatch

/-!
## The order of the CTAs of a grid

`increment_x_then_y_then_z` visits every CTA of a grid once: the rank of a CTA, which counts
the CTAs before it, goes up by one with every step, and no two CTAs have one rank.
-/

namespace GpuCalorie.CtaDispatch

namespace Dim3

variable (c bound : Dim3)

/-- A CTA of a grid. -/
def InGrid : Prop := c.x < bound.x ∧ c.y < bound.y ∧ c.z < bound.z

instance : Decidable (c.InGrid bound) := inferInstanceAs (Decidable (_ ∧ _ ∧ _))

/-- The number of CTAs of a grid that come before one of them. -/
def rank : ℕ := c.x + bound.x * (c.y + bound.y * c.z)

/-- The CTA that comes next, or the end of the grid. -/
def IsNext : Prop := c.InGrid bound ∨ c = ⟨0, 0, bound.z⟩

variable {c bound} (hc : c.InGrid bound)
include hc

theorem rank_inj {d : Dim3} (hd : d.InGrid bound) (h : c.rank bound = d.rank bound) : c = d := by
  obtain ⟨hcx, hcy, hcz⟩ := hc
  obtain ⟨hdx, hdy, hdz⟩ := hd
  have hx : c.x = d.x := by
    have hmod := congrArg (· % bound.x) h
    simpa only [rank, Nat.add_mul_mod_self_left, Nat.mod_eq_of_lt hcx,
      Nat.mod_eq_of_lt hdx] using hmod
  have hrow : c.y + bound.y * c.z = d.y + bound.y * d.z := by
    rw [rank, rank, hx] at h
    exact Nat.eq_of_mul_eq_mul_left (Nat.zero_lt_of_lt hcx) (Nat.add_left_cancel h)
  have hy : c.y = d.y := by
    have hmod := congrArg (· % bound.y) hrow
    simpa only [Nat.add_mul_mod_self_left, Nat.mod_eq_of_lt hcy, Nat.mod_eq_of_lt hdy] using hmod
  have hz : c.z = d.z := by
    rw [hy] at hrow
    exact Nat.eq_of_mul_eq_mul_left (Nat.zero_lt_of_lt hcy) (Nat.add_left_cancel hrow)
  cases c
  cases d
  cases hx
  cases hy
  cases hz
  rfl

theorem rank_lt_end : c.rank bound < rank ⟨0, 0, bound.z⟩ bound := by
  obtain ⟨hx, hy, hz⟩ := hc
  have hplane : c.y + bound.y * c.z < bound.y * bound.z := by
    have hmul := Nat.mul_le_mul_left bound.y (Nat.succ_le_of_lt hz)
    rw [Nat.mul_succ] at hmul
    omega
  have hgrid := Nat.mul_le_mul_left bound.x (Nat.succ_le_of_lt hplane)
  rw [Nat.mul_succ] at hgrid
  show c.x + _ < 0 + bound.x * (0 + bound.y * bound.z)
  rw [Nat.zero_add, Nat.zero_add]
  omega

theorem isNext_increment : (c.incrementXThenYThenZ bound).IsNext bound := by
  obtain ⟨hx, hy, hz⟩ := hc
  rw [incrementXThenYThenZ]
  split_ifs with hrow hplane
  · by_cases hlast : c.z + 1 < bound.z
    · exact .inl ⟨Nat.zero_lt_of_lt hx, Nat.zero_lt_of_lt hy, hlast⟩
    · have hend : c.z + 1 = bound.z := by omega
      exact .inr (congrArg (Dim3.mk 0 0) hend)
  · exact .inl ⟨Nat.zero_lt_of_lt hx, Nat.not_le.mp hplane, hz⟩
  · exact .inl ⟨Nat.not_le.mp hrow, hy, hz⟩

theorem rank_increment : (c.incrementXThenYThenZ bound).rank bound = c.rank bound + 1 := by
  obtain ⟨hx, hy, hz⟩ := hc
  rw [incrementXThenYThenZ]
  split_ifs with hrow hplane
  · have hxEnd : bound.x = c.x + 1 := by omega
    have hyEnd : bound.y = c.y + 1 := by omega
    rw [rank, rank, hxEnd, hyEnd]
    ring
  · have hxEnd : bound.x = c.x + 1 := by omega
    rw [rank, rank, hxEnd]
    ring
  · rw [rank, rank]
    ring

end Dim3

namespace KernelInfo

variable {k : KernelInfo}

theorem noMoreCtasToRun_eq_false : k.noMoreCtasToRun = false ↔ k.nextCta.InGrid k.gridDim := by
  rw [noMoreCtasToRun, decide_eq_false_iff_not, Dim3.InGrid]
  omega

theorem inGrid_zero (h : k.numBlocks ≠ 0) : Dim3.InGrid ⟨0, 0, 0⟩ k.gridDim := by
  refine ⟨?_, ?_, ?_⟩ <;>
  · rw [Nat.pos_iff_ne_zero]
    intro hzero
    exact h (by simp [numBlocks, hzero])

end KernelInfo

end GpuCalorie.CtaDispatch
