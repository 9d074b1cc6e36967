/-
# What concurrent kernels occupy on a core

With `gpgpu_concurrent_kernel_sm` a core takes CTAs of any kernels, as long as
`can_issue_1block` allows it. `smSystem` has all sequences of CTA launches and thread exits on
a core.

`find_available_hwtid` tries the multiples of the CTA's padded size as start threads. It does
not look whether the range ends on the core, so that a CTA whose size does not divide the
number of threads can be placed past the end, where nothing is ever occupied. `Fits` is the
condition that a launch finds a range on the core, and that the sums of registers and of
shared memory are no larger than an `unsigned` can hold. Where all launches meet it, the core
accounts for its CTAs.
-/

import GpuCalorie.CtaDispatch.BeginCta
import GpuCalorie.CtaDispatch.ExitThread
import GpuCalorie.Math.Transition

namespace GpuCalorie.CtaDispatch

open GpuCalorie.Math

/-- What `gpgpu_sim::launch` checks for a kernel whose CTAs have threads. -/
def KernelInfo.Launched (cfg : ShaderCoreConfig) (k : KernelInfo) : Prop :=
  0 < k.threadsPerCta ∧ k.threadsPerCta ≤ cfg.nThreadPerShader

/-- A kernel none of whose CTAs has begun. -/
def KernelInfo.Fresh (k : KernelInfo) : Prop :=
  k.nextCta = ⟨0, 0, 0⟩ ∧ k.activeThreads = 0 ∧ k.numCoresRunning = 0

/-- A core and the kernels whose CTAs it may run. -/
structure SmState where
  core : ShaderCore
  kernels : ℕ → KernelInfo

namespace SmState

/-- What happens on a core. -/
inductive Event
  | issue (uid : ℕ)
  | exit (tid : ℕ)

variable (cfg : ShaderCoreConfig) (s : SmState)

/-- `simt_core_cluster::issue_block2core` issues a CTA of a kernel with CTAs left when the core
can take it. `fetch` looks at threads that are active. -/
def Enabled : Event → Prop
  | .issue uid =>
    (s.kernels uid).noMoreCtasToRun = false ∧ s.core.canIssue1block cfg (s.kernels uid) = .ok true
  | .exit tid => (s.core.threads tid).active = true

instance (s : SmState) (event : Event) : Decidable (s.Enabled cfg event) :=
  match event with
  | .issue _ => inferInstanceAs (Decidable (_ ∧ _))
  | .exit _ => inferInstanceAs (Decidable (_ = _))

def step : Event → Except CtaFailure SmState
  | .issue uid => do
    let (core, k) ← s.core.issueBlock2core cfg uid (s.kernels uid)
    return ⟨core, Function.update s.kernels uid k⟩
  | .exit tid => do
    let (core, k, _) ← s.core.exitThread cfg s.kernels tid
    return ⟨core, Function.update s.kernels (s.core.threads tid).kernel k⟩

/-- A multiple of the CTA's padded size is the start of a free range on the core. -/
def HasRange (k : KernelInfo) : Prop :=
  ∃ j < cfg.nThreadPerShader / cfg.paddedCtaSize k.threadsPerCta,
    ∀ i < cfg.paddedCtaSize k.threadsPerCta,
      s.core.occupied.hwtid (j * cfg.paddedCtaSize k.threadsPerCta + i) = false

/-- A launch finds a free range on the core, no sum wraps, and there is an entry of
`m_cta_status` left. -/
def Fits : Event → Prop
  | .issue uid =>
    s.HasRange cfg (s.kernels uid) ∧
      s.core.occupied.shmem + (s.kernels uid).smem < 2 ^ 32 ∧
      s.core.occupied.regs + cfg.ctaRegs (s.kernels uid) < 2 ^ 32 ∧
      s.core.nActiveCta < maxCtaPerShader
  | .exit _ => True

instance (s : SmState) (k : KernelInfo) : Decidable (s.HasRange cfg k) :=
  inferInstanceAs (Decidable (∃ j < _, ∀ i < _, _))

instance (s : SmState) (event : Event) : Decidable (s.Fits cfg event) :=
  match event with
  | .issue _ => inferInstanceAs (Decidable (_ ∧ _ ∧ _ ∧ _))
  | .exit _ => .isTrue trivial

/-- The core accounts for its CTAs: their ranges are on the core and apart, what is counted as
occupied is what they need, and the threads that are marked are those in their ranges. -/
structure Accounted : Prop where
  size : ∀ r ∈ s.core.resident, r.size = (s.kernels r.kernel).threadsPerCta
  inBounds : ∀ r ∈ s.core.resident, r.stop cfg ≤ cfg.nThreadPerShader
  apart : ∀ r ∈ s.core.resident, ∀ r' ∈ s.core.resident, r ≠ r' → r.Apart cfg r'
  nThreads : s.core.occupied.nThreads
    = (s.core.resident.map fun r => cfg.paddedCtaSize (s.kernels r.kernel).threadsPerCta).sum
  shmem : s.core.occupied.shmem = (s.core.resident.map fun r => (s.kernels r.kernel).smem).sum
  regs : s.core.occupied.regs = (s.core.resident.map fun r => cfg.ctaRegs (s.kernels r.kernel)).sum
  ctas : s.core.occupied.ctas = s.core.resident.length
  hwtid : ∀ tid, s.core.occupied.hwtid tid = true ↔
    ∃ r ∈ s.core.resident, r.start ≤ tid ∧ tid < r.stop cfg

end SmState

/-- The runs of a core that takes CTAs of concurrent kernels. -/
def smSystem (cfg : ShaderCoreConfig) :
    TransitionSystem (Except CtaFailure SmState) SmState.Event :=
  .ofExcept (fun s => s.core = {} ∧ ∀ uid, (s.kernels uid).Launched cfg ∧ (s.kernels uid).Fresh)
    (SmState.Enabled cfg) (SmState.step cfg)

end GpuCalorie.CtaDispatch
