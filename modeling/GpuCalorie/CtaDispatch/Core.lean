/-
# The CTAs of a core

`shader_core_ctx`, as far as it gives hardware threads to CTAs. In one mode the CTAs of a core
are of one kernel, and a CTA has the threads that belong to its entry of `m_cta_status`. With
`gpgpu_concurrent_kernel_sm` they may be of different kernels, and the core keeps account of
the threads, the registers and the shared memory they occupy.

The functions fail where the code asserts or reads past the end of an array. Values of type
`unsigned` wrap where they are not bounded by the number of hardware threads. The list of the
CTAs that are on the core is recorded for the proofs; nothing reads it.

Left out are the barriers and the SIMT stacks of the CTA, and checkpoints.
-/

import GpuCalorie.CtaDispatch.Kernel
import GpuCalorie.Math.Loop
import Mathlib.Data.Nat.ModEq

namespace GpuCalorie.CtaDispatch

open GpuCalorie.Math

/-- `MAX_THREAD_PER_SM`. -/
def maxThreadPerSm : ℕ := 2048

/-- `MAX_CTA_PER_SHADER`. -/
def maxCtaPerShader : ℕ := 32

/-- A value of type `unsigned`. -/
def unsigned (value : ℕ) : ℕ := value % 2 ^ 32

/-- `shader_core_config`. Its `init` checks the last two fields. -/
structure ShaderCoreConfig where
  warpSize : ℕ
  nThreadPerShader : ℕ
  gpgpuShmemSize : ℕ
  gpgpuShaderRegisters : ℕ
  maxCtaPerCore : ℕ
  numShader : ℕ
  gpgpuIgnoreResourcesLimitation : Bool
  gpgpuConcurrentKernelSm : Bool
  warpSize_pos : 0 < warpSize
  threads_le : nThreadPerShader ≤ maxThreadPerSm
  warpSize_dvd : warpSize ∣ nThreadPerShader

namespace ShaderCoreConfig

variable (cfg : ShaderCoreConfig) (k : KernelInfo)

/-- `padded_cta_size`: a CTA has whole warps. -/
def paddedCtaSize (threadsPerCta : ℕ) : ℕ :=
  if threadsPerCta % cfg.warpSize ≠ 0 then (threadsPerCta / cfg.warpSize + 1) * cfg.warpSize
  else threadsPerCta

/-- The registers of a CTA: those of a thread are rounded up to a multiple of four. -/
def ctaRegs : ℕ := cfg.paddedCtaSize k.threadsPerCta * ((k.regs + 3) / 4 * 4)

/-- `used_regs`. -/
def usedRegs : ℕ := unsigned (cfg.ctaRegs k)

/-- The limit by shared memory. -/
def resultShmem : ℕ :=
  if 0 < k.smem then cfg.gpgpuShmemSize / k.smem else 2 ^ 32 - 1

/-- The limit by registers. -/
def resultRegs : ℕ :=
  if 0 < k.regs then cfg.gpgpuShaderRegisters / cfg.usedRegs k else 2 ^ 32 - 1

/-- The smallest of the limits, less where there are not enough CTAs for all cores. -/
def maxCtaResult : ℕ :=
  let result :=
    min (min (min (cfg.nThreadPerShader / cfg.paddedCtaSize k.threadsPerCta) (cfg.resultShmem k))
    (cfg.resultRegs k)) cfg.maxCtaPerCore
  if k.numBlocks < unsigned (result * cfg.numShader) then
    k.numBlocks / cfg.numShader + if k.numBlocks % cfg.numShader ≠ 0 then 1 else 0
  else result

/-- `max_cta`, without what it does to the configuration of the L1 data cache. -/
def maxCta : Except CtaFailure ℕ :=
  if cfg.paddedCtaSize k.threadsPerCta = 0 ∨ (0 < k.regs ∧ cfg.usedRegs k = 0) then .error
    .divisionByZero
  else if maxCtaPerShader < cfg.maxCtaResult k then .error .maxCta
  else if cfg.maxCtaResult k < 1 then
    if cfg.gpgpuIgnoreResourcesLimitation then .ok 1 else .error .abort
  else .ok (cfg.maxCtaResult k)

end ShaderCoreConfig

/-! ## Ranges of hardware threads -/

/-- Test the bits of a range one after the other up to the first one that is set. Testing one
that the bitset does not have throws. -/
def allClear (bits : ℕ → Bool) : ℕ → ℕ → Except CtaFailure Bool
  | 0, _ => .ok true
  | count + 1, hwTid =>
    if maxThreadPerSm ≤ hwTid then .error .hwtidRange
    else if bits hwTid then .ok false
    else allClear bits count (hwTid + 1)

/-- The bits of a bitset after those of a range have been set. -/
def setRange (bits : ℕ → Bool) (start count : ℕ) : ℕ → Bool := fun hwTid =>
  if start ≤ hwTid ∧ hwTid < start + count then true else bits hwTid

/-- The bits of a bitset after those of a range have been reset. -/
def resetRange (bits : ℕ → Bool) (start count : ℕ) : ℕ → Bool := fun hwTid =>
  if start ≤ hwTid ∧ hwTid < start + count then false else bits hwTid

/-! ## Resources of concurrent kernels -/

/-- The members of `shader_core_ctx` that keep account of what is occupied. -/
structure Resources where
  nThreads : ℕ := 0
  shmem : ℕ := 0
  regs : ℕ := 0
  ctas : ℕ := 0
  hwtid : ℕ → Bool := fun _ => false
  ctaToHwtid : ℕ → Option ℕ := fun _ => none

namespace Resources

variable (cfg : ShaderCoreConfig) (s : Resources)

/-- The loop of `find_available_hwtid`, with enough rounds for every step. -/
def findFrom (ctaSize : ℕ) : ℕ → ℕ → Except CtaFailure (Option ℕ)
  | 0, _ => .ok none
  | rounds + 1, step =>
    if cfg.nThreadPerShader ≤ step then .ok none
    else do
      let clear ← allClear s.hwtid ctaSize step
      if clear then return some step else findFrom ctaSize rounds (step + ctaSize)

/-- `find_available_hwtid`, without occupying what it finds. -/
def findAvailableHwtid (ctaSize : ℕ) : Except CtaFailure (Option ℕ) :=
  s.findFrom cfg ctaSize cfg.nThreadPerShader 0

/-- `occupy_shader_resource_1block`, without occupying anything. -/
def hasResources (k : KernelInfo) : Except CtaFailure Bool :=
  if cfg.nThreadPerShader < s.nThreads + cfg.paddedCtaSize k.threadsPerCta then .ok false
  else do
    let step ← s.findAvailableHwtid cfg (cfg.paddedCtaSize k.threadsPerCta)
    return step.isSome ∧ unsigned (s.shmem + k.smem) ≤ cfg.gpgpuShmemSize ∧
      unsigned (s.regs + cfg.usedRegs k) ≤ cfg.gpgpuShaderRegisters ∧ s.ctas + 1 ≤ cfg.maxCtaPerCore

/-- What is occupied with one CTA more. -/
def occupy (k : KernelInfo) : Resources :=
  { s with
    nThreads := s.nThreads + cfg.paddedCtaSize k.threadsPerCta
    shmem := unsigned (s.shmem + k.smem)
    regs := unsigned (s.regs + cfg.usedRegs k)
    ctas := s.ctas + 1 }

/-- `occupy_shader_resource_1block`, which is asserted to succeed. -/
def occupyShaderResource1block (k : KernelInfo) : Except CtaFailure Resources := do
  let available ← s.hasResources cfg k
  if available then return s.occupy cfg k else .error .occupy

/-- `find_available_hwtid`, which marks the range it finds, and the note of where the CTA is. -/
def placeCta (paddedCtaSize ctaId : ℕ) : Except CtaFailure (ℕ × Resources) := do
  let step ← s.findAvailableHwtid cfg paddedCtaSize
  match step with
  | none => .error .startThread
  | some start =>
    if s.ctaToHwtid ctaId ≠ none then .error .ctaToHwtid
    else return (start, { s with
      hwtid := setRange s.hwtid start paddedCtaSize
      ctaToHwtid := Function.update s.ctaToHwtid ctaId (some start) })

/-- What is occupied with one CTA less. -/
def vacate (ctaNum : ℕ) (k : KernelInfo) : Resources where
  nThreads := s.nThreads - cfg.paddedCtaSize k.threadsPerCta
  hwtid := resetRange s.hwtid ((s.ctaToHwtid ctaNum).getD 0) (cfg.paddedCtaSize k.threadsPerCta)
  ctaToHwtid := Function.update s.ctaToHwtid ctaNum none
  shmem := s.shmem - k.smem
  regs := s.regs - cfg.usedRegs k
  ctas := s.ctas - 1

/-- `release_shader_resource_1block`. -/
def releaseShaderResource1block (ctaNum : ℕ) (k : KernelInfo) : Except CtaFailure Resources :=
  if cfg.gpgpuConcurrentKernelSm then
    if s.nThreads < cfg.paddedCtaSize k.threadsPerCta ∨ s.shmem < k.smem ∨ s.regs < cfg.usedRegs k ∨
        s.ctas < 1 then .error .release
    else .ok (s.vacate cfg ctaNum k)
  else .ok s

end Resources

/-! ## The core -/

/-- The loop that looks for an entry of `m_cta_status` that is zero. -/
def freeCtaFrom (ctaStatus : ℕ → ℕ) : ℕ → ℕ → Except CtaFailure ℕ
  | 0, _ => .error .freeCtaHwId
  | count + 1, i =>
    if maxCtaPerShader ≤ i then .error .ctaStatusRange
    else if ctaStatus i = 0 then .ok i
    else freeCtaFrom ctaStatus count (i + 1)

/-- What a core knows of a hardware thread: `m_active` of its `thread_ctx_t`, and the kernel
of its `ptx_thread_info`. -/
structure HwThread where
  active : Bool := false
  kernel : ℕ := 0
  deriving DecidableEq, Repr

/-- A CTA that is on a core. -/
structure Resident where
  ctaId : ℕ
  /-- The kernel's uid. -/
  kernel : ℕ
  start : ℕ
  /-- The kernel's `threads_per_cta`. -/
  size : ℕ
  deriving DecidableEq, Repr

/-- `shader_core_ctx`. -/
structure ShaderCore where
  /-- `m_kernel`. -/
  kernel : Option ℕ := none
  ctaStatus : ℕ → ℕ := fun _ => 0
  nActiveCta : ℕ := 0
  notCompleted : ℕ := 0
  /-- `m_active_threads`. -/
  activeThreads : ℕ → Bool := fun _ => false
  threads : ℕ → HwThread := fun _ => {}
  /-- The `m_cta_id` of the warps. -/
  warpCtaId : ℕ → ℕ := fun _ => 0
  kernelMaxCtaPerShader : ℕ := 0
  /-- What is occupied, with concurrent kernels. -/
  occupied : Resources := {}
  /-- The CTAs that are on the core. -/
  resident : List Resident := []

namespace ShaderCore

variable (cfg : ShaderCoreConfig) (s : ShaderCore)

/-- `can_issue_1block`. -/
def canIssue1block (k : KernelInfo) : Except CtaFailure Bool := do
  let maxCta ← cfg.maxCta k
  if cfg.gpgpuConcurrentKernelSm then
    if maxCta < 1 then return false else s.occupied.hasResources cfg k
  else return s.nActiveCta < maxCta

/-! ## A CTA begins -/

/-- The first lines of `issue_block2core`. -/
def reserve (k : KernelInfo) : Except CtaFailure ShaderCore :=
  if cfg.gpgpuConcurrentKernelSm then do
    let occupied ← s.occupied.occupyShaderResource1block cfg k
    return { s with occupied := occupied }
  else do
    let maxCta ← cfg.maxCta k
    return { s with kernelMaxCtaPerShader := maxCta }

/-- `free_cta_hw_id`. -/
def freeCtaHwId : Except CtaFailure ℕ :=
  freeCtaFrom s.ctaStatus
    (if cfg.gpgpuConcurrentKernelSm then cfg.maxCtaPerCore else s.kernelMaxCtaPerShader) 0

/-- `start_thread`. -/
def startThread (paddedCtaSize ctaId : ℕ) : Except CtaFailure (ℕ × ShaderCore) :=
  if cfg.gpgpuConcurrentKernelSm then do
    let (start, occupied) ← s.occupied.placeCta cfg paddedCtaSize ctaId
    return (start, { s with occupied := occupied })
  else .ok (ctaId * paddedCtaSize, s)

/-- The body of the loop over the CTA's threads, as far as it counts them. The thread that was
there before is done if it has exited. -/
def initThread (start ctaSize i : ℕ) (counted : ℕ × KernelInfo) :
    Except CtaFailure (ℕ × KernelInfo) :=
  if (s.threads (start + i)).active then .error .threadDone
  else do
    let (n, k) ← counted.2.simInitThread (ctaSize - i)
    return (counted.1 + n, k)

/-- `init_warps`, whose loop goes over the threads of whole warps up to the CTA's last one. -/
def initWarps (ctaId start ctaSize : ℕ) : Except CtaFailure ShaderCore := do
  let first := start / cfg.warpSize * cfg.warpSize
  let count := start + ctaSize - first
  let clear ← allClear s.activeThreads count first
  if clear then return { s with
    activeThreads := setRange s.activeThreads first count
    warpCtaId := fun warp =>
      if start / cfg.warpSize ≤ warp ∧ warp * cfg.warpSize < start + ctaSize then ctaId
      else s.warpCtaId warp
    notCompleted := s.notCompleted + count }
  else .error .activeThread

/-- The part of `issue_block2core` that follows `start_thread`. -/
def beginCta (ctaId start uid : ℕ) (k : KernelInfo) :
    Except CtaFailure (ShaderCore × KernelInfo) := do
  let ctaSize := k.threadsPerCta
  let (nthreadsInBlock, k) ← countUp (s.initThread start ctaSize) ctaSize (0, k)
  if nthreadsInBlock = 0 ∨ cfg.nThreadPerShader < nthreadsInBlock then .error .threadsInBlock
  else do
    let s ← initWarps cfg { s with
      ctaStatus := Function.update s.ctaStatus ctaId nthreadsInBlock
      threads := fun hwTid =>
        if start ≤ hwTid ∧ hwTid < start + ctaSize then ⟨true, uid⟩ else s.threads hwTid } ctaId
          start ctaSize
    return ({ s with
      nActiveCta := s.nActiveCta + 1
      resident := ⟨ctaId, uid, start, ctaSize⟩ :: s.resident }, k)

/-- `issue_block2core`. -/
def issueBlock2core (uid : ℕ) (k : KernelInfo) : Except CtaFailure (ShaderCore × KernelInfo) := do
  let s ← s.reserve cfg k
  let ctaId ← s.freeCtaHwId cfg
  let (start, s) ← s.startThread cfg (cfg.paddedCtaSize k.threadsPerCta) ctaId
  s.beginCta cfg ctaId start uid { k with numCoresRunning := k.numCoresRunning + 1 }

/-! ## A thread exits -/

/-- The kernel of a core that has one CTA less. A core without CTAs has no kernel, and the one
it had must have no CTA left if it is not the kernel of the last one. -/
def kernelAfter (kernels : ℕ → KernelInfo) (uid : ℕ) : Except CtaFailure (Option ℕ) :=
  if s.nActiveCta = 1 then
    if s.kernel ≠ some uid ∧ s.kernel.any fun m =>
      !(kernels m).noMoreCtasToRun then .error .moreCtaLeft
    else .ok none
  else .ok s.kernel

/-- The part of `register_cta_thread_exit` for the last thread of a CTA. The last value tells
whether the kernel is done. -/
def finishCta (kernels : ℕ → KernelInfo) (ctaNum uid : ℕ) :
    Except CtaFailure (ShaderCore × KernelInfo × Bool) := do
  let kernel ← s.kernelAfter kernels uid
  let occupied ← s.occupied.releaseShaderResource1block cfg ctaNum (kernels uid)
  let k ← (kernels uid).decRunning
  return ({ s with
    nActiveCta := s.nActiveCta - 1
    kernel := if k.done ∧ kernel = some uid then none else kernel
    occupied := occupied
    resident := s.resident.filter fun r => r.ctaId ≠ ctaNum }, k, k.done)

/-- `register_cta_thread_exit`. -/
def registerCtaThreadExit (kernels : ℕ → KernelInfo) (ctaNum uid : ℕ) :
    Except CtaFailure (ShaderCore × KernelInfo × Bool) :=
  if s.ctaStatus ctaNum = 0 then .error .ctaStatus
  else
    let s := { s with ctaStatus := Function.update s.ctaStatus ctaNum (s.ctaStatus ctaNum - 1) }
    if s.ctaStatus ctaNum = 0 then s.finishCta cfg kernels ctaNum uid
    else .ok (s, kernels uid, false)

/-- The part of `fetch` for a thread of a warp that has exited. -/
def exitThread (kernels : ℕ → KernelInfo) (tid : ℕ) :
    Except CtaFailure (ShaderCore × KernelInfo × Bool) := do
  let (s, k, finished) ← registerCtaThreadExit cfg
    { s with threads := Function.update s.threads tid { s.threads tid with active := false } }
    kernels (s.warpCtaId (tid / cfg.warpSize)) (s.threads tid).kernel
  return ({ s with
    notCompleted := s.notCompleted - 1
    activeThreads := Function.update s.activeThreads tid false }, k, finished)

end ShaderCore

end GpuCalorie.CtaDispatch
