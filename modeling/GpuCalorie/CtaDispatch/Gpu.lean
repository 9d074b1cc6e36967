/-
# Kernels on the cores of a GPU

`gpgpu_sim` keeps the kernels it runs in slots. A cluster asks one of its cores after the other
for the kernel to take the next CTA from: a core stays with its kernel while that has CTAs left,
and takes another one, which `select_kernel` chooses, when it has none to run.

`gpuSystem` has the runs in which kernels are launched while there is a slot, clusters issue
CTAs and threads exit, in any order. A core with number `sid` belongs to the cluster
`sid / nSimtCoresPerCluster`. What was launched and issued is recorded; nothing reads it.
-/

import GpuCalorie.CtaDispatch.Core
import GpuCalorie.CtaDispatch.Kernel
import GpuCalorie.Math.Transition

namespace GpuCalorie.CtaDispatch

open GpuCalorie.Math

/-- `gpgpu_sim_config`, with at least one slot for kernels. -/
structure GpuConfig where
  shader : ShaderCoreConfig
  nSimtClusters : ℕ
  nSimtCoresPerCluster : ℕ
  maxConcurrentKernel : ℕ
  maxConcurrentKernel_pos : 0 < maxConcurrentKernel

/-- The number of cores. -/
def GpuConfig.nShader (cfg : GpuConfig) : ℕ := cfg.nSimtClusters * cfg.nSimtCoresPerCluster

/-- `gpgpu_sim` with its clusters and cores. -/
structure Gpu where
  kernels : ℕ → KernelInfo
  /-- `m_running_kernels`. -/
  runningKernels : ℕ → Option ℕ := fun _ => none
  lastIssuedKernel : ℕ := 0
  executedKernelUids : List ℕ := []
  /-- What was pushed to `m_finished_kernel`. -/
  finishedKernel : List ℕ := []
  cores : ℕ → ShaderCore := fun _ => {}
  /-- The `m_cta_issue_next_core` of the clusters. -/
  ctaIssueNextCore : ℕ → ℕ
  /-- The kernels that were launched. -/
  launched : List ℕ := []
  /-- The CTAs that were issued, with their kernels. -/
  issued : List (ℕ × Dim3) := []

namespace Gpu

variable (cfg : GpuConfig) (s : Gpu)

/-- A slot is free, or its kernel is done. -/
def slotFree (n : ℕ) : Bool :=
  match s.runningKernels n with
  | none => true
  | some uid => (s.kernels uid).done

/-- The first slot with a property. -/
def findSlot (p : ℕ → Bool) : Option ℕ := (List.range cfg.maxConcurrentKernel).find? p

/-- `can_start_kernel`. -/
def canStartKernel : Bool := (findSlot cfg s.slotFree).isSome

/-- `gpgpu_sim::launch`. -/
def launch (uid : ℕ) : Except CtaFailure Gpu :=
  if cfg.shader.nThreadPerShader < (s.kernels uid).threadsPerCta then .error .abort
  else match findSlot cfg s.slotFree with
    | none => .error .launch
    | some n => .ok { s with
      runningKernels := Function.update s.runningKernels n (some uid)
      launched := uid :: s.launched }

/-- `decrement_kernel_latency`. -/
def decrementKernelLatency : Gpu :=
  { s with kernels := fun uid =>
      if (findSlot cfg fun n => s.runningKernels n = some uid).isSome then
        { s.kernels uid with tbLatency := (s.kernels uid).tbLatency - 1 }
      else s.kernels uid }

/-- `kernel_more_cta_left`, without a CTA limit. -/
def kernelMoreCtaLeft (kernel : Option ℕ) : Bool :=
  kernel.any fun uid => !(s.kernels uid).noMoreCtasToRun

/-- The kernel of a slot has CTAs left, and may be issued. -/
def slotReady (n : ℕ) : Bool :=
  (s.runningKernels n).any fun uid =>
    !(s.kernels uid).noMoreCtasToRun && (s.kernels uid).tbLatency = 0

/-- The loop of `select_kernel` over the slots, from the one after the last. -/
def nextSlot : Option ℕ :=
  ((List.range cfg.maxConcurrentKernel).map fun n =>
    (n + s.lastIssuedKernel + 1) % cfg.maxConcurrentKernel).find? s.slotReady

/-- `select_kernel`. -/
def selectKernel : Except CtaFailure (Option ℕ × Gpu) :=
  if s.slotReady s.lastIssuedKernel then
    .ok (s.runningKernels s.lastIssuedKernel, { s with
      executedKernelUids := s.executedKernelUids ++
        (s.runningKernels s.lastIssuedKernel).toList.filter fun uid => uid ∉ s.executedKernelUids })
  else match s.nextSlot cfg with
    | none => .ok (none, s)
    | some n =>
      if (s.runningKernels n).any fun uid => uid ∈ s.executedKernelUids then .error .selectKernel
      else .ok (s.runningKernels n, { s with
        lastIssuedKernel := n
        executedKernelUids := s.executedKernelUids ++ (s.runningKernels n).toList })

/-- `set_kernel_done`. -/
def setKernelDone (uid : ℕ) : Except CtaFailure Gpu :=
  match findSlot cfg fun n => s.runningKernels n = some uid with
  | none => .error .setKernelDone
  | some n => .ok { s with
    finishedKernel := s.finishedKernel ++ [uid]
    runningKernels := Function.update s.runningKernels n none }

/-! ## Issuing CTAs -/

/-- `set_kernel` of a core. -/
def setKernel (sid uid : ℕ) : Gpu :=
  { s with cores := Function.update s.cores sid { s.cores sid with kernel := some uid } }

/-- The kernel a core takes its next CTA from. -/
def chooseKernel (sid : ℕ) : Except CtaFailure (Option ℕ × Gpu) :=
  if s.kernelMoreCtaLeft (s.cores sid).kernel then .ok ((s.cores sid).kernel, s)
  else if (s.cores sid).notCompleted = 0 then do
    let (kernel, s) ← s.selectKernel cfg
    return (kernel, match kernel with
      | none => s
      | some uid => s.setKernel sid uid)
  else .ok ((s.cores sid).kernel, s)

/-- A core begins the next CTA of a kernel. -/
def issueCta (sid uid : ℕ) : Except CtaFailure Gpu := do
  let (core, k) ← (s.cores sid).issueBlock2core cfg.shader uid (s.kernels uid)
  return { s with
    cores := Function.update s.cores sid core
    kernels := Function.update s.kernels uid k
    issued := (uid, (s.kernels uid).nextCta) :: s.issued }

/-- The loop of `simt_core_cluster::issue_block2core`, which issues at most one CTA. -/
def issueFrom (cluster : ℕ) : ℕ → Gpu → Except CtaFailure Gpu
  | 0, s => .ok s
  | count + 1, s => do
    let core := (cfg.nSimtCoresPerCluster - (count + 1) + s.ctaIssueNextCore cluster + 1)
      % cfg.nSimtCoresPerCluster
    let sid := cluster * cfg.nSimtCoresPerCluster + core
    let (kernel, s) ← s.chooseKernel cfg sid
    match kernel with
    | none => issueFrom cluster count s
    | some uid =>
      if s.kernelMoreCtaLeft (some uid) then
        let canIssue ← (s.cores sid).canIssue1block cfg.shader (s.kernels uid)
        if canIssue then
          let s ← s.issueCta cfg sid uid
          return { s with ctaIssueNextCore := Function.update s.ctaIssueNextCore cluster core }
        else issueFrom cluster count s
      else issueFrom cluster count s

/-- `simt_core_cluster::issue_block2core`. -/
def issueBlock2core (cluster : ℕ) : Except CtaFailure Gpu :=
  issueFrom cfg cluster cfg.nSimtCoresPerCluster s

/-- A thread exits. -/
def exitThread (sid tid : ℕ) : Except CtaFailure Gpu := do
  let uid := ((s.cores sid).threads tid).kernel
  let (core, k, finished) ← (s.cores sid).exitThread cfg.shader s.kernels tid
  let s := { s with
    cores := Function.update s.cores sid core
    kernels := Function.update s.kernels uid k }
  if finished then s.setKernelDone cfg uid else return s

/-! ## Runs -/

/-- What happens on a GPU. Printing statistics clears `m_executed_kernel_uids`. -/
inductive Event
  | launch (uid : ℕ)
  | decrementKernelLatency
  | clearExecutedKernelInfo
  | issueBlock2core (cluster : ℕ)
  | exitThread (sid tid : ℕ)

/-- A kernel is launched once, where `can_start_kernel` holds. `cudaLaunch` refuses kernels
without CTAs or without threads. -/
def Enabled : Event → Prop
  | .launch uid =>
    uid ∉ s.launched ∧ s.canStartKernel cfg = true ∧
      (s.kernels uid).numBlocks ≠ 0 ∧ 0 < (s.kernels uid).threadsPerCta
  | .decrementKernelLatency => True
  | .clearExecutedKernelInfo => True
  | .issueBlock2core cluster => cluster < cfg.nSimtClusters
  | .exitThread sid tid => sid < cfg.nShader ∧ ((s.cores sid).threads tid).active = true

instance (s : Gpu) (event : Event) : Decidable (s.Enabled cfg event) :=
  match event with
  | .launch _ => inferInstanceAs (Decidable (_ ∧ _ ∧ _ ∧ _))
  | .decrementKernelLatency => .isTrue trivial
  | .clearExecutedKernelInfo => .isTrue trivial
  | .issueBlock2core _ => inferInstanceAs (Decidable (_ < _))
  | .exitThread _ _ => inferInstanceAs (Decidable (_ ∧ _))

/-- A GPU after an event. -/
def step : Event → Except CtaFailure Gpu
  | .launch uid => s.launch cfg uid
  | .decrementKernelLatency => .ok (s.decrementKernelLatency cfg)
  | .clearExecutedKernelInfo => .ok { s with executedKernelUids := [] }
  | .issueBlock2core cluster => s.issueBlock2core cfg cluster
  | .exitThread sid tid => s.exitThread cfg sid tid

/-- A GPU that has not run anything, with the kernels that may be launched. -/
def Created : Prop :=
  ∃ kernels ctaIssueNextCore, s = { kernels, ctaIssueNextCore } ∧
    ∀ uid, (kernels uid).nextCta = ⟨0, 0, 0⟩ ∧ (kernels uid).activeThreads = 0 ∧
      (kernels uid).numCoresRunning = 0

end Gpu

/-- The runs of a GPU. -/
def gpuSystem (cfg : GpuConfig) : TransitionSystem (Except CtaFailure Gpu) Gpu.Event :=
  .ofExcept Gpu.Created (Gpu.Enabled cfg) (Gpu.step cfg)

end GpuCalorie.CtaDispatch
