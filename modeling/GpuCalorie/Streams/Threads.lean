/-
# The host thread and the simulation thread

The host thread makes streams, pushes operations and destroys streams. The simulation thread
alternates between `operation` and cycles of the GPU, in which kernels finish, and CTAs make
streams and launch children. A call is a list of instructions, some of which take or release
`m_lock`, which is not recursive. `threadSystem` has all interleavings of the calls of both
threads, instruction by instruction, with the calls in any order.

`destroy_stream` and the host's synchronisation wait for a stream to be empty: a step of such a
wait is there only when the stream is. When a kernel is retired, its stream's counters and those
of its ancestors change in one step, as no lock of the stream manager is taken in between. The
streams of the kernels that are deleted are destroyed after that. Memory errors are left out: an
operation that is pushed to a stream that has been destroyed stays there.
-/

import GpuCalorie.Math.Mutex
import GpuCalorie.Math.Transition
import GpuCalorie.Streams.Manager

namespace GpuCalorie.Streams

open GpuCalorie.Math

inductive Thread
  | host
  | sim
  deriving DecidableEq, Repr

/-- What the calls of the threads consist of. -/
inductive Instr
  | lock
  | unlock
  /-- `m_streams.push_back`. -/
  | addStream (sid : ℕ)
  /-- The test in the first loop of `push`. -/
  | testConcurrent
  /-- `push` accepts an operation for a stream, or for `m_stream_zero`. -/
  | accept (target : Option ℕ) (op : StreamOperation)
  /-- The last loop of `push`. -/
  | untilEmpty
  /-- `CUstream_st::synchronize`. -/
  | synchronize (sid : ℕ)
  /-- The loop of `destroy_stream`. -/
  | awaitEmpty (sid : ℕ)
  /-- The rest of `destroy_stream`. -/
  | eraseStream (sid : ℕ)
  /-- `check_finished_kernel`, in a loop for as long as kernels are retired or not. -/
  | checkFinished (loop : Bool)
  /-- `front` and `do_operation`. -/
  | issue
  /-- `gpgpu_sim::stop_all_running_kernels`. -/
  | stopRunning
  deriving DecidableEq, Repr

/-- Two threads, the lock and the stream manager. -/
structure Threads where
  manager : StreamManager := {}
  /-- The thread that holds `m_lock`. -/
  holder : Option Thread := none
  program : Thread → List Instr := fun _ => []
  /-- The simulation thread leaves its loop. -/
  simDone : Bool := false

/-! ## Calls -/

/-- `push`. -/
def pushCall (cfg : StreamConfig) (target : Option ℕ) (op : StreamOperation) : List Instr :=
  (if target.isNone ∨ cfg.cudaLaunchBlocking then [.lock, .testConcurrent, .unlock] else []) ++
    [.lock, .accept target op, .unlock] ++
    if target.isNone ∨ cfg.cudaLaunchBlocking then [.untilEmpty] else []

/-- `add_stream`. -/
def addStreamCall (sid : ℕ) : List Instr := [.lock, .addStream sid, .unlock]

/-- `destroy_stream`. -/
def destroyStreamCall (sid : ℕ) : List Instr := [.lock, .awaitEmpty sid, .eraseStream sid, .unlock]

/-- `operation`. -/
def operationCall : List Instr := [.checkFinished false, .lock, .issue, .unlock]

/-- `stop_all_running_kernels`. -/
def stopCall : List Instr := [.lock, .stopRunning, .checkFinished true, .unlock]

namespace StreamManager

variable (cfg : StreamConfig) (s : StreamManager)

/-- `destroy_cta_streams` of kernels that are deleted. -/
def destroyCtaStreams (deleted : List ℕ) : List Instr :=
  deleted.flatMap fun uid => (s.kernels uid).ctaStreams.flatMap destroyStreamCall

/-- An instruction, and what is to be done in its place before the rest of the call. -/
def exec : Instr → Except StreamFailure (List Instr × StreamManager)
  | .lock | .unlock | .untilEmpty | .synchronize _ | .awaitEmpty _ => .ok ([], s)
  | .addStream sid => .ok ([], { s with streams := s.streams ++ [sid] })
  | .testConcurrent =>
    .ok (if s.concurrentStreamsEmpty then [] else [.unlock, .lock, .testConcurrent], s)
  | .accept target op =>
    if s.maxHit then .ok ([], s)
    else match target with
      | some sid =>
        if cfg.cudaLaunchBlocking then .ok ([], s.setStream 0 ((s.stream 0).push op))
        else .ok ([], s.setStream sid ((s.stream sid).push op))
      | none => .ok ([], s.setStream 0 ((s.stream 0).push op))
  | .eraseStream sid => .ok ([], { s with
    streams := s.streams.erase sid
    lastStream := (s.streams.erase sid).head? })
  | .checkFinished loop => do
    let (deleted, s) ← s.checkFinishedKernel
    return (s.destroyCtaStreams deleted ++
      if loop ∧ deleted ≠ [] then [.checkFinished true] else [], s)
  | .issue => do
    let s ← s.issue cfg
    return ([], s)
  | .stopRunning => .ok ([], { s with
    finishedKernel := s.finishedKernel ++ s.runningKernels
    runningKernels := [] })

end StreamManager

/-! ## Steps -/

/-- What happens. -/
inductive Event
  /-- A thread goes on with its call. -/
  | run (t : Thread)
  /-- `cudaStreamCreate`. -/
  | createStream
  /-- `cudaStreamDestroy`. -/
  | destroyStream (sid : ℕ)
  /-- `cudaLaunch`. -/
  | launch (target : Option ℕ)
  /-- Another operation of the host. -/
  | push (target : Option ℕ) (op : StreamOperation)
  /-- One round of `pushCudaStreamWaitEventToAllStreams`. -/
  | waitEvent (sid event count : ℕ)
  | operation
  /-- The limit of cycles, instructions or CTAs is hit. -/
  | hitMax
  | stopAllRunningKernels
  /-- The last CTA of a kernel exits. -/
  | finish (uid : ℕ)
  /-- `cudaStreamCreateWithFlags` on the device, or the default stream of a CTA. -/
  | createStreamCta (uid : ℕ)
  /-- `cudaLaunchDeviceV2`, to a stream of the CTA. -/
  | launchDevice (uid sid : ℕ)
  /-- `launch_one_device_kernel`. -/
  | launchOneDeviceKernel
  deriving DecidableEq, Repr

namespace Threads

variable (cfg : StreamConfig) (s : Threads)

/-- An instruction does not have to wait. -/
def Unblocked : Instr → Prop
  | .lock => s.holder = none
  | .untilEmpty => s.manager.empty = true
  | .synchronize sid | .awaitEmpty sid => (s.manager.stream sid).operations = []
  | _ => True

instance (s : Threads) (i : Instr) : Decidable (s.Unblocked i) := by
  cases i <;> unfold Unblocked <;> infer_instance

/-- The simulation thread is between two calls. -/
def SimIdle : Prop := s.program .sim = [] ∧ s.simDone = false

instance : Decidable s.SimIdle := inferInstanceAs (Decidable (_ ∧ _))

/-- The host uses the streams it has made. -/
def HostTarget (target : Option ℕ) : Prop := ∀ sid ∈ target, sid ∈ s.manager.hostStreams

instance (s : Threads) (target : Option ℕ) : Decidable (s.HostTarget target) :=
  inferInstanceAs (Decidable (∀ sid ∈ target, _))

/-- A kernel is on the GPU, which runs. -/
def OnGpu (uid : ℕ) : Prop := uid ∈ s.manager.runningKernels ∧ s.manager.maxHit = false

instance (s : Threads) (uid : ℕ) : Decidable (s.OnGpu uid) := inferInstanceAs (Decidable (_ ∧ _))

def Enabled : Event → Prop
  | .run t => ∃ i ∈ (s.program t).head?, s.Unblocked i
  | .createStream => s.program .host = []
  | .destroyStream sid => s.program .host = [] ∧ sid ∈ s.manager.hostStreams
  | .launch target => s.program .host = [] ∧ s.HostTarget target
  | .push target op => s.program .host = [] ∧ s.HostTarget target ∧ ∀ uid, op ≠ .kernelLaunch uid
  | .waitEvent sid _ _ => s.program .host = [] ∧ sid ∈ s.manager.streams
  | .operation => s.SimIdle
  | .hitMax => s.SimIdle
  | .stopAllRunningKernels => s.SimIdle ∧ s.manager.maxHit = true
  | .finish uid => s.SimIdle ∧ s.OnGpu uid
  | .createStreamCta uid => s.SimIdle ∧ s.OnGpu uid
  | .launchDevice uid sid => s.SimIdle ∧ s.OnGpu uid ∧ sid ∈ (s.manager.kernels uid).ctaStreams
  | .launchOneDeviceKernel => s.SimIdle ∧ s.manager.maxHit = false ∧ s.manager.deviceLaunchOp ≠ []

instance (op : StreamOperation) : Decidable (∀ uid, op ≠ .kernelLaunch uid) :=
  match op with
  | .kernelLaunch uid => isFalse fun h => h uid rfl
  | .memcpy => isTrue (by simp)
  | .event _ => isTrue (by simp)
  | .waitEvent _ _ => isTrue (by simp)

instance (s : Threads) (event : Event) : Decidable (s.Enabled event) := by
  cases event <;> unfold Enabled <;> infer_instance

/-- The lock after an instruction. -/
def holderAfter (t : Thread) : Instr → Option Thread
  | .lock => some t
  | .unlock => none
  | _ => s.holder

/-- A thread goes on. -/
def run (t : Thread) : Except StreamFailure Threads :=
  match s.program t with
  | [] => .ok s
  | i :: rest => do
    let (instead, manager) ← s.manager.exec cfg i
    return { s with
      manager := manager
      holder := s.holderAfter t i
      program := Function.update s.program t (instead ++ rest) }

/-- A thread makes a call. -/
def call (t : Thread) (p : List Instr) (manager : StreamManager) : Threads :=
  { s with manager := manager, program := Function.update s.program t p }

/-- The threads after an event. -/
def step : Event → Except StreamFailure Threads
  | .run t => s.run cfg t
  | .createStream => .ok (s.call .host (addStreamCall s.manager.nextStream) { s.manager with
    hostStreams := s.manager.nextStream :: s.manager.hostStreams
    nextStream := s.manager.nextStream + 1 })
  | .destroyStream sid =>
      .ok (s.call .host (.synchronize sid :: destroyStreamCall sid) { s.manager with
    hostStreams := s.manager.hostStreams.filter (· ≠ sid) })
  | .launch target => .ok (s.call .host
    (pushCall cfg target (.kernelLaunch s.manager.nextUid)) (s.manager.newKernel cfg none))
  | .push target op => .ok (s.call .host (pushCall cfg target op) s.manager)
  | .waitEvent sid event count =>
    .ok (s.call .host (pushCall cfg (some sid) (.waitEvent event count)) s.manager)
  | .operation => .ok (s.call .sim operationCall s.manager)
  | .hitMax => .ok { s with manager := { s.manager with maxHit := true } }
  | .stopAllRunningKernels => .ok { s.call .sim stopCall s.manager with simDone := true }
  | .finish uid => .ok { s with manager := s.manager.finish uid }
  | .createStreamCta uid => .ok (s.call .sim (addStreamCall s.manager.nextStream)
    (s.manager.newCtaStream uid))
  | .launchDevice uid sid => .ok { s with manager := { s.manager.newKernel cfg (some uid) with
    deviceLaunchOp := s.manager.deviceLaunchOp ++ [(s.manager.nextUid, sid)] } }
  | .launchOneDeviceKernel => match s.manager.deviceLaunchOp with
    | [] => .ok s
    | (uid, sid) :: rest => .ok (s.call .sim (pushCall cfg (some sid) (.kernelLaunch uid))
      { s.manager with deviceLaunchOp := rest })

end Threads

/-- The runs of the two threads. -/
def threadSystem (cfg : StreamConfig) : TransitionSystem (Except StreamFailure Threads) Event :=
  .ofExcept (· = {}) (Threads.Enabled) (Threads.step cfg)

end GpuCalorie.Streams
