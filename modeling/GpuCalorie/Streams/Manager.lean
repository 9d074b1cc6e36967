/-
# Streams

`CUstream_st` is a queue of operations. The first of them may have begun, and leaves the queue
when it is done; no other one begins before. What was pushed, what began and what is done is
recorded; nothing reads it.
-/

import Mathlib.Data.List.Basic
import Mathlib.Logic.Function.Basic
import Mathlib.Tactic.Common

namespace GpuCalorie.Streams

/-- The ways to fail of streams and of the stream manager. -/
inductive StreamFailure
  /-- `m_grid_id_to_stream` has no stream for a grid, and the null pointer is used. -/
  | nullStream
  /-- The front operation of a stream is no kernel, and its null pointer is used. -/
  | noKernel
  /-- `assert(grid_uid == kernel->get_uid())`. -/
  | gridUid
  /-- `assert(m_pending)`. -/
  | pending
  /-- The assertion of `remove_child`. -/
  | removeChild
  /-- A kernel is its own ancestor. -/
  | depth
  deriving DecidableEq, Repr

/-- `stream_operation`, as far as its kinds differ. -/
inductive StreamOperation
  | memcpy
  | kernelLaunch (uid : ℕ)
  | event (event : ℕ)
  /-- `m_cnt` is the number of updates that is waited for. -/
  | waitEvent (event count : ℕ)
  deriving DecidableEq, Repr

/-- `stream_wait_event`. -/
def StreamOperation.isWait : StreamOperation → Bool
  | .waitEvent _ _ => true
  | _ => false

/-- `CUstream_st`. -/
structure CUstream where
  operations : List StreamOperation := []
  pending : Bool := false
  /-- What was pushed. -/
  pushed : List StreamOperation := []
  /-- What was begun, and not cancelled. -/
  begun : List StreamOperation := []
  /-- What is done. -/
  completed : List StreamOperation := []
  deriving DecidableEq, Repr

namespace CUstream

variable (s : CUstream)

/-- The stream is neither busy nor empty. -/
def ready : Bool := !s.pending && !s.operations.isEmpty

/-- `push`. -/
def push (op : StreamOperation) : CUstream :=
  { s with operations := s.operations ++ [op], pushed := s.pushed ++ [op] }

/-- `next`, without its result, which is the front operation. -/
def next : CUstream := { s with pending := true, begun := s.begun ++ s.operations.take 1 }

/-- `record_next_done`. -/
def recordNextDone : Except StreamFailure CUstream :=
  if s.pending then .ok { s with
    operations := s.operations.tail
    pending := false
    completed := s.completed ++ s.operations.take 1 }
  else .error .pending

/-- `cancel_front`. -/
def cancelFront : Except StreamFailure CUstream :=
  if s.pending then .ok { s with pending := false, begun := s.begun.dropLast } else .error .pending

/-- The operations are done one at a time, in the order they were pushed. -/
structure InOrder : Prop where
  pushed : s.pushed = s.completed ++ s.operations
  begun : s.begun = s.completed ++ if s.pending then s.operations.take 1 else []
  pending : s.pending = true → s.operations ≠ []

variable {s}

theorem InOrder.empty : ({} : CUstream).InOrder := ⟨rfl, rfl, fun h => nomatch h⟩

theorem InOrder.push (h : s.InOrder) (op : StreamOperation) : (s.push op).InOrder where
  pushed := by
    show s.pushed ++ [op] = s.completed ++ (s.operations ++ [op])
    rw [h.pushed, List.append_assoc]
  begun := by
    show s.begun = s.completed ++ if s.pending then (s.operations ++ [op]).take 1 else []
    rw [h.begun]
    split_ifs with hpending
    · have hsome := h.pending hpending
      cases hops : s.operations with
      | nil => exact absurd hops hsome
      | cons first rest => rfl
    · rfl
  pending _ := List.append_ne_nil_of_right_ne_nil _ (List.cons_ne_nil _ _)

theorem InOrder.next (h : s.InOrder) (hready : s.ready = true) : s.next.InOrder := by
  obtain ⟨hidle, hsome⟩ := (Bool.and_eq_true _ _).mp hready
  have hnot : s.pending = false := (Bool.not_eq_true' _).mp hidle
  have hbegun := h.begun
  rw [hnot, if_neg Bool.false_ne_true, List.append_nil] at hbegun
  constructor
  · exact h.pushed
  · show s.begun ++ s.operations.take 1 = _
    rw [hbegun]
    rfl
  · intro _ hnil
    change s.operations = [] at hnil
    rw [hnil] at hsome
    cases hsome

theorem InOrder.recordNextDone (h : s.InOrder) (hpending : s.pending = true) :
    ∃ t, s.recordNextDone = .ok t ∧ t.operations = s.operations.tail ∧ t.pending = false ∧
      t.InOrder := by
  rw [CUstream.recordNextDone, if_pos hpending]
  have hbegun := h.begun
  rw [hpending, if_pos rfl] at hbegun
  refine ⟨_, rfl, rfl, rfl, ?_, ?_, fun h => nomatch h⟩
  · show s.pushed = s.completed ++ s.operations.take 1 ++ s.operations.tail
    rw [h.pushed, List.append_assoc, ← List.drop_one, List.take_append_drop]
  · show s.begun = s.completed ++ s.operations.take 1 ++ []
    rw [hbegun, List.append_nil]

theorem InOrder.cancelFront (h : s.InOrder) (hpending : s.pending = true) :
    ∃ t, s.cancelFront = .ok t ∧ t.operations = s.operations ∧ t.pending = false ∧ t.InOrder := by
  rw [CUstream.cancelFront, if_pos hpending]
  have hbegun := h.begun
  rw [hpending, if_pos rfl] at hbegun
  refine ⟨_, rfl, rfl, rfl, h.pushed, ?_, fun h => nomatch h⟩
  show s.begun.dropLast = s.completed ++ []
  rw [hbegun, List.append_nil]
  cases hops : s.operations with
  | nil => exact absurd hops (h.pending hpending)
  | cons first rest => exact List.dropLast_concat

end CUstream

end GpuCalorie.Streams

/-!
## The stream manager

`stream_manager` takes the next operation from a stream that is neither busy nor empty, and has
the GPU perform it. Memory copies and events are done at once. A kernel stays in front of its
stream until the simulation thread takes its uid from `m_finished_kernel` and finds it without
children, or until its last child is retired. Then it is retired itself.

Left out are the functional simulation of kernels, and what the operations do to the memory.
-/

namespace GpuCalorie.Streams

/-- The options the stream manager and the kernels read. -/
structure StreamConfig where
  maxConcurrentKernel : ℕ
  cudaLaunchBlocking : Bool
  kernelLaunchLatency : ℕ

/-- `kernel_info_t`, as far as it belongs to the streams. -/
structure KernelInfo where
  /-- `m_parent_kernel`. -/
  parent : Option ℕ := none
  /-- `m_child_kernels`. -/
  children : List ℕ := []
  /-- The streams in `m_cta_streams`, which the CTAs have made to launch children. -/
  ctaStreams : List ℕ := []
  launchLatency : ℕ := 0
  /-- All CTAs have been issued and have exited. -/
  done : Bool := false
  deriving DecidableEq, Repr

/-- `is_finished`. -/
def KernelInfo.isFinished (k : KernelInfo) : Bool := k.done && k.children.isEmpty

/-- `stream_manager`, with the kernels, the events and what the GPU knows of kernels. The stream
with number zero is `m_stream_zero`. -/
structure StreamManager where
  stream : ℕ → CUstream := fun _ => {}
  /-- `m_streams`. -/
  streams : List ℕ := []
  /-- `m_last_stream`, if it is not the end of `m_streams`. -/
  lastStream : Option ℕ := none
  gridIdToStream : ℕ → Option ℕ := fun _ => none
  kernels : ℕ → KernelInfo := fun _ => {}
  /-- `kernel_info_m_next_uid`. -/
  nextUid : ℕ := 1
  /-- The number of the next stream. -/
  nextStream : ℕ := 1
  /-- The streams the host has made and not destroyed. -/
  hostStreams : List ℕ := []
  /-- The kernels in `m_running_kernels`. -/
  runningKernels : List ℕ := []
  finishedKernel : List ℕ := []
  /-- The `m_updates` of the events. -/
  updates : ℕ → ℕ := fun _ => 0
  /-- `g_cuda_device_launch_op`: kernels with their streams. -/
  deviceLaunchOp : List (ℕ × ℕ) := []
  /-- `cycle_insn_cta_max_hit`. -/
  maxHit : Bool := false
  /-- The kernels that were retired, the last one first. -/
  retired : List ℕ := []

namespace StreamManager

variable (cfg : StreamConfig) (s : StreamManager)

/-- A stream changes. -/
def setStream (sid : ℕ) (t : CUstream) : StreamManager :=
  { s with stream := Function.update s.stream sid t }

/-- `concurrent_streams_empty`. -/
def concurrentStreamsEmpty : Bool := s.streams.all fun sid => (s.stream sid).operations.isEmpty

/-- `empty`. -/
def empty : Bool := s.concurrentStreamsEmpty && (s.stream 0).operations.isEmpty

/-! ## The next operation -/

/-- The order in which `front` looks at the streams, from the one after the last. -/
def candidates : List ℕ :=
  match s.lastStream with
  | none => s.streams
  | some last =>
      s.streams.drop (s.streams.idxOf last + 1) ++ s.streams.take (s.streams.idxOf last + 1)

/-- The front operation of a stream begins. -/
def begin (sid : ℕ) : StreamManager :=
  { s with
    stream := Function.update s.stream sid (s.stream sid).next
    gridIdToStream := match (s.stream sid).operations.head? with
      | some (.kernelLaunch uid) => Function.update s.gridIdToStream uid (some sid)
      | _ => s.gridIdToStream }

/-- `front`, which returns a stream whose front operation begins. -/
def front : Option ℕ × StreamManager :=
  if (s.stream 0).ready then (some 0, s.begin 0)
  else match s.candidates.find? fun sid => (s.stream sid).ready with
    | some sid => (some sid, { s with lastStream := some sid }.begin sid)
    | none => (none, { s with lastStream := s.candidates.getLast?.or s.lastStream })

/-- `record_next_done` of a stream. -/
def recordNextDone (sid : ℕ) : Except StreamFailure StreamManager := do
  let t ← (s.stream sid).recordNextDone
  return s.setStream sid t

/-- `do_operation`. -/
def doOperation (sid : ℕ) : StreamOperation → Except StreamFailure (Bool × StreamManager)
  | .memcpy => do
    let s ← s.recordNextDone sid
    return (true, s)
  | .kernelLaunch uid =>
    if s.runningKernels.length < cfg.maxConcurrentKernel ∧ (s.kernels uid).launchLatency = 0 then
      .ok (true, { s with runningKernels := s.runningKernels ++ [uid] })
    else .ok (false, { s with
      kernels := Function.update s.kernels uid
        { s.kernels uid with launchLatency := (s.kernels uid).launchLatency - 1 } })
  | .event event => do
    let s ← { s with updates :=
      Function.update s.updates event (s.updates event + 1) }.recordNextDone sid
    return (true, s)
  | .waitEvent event count =>
    if count ≤ s.updates event then do
      let s ← s.recordNextDone sid
      return (true, s)
    else .ok (false, s)

/-- What `operation` does for an operation that is not ready to execute. -/
def cancel (sid : ℕ) (op : StreamOperation) : Except StreamFailure StreamManager := do
  let t ← (s.stream sid).cancelFront
  return { s.setStream sid t with
    gridIdToStream := match op with
      | .kernelLaunch uid => Function.update s.gridIdToStream uid none
      | _ => s.gridIdToStream }

/-- The part of `operation` that holds the lock. -/
def issue : Except StreamFailure StreamManager :=
  match s.front with
  | (none, s) => .ok s
  | (some sid, s) => match (s.stream sid).operations.head? with
    | none => .ok s
    | some op => do
      let (ready, s) ← s.doOperation cfg sid op
      if ready then return s else s.cancel sid op

/-! ## Kernels are retired -/

/-- `remove_child`. -/
def removeChild (parent child : ℕ) : Except StreamFailure StreamManager :=
  if child ∈ (s.kernels parent).children then .ok { s with
    kernels := Function.update s.kernels parent
      { s.kernels parent with children := (s.kernels parent).children.filter (· ≠ child) } }
  else .error .removeChild

/-- `register_finished_kernel`, as far as it changes the stream manager, and with enough rounds
for all ancestors. The kernels that are deleted afterwards are returned, in that order. -/
def registerFinishedKernel : ℕ → ℕ → StreamManager → Except StreamFailure (List ℕ × StreamManager)
  | 0, _, _ => .error .depth
  | rounds + 1, uid, s => match s.gridIdToStream uid with
    | none => .error .nullStream
    | some sid => match (s.stream sid).operations.head? with
      | some (.kernelLaunch front) =>
        if front ≠ uid then .error .gridUid
        else if (s.kernels uid).isFinished then do
          let s ← s.recordNextDone sid
          let s := { s with
            gridIdToStream := Function.update s.gridIdToStream uid none
            retired := uid :: s.retired }
          match (s.kernels uid).parent with
          | none => return ([uid], s)
          | some parent => do
            let s ← s.removeChild parent uid
            let (deleted, s) ← registerFinishedKernel rounds parent s
            return (deleted ++ [uid], s)
        else .ok ([], s)
      | _ => .error .noKernel

/-- `check_finished_kernel`. -/
def checkFinishedKernel : Except StreamFailure (List ℕ × StreamManager) :=
  match s.finishedKernel with
  | [] => .ok ([], s)
  | uid :: rest => registerFinishedKernel (uid + 1) uid { s with finishedKernel := rest }

/-! ## Kernels are launched and finish -/

/-- The kernels after `set_child` of the parent, if there is one. -/
def setChild (parent : Option ℕ) (child : ℕ) : ℕ → KernelInfo :=
  match parent with
  | none => s.kernels
  | some p => Function.update s.kernels p
    { s.kernels p with children := (s.kernels p).children ++ [child] }

/-- A new kernel, of the host or of a kernel that launches it. -/
def newKernel (parent : Option ℕ) : StreamManager :=
  { s with
    kernels := Function.update (s.setChild parent s.nextUid) s.nextUid
      { parent := parent, launchLatency := cfg.kernelLaunchLatency }
    nextUid := s.nextUid + 1 }

/-- A new stream of a CTA of a kernel. -/
def newCtaStream (uid : ℕ) : StreamManager :=
  { s with
    kernels := Function.update s.kernels uid
      { s.kernels uid with ctaStreams := (s.kernels uid).ctaStreams ++ [s.nextStream] }
    nextStream := s.nextStream + 1 }

/-- `set_kernel_done`, when all CTAs of a kernel have exited. -/
def finish (uid : ℕ) : StreamManager :=
  { s with
    kernels := Function.update s.kernels uid { s.kernels uid with done := true }
    runningKernels := s.runningKernels.filter (· ≠ uid)
    finishedKernel := s.finishedKernel ++ [uid] }

end StreamManager

end GpuCalorie.Streams
