/-
# Warps: threads, programs and runs

`core_t` executes a warp by executing the instruction at the top of its SIMT stack on
every thread of the top mask (`ptx_exec_inst`) and then telling the stack where the
threads went (`updateSIMTStack`). A thread is its PC, its call stack and whether it is
done; which lanes satisfy a guard predicate depends on data and is the label of a step.

A program is what the decoder delivers: an instruction at every PC, whose branches carry
the immediate post-dominator of the control-flow graph, or `RECONVERGE_RETURN_PC` where
that is the exit of the function.
-/

import GpuCalorie.Math.Postdominance
import GpuCalorie.Math.Transition
import GpuCalorie.Simt.Stack

namespace GpuCalorie.Simt

open GpuCalorie.Hardware GpuCalorie.Math

/-- Instructions are 4 or 8 bytes long and functions start at address 0 or behind one
another, so PCs are multiples of 4. -/
def Aligned (pc : UInt32) : Prop :=
  pc.toNat % 4 = 0

instance (pc : UInt32) : Decidable (Aligned pc) :=
  inferInstanceAs (Decidable (_ = _))

/-- What an instruction does to the PC of a thread. -/
inductive ControlFlow
  | bra (target : UInt32)
  | call (target : UInt32)
  | ret
  | exit
  /-- Any other instruction falls through. -/
  | other
  deriving DecidableEq, Repr

/-- A decoded instruction, as far as the stack depends on it. -/
structure Instruction where
  controlFlow : ControlFlow
  /-- Guarded by a predicate: lanes where it is false skip the instruction. -/
  hasPred : Bool := false
  isize : UInt32 := 8
  reconvergencePc : UInt32 := nullPc
  deriving DecidableEq, Repr

/-- The class the decoder gives an instruction; of the others `update` only asks that
they are no calls and no returns. -/
def Instruction.op (inst : Instruction) : OpType :=
  match inst.controlFlow with
  | .bra _ => .branchOp
  | .call _ => .callOps
  | .ret => .retOps
  | .exit => .aluOp
  | .other => .aluOp

/-- `RECONVERGE_RETURN_PC`. -/
def reconvergeReturnPc : UInt32 := -2

/-! ## Programs -/

/-- The control flow inside functions: a vertex is a PC, or `none` for the exit. A call
falls through, as the callee returns behind it. -/
def flow (instruction : UInt32 → Instruction) : Option UInt32 → Option UInt32 → Prop
  | none, _ => False
  | some pc, v =>
    let inst := instruction pc
    let fallThrough := some (pc + inst.isize)
    match inst.controlFlow with
    | .bra target => v = some target ∨ (inst.hasPred = true ∧ v = fallThrough)
    | .ret | .exit => v = none ∨ (inst.hasPred = true ∧ v = fallThrough)
    | .call _ | .other => v = fallThrough

/-- A program whose PCs are aligned, and whose branches reach the exit and carry their
reconvergence PC. -/
structure WarpProgram where
  instruction : UInt32 → Instruction
  isize_aligned : ∀ pc, Aligned (instruction pc).isize
  bra_aligned : ∀ pc target, (instruction pc).controlFlow = .bra target → Aligned target
  call_aligned : ∀ pc target, (instruction pc).controlFlow = .call target → Aligned target
  reaches : ∀ pc target, (instruction pc).controlFlow = .bra target →
    ReachesExit (flow instruction) none (some pc)
  reconverges : ∀ pc target, (instruction pc).controlFlow = .bra target →
    ∃ v, ImmediatelyPostdominates (flow instruction) none v (some pc) ∧
      (instruction pc).reconvergencePc = v.getD reconvergeReturnPc

/-! ## Threads -/

/-- What control flow uses of `ptx_thread_info`. The call stack is the list of return
PCs, innermost first; the frame of the kernel itself returns to 0. -/
structure Thread where
  pc : UInt32
  callstack : List UInt32
  done : Bool
  deriving DecidableEq, Repr

/-- `get_return_PC`: the return PC of the innermost frame. -/
def Thread.returnPc (t : Thread) : UInt32 :=
  t.callstack.headD 0

/-- The instruction is executed on a lane, rather than skipped. -/
def Instruction.executes (inst : Instruction) (pred : Bool) : Bool :=
  !inst.hasPred || pred

/-- `ptx_exec_inst`, for a thread at the instruction's PC. A return from the frame of the
kernel finishes the thread. -/
def Instruction.exec (inst : Instruction) (pred : Bool) (t : Thread) : Thread :=
  let npc := t.pc + inst.isize
  if inst.executes pred then
    match inst.controlFlow with
    | .bra target => { t with pc := target }
    | .call target => { t with pc := target, callstack := npc :: t.callstack }
    | .ret =>
      { pc := t.returnPc, callstack := t.callstack.tail, done := t.callstack.tail.isEmpty }
    | .exit => { t with pc := npc, done := true }
    | .other => { t with pc := npc }
  else { t with pc := npc }

/-! ## Warps -/

/-- A warp: its SIMT stack and its threads by lane. -/
structure Warp where
  stack : List SimtStackEntry
  thread : ℕ → Thread

/-- `execute_warp_inst_t`: every lane of the mask executes the instruction; a lane whose
thread is elsewhere or done trips an assertion of `ptx_exec_inst`. -/
def executeWarpInst (inst : Instruction) (pc : UInt32) (mask : Finset ℕ) (pred : ℕ → Bool)
    (thread : ℕ → Thread) : Except SimtFailure (ℕ → Thread) :=
  if ∃ i ∈ mask, (thread i).pc ≠ pc ∧ (thread i).done = false then .error .threadPc
  else if ∃ i ∈ mask, (thread i).done = true then .error .threadDone
  else .ok fun i => if i ∈ mask then inst.exec (pred i) (thread i) else thread i

/-- The reconvergence PC `updateSIMTStack` passes on: `RECONVERGE_RETURN_PC` is replaced
by the return PC of the first thread of the warp that is not done. -/
def convergePc (warpSize : ℕ) (thread : ℕ → Thread) (inst : Instruction) : UInt32 :=
  if inst.reconvergencePc = reconvergeReturnPc then
    match (List.range warpSize).find? fun i => !(thread i).done with
    | some i => (thread i).returnPc
    | none => inst.reconvergencePc
  else inst.reconvergencePc

/-- `updateSIMTStack`: a thread that is done has no next PC. -/
def updateSIMTStack (warpSize : ℕ) (inst : Instruction) (pc : UInt32) (w : Warp) :
    Except SimtFailure Warp := do
  let stack ← update warpSize w.stack (fun i => (w.thread i).done)
    (fun i => if (w.thread i).done then nullPc else (w.thread i).pc)
    ⟨inst.op, inst.isize, pc, convergePc warpSize w.thread inst⟩
  return { w with stack := stack }

/-- One instruction of a warp: `getExecuteWarp`, `execute_warp_inst_t` and
`updateSIMTStack`. -/
def executeWarp (prog : WarpProgram) (warpSize : ℕ) (w : Warp) (pred : ℕ → Bool) :
    Except SimtFailure Warp :=
  match w.stack with
  | [] => .error .emptyStack
  | top :: _ => do
    let inst := prog.instruction top.pc
    let thread ← executeWarpInst inst top.pc top.activeMask pred w.thread
    updateSIMTStack warpSize inst top.pc { w with thread := thread }

/-- The lanes whose threads are not done. -/
def liveThreads (warpSize : ℕ) (thread : ℕ → Thread) : Finset ℕ :=
  (Finset.range warpSize).filter fun i => (thread i).done = false

/-- The lanes of a warp whose threads are not done. -/
abbrev Warp.live (warpSize : ℕ) (w : Warp) : Finset ℕ :=
  liveThreads warpSize w.thread

/-- A warp is launched at an aligned PC with the lanes that have a thread. -/
def launchWarp (startPc : UInt32) (activeMask : Finset ℕ) : Warp where
  stack := launch startPc activeMask
  thread i := ⟨startPc, [0], decide (i ∉ activeMask)⟩

/-- The runs of a warp: it executes for as long as some thread is not done. -/
def warpSystem (prog : WarpProgram) (warpSize : ℕ) :
    TransitionSystem (Except SimtFailure Warp) (ℕ → Bool) :=
  .ofExcept
    (fun w => ∃ startPc activeMask, Aligned startPc ∧ activeMask ⊆ Finset.range warpSize ∧
      w = launchWarp startPc activeMask)
    (fun w _ => (w.live warpSize).Nonempty)
    (executeWarp prog warpSize)

/-! ## Soundness of the stack -/

/-- The topmost entry of a stack whose mask contains a lane. -/
def topmost (stack : List SimtStackEntry) (i : ℕ) : Option SimtStackEntry :=
  stack.find? fun entry => i ∈ entry.activeMask

/-- Two entries run to the same reconvergence PC. Entries of one divergence do, and
stand next to one another. -/
def SameDivergence (e e' : SimtStackEntry) : Prop :=
  e.type = .normal ∧ e'.type = .normal ∧ e.recvgPc ≠ nullPc ∧ e'.recvgPc = e.recvgPc

instance (e e' : SimtStackEntry) : Decidable (SameDivergence e e') :=
  inferInstanceAs (Decidable (_ ∧ _ ∧ _ ∧ _))

/-- A sound stack: the lanes that are not done are where the stack says, the top entry
has one of them, and the entries of one divergence share out the mask of the entry
below them, which waits at their reconvergence PC. -/
structure StackSound (warpSize : ℕ) (w : Warp) : Prop where
  located : ∀ i ∈ w.live warpSize, ∃ entry, topmost w.stack i = some entry ∧
    (w.thread i).pc = entry.pc
  topLive : (w.live warpSize).Nonempty → ∃ top rest, w.stack = top :: rest ∧
    ∃ i ∈ top.activeMask, i ∈ w.live warpSize
  disjoint : ∀ above e between e' below, w.stack = above ++ e :: (between ++ e' :: below) →
    (∀ x ∈ between, SameDivergence e x) → SameDivergence e e' →
      Disjoint e.activeMask e'.activeMask
  contained : ∀ above e between e' below, w.stack = above ++ e :: (between ++ e' :: below) →
    (∀ x ∈ between, SameDivergence e x) → e.type = .normal → e.recvgPc ≠ nullPc →
      ¬ SameDivergence e e' → e.activeMask ⊆ e'.activeMask ∧ e'.pc = e.recvgPc

/-- What a run may reach: sound stacks, or the assertion of `ptx_exec_inst` against
executing threads that are done. The assertions of `update` do not fail. -/
def Outcome (warpSize : ℕ) : Except SimtFailure Warp → Prop
  | .ok w => StackSound warpSize w
  | .error failure => failure = .threadDone

end GpuCalorie.Simt
