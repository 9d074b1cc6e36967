/-
# Calls and returns of a thread

A function has its registers and its `.local` and `.param` variables to itself: `call_impl` puts a
map of registers on a stack and moves the stack pointer of the local memory behind the frame of the
caller, and `ret_impl` undoes both. Arguments are read before the frames are switched and stored
behind, return values the other way round. What is carried across is kept in a buffer, and here is
the mistake: an `arg_buffer_t` is put into the list of arguments by the copy constructor of the
language, which copies the pointer, and what it points to is freed at once.
-/

import GpuCalorie.Math.Bytes
import GpuCalorie.Math.Outcome
import Mathlib.Data.Set.Lattice
import Mathlib.Logic.Function.Basic
import Mathlib.Order.CompletePartialOrder
import Mathlib.Order.Interval.Set.Basic

namespace GpuCalorie.FunctionalSim.CallFrames

open GpuCalorie.Math

/-! ## Functions -/

inductive SymbolKind
  | reg
  | paramLocal
  | other
  deriving DecidableEq, Repr

/-- `symbol`, as far as calls look at it. A register holds at most 128 bits. -/
structure Symbol where
  uid : ℕ
  kind : SymbolKind
  /-- Its name is `_`. -/
  isSink : Bool
  address : ℕ
  sizeInBytes : ℕ
  size_le : kind = .reg → sizeInBytes ≤ 16
  deriving DecidableEq

/-- `function_info`. The parser allots the variables of a function, and its frame ends behind the
last one. -/
structure FunctionInfo where
  startPc : UInt32
  symtab : ℕ
  localMemFramesize : ℕ
  args : List Symbol
  returnVar : Option Symbol
  framesize_lt : localMemFramesize < 2 ^ 32
  nodup_args : args.Nodup
  within : ∀ v ∈ returnVar, v.kind = .paramLocal → v.address + v.sizeInBytes ≤ localMemFramesize

/-- `stack_entry`. -/
structure StackEntry where
  symbolTable : Option ℕ
  funcInfo : Option FunctionInfo
  pc : UInt32
  rpc : UInt32
  returnVarSrc : Option Symbol
  returnVarDst : Option Symbol

/-- The entry that a thread starts with. -/
def StackEntry.empty : StackEntry := ⟨none, none, 0, -1, none, none⟩

/-- `ptx_reg_t`. -/
abbrev PtxReg := BitVec 128

/-- `reg_map_t`. A register that was not written reads as zero. -/
abbrev RegMap := Symbol → PtxReg

/-- `ptx_thread_info`, with the innermost of its frames first. -/
structure Thread where
  pc : UInt32
  npc : UInt32
  rpc : UInt32
  funcInfo : Option FunctionInfo
  symbolTable : Option ℕ
  callstack : List StackEntry
  regs : List RegMap
  localMemStackPointer : ℕ
  localMem : ℕ → UInt8

/-- The call instruction. -/
structure CallInst where
  target : FunctionInfo
  dst : Option Symbol
  args : List Symbol
  instSize : UInt32

/-- What `get_pdom_stack_top_info` returns. -/
structure StackTop where
  pc : UInt32
  rpc : UInt32

inductive CallFailure
  | assertion
  /-- The program is aborted with a message. -/
  | abort
  /-- Memory is read that was freed. -/
  | useAfterFree
  | doubleFree
  deriving DecidableEq, Repr

/-! ## Buffers -/

/-- The blocks that an instruction allocates, some of which it has freed. -/
abbrev Heap := List (Option (List UInt8))

def Heap.malloc (heap : Heap) (bytes : List UInt8) : ℕ × Heap :=
  (heap.length, heap ++ [some bytes])

def Heap.load (heap : Heap) (pointer : ℕ) : Except CallFailure (List UInt8) :=
  match heap[pointer]? with
  | some (some bytes) => .ok bytes
  | _ => .error .useAfterFree

def Heap.free (heap : Heap) (pointer : ℕ) : Except CallFailure Heap :=
  match heap[pointer]? with
  | some (some _) => .ok (heap.set pointer none)
  | _ => .error .doubleFree

/-- What an `arg_buffer_t` holds: `m_reg_value`, or the pointer `m_param_value`. -/
inductive ArgValue
  | reg (value : PtxReg)
  | param (pointer : ℕ)
  deriving DecidableEq

/-- `arg_buffer_t`. -/
structure ArgBuffer where
  dst : Symbol
  value : ArgValue
  deriving DecidableEq

/-- `~arg_buffer_t`. -/
def ArgBuffer.destroy (buffer : ArgBuffer) (heap : Heap) : Except CallFailure Heap :=
  match buffer.value with
  | .reg _ => .ok heap
  | .param pointer => heap.free pointer

/-- `arg_buffer_t::make_copy`. -/
def ArgBuffer.makeCopy (buffer : ArgBuffer) (heap : Heap) : Except CallFailure (ArgBuffer × Heap) :=
  match buffer.value with
  | .reg _ => .ok (buffer, heap)
  | .param pointer => do
    let bytes ← heap.load pointer
    let (copy, heap) := heap.malloc bytes
    return (⟨buffer.dst, .param copy⟩, heap)

/-- `arg_buffer_t::arg_buffer_t`, from a register. -/
def ArgBuffer.ofReg (dst : Symbol) (value : PtxReg) (heap : Heap) : ArgBuffer × Heap :=
  match dst.kind with
  | .reg => (⟨dst, .reg value⟩, heap)
  | _ => let (pointer, heap) := heap.malloc (toBytes 16 value.toNat)
    (⟨dst, .param pointer⟩, heap)

/-- The sizes of registers that a variable may be copied to. -/
def KnownSize (n : ℕ) : Prop := n = 1 ∨ n = 2 ∨ n = 4 ∨ n = 8

instance (n : ℕ) : Decidable (KnownSize n) := inferInstanceAs (Decidable (_ ∨ _))

/-- `arg_buffer_t::arg_buffer_t`, from a variable. -/
def ArgBuffer.ofParam (dst : Symbol) (bytes : List UInt8) (heap : Heap) : ArgBuffer × Heap :=
  match dst.kind with
  | .reg => (⟨dst, .reg (if KnownSize bytes.length then BitVec.ofNat 128 (ofBytes bytes) else 0)⟩,
      heap)
  | _ => let (pointer, heap) := heap.malloc bytes
    (⟨dst, .param pointer⟩, heap)

/-! ## Frames -/

namespace Thread

/-- `get_reg`. -/
def getReg (t : Thread) (reg : Symbol) : PtxReg :=
  match t.regs with
  | [] => 0
  | regs :: _ => regs reg

/-- `set_reg`. -/
def setReg (t : Thread) (reg : Symbol) (value : PtxReg) : Except CallFailure Thread :=
  if reg.isSink then .ok t else match t.regs with
    | [] => .error .assertion
    | regs :: rest => .ok { t with regs := Function.update regs reg value :: rest }

/-- `set_npc`. -/
def setNpc (t : Thread) (f : FunctionInfo) : Thread :=
  { t with npc := f.startPc, funcInfo := some f, symbolTable := some f.symtab }

/-- Where a variable of the innermost frame is. -/
def addressOf (t : Thread) (v : Symbol) : ℕ := (t.localMemStackPointer + v.address) % 2 ^ 32

end Thread

/-- `copy_arg_to_buffer`. -/
def copyArgToBuffer (t : Thread) (actual formal : Symbol) (heap : Heap) :
    Except CallFailure (ArgBuffer × Heap) :=
  match actual.kind with
  | .reg => .ok (ArgBuffer.ofReg formal (t.getReg actual) heap)
  | .paramLocal =>
    if formal.sizeInBytes < 1024 then
      .ok (ArgBuffer.ofParam formal
        (cells t.localMem (t.addressOf actual) formal.sizeInBytes) heap)
    else .error .assertion
  | .other => .error .abort

/-- `copy_args_into_buffer_list`. What the list gets is a copy of a buffer that is destroyed. -/
def copyArgsIntoBufferList (t : Thread) : List Symbol → List Symbol → Heap →
    Except CallFailure (List ArgBuffer × Heap)
  | actual :: actuals, formal :: formals, heap => do
    let (buffer, heap) ← copyArgToBuffer t actual formal heap
    let heap ← buffer.destroy heap
    let (buffers, heap) ← copyArgsIntoBufferList t actuals formals heap
    return (buffer :: buffers, heap)
  | _, _, heap => .ok ([], heap)

/-- `copy_buffer_to_frame`. -/
def copyBufferToFrame (heap : Heap) (t : Thread) (buffer : ArgBuffer) : Except CallFailure Thread :=
  match buffer.value with
  | .reg value => t.setReg buffer.dst value
  | .param pointer => do
    let bytes ← heap.load pointer
    return { t with localMem := overwrite t.localMem (t.addressOf buffer.dst) bytes }

/-- `callstack_push`. -/
def callstackPush (t : Thread) (pc rpc : UInt32) (src dst : Option Symbol) :
    Except CallFailure Thread :=
  match t.funcInfo with
  | none => .error .assertion
  | some f => .ok { t with
      rpc := -1
      callstack := ⟨t.symbolTable, some f, pc, rpc, src, dst⟩ :: t.callstack
      regs := (fun _ => 0) :: t.regs
      localMemStackPointer := (t.localMemStackPointer + f.localMemFramesize) % 2 ^ 32 }

/-- `call_impl`, of a function that is not handled by the simulator itself. -/
def callImpl (call : CallInst) (top : StackTop) (t : Thread) : Except CallFailure Thread := do
  if call.dst.isSome ≠ call.target.returnVar.isSome then throw .abort
  if call.args.length ≠ call.target.args.length then throw .abort
  let (buffers, heap) ← copyArgsIntoBufferList t call.args call.target.args []
  let dst := if call.target.returnVar.isSome then call.dst else none
  if top.pc ≠ t.pc then throw .assertion
  let t ← callstackPush t (top.pc + call.instSize) top.rpc call.target.returnVar dst
  let t ← buffers.foldlM (copyBufferToFrame heap) t
  let _ ← buffers.foldlM (fun heap buffer => buffer.destroy heap) heap
  return t.setNpc call.target

/-- The return value, read from the frame of the callee. -/
def copyReturnToBuffer (t : Thread) : Option Symbol → Option Symbol →
    Except CallFailure (Option ArgBuffer × Heap)
  | some src, some dst => do
    let (value, heap) ← copyArgToBuffer t src dst []
    let (buffer, heap) ← value.makeCopy heap
    let heap ← value.destroy heap
    return (some buffer, heap)
  | none, none => .ok (none, [])
  | _, _ => .error .assertion

/-- The thread after the frame of the callee is taken off. -/
def popFrame (t : Thread) (entry : StackEntry) (rest : List StackEntry) :
    Except CallFailure Thread :=
  let popped := { t with
    symbolTable := entry.symbolTable, npc := entry.pc, rpc := entry.rpc,
    funcInfo := entry.funcInfo, callstack := rest, regs := t.regs.tail }
  match entry.funcInfo with
  | none => .ok popped
  | some f =>
    if f.localMemFramesize ≤ t.localMemStackPointer then
      .ok { popped with localMemStackPointer := t.localMemStackPointer - f.localMemFramesize }
    else .error .assertion

/-- The return value, stored in the frame of the caller. -/
def copyReturnToFrame (heap : Heap) (t : Thread) : Option ArgBuffer → Except CallFailure Thread
  | none => .ok t
  | some buffer => do
    let t ← copyBufferToFrame heap t buffer
    let _ ← buffer.destroy heap
    return t

/-- `callstack_pop`: whether the thread is done, and what it is then. -/
def callstackPop (t : Thread) : Except CallFailure (Bool × Thread) :=
  match t.callstack with
  | [] => .error .assertion
  | entry :: rest => do
    let (buffer, heap) ← copyReturnToBuffer t entry.returnVarSrc entry.returnVarDst
    let t ← popFrame t entry rest
    let t ← copyReturnToFrame heap t buffer
    return (t.callstack.isEmpty, t)

/-- `ret_impl`. A thread whose last frame is gone is done. -/
def retImpl (t : Thread) : Except CallFailure (Bool × Thread) := callstackPop t

/-! ## Runs of a thread -/

namespace Thread

/-- The size of the innermost frame. -/
def framesize (t : Thread) : ℕ :=
  match t.funcInfo with
  | none => 0
  | some f => f.localMemFramesize

/-- The bytes of the innermost frame. -/
def frame (t : Thread) : Set ℕ :=
  Set.Ico t.localMemStackPointer (t.localMemStackPointer + t.framesize)

/-- The bytes of a variable of the innermost frame. -/
def extent (t : Thread) (v : Symbol) : Set ℕ :=
  Set.Ico (t.localMemStackPointer + v.address)
    (t.localMemStackPointer + v.address + v.sizeInBytes)

/-- What is stored in a variable of the innermost frame. -/
def contents (t : Thread) (v : Symbol) : List UInt8 :=
  cells t.localMem (t.localMemStackPointer + v.address) v.sizeInBytes

/-- The value of a register or of a variable, as a register holds it. -/
def value (t : Thread) (v : Symbol) : PtxReg :=
  match v.kind with
  | .reg => t.getReg v
  | _ => BitVec.ofNat 128 (ofBytes (t.contents v))

/-- The value of a register or of a variable, as a variable holds it. -/
def bytes (t : Thread) (v : Symbol) : List UInt8 :=
  match v.kind with
  | .reg => toBytes v.sizeInBytes (t.getReg v).toNat
  | _ => t.contents v

/-- A register or a variable holds what another one held. -/
def Holds (t : Thread) (dst : Symbol) (u : Thread) (src : Symbol) : Prop :=
  match dst.kind with
  | .reg => t.getReg dst = u.value src
  | _ => t.contents dst = u.bytes src

end Thread

/-- The thread starts a kernel. -/
structure Started (kernel : FunctionInfo) (t : Thread) : Prop where
  funcInfo : t.funcInfo = some kernel
  callstack : t.callstack = [.empty]
  regs : t.regs = [fun _ => 0]
  localMemStackPointer : t.localMemStackPointer = 0

/-- Instructions of the innermost function write its registers and its frame. -/
structure Body (t t' : Thread) : Prop where
  funcInfo : t'.funcInfo = t.funcInfo
  symbolTable : t'.symbolTable = t.symbolTable
  callstack : t'.callstack = t.callstack
  localMemStackPointer : t'.localMemStackPointer = t.localMemStackPointer
  regs : ∃ regs, t'.regs = regs :: t.regs.tail
  localMem : ∀ a ∉ t.frame, t'.localMem a = t.localMem a

/-- What is passed: a register, or a variable of the innermost frame with the size of what it is
passed to. -/
structure Passed (framesize : ℕ) (src dst : Symbol) : Prop where
  kind : src.kind = .reg ∨ src.kind = .paramLocal
  dst_kind : dst.kind = .reg ∨ dst.kind = .paramLocal
  size_eq : src.kind = .paramLocal ∨ dst.kind = .paramLocal → src.sizeInBytes = dst.sizeInBytes
  size_lt : src.kind = .paramLocal ∨ dst.kind = .paramLocal → src.sizeInBytes < 1024
  within : src.kind = .paramLocal → src.address + src.sizeInBytes ≤ framesize

/-- A call that the declaration of the function permits. -/
structure TypedCall (t : Thread) (call : CallInst) (top : StackTop) : Prop where
  top_pc : top.pc = t.pc
  args : List.Forall₂ (Passed t.framesize) call.args call.target.args
  returns : call.dst.isSome = call.target.returnVar.isSome
  returned : ∀ src ∈ call.target.returnVar, ∀ dst ∈ call.dst,
    Passed call.target.localMemFramesize src dst
  within : ∀ dst ∈ call.dst, dst.kind = .paramLocal → dst.address + dst.sizeInBytes ≤ t.framesize

/-- A value reaches a register: this is not the name `_`, and a variable has the size of a
register. -/
structure Reaches (src dst : Symbol) : Prop where
  notSink : dst.isSink = false
  known : src.kind = .paramLocal → KnownSize src.sizeInBytes

/-- A register that is stored as 128 bits writes no byte of the frame but those of the variable. -/
def Fits (t : Thread) (dst : Symbol) : Prop :=
  (16 ≤ dst.sizeInBytes ∨ t.framesize ≤ dst.address + dst.sizeInBytes) ∧
    t.localMemStackPointer + dst.address + 16 ≤ 2 ^ 32

/-- A call at which nothing goes wrong. -/
structure SafeCall (t : Thread) (call : CallInst) (top : StackTop) : Prop
    extends TypedCall t call top where
  formals : ∀ formal ∈ call.target.args, formal.kind = .reg
  reaches : List.Forall₂ Reaches call.args call.target.args
  returned_reg : ∀ src ∈ call.target.returnVar, ∀ dst ∈ call.dst, dst.kind = .reg → Reaches src dst
  returned_param : ∀ src ∈ call.target.returnVar, ∀ dst ∈ call.dst,
    dst.kind = .paramLocal → src.kind = .reg → Fits t dst
  frame_lt : t.localMemStackPointer + t.framesize < 2 ^ 32
  frame_le : t.localMemStackPointer + t.framesize + call.target.localMemFramesize ≤ 2 ^ 32

/-- A call that has not returned: the thread as it was, and the instruction. -/
structure LiveCall where
  caller : Thread
  call : CallInst
  top : StackTop

/-- The states of a thread whose calls are of a kind, and the calls that have not returned. -/
inductive CallRun (Calls : Thread → CallInst → StackTop → Prop) : Thread → List LiveCall → Prop
  | start {kernel : FunctionInfo} {t : Thread} : Started kernel t → CallRun Calls t []
  | body {t t' : Thread} {live : List LiveCall} :
      CallRun Calls t live → Body t t' → CallRun Calls t' live
  | call {t t' : Thread} {live : List LiveCall} {call : CallInst} {top : StackTop} :
      CallRun Calls t live → Calls t call top → callImpl call top t = .ok t' →
        CallRun Calls t' (⟨t, call, top⟩ :: live)
  | ret {t t' : Thread} {k : LiveCall} {live : List LiveCall} {done : Bool} :
      CallRun Calls t (k :: live) → retImpl t = .ok (done, t') → CallRun Calls t' live

/-! ## Isolation -/

/-- After a call each formal parameter holds what was passed. -/
def Begun (t : Thread) (call : CallInst) (t' : Thread) : Prop :=
  List.Forall₂ (fun actual formal => t'.Holds formal t actual) call.args call.target.args

/-- After a return the frame of the caller is as it was at the call, but for the destination, which
holds what the callee returns. -/
structure Restored (k : LiveCall) (u t : Thread) : Prop where
  funcInfo : t.funcInfo = k.caller.funcInfo
  symbolTable : t.symbolTable = k.caller.symbolTable
  npc : t.npc = k.caller.pc + k.call.instSize
  rpc : t.rpc = k.top.rpc
  localMemStackPointer : t.localMemStackPointer = k.caller.localMemStackPointer
  callstack : t.callstack = k.caller.callstack
  regs : ∀ reg, k.call.dst ≠ some reg → t.getReg reg = k.caller.getReg reg
  outerRegs : t.regs.tail = k.caller.regs.tail
  localMem : ∀ a < k.caller.localMemStackPointer + k.caller.framesize,
    (∀ dst ∈ k.call.dst, dst.kind = .paramLocal → a ∉ k.caller.extent dst) →
      t.localMem a = k.caller.localMem a
  returned : ∀ src ∈ k.call.target.returnVar, ∀ dst ∈ k.call.dst, t.Holds dst u src

/-- A return from the innermost call, or from the kernel, succeeds, and restores the caller. -/
def Returns (t : Thread) : List LiveCall → Prop
  | [] => ∃ t', retImpl t = .ok (true, t')
  | k :: _ => ∃ t', retImpl t = .ok (false, t') ∧ Restored k t t'

/-- The frames of a thread do not share a byte, and whatever it does next is isolated. -/
structure Isolated (Calls : Thread → CallInst → StackTop → Prop) (t : Thread)
    (live : List LiveCall) : Prop where
  disjoint : (t :: live.map LiveCall.caller).Pairwise fun u v => Disjoint u.frame v.frame
  call : ∀ call top, Calls t call top → ∃ t', callImpl call top t = .ok t' ∧ Begun t call t'
  returns : Returns t live

/-! ## Reading what is passed -/

section Passing

variable {t : Thread} {src dst : Symbol} {heap : Heap} {n : ℕ}

theorem cells_addressOf (h : t.localMemStackPointer + src.address + n ≤ 2 ^ 32) :
    cells t.localMem (t.addressOf src) n =
      cells t.localMem (t.localMemStackPointer + src.address) n := by
  cases n with
  | zero => rfl
  | succ n => rw [Thread.addressOf, Nat.mod_eq_of_lt (by omega)]

theorem contents_of_passed (hpassed : Passed n src dst)
    (hn : t.localMemStackPointer + n ≤ 2 ^ 32) (hsrc : src.kind = .paramLocal) :
    cells t.localMem (t.addressOf src) dst.sizeInBytes = t.contents src := by
  have hsize := hpassed.size_eq (.inl hsrc)
  have hwithin := hpassed.within hsrc
  rw [← hsize, cells_addressOf (by omega), Thread.contents]

theorem copyArgToBuffer_reg (heap : Heap) (hpassed : Passed n src dst) (hreaches : Reaches src dst)
    (hn : t.localMemStackPointer + n ≤ 2 ^ 32) (hdst : dst.kind = .reg) :
    copyArgToBuffer t src dst heap = .ok (⟨dst, .reg (t.value src)⟩, heap) := by
  obtain hsrc | hsrc := hpassed.kind
  · simp only [copyArgToBuffer, hsrc, ArgBuffer.ofReg, hdst, Thread.value]
  · have hsize := hpassed.size_eq (.inl hsrc)
    have hlt := hpassed.size_lt (.inl hsrc)
    have hlength : (t.contents src).length = src.sizeInBytes := length_cells
    simp only [copyArgToBuffer, hsrc, ArgBuffer.ofParam, hdst, Thread.value,
      contents_of_passed hpassed hn hsrc, hlength]
    rw [if_pos (by omega), if_pos (hreaches.known hsrc)]

/-- What is put in the buffer for a variable. A register is put there as a whole. -/
def Thread.sent (t : Thread) (src : Symbol) : List UInt8 :=
  match src.kind with
  | .reg => toBytes 16 (t.getReg src).toNat
  | _ => t.contents src

theorem copyArgToBuffer_param (heap : Heap) (hpassed : Passed n src dst)
    (hn : t.localMemStackPointer + n ≤ 2 ^ 32) (hdst : dst.kind = .paramLocal) :
    copyArgToBuffer t src dst heap =
      .ok (⟨dst, .param heap.length⟩, heap ++ [some (t.sent src)]) := by
  obtain hsrc | hsrc := hpassed.kind
  · simp only [copyArgToBuffer, hsrc, ArgBuffer.ofReg, hdst, Heap.malloc, Thread.sent]
  · have hsize := hpassed.size_eq (.inl hsrc)
    have hlt := hpassed.size_lt (.inl hsrc)
    simp only [copyArgToBuffer, hsrc, ArgBuffer.ofParam, hdst, Heap.malloc, Thread.sent,
      contents_of_passed hpassed hn hsrc]
    rw [if_pos (by omega)]

end Passing

/-! ## Calls -/

variable {t : Thread}

theorem Thread.framesize_of {f : FunctionInfo} (h : t.funcInfo = some f) :
    t.framesize = f.localMemFramesize := by
  rw [Thread.framesize, h]

section Calls

variable {t : Thread} {call : CallInst} {top : StackTop} {actuals formals : List Symbol}
  {regs : RegMap} {rest : List RegMap} {heap : Heap}

/-- The buffers of arguments that are passed to registers. -/
def regBuffers (t : Thread) (actuals formals : List Symbol) : List ArgBuffer :=
  List.zipWith (fun actual formal => ⟨formal, .reg (t.value actual)⟩) actuals formals

theorem copyArgsIntoBufferList_reg {n : ℕ} (heap : Heap) (hn : t.localMemStackPointer + n ≤ 2 ^ 32)
    (hpassed : List.Forall₂ (Passed n) actuals formals)
    (hreaches : List.Forall₂ Reaches actuals formals)
    (hformals : ∀ formal ∈ formals, formal.kind = .reg) :
    copyArgsIntoBufferList t actuals formals heap = .ok (regBuffers t actuals formals, heap) := by
  induction hpassed with
  | nil => rfl
  | @cons actual formal actuals formals hpass _ ih =>
    obtain ⟨hreach, hreaches⟩ := List.forall₂_cons.mp hreaches
    have hrest := ih hreaches fun formal hmem => hformals formal (List.mem_cons_of_mem _ hmem)
    have hcopy := copyArgToBuffer_reg heap hpass hreach hn
      (hformals formal List.mem_cons_self)
    rw [copyArgsIntoBufferList, hcopy]
    change (copyArgsIntoBufferList t actuals formals heap >>= _) = _
    rw [hrest]
    rfl

theorem foldlM_destroy_regBuffers :
    (regBuffers t actuals formals).foldlM (fun heap buffer => buffer.destroy heap) heap =
      .ok heap := by
  induction actuals generalizing formals with
  | nil => rfl
  | cons actual actuals ih =>
    cases formals with
    | nil => rfl
    | cons formal formals => exact ih

theorem foldlM_copyBufferToFrame {u : Thread} (heap : Heap) (hregs : u.regs = regs :: rest)
    (hreaches : List.Forall₂ Reaches actuals formals) (hnodup : formals.Nodup) :
    ∃ regs', (regBuffers t actuals formals).foldlM (copyBufferToFrame heap) u =
        .ok { u with regs := regs' :: rest } ∧
      (∀ reg ∉ formals, regs' reg = regs reg) ∧
      List.Forall₂ (fun actual formal => regs' formal = t.value actual) actuals formals := by
  induction hreaches generalizing u regs with
  | nil =>
    refine ⟨regs, ?_, fun reg _ => rfl, .nil⟩
    rw [← hregs]
    rfl
  | @cons actual formal actuals formals hreach _ ih =>
    obtain ⟨hnotMem, hnodup⟩ := List.nodup_cons.mp hnodup
    have hstep : copyBufferToFrame heap u ⟨formal, .reg (t.value actual)⟩ =
        .ok { u with regs := Function.update regs formal (t.value actual) :: rest } := by
      simp only [copyBufferToFrame, Thread.setReg, hreach.notSink, hregs, Bool.false_eq_true,
        if_false]
    obtain ⟨regs', hrun, hother, hvalues⟩ := ih (u := { u with
      regs := Function.update regs formal (t.value actual) :: rest }) rfl hnodup
    refine ⟨regs', ?_, fun reg hreg => ?_, .cons ?_ hvalues⟩
    · rw [regBuffers, List.zipWith_cons_cons, List.foldlM_cons, hstep]
      exact hrun
    · rw [List.mem_cons, not_or] at hreg
      rw [hother reg hreg.2, Function.update_of_ne hreg.1]
    · rw [hother formal hnotMem, Function.update_self]

/-- What is kept of a call on the stack. -/
def LiveCall.entry (k : LiveCall) : StackEntry where
  symbolTable := k.caller.symbolTable
  funcInfo := k.caller.funcInfo
  pc := k.caller.pc + k.call.instSize
  rpc := k.top.rpc
  returnVarSrc := k.call.target.returnVar
  returnVarDst := k.call.dst

/-- The thread at the first instruction of the callee. -/
def LiveCall.entered (k : LiveCall) (regs : RegMap) : Thread where
  pc := k.caller.pc
  npc := k.call.target.startPc
  rpc := -1
  funcInfo := some k.call.target
  symbolTable := some k.call.target.symtab
  callstack := k.entry :: k.caller.callstack
  regs := regs :: k.caller.regs
  localMemStackPointer := k.caller.localMemStackPointer + k.caller.framesize
  localMem := k.caller.localMem

theorem callImpl_of_safe (hfunc : t.funcInfo ≠ none) (hsafe : SafeCall t call top) :
    ∃ regs, callImpl call top t = .ok (LiveCall.entered ⟨t, call, top⟩ regs) ∧
      List.Forall₂ (fun actual formal => regs formal = t.value actual)
        call.args call.target.args := by
  obtain ⟨f, hf⟩ := Option.ne_none_iff_exists'.mp hfunc
  have hframesize := Thread.framesize_of hf
  have hlt := hsafe.frame_lt
  have hcopy := copyArgsIntoBufferList_reg [] (Nat.le_of_lt hlt) hsafe.args hsafe.reaches
    hsafe.formals
  have hdst : (if call.target.returnVar.isSome then call.dst else none) = call.dst := by
    split_ifs with hreturn
    · rfl
    · rw [← hsafe.returns, Bool.not_eq_true, Option.isSome_eq_false_iff,
        Option.isNone_iff_eq_none] at hreturn
      exact hreturn.symm
  have hpush : callstackPush t (top.pc + call.instSize) top.rpc call.target.returnVar call.dst =
      .ok { t with
        rpc := -1
        callstack := LiveCall.entry ⟨t, call, top⟩ :: t.callstack
        regs := (fun _ => 0) :: t.regs
        localMemStackPointer := t.localMemStackPointer + t.framesize } := by
    simp only [callstackPush, hf, LiveCall.entry, hsafe.top_pc, hframesize]
    rw [Nat.mod_eq_of_lt (by omega)]
  obtain ⟨regs, hrun, _, hvalues⟩ := foldlM_copyBufferToFrame (t := t) [] (u := { t with
    rpc := -1
    callstack := LiveCall.entry ⟨t, call, top⟩ :: t.callstack
    regs := (fun _ => 0) :: t.regs
    localMemStackPointer := t.localMemStackPointer + t.framesize }) rfl hsafe.reaches
    call.target.nodup_args
  refine ⟨regs, ?_, hvalues⟩
  rw [callImpl, if_neg (not_not.mpr hsafe.returns), if_neg (not_not.mpr hsafe.args.length_eq)]
  change (copyArgsIntoBufferList t call.args call.target.args [] >>= _) = _
  rw [hcopy]
  change (if top.pc ≠ t.pc then _ else _) = _
  rw [if_neg (not_not.mpr hsafe.top_pc), hdst]
  rw [hpush]
  change ((regBuffers t call.args call.target.args).foldlM (copyBufferToFrame []) _ >>= _) = _
  rw [hrun]
  change ((regBuffers t call.args call.target.args).foldlM
    (fun heap buffer => buffer.destroy heap) [] >>= _) = _
  rw [foldlM_destroy_regBuffers]
  rfl

theorem copyArgToBuffer_cases {src dst : Symbol} {n : ℕ} (t : Thread) (heap : Heap)
    (hpassed : Passed n src dst) :
    (dst.kind = .reg ∧ ∃ value, copyArgToBuffer t src dst heap = .ok (⟨dst, .reg value⟩, heap)) ∨
      (dst.kind = .paramLocal ∧ ∃ bytes, copyArgToBuffer t src dst heap =
        .ok (⟨dst, .param heap.length⟩, heap ++ [some bytes])) := by
  obtain hdst | hdst := hpassed.dst_kind
  · refine .inl ⟨hdst, ?_⟩
    obtain hsrc | hsrc := hpassed.kind
    · simp only [copyArgToBuffer, hsrc, ArgBuffer.ofReg, hdst]
      exact ⟨_, rfl⟩
    · have hlt : dst.sizeInBytes < 1024 := hpassed.size_eq (.inl hsrc) ▸ hpassed.size_lt (.inl hsrc)
      simp only [copyArgToBuffer, hsrc, ArgBuffer.ofParam, hdst, hlt, if_true]
      exact ⟨_, rfl⟩
  · refine .inr ⟨hdst, ?_⟩
    obtain hsrc | hsrc := hpassed.kind
    · simp only [copyArgToBuffer, hsrc, ArgBuffer.ofReg, hdst, Heap.malloc]
      exact ⟨_, rfl⟩
    · have hlt : dst.sizeInBytes < 1024 := hpassed.size_eq (.inl hsrc) ▸ hpassed.size_lt (.inl hsrc)
      simp only [copyArgToBuffer, hsrc, ArgBuffer.ofParam, hdst, Heap.malloc, hlt, if_true]
      exact ⟨_, rfl⟩

/-- A buffer in the list of arguments is for a register, or points to something. -/
def ForFormal (buffer : ArgBuffer) (formal : Symbol) : Prop :=
  buffer.dst = formal ∧ (formal.kind = .reg ∧ (∃ value, buffer.value = .reg value) ∨
    formal.kind = .paramLocal ∧ ∃ pointer, buffer.value = .param pointer)

theorem copyArgsIntoBufferList_freed {n : ℕ} (hpassed : List.Forall₂ (Passed n) actuals formals)
    (hfreed : ∀ block ∈ heap, block = none) :
    ∃ buffers heap', copyArgsIntoBufferList t actuals formals heap = .ok (buffers, heap') ∧
      (∀ block ∈ heap', block = none) ∧ List.Forall₂ ForFormal buffers formals := by
  induction hpassed generalizing heap with
  | nil => exact ⟨[], heap, rfl, hfreed, .nil⟩
  | @cons actual formal actuals formals hpass _ ih =>
    obtain ⟨hkind, value, hcopy⟩ | ⟨hkind, bytes, hcopy⟩ :=
      copyArgToBuffer_cases t heap hpass
    · obtain ⟨buffers, heap', hrest, hfreed', hformals⟩ := ih hfreed
      refine ⟨⟨formal, .reg value⟩ :: buffers, heap', ?_, hfreed',
        .cons ⟨rfl, .inl ⟨hkind, value, rfl⟩⟩ hformals⟩
      rw [copyArgsIntoBufferList, hcopy]
      change (copyArgsIntoBufferList t actuals formals heap >>= _) = _
      rw [hrest]
      rfl
    · have hfreed' : ∀ block ∈ heap ++ [none], block = none := fun block hmem =>
        (List.mem_append.mp hmem).elim (hfreed block) List.mem_singleton.mp
      have hfree : Heap.free (heap ++ [some bytes]) heap.length = .ok (heap ++ [none]) := by
        simp only [Heap.free, List.getElem?_concat_length, List.set_append_right _ _ (le_refl _),
          Nat.sub_self, List.set_cons_zero]
      obtain ⟨buffers, heap', hrest, hfreed'', hformals⟩ := ih hfreed'
      refine ⟨⟨formal, .param heap.length⟩ :: buffers, heap', ?_, hfreed'',
        .cons ⟨rfl, .inr ⟨hkind, heap.length, rfl⟩⟩ hformals⟩
      rw [copyArgsIntoBufferList, hcopy]
      change (Heap.free (heap ++ [some bytes]) heap.length >>= _) = _
      rw [hfree]
      change (copyArgsIntoBufferList t actuals formals (heap ++ [none]) >>= _) = _
      rw [hrest]
      rfl

theorem load_freed (hfreed : ∀ block ∈ heap, block = none) (pointer : ℕ) :
    heap.load pointer = .error .useAfterFree := by
  cases hblock : heap[pointer]? with
  | none => simp only [Heap.load, hblock]
  | some block =>
    obtain rfl := hfreed block (List.mem_of_getElem? hblock)
    simp only [Heap.load, hblock]

theorem foldlM_copyBufferToFrame_freed {buffers : List ArgBuffer} {formal : Symbol} {u : Thread}
    (hregs : u.regs ≠ []) (hfreed : ∀ block ∈ heap, block = none)
    (hformals : List.Forall₂ ForFormal buffers formals) (hmem : formal ∈ formals)
    (hkind : formal.kind = .paramLocal) :
    buffers.foldlM (copyBufferToFrame heap) u = .error .useAfterFree := by
  induction hformals generalizing u with
  | nil => exact nomatch hmem
  | @cons buffer first buffers formals hfirst _ ih =>
    rw [List.foldlM_cons]
    obtain ⟨_, ⟨hreg, value, hvalue⟩ | ⟨_, pointer, hvalue⟩⟩ := hfirst
    · have hmem' : formal ∈ formals := (List.mem_cons.mp hmem).resolve_left fun heq => by
        rw [heq, hreg] at hkind
        exact nomatch hkind
      obtain ⟨regs, rest, hcons⟩ := List.exists_cons_of_ne_nil hregs
      have hstep : ∃ v, copyBufferToFrame heap u buffer = .ok v ∧ v.regs ≠ [] := by
        simp only [copyBufferToFrame, hvalue, Thread.setReg, hcons]
        split_ifs
        · exact ⟨u, rfl, hregs⟩
        · exact ⟨_, rfl, List.cons_ne_nil _ _⟩
      obtain ⟨v, hv, hne⟩ := hstep
      rw [hv]
      exact ih hne hmem'
    · simp only [copyBufferToFrame, hvalue, load_freed hfreed]
      rfl

theorem callImpl_of_param {formal : Symbol} (hfunc : t.funcInfo ≠ none)
    (htyped : TypedCall t call top) (hmem : formal ∈ call.target.args)
    (hkind : formal.kind = .paramLocal) : callImpl call top t = .error .useAfterFree := by
  obtain ⟨f, hf⟩ := Option.ne_none_iff_exists'.mp hfunc
  obtain ⟨buffers, heap, hcopy, hfreed, hformals⟩ :=
    @copyArgsIntoBufferList_freed t _ _ [] _ htyped.args fun _ hblock => nomatch hblock
  rw [callImpl, if_neg (not_not.mpr htyped.returns), if_neg (not_not.mpr htyped.args.length_eq)]
  change (copyArgsIntoBufferList t call.args call.target.args [] >>= _) = _
  rw [hcopy]
  change (if top.pc ≠ t.pc then _ else _) = _
  rw [if_neg (not_not.mpr htyped.top_pc)]
  simp only [callstackPush, hf]
  change (buffers.foldlM (copyBufferToFrame heap) _ >>= _) = _
  rw [foldlM_copyBufferToFrame_freed (List.cons_ne_nil _ _) hfreed hformals hmem hkind]
  rfl

end Calls

/-! ## The stacks of a thread -/

/-- What lies below the innermost frame is the same, and where this is. -/
structure SameBelow (t t' : Thread) : Prop where
  funcInfo : t'.funcInfo = t.funcInfo
  callstack : t'.callstack = t.callstack
  localMemStackPointer : t'.localMemStackPointer = t.localMemStackPointer
  regs : ∃ regs, t'.regs = regs :: t.regs.tail
  localMem : ∀ a < t.localMemStackPointer, t'.localMem a = t.localMem a

/-- The innermost frame lies on that of the caller. -/
structure Linked (k : LiveCall) (t : Thread) : Prop where
  safe : SafeCall k.caller k.call k.top
  funcInfo : t.funcInfo = some k.call.target
  callstack : t.callstack = k.entry :: k.caller.callstack
  localMemStackPointer : t.localMemStackPointer =
    k.caller.localMemStackPointer + k.caller.framesize
  regs : ∃ regs, t.regs = regs :: k.caller.regs
  localMem : ∀ a < t.localMemStackPointer, t.localMem a = k.caller.localMem a

/-- The innermost frame is that of the kernel. -/
structure Outermost (t : Thread) : Prop where
  funcInfo : t.funcInfo ≠ none
  callstack : t.callstack = [.empty]
  localMemStackPointer : t.localMemStackPointer = 0
  regs : ∃ regs, t.regs = [regs]

/-- The stacks of a thread have an element for each call. -/
def Aligned : Thread → List LiveCall → Prop
  | t, [] => Outermost t
  | t, k :: live => Linked k t ∧ Aligned k.caller live

namespace Aligned

variable {t t' : Thread} {live : List LiveCall} {k : LiveCall} (h : Aligned t live)
include h

theorem funcInfo_ne : t.funcInfo ≠ none := by
  cases live with
  | nil => exact h.funcInfo
  | cons k live =>
    rw [h.1.funcInfo]
    exact Option.some_ne_none _

theorem callstack_ne : t.callstack ≠ [] := by
  cases live with
  | nil =>
    rw [h.callstack]
    exact List.cons_ne_nil _ _
  | cons k live =>
    rw [h.1.callstack]
    exact List.cons_ne_nil _ _

theorem exists_regs : ∃ regs, t.regs = regs :: t.regs.tail := by
  cases live with
  | nil =>
    obtain ⟨regs, hregs⟩ := h.regs
    exact ⟨regs, by rw [hregs, List.tail_cons]⟩
  | cons k live =>
    obtain ⟨regs, hregs⟩ := h.1.regs
    exact ⟨regs, by rw [hregs, List.tail_cons]⟩

theorem of_sameBelow (hsame : SameBelow t t') : Aligned t' live := by
  obtain ⟨regs, hregs⟩ := hsame.regs
  cases live with
  | nil =>
    obtain ⟨regs', hregs'⟩ := h.regs
    exact {
      funcInfo := hsame.funcInfo ▸ h.funcInfo
      callstack := hsame.callstack.trans h.callstack
      localMemStackPointer := hsame.localMemStackPointer.trans h.localMemStackPointer
      regs := ⟨regs, by rw [hregs, hregs', List.tail_cons]⟩ }
  | cons k live =>
    obtain ⟨hlinked, haligned⟩ := h
    obtain ⟨regs', hregs'⟩ := hlinked.regs
    refine ⟨{
      safe := hlinked.safe
      funcInfo := hsame.funcInfo.trans hlinked.funcInfo
      callstack := hsame.callstack.trans hlinked.callstack
      localMemStackPointer := hsame.localMemStackPointer.trans hlinked.localMemStackPointer
      regs := ⟨regs, by rw [hregs, hregs', List.tail_cons]⟩
      localMem := fun a ha => ?_ }, haligned⟩
    rw [hsame.localMemStackPointer] at ha
    rw [hsame.localMem a ha, hlinked.localMem a ha]

theorem below (hk : k ∈ live) :
    k.caller.localMemStackPointer + k.caller.framesize ≤ t.localMemStackPointer := by
  induction live generalizing t with
  | nil => exact nomatch hk
  | cons k' live ih =>
    obtain ⟨hlinked, haligned⟩ := h
    obtain rfl | hk := List.mem_cons.mp hk
    · exact hlinked.localMemStackPointer.ge
    · have hbelow := ih haligned hk
      have heq := hlinked.localMemStackPointer
      omega

theorem disjoint :
    (t :: live.map LiveCall.caller).Pairwise fun u v => Disjoint u.frame v.frame := by
  induction live generalizing t with
  | nil => exact List.pairwise_singleton _ _
  | cons k live ih =>
    refine List.pairwise_cons.mpr ⟨fun v hv => ?_, ih h.2⟩
    obtain ⟨k', hk', rfl⟩ := List.mem_map.mp (show v ∈ (k :: live).map LiveCall.caller from hv)
    refine Set.disjoint_left.mpr fun a ha ha' => ?_
    exact absurd (h.below hk') (by have := ha.1; have := ha'.2; omega)

end Aligned

theorem Started.aligned {kernel : FunctionInfo} (h : Started kernel t) : Aligned t [] where
  funcInfo := h.funcInfo ▸ Option.some_ne_none kernel
  callstack := h.callstack
  localMemStackPointer := h.localMemStackPointer
  regs := ⟨_, h.regs⟩

theorem Body.sameBelow {t t' : Thread} (h : Body t t') : SameBelow t t' where
  funcInfo := h.funcInfo
  callstack := h.callstack
  localMemStackPointer := h.localMemStackPointer
  regs := h.regs
  localMem a ha := h.localMem a fun hmem => absurd hmem.1 (Nat.not_le.mpr ha)

theorem linked_entered {k : LiveCall} (hsafe : SafeCall k.caller k.call k.top) (regs : RegMap) :
    Linked k (k.entered regs) where
  safe := hsafe
  funcInfo := rfl
  callstack := rfl
  localMemStackPointer := rfl
  regs := ⟨regs, rfl⟩
  localMem _ _ := rfl

/-! ## Returns -/

section Returning
variable {regs : RegMap}


variable {k : LiveCall} {t : Thread}

/-- The thread in the frame of the caller, before a value is returned. -/
def LiveCall.resumed (k : LiveCall) (t : Thread) (regs : RegMap) (localMem : ℕ → UInt8) :
    Thread where
  pc := t.pc
  npc := k.caller.pc + k.call.instSize
  rpc := k.top.rpc
  funcInfo := k.caller.funcInfo
  symbolTable := k.caller.symbolTable
  callstack := k.caller.callstack
  regs := regs :: k.caller.regs.tail
  localMemStackPointer := k.caller.localMemStackPointer
  localMem := localMem

theorem restored_resumed {localMem : ℕ → UInt8} (hlinked : Linked k t)
    (hregs : ∀ reg, k.call.dst ≠ some reg → regs reg = k.caller.getReg reg)
    (hmem : ∀ a < k.caller.localMemStackPointer + k.caller.framesize,
      (∀ dst ∈ k.call.dst, dst.kind = .paramLocal → a ∉ k.caller.extent dst) →
        localMem a = t.localMem a)
    (hreturned : ∀ src ∈ k.call.target.returnVar, ∀ dst ∈ k.call.dst,
      (k.resumed t regs localMem).Holds dst t src) :
    Restored k t (k.resumed t regs localMem) where
  funcInfo := rfl
  symbolTable := rfl
  npc := rfl
  rpc := rfl
  localMemStackPointer := rfl
  callstack := rfl
  regs := hregs
  outerRegs := rfl
  localMem a ha hout :=
    (hmem a ha hout).trans (hlinked.localMem a (hlinked.localMemStackPointer ▸ ha))
  returned := hreturned

theorem popFrame_of_linked (hfunc : k.caller.funcInfo ≠ none)
    (hlinked : Linked k t) (hregs : k.caller.regs = regs :: k.caller.regs.tail) :
    popFrame t k.entry k.caller.callstack = .ok (k.resumed t regs t.localMem) := by
  obtain ⟨f, hf⟩ := Option.ne_none_iff_exists'.mp hfunc
  obtain ⟨top, htop⟩ := hlinked.regs
  have hsp := hlinked.localMemStackPointer
  rw [Thread.framesize_of hf] at hsp
  have hle : f.localMemFramesize ≤ t.localMemStackPointer := by omega
  have hsub : t.localMemStackPointer - f.localMemFramesize = k.caller.localMemStackPointer := by
    omega
  simp only [popFrame, LiveCall.entry, LiveCall.resumed, hf, hle, if_true, hsub, htop,
    List.tail_cons, ← hregs]

theorem retImpl_none (hfunc : k.caller.funcInfo ≠ none)
    (hlinked : Linked k t) (hregs : k.caller.regs = regs :: k.caller.regs.tail)
    (hsrc : k.call.target.returnVar = none) (hdst : k.call.dst = none) :
    retImpl t = .ok (k.caller.callstack.isEmpty, k.resumed t regs t.localMem) := by
  rw [retImpl, callstackPop, hlinked.callstack]
  change (copyReturnToBuffer t k.call.target.returnVar k.call.dst >>= _) = _
  rw [hsrc, hdst]
  change (popFrame t k.entry k.caller.callstack >>= _) = _
  rw [popFrame_of_linked hfunc hlinked hregs]
  rfl

variable {src dst : Symbol}

theorem retImpl_reg (hfunc : k.caller.funcInfo ≠ none)
    (hlinked : Linked k t) (hregs : k.caller.regs = regs :: k.caller.regs.tail)
    (hsrc : k.call.target.returnVar = some src) (hdst : k.call.dst = some dst)
    (hkind : dst.kind = .reg) :
    retImpl t = .ok (k.caller.callstack.isEmpty,
      k.resumed t (Function.update regs dst (t.value src)) t.localMem) := by
  have hsafe := hlinked.safe
  have hreaches := hsafe.returned_reg src hsrc dst hdst hkind
  have hframe := hsafe.frame_le
  rw [← hlinked.localMemStackPointer] at hframe
  have hcopy := copyArgToBuffer_reg [] (hsafe.returned src hsrc dst hdst) hreaches hframe
    hkind
  have hstore : copyReturnToFrame [] (k.resumed t regs t.localMem)
      (some ⟨dst, .reg (t.value src)⟩) =
        .ok (k.resumed t (Function.update regs dst (t.value src)) t.localMem) := by
    simp only [copyReturnToFrame, copyBufferToFrame, Thread.setReg, hreaches.notSink,
      LiveCall.resumed, Bool.false_eq_true, if_false]
    rfl
  rw [retImpl, callstackPop, hlinked.callstack]
  change (copyReturnToBuffer t k.call.target.returnVar k.call.dst >>= _) = _
  rw [hsrc, hdst, copyReturnToBuffer, hcopy]
  change (popFrame t k.entry k.caller.callstack >>= _) = _
  rw [popFrame_of_linked hfunc hlinked hregs]
  change (copyReturnToFrame [] (k.resumed t regs t.localMem) _ >>= _) = _
  rw [hstore]
  rfl

theorem retImpl_param (hfunc : k.caller.funcInfo ≠ none)
    (hlinked : Linked k t) (hregs : k.caller.regs = regs :: k.caller.regs.tail)
    (hsrc : k.call.target.returnVar = some src) (hdst : k.call.dst = some dst)
    (hkind : dst.kind = .paramLocal) :
    retImpl t = .ok (k.caller.callstack.isEmpty, k.resumed t regs
      (overwrite t.localMem (k.caller.localMemStackPointer + dst.address) (t.sent src))) := by
  have hsafe := hlinked.safe
  have hframe := hsafe.frame_le
  rw [← hlinked.localMemStackPointer] at hframe
  have hcopy := copyArgToBuffer_param [] (hsafe.returned src hsrc dst hdst) hframe hkind
  have haddress : (k.resumed t regs t.localMem).addressOf dst =
      k.caller.localMemStackPointer + dst.address := by
    have hwithin := hsafe.within dst hdst hkind
    have hlt := hsafe.frame_lt
    change (k.caller.localMemStackPointer + dst.address) % 2 ^ 32 = _
    exact Nat.mod_eq_of_lt (by omega)
  rw [retImpl, callstackPop, hlinked.callstack]
  change (copyReturnToBuffer t k.call.target.returnVar k.call.dst >>= _) = _
  rw [hsrc, hdst, copyReturnToBuffer, hcopy]
  change (popFrame t k.entry k.caller.callstack >>= _) = _
  rw [popFrame_of_linked hfunc hlinked hregs, ← haddress]
  rfl

theorem cells_overwrite_sent {a : ℕ} (hsize : src.sizeInBytes = dst.sizeInBytes) :
    cells (overwrite t.localMem a (t.sent src)) a dst.sizeInBytes = t.bytes src := by
  rw [← hsize]
  cases hkind : src.kind with
  | reg =>
    have hle := src.size_le hkind
    have hsplit := toBytes_add src.sizeInBytes (16 - src.sizeInBytes) (t.getReg src).toNat
    have hlength := length_toBytes src.sizeInBytes (t.getReg src).toNat
    rw [Nat.add_sub_cancel' hle] at hsplit
    simp only [Thread.sent, Thread.bytes, hkind]
    -- The rest of the register lies behind the variable.
    rw [hsplit, overwrite_append, cells_overwrite_of_disjoint (.inl (by rw [hlength]))]
    exact cells_overwrite_of_length hlength
  | paramLocal =>
    simp only [Thread.sent, Thread.bytes, hkind]
    exact cells_overwrite_of_length length_cells
  | other =>
    simp only [Thread.sent, Thread.bytes, hkind]
    exact cells_overwrite_of_length length_cells

theorem length_sent_of_param (h : src.kind ≠ .reg) : (t.sent src).length = src.sizeInBytes := by
  cases hkind : src.kind with
  | reg => exact absurd hkind h
  | paramLocal =>
    simp only [Thread.sent, hkind]
    exact length_cells
  | other =>
    simp only [Thread.sent, hkind]
    exact length_cells

theorem overwrite_sent_of_notMem {a : ℕ} (hlinked : Linked k t)
    (hsrc : k.call.target.returnVar = some src) (hdst : k.call.dst = some dst)
    (hkind : dst.kind = .paramLocal)
    (ha : a < k.caller.localMemStackPointer + k.caller.framesize) (hout : a ∉ k.caller.extent dst) :
    overwrite t.localMem (k.caller.localMemStackPointer + dst.address) (t.sent src) a =
      t.localMem a := by
  have hsafe := hlinked.safe
  by_cases hbelow : a < k.caller.localMemStackPointer + dst.address
  · exact overwrite_of_lt hbelow
  · have habove : k.caller.localMemStackPointer + dst.address + dst.sizeInBytes ≤ a :=
      Nat.not_lt.mp fun hlt => hout ⟨Nat.not_lt.mp hbelow, hlt⟩
    have hpassed := hsafe.returned src hsrc dst hdst
    have hsize := hpassed.size_eq (.inr hkind)
    refine overwrite_of_le ?_
    by_cases hreg : src.kind = .reg
    · have hlength : (t.sent src).length = 16 := by
        simp only [Thread.sent, hreg, length_toBytes]
      obtain ⟨hfits, _⟩ := hsafe.returned_param src hsrc dst hdst hkind hreg
      omega
    · rw [length_sent_of_param hreg]
      omega

theorem exists_retImpl {live : List LiveCall} (hlinked : Linked k t)
    (haligned : Aligned k.caller live) :
    ∃ t', retImpl t = .ok (false, t') ∧ Restored k t t' ∧ SameBelow k.caller t' := by
  have hfunc := haligned.funcInfo_ne
  have hsafe := hlinked.safe
  obtain ⟨regs, hregs⟩ := haligned.exists_regs
  have hget : ∀ reg, k.caller.getReg reg = regs reg := fun reg => by rw [Thread.getReg, hregs]
  have hnotDone : k.caller.callstack.isEmpty = false :=
    List.isEmpty_eq_false_iff.mpr haligned.callstack_ne
  have hbelow : ∀ {regs' localMem}, Restored k t (k.resumed t regs' localMem) →
      SameBelow k.caller (k.resumed t regs' localMem) := fun hrestored => {
    funcInfo := hrestored.funcInfo
    callstack := hrestored.callstack
    localMemStackPointer := hrestored.localMemStackPointer
    regs := ⟨_, rfl⟩
    localMem := fun a ha => hrestored.localMem a (by omega) fun dst _ _ hmem =>
      absurd hmem.1 (by omega) }
  cases hsrc : k.call.target.returnVar with
  | none =>
    have hdst : k.call.dst = none := by
      have hreturns := hsafe.returns
      rw [hsrc] at hreturns
      exact Option.not_isSome_iff_eq_none.mp (by rw [hreturns]; exact Bool.false_ne_true)
    have hrestored : Restored k t (k.resumed t regs t.localMem) :=
      restored_resumed hlinked (fun reg _ => (hget reg).symm) (fun _ _ _ => rfl)
        fun src hmem => by rw [hsrc] at hmem; exact nomatch hmem
    refine ⟨_, ?_, hrestored, hbelow hrestored⟩
    rw [retImpl_none hfunc hlinked hregs hsrc hdst, hnotDone]
  | some src =>
    obtain ⟨dst, hdst⟩ : ∃ dst, k.call.dst = some dst :=
      Option.isSome_iff_exists.mp (by rw [hsafe.returns, hsrc]; rfl)
    have hpassed := hsafe.returned src hsrc dst hdst
    obtain hkind | hkind := hpassed.dst_kind
    · have hrestored : Restored k t
          (k.resumed t (Function.update regs dst (t.value src)) t.localMem) := by
        refine restored_resumed hlinked (fun reg hne => ?_) (fun _ _ _ => rfl) ?_
        · rw [Function.update_of_ne fun heq => hne (by rw [hdst, heq]), hget]
        · intro src' hsrc' dst' hdst'
          rw [hsrc, Option.mem_some_iff] at hsrc'
          rw [hdst, Option.mem_some_iff] at hdst'
          subst hsrc' hdst'
          simp only [Thread.Holds, hkind]
          exact Function.update_self ..
      refine ⟨_, ?_, hrestored, hbelow hrestored⟩
      rw [retImpl_reg hfunc hlinked hregs hsrc hdst hkind, hnotDone]
    · have hrestored : Restored k t (k.resumed t regs (overwrite t.localMem
          (k.caller.localMemStackPointer + dst.address) (t.sent src))) := by
        refine restored_resumed hlinked (fun reg _ => (hget reg).symm) (fun a ha hout => ?_) ?_
        · exact overwrite_sent_of_notMem hlinked hsrc hdst hkind ha (hout dst hdst hkind)
        · intro src' hsrc' dst' hdst'
          rw [hsrc, Option.mem_some_iff] at hsrc'
          rw [hdst, Option.mem_some_iff] at hdst'
          subst hsrc' hdst'
          simp only [Thread.Holds, hkind]
          exact cells_overwrite_sent (hpassed.size_eq (.inr hkind))
      refine ⟨_, ?_, hrestored, hbelow hrestored⟩
      rw [retImpl_param hfunc hlinked hregs hsrc hdst hkind, hnotDone]

end Returning

/-! ## Runs -/

theorem Outermost.retImpl (h : Outermost t) : ∃ t', CallFrames.retImpl t = .ok (true, t') := by
  refine ⟨{ t with
    symbolTable := none, npc := 0, rpc := -1, funcInfo := none, callstack := []
    regs := t.regs.tail }, ?_⟩
  rw [CallFrames.retImpl, callstackPop, h.callstack]
  rfl

theorem CallRun.aligned {live : List LiveCall} (h : CallRun SafeCall t live) : Aligned t live := by
  induction h with
  | start hstarted => exact hstarted.aligned
  | body _ hbody ih => exact ih.of_sameBelow hbody.sameBelow
  | call _ hsafe hcall ih =>
    obtain ⟨regs, hentered, _⟩ := callImpl_of_safe ih.funcInfo_ne hsafe
    obtain rfl := Except.ok.inj (hcall.symm.trans hentered)
    exact ⟨linked_entered hsafe regs, ih⟩
  | ret _ hret ih =>
    obtain ⟨hlinked, haligned⟩ := ih
    obtain ⟨t', hreturned, _, hsame⟩ := exists_retImpl hlinked haligned
    obtain rfl := (Prod.mk.inj (Except.ok.inj (hret.symm.trans hreturned))).2
    exact haligned.of_sameBelow hsame

theorem holds_entered {k : LiveCall} {actuals formals : List Symbol}
    (hformals : ∀ formal ∈ formals, formal.kind = .reg)
    (hvalues : List.Forall₂ (fun actual formal => regs formal = t.value actual) actuals formals) :
    List.Forall₂ (fun actual formal => (k.entered regs).Holds formal t actual) actuals formals := by
  induction hvalues with
  | nil => exact .nil
  | cons hvalue _ ih =>
    refine .cons ?_ (ih fun formal hmem => hformals formal (List.mem_cons_of_mem _ hmem))
    simp only [Thread.Holds, hformals _ List.mem_cons_self]
    exact hvalue

/-- A thread whose calls are safe is isolated: those that pass arguments in registers, do not return
a register over what lies behind a variable, and do not run out of addresses. -/
theorem isolated_of_safe {t : Thread} {live : List LiveCall} (h : CallRun SafeCall t live) :
    Isolated SafeCall t live where
  disjoint := h.aligned.disjoint
  call call top hsafe := by
    obtain ⟨regs, hcall, hvalues⟩ := callImpl_of_safe h.aligned.funcInfo_ne hsafe
    exact ⟨_, hcall, holds_entered hsafe.formals hvalues⟩
  returns := by
    have haligned := h.aligned
    cases live with
    | nil => exact haligned.retImpl
    | cons k live =>
      obtain ⟨t', hret, hrestored, _⟩ := exists_retImpl haligned.1 haligned.2
      exact ⟨t', hret, hrestored⟩

/-! ## A kernel that calls a function -/

/-- A register of 32 bits. -/
def word (uid : ℕ) : Symbol := ⟨uid, .reg, false, 0, 4, fun _ => by decide⟩

/-- A variable of 32 bits at the start of the frame. -/
def variable32 (uid : ℕ) : Symbol := ⟨uid, .paramLocal, false, 0, 4, nofun⟩

def kernel : FunctionInfo := ⟨0, 0, 8, [], none, by decide, by decide, nofun⟩

/-- A function of a register, or of a variable, that returns a register. -/
def function (formal : Symbol) : FunctionInfo :=
  ⟨64, 1, 16, [formal], some (word 3), by decide, .cons nofun .nil, fun _ hv hkind => by
    cases hv
    exact nomatch hkind⟩

/-- The call of the function, with the same kind of argument. -/
def callOf (actual formal : Symbol) : CallInst := ⟨function formal, some (word 1), [actual], 8⟩

/-- A thread before the call. -/
def launched : Thread where
  pc := 8
  npc := 16
  rpc := -1
  funcInfo := some kernel
  symbolTable := some 0
  callstack := [.empty]
  regs := [fun _ => 0]
  localMemStackPointer := 0
  localMem := fun _ => 0

theorem started_launched : Started kernel launched := ⟨rfl, rfl, rfl, rfl⟩

theorem typedCall_launched {actual formal : Symbol} (h : Passed 8 actual formal) :
    TypedCall launched (callOf actual formal) ⟨8, 24⟩ where
  top_pc := rfl
  args := .cons h .nil
  returns := rfl
  returned src hsrc dst hdst := by
    cases hsrc
    cases hdst
    exact ⟨.inl rfl, .inl rfl, fun _ => rfl, nofun, nofun⟩
  within dst hdst hkind := by
    cases hdst
    exact nomatch hkind

theorem safeCall_launched : SafeCall launched (callOf (word 2) (word 0)) ⟨8, 24⟩ where
  toTypedCall := typedCall_launched ⟨.inl rfl, .inl rfl, fun _ => rfl, nofun, nofun⟩
  formals formal hmem := by
    obtain rfl := List.mem_singleton.mp hmem
    rfl
  reaches := .cons ⟨rfl, nofun⟩ .nil
  returned_reg src hsrc dst hdst _ := by
    cases hsrc
    cases hdst
    exact ⟨rfl, nofun⟩
  returned_param src _ dst hdst hkind := by
    cases hdst
    exact nomatch hkind
  frame_lt := by decide
  frame_le := by decide

/-- A kernel that calls a function of a register. -/
theorem isolated_of_safe_launched : ∃ regs,
    Isolated SafeCall (LiveCall.entered ⟨launched, callOf (word 2) (word 0), ⟨8, 24⟩⟩ regs)
      [⟨launched, callOf (word 2) (word 0), ⟨8, 24⟩⟩] := by
  obtain ⟨regs, hcall, _⟩ := callImpl_of_safe (Option.some_ne_none kernel) safeCall_launched
  exact ⟨regs, isolated_of_safe (.call (.start started_launched) safeCall_launched hcall)⟩

/-- A kernel that calls a function of a variable is not isolated. -/
theorem not_isolated_launched :
    CallRun TypedCall launched [] ∧ ¬ Isolated TypedCall launched [] := by
  refine ⟨.start started_launched, fun hisolated => ?_⟩
  have htyped := @typedCall_launched (variable32 2) (variable32 0)
    ⟨.inr rfl, .inr rfl, fun _ => rfl, fun _ => by decide, fun _ => by decide⟩
  obtain ⟨t', hcall, _⟩ := hisolated.call _ _ htyped
  have hfails := callImpl_of_param (Option.some_ne_none kernel) htyped List.mem_cons_self rfl
  exact nomatch hcall.symm.trans hfails

end GpuCalorie.FunctionalSim.CallFrames
