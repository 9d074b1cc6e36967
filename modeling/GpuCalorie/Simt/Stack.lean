/-
# The SIMT stack of a warp

A warp executes the entry on top of its stack: a program counter and the lanes that are
there. `simt_stack::update` is told where the lanes of the top entry went. Lanes that
went different ways are split into entries that run one after the other until each
reaches the reconvergence PC, where the entry below them waits; a call pushes an entry
of its own type, and a return executed under such an entry pops it.

The stack is a list with its top first, a mask is the set of its lanes, and an
assertion that fails ends the update with its name. The cycle an entry was pushed at is
left out: only printouts read it.
-/

import GpuCalorie.Hardware.Isa
import Mathlib.Data.Finset.Basic
import Mathlib.Data.UInt

namespace GpuCalorie.Simt

open GpuCalorie.Hardware

/-- `null_pc`, also the reconvergence PC of entries that reconverge nowhere. -/
def nullPc : UInt32 := -1

/-- `stack_entry_type`. -/
inductive StackEntryType
  | normal
  | call
  deriving DecidableEq, Repr

/-- `simt_stack_entry`, with the defaults of its constructor. -/
structure SimtStackEntry where
  pc : UInt32 := nullPc
  calldepth : ℕ := 0
  activeMask : Finset ℕ := ∅
  recvgPc : UInt32 := nullPc
  type : StackEntryType := .normal
  deriving DecidableEq

/-- The assertions a warp's execution can trip. -/
inductive SimtFailure
  /-- `m_stack.size() > 0` -/
  | emptyStack
  /-- `top_pc == next_inst_pc` -/
  | topPc
  /-- `top_active_mask.any()` -/
  | emptyMask
  /-- `!top_active_mask.any()` when no lane with a next PC was found -/
  | lanesLeft
  /-- `num_divergent_paths <= 2` -/
  | manyPaths
  /-- `num_divergent_paths == 1` at a call -/
  | divergentCall
  /-- `num_divergent_paths == 1` at a return -/
  | divergentReturn
  /-- `m_stack.back().m_type == STACK_ENTRY_TYPE_NORMAL` -/
  | returnIntoCall
  /-- The grouping loop has not ended. -/
  | outOfFuel
  /-- `pc == inst.pc` in `ptx_exec_inst` -/
  | threadPc
  /-- `ptx_exec_inst` on a thread that is already done -/
  | threadDone
  deriving DecidableEq, Repr

/-- A group of lanes with one next PC. -/
abbrev Path := UInt32 × Finset ℕ

/-! ## Grouping the lanes of the top entry -/

/-- The variables of the grouping loop: the lanes not yet grouped, and the group that
is being extracted. -/
structure PathGroup where
  topActiveMask : Finset ℕ
  tmpNextPc : UInt32
  tmpActiveMask : Finset ℕ

/-- One lane of the grouping loop: drop it if its thread is done, start a group with it,
add it to the group, or leave it. -/
def PathGroup.visit (threadDone : ℕ → Bool) (nextPc : ℕ → UInt32) (i : ℕ) (g : PathGroup) :
    PathGroup :=
  if i ∈ g.topActiveMask then
    if threadDone i then { g with topActiveMask := g.topActiveMask.erase i }
    else if g.tmpNextPc = nullPc then
      ⟨g.topActiveMask.erase i, nextPc i, insert i g.tmpActiveMask⟩
    else if g.tmpNextPc = nextPc i then
      { g with
        topActiveMask := g.topActiveMask.erase i
        tmpActiveMask := insert i g.tmpActiveMask }
    else g
  else g

/-- The lanes `n - 1, …, 0` in this order. -/
def PathGroup.visitLanes (threadDone : ℕ → Bool) (nextPc : ℕ → UInt32) : ℕ → PathGroup → PathGroup
  | 0, g => g
  | i + 1, g => visitLanes threadDone nextPc i (g.visit threadDone nextPc i)

/-- Assignment to `divergent_paths`, a map ordered by PC. -/
def insertPath (path : Path) : List Path → List Path
  | [] => [path]
  | other :: rest =>
    if path.1 < other.1 then path :: other :: rest
    else if path.1 = other.1 then path :: rest
    else other :: insertPath path rest

/-- The `while` loop that groups all lanes. Every round takes all lanes of its PC, so
the map has as many entries as `num_divergent_paths` counts. -/
def divergentPaths (warpSize : ℕ) (threadDone : ℕ → Bool) (nextPc : ℕ → UInt32) :
    ℕ → Finset ℕ → List Path → Except SimtFailure (List Path)
  | fuel, topActiveMask, paths =>
    if topActiveMask = ∅ then .ok paths
    else
      match fuel with
      | 0 => .error .outOfFuel
      | fuel + 1 =>
        let g := PathGroup.visitLanes threadDone nextPc warpSize ⟨topActiveMask, nullPc, ∅⟩
        if g.tmpNextPc = nullPc then
          if g.topActiveMask = ∅ then .ok paths else .error .lanesLeft
        else
          divergentPaths warpSize threadDone nextPc fuel g.topActiveMask
            (insertPath (g.tmpNextPc, g.tmpActiveMask) paths)

/-- The next path to handle: the one that falls through, if it is there, and else the
first of the map. It falls through in the first round or never, as keys are unique. -/
def takePath (notTakenPc : UInt32) (paths : List Path) : Option (Path × List Path) :=
  match paths.find? fun path => path.1 = notTakenPc with
  | some path => some (path, paths.filter fun path => path.1 ≠ notTakenPc)
  | none =>
    match paths with
    | [] => none
    | path :: rest => some (path, rest)

/-! ## Handling one path -/

/-- What `update` is told of the instruction: its class, PC, size, and where lanes that
go different ways meet again. -/
structure UpdateInst where
  op : OpType
  isize : UInt32
  pc : UInt32
  recvgPc : UInt32

/-- The variables of the loop over the paths. -/
structure UpdateState where
  stack : List SimtStackEntry
  warpDiverged : Bool
  newRecvgPc : UInt32

/-- Assign to fields of the top entry. -/
def setTop (change : SimtStackEntry → SimtStackEntry) :
    List SimtStackEntry → List SimtStackEntry
  | [] => []
  | entry :: rest => change entry :: rest

/-- A call: push an entry of its own type. -/
def pushCall (path : Path) (stack : List SimtStackEntry) : List SimtStackEntry :=
  { pc := path.1, activeMask := path.2, type := .call } :: stack

/-- A return under an entry of type `CALL`: pop it, resume the entry below at the
return PC, and pop that one too if it reconverges there. -/
def popCall (path : Path) : List SimtStackEntry → Except SimtFailure (List SimtStackEntry)
  | [] | [_] => .error .emptyStack
  | _ :: caller :: rest =>
    if path.1 = caller.recvgPc ∧ caller.type ≠ .call then
      if caller.type = .normal then .ok rest else .error .returnIntoCall
    else .ok ({ caller with pc := path.1 } :: rest)

/-- The first lines for a path that does not reconverge: at the first divergence the top
entry becomes the reconvergence entry, unless it already reconverges at that PC. -/
def markDivergence (recvgPc : UInt32) (numPaths : ℕ) (topRecvgPc : UInt32) (u : UpdateState) :
    UpdateState :=
  if 1 < numPaths ∧ !u.warpDiverged then
    { stack :=
        if recvgPc ≠ topRecvgPc then
          ({} : SimtStackEntry) :: setTop (fun entry => { entry with pc := recvgPc }) u.stack
        else u.stack
      warpDiverged := true
      newRecvgPc := recvgPc }
  else u

/-- One path that is no special case: discard it if it reconverges, and else let it take
the top of the stack and push an entry for the next one. -/
def handlePath (recvgPc : UInt32) (numPaths : ℕ) (top : SimtStackEntry) (path : Path)
    (u : UpdateState) : UpdateState :=
  if path.1 = top.recvgPc ∧ top.type ≠ .call then u
  else
    let u := markDivergence recvgPc numPaths top.recvgPc u
    if u.warpDiverged ∧ path.1 = u.newRecvgPc then u
    else
      let entry (old : SimtStackEntry) : SimtStackEntry :=
        if u.warpDiverged then
          { old with pc := path.1, activeMask := path.2, calldepth := 0, recvgPc := u.newRecvgPc }
        else { old with pc := path.1, activeMask := path.2, recvgPc := top.recvgPc }
      { u with stack := ({} : SimtStackEntry) :: setTop entry u.stack }

/-- The loop over the paths, of which `n` of `numPaths` are left, and the final pop. -/
def handlePaths (inst : UpdateInst) (numPaths : ℕ) (top : SimtStackEntry) :
    ℕ → List Path → UpdateState → Except SimtFailure (List SimtStackEntry)
  | 0, _, u =>
    match u.stack with
    | [] => .error .emptyStack
    | _ :: rest => .ok rest
  | n + 1, paths, u =>
    match takePath (inst.pc + inst.isize) paths with
    | none => .error .outOfFuel
    | some (path, rest) =>
      if inst.op = .callOps then
        if numPaths = 1 then .ok (pushCall path u.stack) else .error .divergentCall
      else if inst.op = .retOps ∧ top.type = .call then
        if numPaths = 1 then popCall path u.stack else .error .divergentReturn
      else handlePaths inst numPaths top n rest (handlePath inst.recvgPc numPaths top path u)

/-- `simt_stack::update`. -/
def update (warpSize : ℕ) (stack : List SimtStackEntry) (threadDone : ℕ → Bool)
    (nextPc : ℕ → UInt32) (inst : UpdateInst) : Except SimtFailure (List SimtStackEntry) :=
  match stack with
  | [] => .error .emptyStack
  | top :: _ =>
    if top.pc ≠ inst.pc then .error .topPc
    else if top.activeMask = ∅ then .error .emptyMask
    else do
      let paths ← divergentPaths warpSize threadDone nextPc top.activeMask.card top.activeMask []
      if 2 < paths.length then throw .manyPaths
      handlePaths inst paths.length top paths.length paths ⟨stack, false, nullPc⟩

/-- `simt_stack::launch`. -/
def launch (startPc : UInt32) (activeMask : Finset ℕ) : List SimtStackEntry :=
  [{ pc := startPc, calldepth := 1, activeMask := activeMask, type := .normal }]

end GpuCalorie.Simt
