/-
# Targets of breaks

A `break` goes to the label that the last `breakaddr` before it names. `find_break_target` looks
for that instruction in the blocks on the way up the dominator tree, the entry excepted, and
`connect_break_targets` gives the break the edges to its target and, if it has a predicate, to the
next instruction. As these change the dominators, `do_pdom` repeats both until no edge changes.

An instruction is known by its index in `m_instr_mem`, and a block has those of its first and last
instruction.
-/

import GpuCalorie.Math.Loop
import GpuCalorie.Ptx.Dominators
import GpuCalorie.Ptx.FlowGraph

namespace GpuCalorie.Ptx

open GpuCalorie.Math

/-- What the analysis of control flow reads of an instruction: its first operand may be the name
of a label. -/
structure FlowInstruction where
  opcode : Opcode
  hasPred : Bool := false
  dst : String := ""
  instSize : ℕ := 8
  deriving DecidableEq, Repr

/-- What the analysis reads of a function beside its blocks. -/
structure FlowFunction where
  /-- `m_instr_mem`; the places between instructions are `NULL`. -/
  instrMem : ℕ → Option FlowInstruction
  /-- `labels`. -/
  labels : String → ℕ
  /-- `get_bb()->bb_id` of the instruction at an index. -/
  bb : ℕ → ℕ

namespace FlowFunction

variable (f : FlowFunction)

/-! ## Finding the target -/

/-- The indices from the end of a block back to its beginning. -/
def backwards (b : FlowBlock ℕ) : List ℕ :=
  match b.ptxBegin, b.ptxEnd with
  | some first, some last => (List.range' first (last + 1 - first)).reverse
  | _, _ => []

/-- The reverse search through a block for a `breakaddr`. -/
def blockTarget (b : FlowBlock ℕ) : Option String :=
  (backwards b).findSome? fun addr =>
    (f.instrMem addr).bind fun pI => if pI.opcode = .breakaddrOp then some pI.dst else none

/-- The way up the dominator tree. -/
def searchUp (g : FlowGraph ℕ) : ℕ → ℕ → Except FlowFailure String
  | 0, _ => .error .outOfFuel
  | fuel + 1, v =>
    if (g.block v).immediatedominatorId = -1 then .error .noBreakTarget
    else
      match f.blockTarget (g.block v) with
      | some name => .ok name
      | none => searchUp g fuel (g.block v).immediatedominatorId.toNat

/-- `find_break_target`, for a break in the block `v`. -/
def findBreakTarget (g : FlowGraph ℕ) (v : ℕ) : Except FlowFailure String :=
  f.searchUp g (g.size + 1) v

/-! ## Connecting -/

/-- The break that a block ends with. -/
def breakAt (b : FlowBlock ℕ) : Option (ℕ × FlowInstruction) :=
  b.ptxEnd.bind fun addr =>
    (f.instrMem addr).bind fun pI => if pI.opcode = .breakOp then some (addr, pI) else none

/-- `connect_break_targets` for one block, with the flag that an edge has changed. -/
def connectBreak (i : ℕ) : FlowGraph ℕ × Bool → Except FlowFailure (FlowGraph ℕ × Bool)
  | (g, modified) =>
    match f.breakAt (g.block i) with
    | none => .ok (g, modified)
    | some (addr, pI) => do
      let origSuccessorIds := (g.block i).successorIds
      let g := g.unlink i
      let target ← f.findBreakTarget g (f.bb addr)
      let g := g.link i (f.bb (f.labels target))
      let g := if pI.hasPred then g.link i (f.bb (addr + pI.instSize)) else g
      return (g, modified || origSuccessorIds ≠ (g.block i).successorIds)

/-- One round of the loop of `do_pdom`. -/
def round (g : FlowGraph ℕ) : Except FlowFailure (FlowGraph ℕ × Bool) := do
  let g ← g.analyse g.enoughFuel
  countUp f.connectBreak g.size (g, false)

/-- The loop of `do_pdom`, with a bound on its rounds. -/
def settle (fuel : ℕ) (g : FlowGraph ℕ) : Except FlowFailure (FlowGraph ℕ) :=
  repeatWhile .outOfFuel f.round fuel g

/-- The successors of a break with a given target. -/
def breakSuccessors (addr : ℕ) (pI : FlowInstruction) (target : String) : Finset ℕ :=
  if pI.hasPred then {f.bb (addr + pI.instSize), f.bb (f.labels target)}
  else {f.bb (f.labels target)}

/-- The loop ends, and in the end the edges of every break are those `find_break_target` gives on
the dominator tree of these edges. -/
def Settled (g : FlowGraph ℕ) : Prop :=
  ∃ fuel result, f.settle fuel g = .ok result ∧ result.DominatorsExact result ∧
    ∀ i < g.size, ∀ addr pI, f.breakAt (result.block i) = some (addr, pI) →
      ∃ target, f.findBreakTarget result i = .ok target ∧
        (result.block i).successorIds = f.breakSuccessors addr pI target

/-! ## What the search should find -/

/-- The blocks of a graph before the analysis: every block but the last has its instructions,
which are in it, and edges are noted at both ends. -/
structure Blocks (g : FlowGraph ℕ) : Prop where
  wellFormed : g.WellFormed
  fresh : g.Fresh
  bb : ∀ addr, f.bb addr < g.size
  bbEnd : ∀ i < g.size, ∀ addr, (g.block i).ptxEnd = some addr → f.bb addr = i
  successorIds : ∀ i < g.size, ∀ s ∈ (g.block i).successorIds, s < g.size
  linked : ∀ v < g.size, ∀ w < g.size,
    v ∈ (g.block w).predecessorIds ↔ w ∈ (g.block v).successorIds

/-- The edges of given successors. -/
def successorEdge (size : ℕ) (successors : ℕ → Finset ℕ) (v w : ℕ) : Prop :=
  w < size ∧ v < size ∧ w ∈ successors v

instance (size : ℕ) (successors : ℕ → Finset ℕ) :
    DecidableRel (successorEdge size successors) :=
  fun v w => inferInstanceAs (Decidable (w < size ∧ v < size ∧ w ∈ successors v))

/-- Of the blocks that dominate `v` and contain a `breakaddr`, the entry excepted, `d` is the
closest. -/
structure ClosestBreakaddr (g : FlowGraph ℕ) (edge : ℕ → ℕ → Prop) (v d : ℕ) : Prop where
  notEntry : d ≠ 0
  dominates : Dominates edge 0 d v
  target : f.blockTarget (g.block d) ≠ none
  closest : ∀ d', d' ≠ 0 → Dominates edge 0 d' v → f.blockTarget (g.block d') ≠ none →
    Dominates edge 0 d' d

/-- A `breakaddr` is found for a block. -/
def FindsBreakaddr (g : FlowGraph ℕ) (edge : ℕ → ℕ → Prop) (v : ℕ) : Prop :=
  ∃ d, f.ClosestBreakaddr g edge v d

open Classical in
/-- All breaks at once get the label of the closest `breakaddr`. -/
noncomputable def retarget (g : FlowGraph ℕ) (successors : ℕ → Finset ℕ) (i : ℕ) : Finset ℕ :=
  if i < g.size then
    match f.breakAt (g.block i) with
    | none => successors i
    | some (addr, pI) =>
      if h : f.FindsBreakaddr g (successorEdge g.size successors) i then
        (f.blockTarget (g.block h.choose)).elim ∅ (f.breakSuccessors addr pI)
      else ∅
  else successors i

/-- The edges before each round. -/
noncomputable def successorsAfter (g : FlowGraph ℕ) : ℕ → ℕ → Finset ℕ
  | 0 => fun i => (g.block i).successorIds
  | k + 1 => f.retarget g (successorsAfter g k)

/-- No edge leads to the entry. -/
def NoEdgeToEntry (size : ℕ) (successors : ℕ → Finset ℕ) : Prop :=
  ∀ v < size, 0 ∉ successors v

/-- The breaks are reached from the entry, and a `breakaddr` is found for each. -/
def FindsAll (g : FlowGraph ℕ) (successors : ℕ → Finset ℕ) : Prop :=
  ∀ i < g.size, f.breakAt (g.block i) ≠ none →
    ReachedFrom (successorEdge g.size successors) 0 i ∧
      f.FindsBreakaddr g (successorEdge g.size successors) i

/-- So it is in every round that is made. -/
def BreaksFound (g : FlowGraph ℕ) : Prop :=
  ∀ k, (∀ j ≤ k, NoEdgeToEntry g.size (f.successorsAfter g j)) →
    f.FindsAll g (f.successorsAfter g k)

/-- The breaks chase one another: all of them come back to edges that they have left. -/
def Chases (g : FlowGraph ℕ) : Prop :=
  Returns (f.successorsAfter g)

end FlowFunction

end GpuCalorie.Ptx
