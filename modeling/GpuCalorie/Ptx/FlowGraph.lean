/-
# Flow graphs and their dominators

The blocks of a function with their edges in both directions, and what `find_dominators` and
`find_idominators` compute of them. Both keep their results in the blocks, and run again when
edges have changed.

As in the analysis of post-dominators the block vector is its size and its elements, an
assertion that fails ends the computation with its name, and the `while` loop takes fuel. The
instructions at the ends of a block are of any type.
-/

import GpuCalorie.Math.Dominance
import GpuCalorie.Math.DominatorSets
import GpuCalorie.Math.Loop
import GpuCalorie.Math.Transition
import GpuCalorie.Ptx.BasicBlock

namespace GpuCalorie.Ptx

open GpuCalorie.Math

universe u

/-- `basic_block_t`, without what the analysis of post-dominators adds to it. -/
structure FlowBlock (α : Type u) where
  bbId : ℕ
  ptxBegin : Option α
  ptxEnd : Option α
  predecessorIds : Finset ℕ := ∅
  successorIds : Finset ℕ := ∅
  dominatorIds : Finset ℕ := ∅
  tmpIds : Finset ℕ := ∅
  immediatedominatorId : ℤ := -1

/-- The vector `m_basic_blocks`. -/
structure FlowGraph (α : Type u) where
  size : ℕ
  block : ℕ → FlowBlock α

/-- The assertions of the analysis, and a data-flow iteration that was not given enough
rounds. -/
inductive FlowFailure
  /-- `m_basic_blocks.size() >= 2` -/
  | tooFewBlocks
  /-- `m_basic_blocks[h]->bb_id == h` -/
  | blockId
  /-- `num_idoms == m_basic_blocks.size() - num_nopred` -/
  | missingImmediate
  /-- The `while` loop has not ended. -/
  | outOfFuel
  /-- `assert(0)` in `find_break_target` -/
  | noBreakTarget
  deriving Repr, DecidableEq

variable {α : Type u}

namespace FlowGraph

/-- Assign to fields of one block. -/
def modify (g : FlowGraph α) (i : ℕ) (change : FlowBlock α → FlowBlock α) : FlowGraph α :=
  { g with block := Function.update g.block i (change (g.block i)) }

/-! ## Dominators -/

/-- The set `T` of `find_dominators`: all blocks, cut with the sets of the predecessors of `h`,
and `h` itself. -/
def meetPredecessors (g : FlowGraph α) (h : ℕ) : Finset ℕ :=
  insert h (((g.block h).predecessorIds.sort (· ≤ ·)).foldl
    (fun T s => intersect T (g.block s).dominatorIds) (Finset.range g.size))

/-- One block of the data-flow iteration: recompute its set, and note a change. -/
def visitBlock (h : ℕ) : FlowGraph α × Bool → Except FlowFailure (FlowGraph α × Bool)
  | (g, change) =>
    if (g.block h).bbId ≠ h then .error .blockId
    else
      let T := g.meetPredecessors h
      if !isEqual T (g.block h).dominatorIds then
        .ok (g.modify h fun b => { b with dominatorIds := T }, true)
      else .ok (g, change)

/-- One round of the data-flow iteration: all blocks but the entry. -/
def visitBlocks (g : FlowGraph α) : Except FlowFailure (FlowGraph α × Bool) :=
  countUp (fun k => visitBlock (k + 1)) (g.size - 1) (g, false)

/-- The sets the iteration starts from: the entry's own id, and all ids elsewhere, beside what
an earlier run has left. -/
def initDominators (g : FlowGraph α) : FlowGraph α :=
  { g with
    block := fun i =>
      { g.block i with
        dominatorIds :=
          if i = 0 then insert (g.block i).bbId (g.block i).dominatorIds
          else (g.block i).dominatorIds ∪ Finset.range g.size } }

/-- Other blocks than the entry have no dominators if they have no predecessors. -/
def clearDominators (g : FlowGraph α) : FlowGraph α :=
  { g with
    block := fun i =>
      { g.block i with
        dominatorIds :=
          if i ≠ 0 ∧ (g.block i).predecessorIds = ∅ then ∅ else (g.block i).dominatorIds } }

/-- `find_dominators`, with a bound on the rounds of its `while` loop. -/
def findDominators (g : FlowGraph α) (fuel : ℕ) : Except FlowFailure (FlowGraph α) :=
  if g.size < 2 then .error .tooFewBlocks
  else (repeatWhile .outOfFuel visitBlocks fuel g.initDominators).map clearDominators

/-! ## Immediate dominators -/

/-- `Tmp(n)` starts as the dominators of `n` without `n`. -/
def initTmp (i : ℕ) (g : FlowGraph α) : Except FlowFailure (FlowGraph α) :=
  if (g.block i).bbId ≠ i then .error .blockId
  else .ok (g.modify i fun b => { b with tmpIds := b.dominatorIds.erase i })

/-- Prune `Tmp(n)`. -/
def pruneTmp (n : ℕ) (g : FlowGraph α) : Except FlowFailure (FlowGraph α) :=
  let tmp := (g.block n).tmpIds
  .ok (g.modify n fun b =>
    { b with tmpIds := pruneSets (fun s => (g.block s).dominatorIds) (tmp.sort (· ≤ ·)) tmp })

/-- The variables of the last loop of `find_idominators`. -/
structure ImmediateCount (α : Type u) where
  graph : FlowGraph α
  numIdoms : ℕ := 0
  numNopred : ℕ := 0

/-- Read the immediate dominator of `n` off `Tmp(n)`, or count `n` if it has no predecessor. -/
def assignImmediate (n : ℕ) (c : ImmediateCount α) : Except FlowFailure (ImmediateCount α) :=
  if h : (c.graph.block n).tmpIds.Nonempty then
    .ok { c with
      graph := c.graph.modify n fun b =>
        { b with immediatedominatorId := (c.graph.block n).tmpIds.min' h }
      numIdoms := c.numIdoms + 1 }
  else if (c.graph.block n).predecessorIds = ∅ then .ok { c with numNopred := c.numNopred + 1 }
  else .ok c

/-- `find_idominators`. -/
def findIdominators (g : FlowGraph α) : Except FlowFailure (FlowGraph α) := do
  if g.size < 2 then throw .tooFewBlocks
  let g ← countUp initTmp g.size g
  let g ← countUp pruneTmp g.size g
  let c ← countUp assignImmediate g.size { graph := g }
  if c.numIdoms ≠ g.size - c.numNopred then throw .missingImmediate
  return c.graph

/-- Both, with enough rounds for any graph of the size. -/
def analyse (g : FlowGraph α) (fuel : ℕ) : Except FlowFailure (FlowGraph α) := do
  (← g.findDominators fuel).findIdominators

/-- More rounds than an iteration on graphs of a size can take. -/
def enoughFuel (g : FlowGraph α) : ℕ :=
  g.size * g.size + 1

/-! ## Edges -/

/-- An edge from `v` to `w`, as the analysis reads it. -/
def edge (g : FlowGraph α) (v w : ℕ) : Prop :=
  w < g.size ∧ v ∈ (g.block w).predecessorIds

/-- Other edges between the same blocks. -/
def relink (g : FlowGraph α) (predecessorIds successorIds : ℕ → Finset ℕ) : FlowGraph α :=
  { g with
    block := fun i =>
      { g.block i with predecessorIds := predecessorIds i, successorIds := successorIds i } }

/-- A graph as the analysis receives it: ids are positions, and edges stay inside the vector. -/
structure WellFormed (g : FlowGraph α) : Prop where
  twoBlocks : 2 ≤ g.size
  bbId : ∀ i < g.size, (g.block i).bbId = i
  predecessorIds : ∀ i < g.size, ∀ p ∈ (g.block i).predecessorIds, p < g.size

/-- No results are there yet. -/
def Fresh (g : FlowGraph α) : Prop :=
  ∀ i < g.size, (g.block i).dominatorIds = ∅ ∧ (g.block i).immediatedominatorId = -1

end FlowGraph

/-- What happens to the blocks of a function: the analysis, and changes of edges. -/
inductive FlowAction
  | analyse
  | relink (predecessorIds successorIds : ℕ → Finset ℕ)

/-- Runs of the analysis with changes of the edges in between. -/
def flowSystem (α : Type u) : TransitionSystem (Except FlowFailure (FlowGraph α)) FlowAction :=
  .ofExcept (fun g => g.WellFormed ∧ g.Fresh)
    (fun g action =>
      match action with
      | .analyse => True
      | .relink predecessorIds _ => ∀ i < g.size, ∀ p ∈ predecessorIds i, p < g.size)
    (fun g action =>
      match action with
      | .analyse => g.analyse g.enoughFuel
      | .relink predecessorIds successorIds => .ok (g.relink predecessorIds successorIds))

namespace FlowGraph

/-- The analysis has found the dominators of every block that is reached from the entry, and
its immediate dominator. -/
def DominatorsExact (g result : FlowGraph α) : Prop :=
  ∀ v < g.size, ReachedFrom g.edge 0 v →
    (∀ w, w ∈ (result.block v).dominatorIds ↔ Dominates g.edge 0 w v) ∧
    ((result.block v).immediatedominatorId = -1 ↔ v = 0) ∧
    (v ≠ 0 → ∃ i, ImmediatelyDominates g.edge 0 i v ∧
      (∀ j, ImmediatelyDominates g.edge 0 j v → j = i) ∧
      (result.block v).immediatedominatorId = i)

end FlowGraph

end GpuCalorie.Ptx

/-!
## Changes of the edges of a flow graph

Edges are noted at both ends: a block is linked to a successor, and unlinked from all it has. What
a graph has become after such changes is its blocks with a set of successors for each.
-/

namespace GpuCalorie.Ptx

universe u

variable {α : Type u}

namespace FlowGraph

/-- Erase the previous linkage with old successors. -/
def unlink (g : FlowGraph α) (i : ℕ) : FlowGraph α :=
  { g with
    block := fun j =>
      { g.block j with
        successorIds := if j = i then ∅ else (g.block j).successorIds
        predecessorIds :=
          if j ∈ (g.block i).successorIds then (g.block j).predecessorIds.erase i
          else (g.block j).predecessorIds } }

/-- Link a block to a successor. -/
def link (g : FlowGraph α) (i target : ℕ) : FlowGraph α :=
  { g with
    block := fun j =>
      { g.block j with
        successorIds :=
          if j = i then insert target (g.block j).successorIds else (g.block j).successorIds
        predecessorIds :=
          if j = target then insert i (g.block j).predecessorIds
          else (g.block j).predecessorIds } }

/-- A graph with the blocks of `g` and given successors, noted at both ends. -/
structure HasSuccessors (g : FlowGraph α) (successors : ℕ → Finset ℕ) (h : FlowGraph α) :
    Prop where
  size : h.size = g.size
  bbId : ∀ i, (h.block i).bbId = (g.block i).bbId
  ptxBegin : ∀ i, (h.block i).ptxBegin = (g.block i).ptxBegin
  ptxEnd : ∀ i, (h.block i).ptxEnd = (g.block i).ptxEnd
  successorIds : ∀ i < g.size, (h.block i).successorIds = successors i
  predecessorIds : ∀ w < g.size, ∀ v,
    v ∈ (h.block w).predecessorIds ↔ v < g.size ∧ w ∈ successors v

namespace HasSuccessors

variable {g h : FlowGraph α} {successors : ℕ → Finset ℕ} {i : ℕ}

theorem unlink (hs : g.HasSuccessors successors h) (hi : i < g.size) :
    g.HasSuccessors (Function.update successors i ∅) (h.unlink i) := by
  refine ⟨hs.size, hs.bbId, hs.ptxBegin, hs.ptxEnd, fun j hj => ?_, fun w hw v => ?_⟩
  · show (if j = i then ∅ else (h.block j).successorIds) = _
    by_cases hji : j = i
    · rw [if_pos hji, hji, Function.update_self]
    · rw [if_neg hji, Function.update_of_ne hji]
      exact hs.successorIds j hj
  · show v ∈ (if w ∈ (h.block i).successorIds then (h.block w).predecessorIds.erase i
      else (h.block w).predecessorIds) ↔ _
    rw [hs.successorIds i hi]
    by_cases hvi : v = i
    · subst hvi
      rw [Function.update_self]
      split_ifs with hmem
      · simp
      · simp [hs.predecessorIds w hw, hmem]
    · rw [Function.update_of_ne hvi, ← hs.predecessorIds w hw]
      split_ifs
      · simp [hvi]
      · exact Iff.rfl

theorem link (hs : g.HasSuccessors successors h) (hi : i < g.size) (target : ℕ) :
    g.HasSuccessors (Function.update successors i (insert target (successors i)))
      (h.link i target) := by
  refine ⟨hs.size, hs.bbId, hs.ptxBegin, hs.ptxEnd, fun j hj => ?_, fun w hw v => ?_⟩
  · show (if j = i then insert target (h.block j).successorIds else (h.block j).successorIds) = _
    by_cases hji : j = i
    · rw [if_pos hji, hji, Function.update_self, hs.successorIds i hi]
    · rw [if_neg hji, Function.update_of_ne hji]
      exact hs.successorIds j hj
  · show v ∈ (if w = target then insert i (h.block w).predecessorIds
      else (h.block w).predecessorIds) ↔ _
    by_cases hvi : v = i
    · subst hvi
      rw [Function.update_self]
      split_ifs with hmem
      · simp [hmem, hi]
      · simp [hs.predecessorIds w hw, hmem]
    · rw [Function.update_of_ne hvi, ← hs.predecessorIds w hw]
      split_ifs
      · simp [hvi]
      · exact Iff.rfl

end HasSuccessors

end FlowGraph

end GpuCalorie.Ptx
