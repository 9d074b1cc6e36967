/-
# Basic blocks and the reconvergence analysis

The reconvergence point of a branch is the first instruction of the immediate
post-dominator of its basic block. `find_postdominators` computes the sets of
post-dominators by iterating a data-flow equation from the full sets downwards,
`find_ipostdominators` prunes each set in place to its closest member, and
`get_reconvergence_pairs` tabulates the branches.

The block vector is its size and its elements. An assertion that fails ends the
analysis with its name; the `while` loop of the data-flow iteration takes fuel.
-/

import GpuCalorie.Math.Loop
import Mathlib.Data.Finset.Sort
import Mathlib.Logic.Function.Basic

namespace GpuCalorie.Ptx

open GpuCalorie.Math

/-- The opcodes that end or connect basic blocks; the others are one case. -/
inductive Opcode
  | braOp
  | callOp
  | callpOp
  | retOp
  | retpOp
  | exitOp
  | breakOp
  | breakaddrOp
  | otherOp
  deriving Repr, DecidableEq

/-- What the analysis reads of a `ptx_instruction`. Instructions are 4 or 8 bytes long
and functions start at address 0 or behind one another, so every PC is a multiple of 4. -/
structure PtxInstruction where
  opcode : Opcode
  pc : UInt32
  aligned : pc.toNat % 4 = 0
  deriving Repr, DecidableEq

/-- `basic_block_t`, as far as the analysis uses it; `ptxBegin` and `ptxEnd` may be
`NULL`, and `immediatepostdominatorId` is −1 until it is found. -/
structure BasicBlock where
  bbId : ℕ
  ptxBegin : Option PtxInstruction
  ptxEnd : Option PtxInstruction
  successorIds : Finset ℕ
  postdominatorIds : Finset ℕ := ∅
  tmpIds : Finset ℕ := ∅
  immediatepostdominatorId : ℤ := -1
  deriving DecidableEq

/-- `function_info`: the vector `m_basic_blocks`. -/
structure FunctionInfo where
  size : ℕ
  block : ℕ → BasicBlock

/-- The assertions of the analysis, and a data-flow iteration that was not given enough
rounds. -/
inductive AnalysisFailure
  /-- `m_basic_blocks.size() >= 2` -/
  | tooFewBlocks
  /-- `m_basic_blocks[h]->bb_id == h` -/
  | blockId
  /-- `m_basic_blocks[n]->Tmp_ids.size() <= 1` -/
  | severalImmediate
  /-- `num_ipdoms == m_basic_blocks.size() - 1` -/
  | missingImmediate
  /-- The `while` loop has not ended. -/
  | outOfFuel
  deriving Repr, DecidableEq

namespace FunctionInfo

/-- Assign to fields of one block. -/
def modify (f : FunctionInfo) (i : ℕ) (change : BasicBlock → BasicBlock) : FunctionInfo :=
  { f with block := Function.update f.block i (change (f.block i)) }

/-- A control-flow graph as the analysis receives it: the last block is the exit, and
the only one without instructions; ids are positions, edges stay inside the vector, and
no result of the analysis is there yet. -/
structure WellFormed (f : FunctionInfo) : Prop where
  twoBlocks : 2 ≤ f.size
  bbId : ∀ i < f.size, (f.block i).bbId = i
  successorIds : ∀ i < f.size, ∀ s ∈ (f.block i).successorIds, s < f.size
  postdominatorIds : ∀ i < f.size, (f.block i).postdominatorIds = ∅
  ptxBegin : ∀ i < f.size, (f.block i).ptxBegin = none ↔ i = f.size - 1
  ptxEnd : ∀ i < f.size - 1, (f.block i).ptxEnd ≠ none

end FunctionInfo

/-! ## Post-dominator sets -/

/-- `intersect`: keep the elements of `A` that `B` has. -/
def intersect (A B : Finset ℕ) : Finset ℕ :=
  A.filter (· ∈ B)

/-- `is_equal`: the sizes agree and `A` has every element of `B`. -/
def isEqual (A B : Finset ℕ) : Bool :=
  A.card == B.card && decide (∀ b ∈ B, b ∈ A)

theorem isEqual_iff (A B : Finset ℕ) : isEqual A B = true ↔ A = B := by
  simp only [isEqual, Bool.and_eq_true, beq_iff_eq, decide_eq_true_eq]
  constructor
  · rintro ⟨hcard, hsub⟩
    exact (Finset.eq_of_subset_of_card_le hsub hcard.le).symm
  · rintro rfl
    exact ⟨rfl, fun _ h => h⟩

theorem mem_foldl_intersect {D : ℕ → Finset ℕ} {ids : List ℕ} {T : Finset ℕ} {w : ℕ} :
    w ∈ ids.foldl (fun T s => intersect T (D s)) T ↔ w ∈ T ∧ ∀ s ∈ ids, w ∈ D s := by
  induction ids generalizing T with
  | nil => simp
  | cons s rest ih =>
      rw [List.foldl_cons, ih]
      simp [intersect, and_assoc]

namespace FunctionInfo

/-- The set `T` of `find_postdominators`: all blocks, cut with the sets of the
successors of `h`, and `h` itself. -/
def meetSuccessors (f : FunctionInfo) (h : ℕ) : Finset ℕ :=
  insert h (((f.block h).successorIds.sort (· ≤ ·)).foldl
    (fun T s => intersect T (f.block s).postdominatorIds) (Finset.range f.size))

/-- One block of the data-flow iteration: recompute its set, and note a change. -/
def visitBlock (h : ℕ) : FunctionInfo × Bool → Except AnalysisFailure (FunctionInfo × Bool)
  | (f, change) =>
    if (f.block h).bbId ≠ h then .error .blockId
    else
      let T := f.meetSuccessors h
      if !isEqual T (f.block h).postdominatorIds then
        .ok (f.modify h fun b => { b with postdominatorIds := T }, true)
      else .ok (f, change)

/-- One round of the data-flow iteration: all blocks but the exit, from the back. -/
def visitBlocks (f : FunctionInfo) : Except AnalysisFailure (FunctionInfo × Bool) :=
  countDown visitBlock (f.size - 1) (f, false)

/-- The sets the iteration starts from: the exit's own id, and all ids elsewhere. -/
def initPostdominators (f : FunctionInfo) : FunctionInfo :=
  { f with
    block := fun i =>
      { f.block i with
        postdominatorIds :=
          if i + 1 = f.size then insert (f.block i).bbId (f.block i).postdominatorIds
          else (f.block i).postdominatorIds ∪ Finset.range f.size } }

/-- `find_postdominators`, with a bound on the rounds of its `while` loop. -/
def findPostdominators (f : FunctionInfo) (fuel : ℕ) : Except AnalysisFailure FunctionInfo :=
  if f.size < 2 then .error .tooFewBlocks
  else repeatWhile .outOfFuel visitBlocks fuel f.initPostdominators

/-! ## Immediate post-dominators -/

/-- `Tmp(n)` starts as the post-dominators of `n` without `n`. -/
def initTmp (i : ℕ) (f : FunctionInfo) : Except AnalysisFailure FunctionInfo :=
  if (f.block i).bbId ≠ i then .error .blockId
  else .ok (f.modify i fun b => { b with tmpIds := b.postdominatorIds.erase i })

/-- The inner pruning loop: erase the other elements that post-dominate `s`, visiting
the set in order. -/
def pruneWith (f : FunctionInfo) (s : ℕ) (tmp : Finset ℕ) : Finset ℕ :=
  (tmp.sort (· ≤ ·)).foldl
    (fun T t => if s = t then T else if t ∈ (f.block s).postdominatorIds then T.erase t else T)
    tmp

/-- The outer pruning loop over the set's elements in order; those erased in the
meantime are not visited. -/
def pruneFrom (f : FunctionInfo) : List ℕ → Finset ℕ → Finset ℕ
  | [], tmp => tmp
  | s :: rest, tmp => f.pruneFrom rest (if s ∈ tmp then f.pruneWith s tmp else tmp)

/-- Prune `Tmp(n)`. -/
def pruneTmp (n : ℕ) (f : FunctionInfo) : Except AnalysisFailure FunctionInfo :=
  let tmp := (f.block n).tmpIds
  .ok (f.modify n fun b => { b with tmpIds := f.pruneFrom (tmp.sort (· ≤ ·)) tmp })

/-- Read the immediate post-dominator of `n` off `Tmp(n)`, and count it. -/
def assignImmediate (n : ℕ) : FunctionInfo × ℕ → Except AnalysisFailure (FunctionInfo × ℕ)
  | (f, numIpdoms) =>
    if 1 < (f.block n).tmpIds.card then .error .severalImmediate
    else if h : (f.block n).tmpIds.Nonempty then
      .ok (f.modify n fun b => { b with immediatepostdominatorId := (f.block n).tmpIds.min' h },
        numIpdoms + 1)
    else .ok (f, numIpdoms)

/-- `find_ipostdominators`. -/
def findIpostdominators (f : FunctionInfo) : Except AnalysisFailure FunctionInfo := do
  if f.size < 2 then throw .tooFewBlocks
  let f ← countUp initTmp f.size f
  let f ← countDown pruneTmp (f.size - 1) f
  let (f, numIpdoms) ← countDown assignImmediate f.size (f, 0)
  if numIpdoms ≠ f.size - 1 then throw .missingImmediate
  return f

/-! ## Reconvergence pairs -/

end FunctionInfo

/-- The reconvergence PC of a branch whose block post-dominates nothing inside the
function but the exit: reconverge after the function returns. -/
def reconvergeReturnPc : UInt32 := -2

/-- `gpgpu_recon_t`. -/
structure GpgpuRecon where
  sourcePc : UInt32
  sourceInst : PtxInstruction
  targetPc : UInt32
  targetInst : Option PtxInstruction
  deriving Repr, DecidableEq

namespace FunctionInfo

/-- The last instruction of block `i`, when it is a branch. -/
def branchAt (f : FunctionInfo) (i : ℕ) : Option PtxInstruction :=
  (f.block i).ptxEnd.filter fun pI => pI.opcode = .braOp

/-- The entry `get_reconvergence_pairs` writes for a branch at the end of block `i`. -/
def reconvergencePair (f : FunctionInfo) (i : ℕ) (branch : PtxInstruction) : GpgpuRecon :=
  match (f.block (f.block i).immediatepostdominatorId.toNat).ptxBegin with
  | some target => ⟨branch.pc, branch, target.pc, some target⟩
  | none => ⟨branch.pc, branch, reconvergeReturnPc, none⟩

/-- `get_reconvergence_pairs`: the entries it writes, in order. The last block, which
contains the exit, has none. -/
def getReconvergencePairs (f : FunctionInfo) : List GpgpuRecon :=
  (List.range (f.size - 1)).filterMap fun i => (f.branchAt i).map (f.reconvergencePair i)

/-- `get_num_reconvergence_pairs`, on its first call: the size of the caller's array. -/
def getNumReconvergencePairs (f : FunctionInfo) : ℕ :=
  (List.range (f.size - 1)).countP fun i => (f.branchAt i).isSome

end FunctionInfo

end GpuCalorie.Ptx
