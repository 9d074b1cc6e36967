/-
# Construction of the control-flow graph

`create_basic_blocks` collects the leaders of the instruction list, and then goes through the list
again, where it begins a new block at every leader. `connect_basic_blocks` links each block to
those of the instructions its last one can go on to, which it finds in `m_instr_mem`.

An iterator is the rest of the list it stands before; the elements of a list are objects of their
own, so two iterators are equal where these rests are. What is read past the end of the list or
of `m_instr_mem` ends the construction.
-/

import GpuCalorie.Ptx.Assembly
import GpuCalorie.Ptx.FlowGraph

namespace GpuCalorie.Ptx.ControlFlow

open GpuCalorie.Math Assembly

/-- `is_label` -/
def isLabel : Statement → Bool
  | .label _ => true
  | .instruction _ => false

/-- The instructions behind which the loop looks for a leader. -/
def endsBlock (pI : Instruction) : Bool :=
  match pI.opcode with
  | .braOp | .retOp | .exitOp | .retpOp | .breakOp => true
  | .callOp | .callpOp => pI.hasPred
  | _ => false

/-- `find_next_real_instruction` -/
def findNextReal (i : List Statement) : List Statement :=
  i.dropWhile isLabel

/-- The loop that collects the leaders, with a bound on its rounds. -/
def leadersFrom : ℕ → List Statement → List (List Statement)
  | 0, _ => []
  | _ + 1, [] => []
  | fuel + 1, .label l :: rest => (.label l :: rest) :: leadersFrom fuel (findNextReal rest)
  | fuel + 1, .instruction pI :: rest =>
    if endsBlock pI then
      (if rest = [] then [] else [rest]) ++ leadersFrom fuel (findNextReal rest)
    else leadersFrom fuel rest

/-- `leaders`. The first element is one, and is not looked at. -/
def leaders (instructions : List Statement) : List (List Statement) :=
  instructions :: leadersFrom instructions.length instructions.tail

inductive GraphFailure
  /-- The end of the list is read. -/
  | pastEnd
  /-- A place of `m_instr_mem` that holds no instruction, or the place of a label in it. -/
  | notInitialized
  deriving DecidableEq, Repr

/-- The variables of the second loop. -/
structure Creating where
  graph : FlowGraph Statement
  lastReal : Statement
  /-- The leaders from `l` on. -/
  leaders : List (List Statement)
  /-- `get_bb` of the instructions; that of labels is not read. -/
  bb : ℕ → ℕ

/-- The empty vector `m_basic_blocks`. -/
def noBlocks : FlowGraph Statement where
  size := 0
  block := fun _ => { bbId := 0, ptxBegin := none, ptxEnd := none }

/-- A new block at the end of the vector. -/
def pushBlock (g : FlowGraph Statement) (ptxBegin : Option Statement) : FlowGraph Statement where
  size := g.size + 1
  block := Function.update g.block g.size { bbId := g.size, ptxBegin := ptxBegin, ptxEnd := none }

/-- The end of the last block. -/
def closeBlock (g : FlowGraph Statement) (ptxEnd : Statement) : FlowGraph Statement :=
  g.modify (g.size - 1) fun b => { b with ptxEnd := some ptxEnd }

/-- The start of the next basic block, if `i` is the next leader and no bogus trailing label. -/
def visitLeader (i : List Statement) (s : Creating) : Creating :=
  if s.leaders.head? = some i then
    match findNextReal i with
    | [] => { s with graph := closeBlock s.graph s.lastReal, leaders := s.leaders.tail }
    | next :: _ => { s with
        graph := pushBlock (closeBlock s.graph s.lastReal) (some next)
        lastReal := next
        leaders := s.leaders.tail }
  else s

/-- `assign_bb`, and the last instruction so far. -/
def assignBb (st : Statement) (s : Creating) : Creating :=
  match st with
  | .label _ => s
  | .instruction pI => { s with
      bb := Function.update s.bb pI.uid (s.graph.size - 1)
      lastReal := .instruction pI }

/-- The loop over the list. -/
def visitFrom : List Statement → Creating → Creating
  | [], s => s
  | st :: rest, s => visitFrom rest (assignBb st (visitLeader (st :: rest) s))

/-- `create_basic_blocks`: the blocks, and the block of every instruction. -/
def createBasicBlocks (instructions : List Statement) :
    Except GraphFailure (FlowGraph Statement × (ℕ → ℕ)) :=
  match findNextReal instructions, instructions with
  | next :: _, first :: _ =>
    let s := visitFrom instructions
      { graph := pushBlock noBlocks (some next)
        lastReal := first
        leaders := (leaders instructions).tail
        bb := fun _ => 0 }
    .ok (pushBlock (closeBlock s.graph s.lastReal) none, s.bb)
  | _, _ => .error .pastEnd

/-! ## Edges -/

/-- `RETP_OP`, `RET_OP` and `EXIT_OP` -/
def isReturn (pI : Instruction) : Bool :=
  pI.opcode = .retpOp ∨ pI.opcode = .retOp ∨ pI.opcode = .exitOp

/-- What `connect_basic_blocks` reads of the function: its memory and labels, the size of the
memory, the index in it of every instruction, and the blocks of the instructions. -/
structure Context where
  info : Assembly.FunctionInfo
  memSize : ℕ
  index : ℕ → ℕ
  bb : ℕ → ℕ

/-- Link a block to that of the instruction at an index. -/
def linkTo (c : Context) (i addr : ℕ) (g : FlowGraph Statement) :
    Except GraphFailure (FlowGraph Statement) :=
  match c.info.instrMem addr with
  | some (some pI) => .ok (g.link i (c.bb pI.uid))
  | _ => .error .notInitialized

/-- The edges of a block by its last instruction. -/
def connectEnd (c : Context) (i : ℕ) (pI : Instruction) (g : FlowGraph Statement) :
    Except GraphFailure (FlowGraph Statement) :=
  let nextAddr := c.index pI.uid + pI.instSize
  if isReturn pI then
    let g := g.link i (g.size - 1)
    if pI.hasPred then
      if nextAddr < c.memSize then
        match c.info.instrMem nextAddr with
        | none => .error .notInitialized
        | some none => .ok g
        | some (some _) => linkTo c i nextAddr g
      else .ok g
    else .ok g
  else do
    let g ←
      if pI.opcode = .braOp then linkTo c i ((c.info.labels pI.target.name).getD 0) g
      else pure g
    if ¬ (pI.opcode = .braOp ∧ pI.hasPred = false) then linkTo c i nextAddr g else pure g

/-- One block; the exit block has no end. -/
def connectBlock (c : Context) (i : ℕ) (g : FlowGraph Statement) :
    Except GraphFailure (FlowGraph Statement) :=
  match (g.block i).ptxEnd with
  | none => .ok g
  | some (.label _) => .error .notInitialized
  | some (.instruction pI) => connectEnd c i pI g

/-- `connect_basic_blocks` -/
def connectBasicBlocks (c : Context) (g : FlowGraph Statement) :
    Except GraphFailure (FlowGraph Statement) :=
  countUp (connectBlock c) g.size g

/-- Both, for a function that has been assembled. -/
def controlFlowGraph (info : Assembly.FunctionInfo) (memSize : ℕ) (index : ℕ → ℕ)
    (instructions : List Statement) :
    Except GraphFailure (FlowGraph Statement × (ℕ → ℕ)) := do
  let (g, bb) ← createBasicBlocks instructions
  let g ← connectBasicBlocks { info := info, memSize := memSize, index := index, bb := bb } g
  return (g, bb)

/-! ## What the graph should be -/

/-- What `ptx_assemble` leaves of a list: the instructions at their places in the memory, which is
large enough, and the labels where they stand. -/
structure Assembled (info : Assembly.FunctionInfo) (memSize : ℕ) (index : ℕ → ℕ)
    (instructions : List Statement) : Prop where
  labels : ∀ name v, labelOffset name 0 instructions = some v → info.labels name = some v
  instrMem : ∀ p, info.instrMem p = (layout Instruction.instSize (reals instructions))[p]?
  memSize : bytes instructions ≤ memSize
  index : ∀ before pI after, instructions = before ++ .instruction pI :: after →
    index pI.uid = bytes before

/-- The instructions behind which the next one is not executed. -/
def neverFalls (pI : Instruction) : Bool :=
  !pI.hasPred && (isReturn pI || pI.opcode = .braOp)

/-- What can be executed next after an instruction, or that the function is left. -/
inductive NextExecuted (instructions : List Statement) (pI : Instruction) :
    Option Instruction → Prop
  | left (returns : isReturn pI = true) : NextExecuted instructions pI none
  | falls {before after : List Statement} {next : Instruction}
      (place : instructions = before ++ .instruction pI :: after)
      (goesOn : neverFalls pI = false) (behind : firstReal after = some next) :
      NextExecuted instructions pI (some next)
  | jumps {before after : List Statement} {l : Symbol} {next : Instruction}
      (isBranch : pI.opcode = .braOp) (place : instructions = before ++ .label l :: after)
      (name : l.name = pI.target.name)
      (last : ∀ l', .label l' ∈ after → l'.name ≠ pI.target.name)
      (behind : firstReal after = some next) : NextExecuted instructions pI (some next)

/-- The blocks are cut exactly behind the instructions that end a block and at labels; a block has
its first and its last instruction noted, and behind them all stands the exit. -/
structure Partitions (instructions : List Statement) (g : FlowGraph Statement) (bb : ℕ → ℕ) :
    Prop where
  first : ∀ pI, firstReal instructions = some pI → bb pI.uid = 0
  next : ∀ before pI labels pJ after,
    instructions = before ++ .instruction pI :: (labels ++ .instruction pJ :: after) →
      (∀ st ∈ labels, isLabel st = true) →
        bb pJ.uid = if endsBlock pI = true ∨ labels ≠ [] then bb pI.uid + 1 else bb pI.uid
  size : ∀ pI, (reals instructions).getLast? = some pI → g.size = bb pI.uid + 2
  bbId : ∀ b < g.size, (g.block b).bbId = b
  ptxBegin : ∀ b, b + 1 < g.size → ∃ front pI back, reals instructions = front ++ pI :: back ∧
    (g.block b).ptxBegin = some (.instruction pI) ∧ bb pI.uid = b ∧
      ∀ pJ ∈ front, bb pJ.uid < b
  ptxEnd : ∀ b, b + 1 < g.size → ∃ front pI back, reals instructions = front ++ pI :: back ∧
    (g.block b).ptxEnd = some (.instruction pI) ∧ bb pI.uid = b ∧ ∀ pJ ∈ back, b < bb pJ.uid
  exit : (g.block (g.size - 1)).ptxBegin = none ∧ (g.block (g.size - 1)).ptxEnd = none

/-- Control goes straight through a block: only its last instruction may end a block, and only its
first may be behind a label. -/
def Straight (instructions : List Statement) (bb : ℕ → ℕ) : Prop :=
  ∀ before pI middle pJ after,
    instructions = before ++ .instruction pI :: (middle ++ .instruction pJ :: after) →
      bb pI.uid = bb pJ.uid → endsBlock pI = false ∧ ∀ st ∈ middle, isLabel st = false

/-- The successors of a block are the blocks of what can be executed after its last instruction,
and the exit where the function can be left. -/
def Follows (instructions : List Statement) (g : FlowGraph Statement) (bb : ℕ → ℕ) : Prop :=
  ∀ b < g.size, ∀ pI, (g.block b).ptxEnd = some (.instruction pI) → ∀ q,
    q ∈ (g.block b).successorIds ↔
      (q + 1 = g.size ∧ NextExecuted instructions pI none) ∨
        ∃ pJ, NextExecuted instructions pI (some pJ) ∧ bb pJ.uid = q

/-- Lists that keep to what the construction can do: not two labels in front, and no instruction
in front that ends its block and is followed by another without a label; the last instruction
does not go on, and what branches lead to are instructions behind labels. -/
structure Constructible (instructions : List Statement) : Prop where
  nodup : ((reals instructions).map Instruction.uid).Nodup
  oneLabel : ∀ l l' rest, instructions ≠ .label l :: .label l' :: rest
  first : ∀ pI pJ rest, instructions = .instruction pI :: .instruction pJ :: rest →
    endsBlock pI = false
  last : ∃ pI, (reals instructions).getLast? = some pI ∧ neverFalls pI = true
  targets : ∀ pI ∈ reals instructions, pI.opcode = .braOp →
    ∃ before l after, instructions = before ++ .label l :: after ∧ l.name = pI.target.name ∧
      (∀ l', .label l' ∈ after → l'.name ≠ pI.target.name) ∧ firstReal after ≠ none

end GpuCalorie.Ptx.ControlFlow
