/-
# Assembly of functions

`ptx_assemble` lays out the instructions of a function in `m_instr_mem` and, behind those of
earlier functions, in the table that gives the instruction at every PC. Labels take no place;
where they stand is noted in the map `labels`, and then the symbols of the branch targets get
the PCs of the instructions found there.

The PC, the offsets and the size of `m_instr_mem` are 32 bits wide. An assertion that fails, an
access outside of `m_instr_mem` and a read of a place in it that is not initialized end the run
with their names.
-/

import GpuCalorie.Math.Layout
import GpuCalorie.Math.Transition
import GpuCalorie.Ptx.BasicBlock
import Mathlib.Logic.Function.Basic

namespace GpuCalorie.Ptx.Assembly

open GpuCalorie.Math

/-- A symbol object; in different scopes there can be several of a name. -/
structure Symbol where
  name : String
  uid : ℕ
  deriving DecidableEq, Repr

/-- What the assembly and the construction of the basic blocks read of a `ptx_instruction` that is
no label. The symbol is that of its first operand. -/
structure Instruction where
  uid : ℕ
  opcode : Opcode
  hasPred : Bool := false
  isHalf : Bool := false
  target : Symbol := ⟨"", 0⟩
  deriving DecidableEq, Repr

/-- `m_inst_size`, in bytes. -/
def Instruction.instSize (pI : Instruction) : ℕ :=
  if pI.isHalf then 4 else 8

/-- The instructions whose targets are labels. -/
def Instruction.hasTarget (pI : Instruction) : Bool :=
  pI.opcode = .braOp ∨ pI.opcode = .breakaddrOp ∨ pI.opcode = .callpOp

/-- An element of `m_instructions`. -/
inductive Statement
  | label (l : Symbol)
  | instruction (pI : Instruction)
  deriving DecidableEq, Repr

/-- `MAX_INST_SIZE` -/
def maxInstSize : ℕ := 8

/-- The numbers of `addr_t`. -/
def addrs : ℕ := 2 ^ 32

/-- A function when it is assembled. -/
structure Definition where
  /-- The `function_info`; a later definition of the same function has the same one. -/
  function : ℕ
  instructions : List Statement
  /-- `m_symtab` without the tables it is nested in. -/
  symtab : String → Option Symbol

/-- The instructions of a list. -/
def reals (instructions : List Statement) : List Instruction :=
  instructions.filterMap fun
    | .label _ => none
    | .instruction pI => some pI

/-- `function_info`. A place in `m_instr_mem` is `none` until it is written, and then the pointer
in it. -/
structure FunctionInfo where
  assembled : Bool := false
  startPc : ℕ := 0
  n : ℕ := 0
  instrMem : ℕ → Option (Option Instruction) := fun _ => none
  labels : String → Option ℕ := fun _ => none

/-- The functions assembled so far, with what is common to them: `g_assemble_code_next_pc`,
`s_g_pc_to_insn`, and `m_PC` and `m_address` of instructions and symbols. -/
structure Assembler where
  nextPc : ℕ := 0
  pcToInsn : List (Option Instruction) := []
  functions : ℕ → FunctionInfo := fun _ => {}
  pc : ℕ → Option ℕ := fun _ => none
  address : Symbol → Option ℕ := fun _ => none
  definitions : List Definition := []

inductive AssemblyFailure
  /-- A write behind the end of `m_instr_mem`. -/
  | outOfBounds
  /-- `pI == s_g_pc_to_insn[PC]` -/
  | pcMismatch
  /-- A branch label does not appear in the assembly code. -/
  | loaderError
  /-- `i != m_symbols.end()` -/
  | noSymbol
  /-- `m_instr_mem` is read at a place that holds no instruction. -/
  | notInitialized
  | outOfFuel
  deriving DecidableEq, Repr

/-! ## The instructions -/

/-- The variables of the loop over the instructions. -/
structure Loading where
  n : ℕ := 0
  PC : ℕ
  pcToInsn : List (Option Instruction)
  instrMem : ℕ → Option (Option Instruction) := fun _ => none
  labels : String → Option ℕ
  pc : ℕ → Option ℕ

/-- The pointer to an instruction, and `NULL` at the other places it takes. -/
def store (pI : Instruction) (n : ℕ) (mem : ℕ → Option (Option Instruction)) (p : ℕ) :
    Option (Option Instruction) :=
  if p = n then some (some pI)
  else if n < p ∧ p < n + pI.instSize then some none
  else mem p

/-- One element of the list. -/
def loadStatement (memSize : ℕ) (s : Loading) : Statement → Except AssemblyFailure Loading
  | .label l => .ok { s with labels := Function.update s.labels l.name (some s.n) }
  | .instruction pI =>
    if memSize < s.n + pI.instSize then .error .outOfBounds
    else if (s.pcToInsn ++ [some pI])[s.PC]? ≠ some (some pI) then .error .pcMismatch
    else .ok { s with
      n := (s.n + pI.instSize) % addrs
      PC := (s.PC + pI.instSize) % addrs
      pcToInsn := s.pcToInsn ++ (some pI :: List.replicate (pI.instSize - 1) none)
      instrMem := store pI s.n s.instrMem
      pc := Function.update s.pc pI.uid (some s.PC) }

/-! ## The targets -/

/-- Give the symbol of a target the PC of the instruction at its label. -/
def resolveTarget (info : FunctionInfo) (symtab : String → Option Symbol) (pc : ℕ → Option ℕ)
    (target : Symbol) (address : Symbol → Option ℕ) :
    Except AssemblyFailure (Symbol → Option ℕ) :=
  match info.labels target.name with
  | none => .error .loaderError
  | some index =>
    match info.instrMem index with
    | some (some pI) =>
      match symtab target.name with
      | none => .error .noSymbol
      | some s => .ok (Function.update address s (pc pI.uid))
    | _ => .error .notInitialized

/-- The loop over the branches, from the offset `ii` on. -/
def resolveFrom (info : FunctionInfo) (symtab : String → Option Symbol) (pc : ℕ → Option ℕ) :
    ℕ → ℕ → (Symbol → Option ℕ) → Except AssemblyFailure (Symbol → Option ℕ)
  | 0, _, _ => .error .outOfFuel
  | fuel + 1, ii, address =>
    if ii < info.n then
      match info.instrMem ii with
      | some (some pI) => do
        let address ←
          if pI.hasTarget then resolveTarget info symtab pc pI.target address else pure address
        resolveFrom info symtab pc fuel (ii + pI.instSize) address
      | _ => .error .notInitialized
    else .ok address

/-! ## The assembly -/

/-- `ptx_assemble` -/
def ptxAssemble (d : Definition) (s : Assembler) : Except AssemblyFailure Assembler :=
  let info := s.functions d.function
  if info.assembled then .ok { s with definitions := s.definitions ++ [d] }
  else do
    let memSize := maxInstSize * (d.instructions.length + 1) % addrs
    let padding := s.nextPc % maxInstSize
    let PC := (s.nextPc + padding) % addrs
    let loaded ← d.instructions.foldlM (loadStatement memSize)
      { PC := PC
        pcToInsn := s.pcToInsn ++ List.replicate padding none
        labels := info.labels
        pc := s.pc }
    let info := { info with
      startPc := PC, n := loaded.n, instrMem := loaded.instrMem, labels := loaded.labels }
    let address ← resolveFrom info d.symtab loaded.pc (loaded.n + 1) 0 s.address
    return { nextPc := loaded.PC
             pcToInsn := loaded.pcToInsn
             functions := Function.update s.functions d.function info
             pc := loaded.pc
             address := address
             definitions := s.definitions ++ [d] }

/-- `pc_to_instruction` -/
def pcToInstruction (s : Assembler) (pc : ℕ) : Option Instruction :=
  if h : pc < s.pcToInsn.length then s.pcToInsn[pc] else none

/-- What happens to functions: they are defined, and `do_pdom` marks them as assembled when they
first run. -/
inductive AssemblyAction
  | assemble (d : Definition)
  | doPdom (function : ℕ)

/-- The instructions of a definition are objects of their own. -/
def NewObjects (s : Assembler) (d : Definition) : Prop :=
  ((reals d.instructions).map Instruction.uid).Nodup ∧
    ∀ pI ∈ reals d.instructions, ∀ d' ∈ s.definitions, ∀ pJ ∈ reals d'.instructions,
      pI.uid ≠ pJ.uid

/-- Sequences of definitions, from no function on. -/
def assemblySystem : TransitionSystem (Except AssemblyFailure Assembler) AssemblyAction :=
  .ofExcept (fun s => s = {})
    (fun s action =>
      match action with
      | .assemble d => NewObjects s d
      | .doPdom _ => True)
    (fun s action =>
      match action with
      | .assemble d => ptxAssemble d s
      | .doPdom function => .ok { s with
          functions := Function.update s.functions function
            { s.functions function with assembled := true } })

/-! ## What the layout should be -/

/-- The first instruction behind a label. -/
def firstReal (instructions : List Statement) : Option Instruction :=
  (reals instructions).head?

/-- Every instruction has a PC of its own and is found there, and nothing elsewhere; functions
start at aligned PCs, instructions follow one another, and the symbol of a target has the PC of
the first instruction behind its label. -/
structure Laid (s : Assembler) : Prop where
  placed : ∀ d ∈ s.definitions, ∀ pI ∈ reals d.instructions,
    ∃ pc, s.pc pI.uid = some pc ∧ pcToInstruction s pc = some pI
  unique : ∀ d ∈ s.definitions, ∀ pI ∈ reals d.instructions, ∀ d' ∈ s.definitions,
    ∀ pJ ∈ reals d'.instructions, s.pc pI.uid = s.pc pJ.uid → pI = pJ
  others : ∀ pc, (∀ d ∈ s.definitions, ∀ pI ∈ reals d.instructions, s.pc pI.uid ≠ some pc) →
    pcToInstruction s pc = none
  aligned : ∀ d ∈ s.definitions, ∀ pI, firstReal d.instructions = some pI →
    ∃ pc, s.pc pI.uid = some pc ∧ pc % maxInstSize = 0
  startPc : ∀ function, (s.functions function).startPc % maxInstSize = 0
  consecutive : ∀ d ∈ s.definitions, ∀ before pI pJ after,
    reals d.instructions = before ++ pI :: pJ :: after → ∀ pc, s.pc pI.uid = some pc →
      s.pc pJ.uid = some (pc + pI.instSize)
  resolved : ∀ d ∈ s.definitions, ∀ pI ∈ reals d.instructions, pI.hasTarget = true →
    (∃ before after, d.instructions = before ++ .label pI.target :: after) ∧
      ∀ before after, d.instructions = before ++ .label pI.target :: after →
        ∃ pJ, firstReal after = some pJ ∧ s.address pI.target = s.pc pJ.uid

/-! ## When it is -/

/-- The size of the instructions of a list. -/
def bytes (instructions : List Statement) : ℕ :=
  extent Instruction.instSize (reals instructions)

/-- Where the map `labels` has a name after a list of instructions, with `n` bytes before it. -/
def labelOffset (name : String) (n : ℕ) : List Statement → Option ℕ
  | [] => none
  | .label l :: rest => (labelOffset name n rest).or (if l.name = name then some n else none)
  | .instruction pI :: rest => labelOffset name (n + pI.instSize) rest

/-- A definition whose labels lead to its targets: the name of a target is unknown, which the
loader reports, or it stands for the label of the target alone, which an instruction follows, in
the symbol table of the function and among the labels of the function. -/
structure Resolvable (s : Assembler) (d : Definition) : Prop where
  target : ∀ pI ∈ reals d.instructions, pI.hasTarget = true →
    ((s.functions d.function).labels pI.target.name = none ∧
      labelOffset pI.target.name 0 d.instructions = none) ∨
    (d.symtab pI.target.name = some pI.target ∧
      (∃ before after, d.instructions = before ++ .label pI.target :: after) ∧
      ∀ before after, d.instructions = before ++ .label pI.target :: after →
        firstReal after ≠ none ∧
          labelOffset pI.target.name 0 d.instructions = some (bytes before))
  /-- No branch of an earlier definition has the same target. -/
  fresh : ∀ pI ∈ reals d.instructions, pI.hasTarget = true → ∀ d' ∈ s.definitions,
    ∀ pJ ∈ reals d'.instructions, pJ.hasTarget = true → pJ.target ≠ pI.target

/-- The steps that lay out their functions: the function has not run yet, its instructions fit
into 32-bit PCs, its list into a 32-bit memory size, and its targets can be resolved. -/
def LaysOut (s : Assembler) : AssemblyAction → Prop
  | .doPdom _ => True
  | .assemble d =>
    (s.functions d.function).assembled = false ∧
      s.pcToInsn.length + s.pcToInsn.length % maxInstSize + bytes d.instructions ≤ addrs ∧
      bytes d.instructions ≤ maxInstSize * (d.instructions.length + 1) % addrs ∧
      Resolvable s d

end GpuCalorie.Ptx.Assembly
