/-
# The parameters of a kernel

The parser records a size and an offset for each parameter, with which the host passes its value.
`finalize` copies the values to the memory of the launch and gives the parameters their addresses,
and asserts that these are the offsets of the host. A launch from the device asks for the size of
all parameters, which gives them offsets and addresses as well. Each goes through the parameters
with a rule of its own.

The compiler numbers the names of parameters in the order of declaration, so that this is the order
of the map too. Numbers are not cut to 32 bits: the parameters of a kernel have some thousand bytes
at most. Null pointers, which only OpenCL passes, and `param_to_shared` are left out.
-/

import GpuCalorie.Math.Bytes
import GpuCalorie.Math.Transition
import GpuCalorie.Ptx.SymbolTables

namespace GpuCalorie.Ptx.Params

open GpuCalorie.Hardware GpuCalorie.Math GpuCalorie.Ptx.Symbols

/-! ## Declarations -/

/-- A parameter as it is declared in the header of a kernel. -/
structure ParamEntry where
  type : DeclaredType
  vector : VectorSpec := .none
  /-- `g_alignment_spec` -/
  alignment : Option ℕ := none
  array : ArrayIdentifier := .nonArray
  /-- `g_ptr_spec` -/
  ptr : Option MemorySpace := none
  deriving DecidableEq, Repr

/-- `g_size` as `add_scalar_type_spec` leaves it. -/
def scalarSize : DeclaredType → ℤ
  | .scalar .b8 | .scalar .s8 | .scalar .u8 => 1
  | .scalar .b16 | .scalar .s16 | .scalar .u16 | .scalar .f16 => 2
  | .scalar .b32 | .scalar .s32 | .scalar .u32 | .scalar .f32 => 4
  | .scalar .b64 | .bb64 | .scalar .s64 | .scalar .u64 | .scalar .f64 | .ff64 => 8
  | .bb128 => 16
  | .scalar .pred | .texref | .samplerref | .surfref => -1

namespace ParamEntry

variable (d : ParamEntry)

/-- `g_size` as `add_identifier` leaves it. The vector is an option like those of instructions,
which no size depends on. -/
def gSize : ℤ := match d.array with
  | .dim n => scalarSize d.type * n
  | .nonArray | .noDim => scalarSize d.type

/-- `num_bits` of `add_identifier`. -/
def numBits : ℕ := match d.array with
  | .nonArray => d.type.size
  | .noDim => 0
  | .dim n => n * d.type.size

def isPtrShared : Bool := d.ptr == some .sharedSpace

/-- What `add_function_arg` aligns the parameter to. -/
def gAlignment : ℕ := d.alignment.getD d.gSize.toNat

/-! The parameter itself, apart from what the code makes of it: -/

/-- How many bytes the parameter has. -/
def bytes : ℕ := match d.array with
  | .nonArray => d.vector.lanes * d.type.size / 8
  | .noDim => 0
  | .dim n => n * (d.vector.lanes * d.type.size / 8)

/-- The alignment that is declared, or that of an element. -/
def requiredAlignment : ℕ := d.alignment.getD (d.vector.lanes * d.type.size / 8)

end ParamEntry

/-! ## Kernels -/

/-- Bytes of the host, from a pointer on. -/
abbrev HostValue := ℕ → UInt8

/-- `gpgpu_ptx_sim_arg`. -/
structure HostArg where
  start : HostValue
  nbytes : ℕ
  offset : ℕ

/-- `param_info`, with the alignment and the address of the symbol. -/
structure ParamInfo where
  /-- `m_size`, in bits. -/
  size : ℕ
  isPtrShared : Bool
  alignmentSpec : Option ℕ
  value : Option HostArg := none
  offset : Option ℕ := none
  address : Option ℕ := none

/-- `function_info`, as far as its parameters go. -/
structure FunctionInfo where
  /-- `m_ptx_kernel_param_info`. -/
  params : List ParamInfo := []
  /-- `m_param_configs`: sizes and offsets. -/
  configs : List (ℕ × ℕ) := []
  argsAlignedSize : Option ℕ := none

/-- The assertions that may fail, and divisions by zero. -/
inductive ParamFailure
  /-- `g_size > 0` -/
  | size
  /-- The alignment is not known. -/
  | alignment
  /-- A pointer to local memory of OpenCL must be null. -/
  | localPointer
  /-- `m_value.size == v.size` -/
  | valueSize
  /-- `m_value_set` -/
  | value
  /-- `offset == param_address` -/
  | offset
  | division
  deriving DecidableEq, Repr

/-! ## Parsing -/

/-- `add_config_param`. -/
def addConfigParam (configs : List (ℕ × ℕ)) (size alignment : ℕ) : List (ℕ × ℕ) :=
  let offset := match configs.getLast? with
    | none => 0
    | some last =>
      let offsetNom := last.2 + last.1
      if offsetNom % alignment ≠ 0 then (offsetNom / alignment + 1) * alignment else offsetNom
  configs ++ [(size, offset)]

def knownAlignments : List ℕ := [1, 2, 4, 8, 16]

/-- `add_identifier` and `add_function_arg` of a parameter. -/
def addParam (f : FunctionInfo) (d : ParamEntry) : Except ParamFailure FunctionInfo :=
  if ¬ 0 < d.gSize then .error .size
  else if d.gAlignment ∉ knownAlignments then .error .alignment
  else .ok { f with
    params := f.params ++
      [{ size := d.numBits, isPtrShared := d.isPtrShared, alignmentSpec := d.alignment }]
    configs := addConfigParam f.configs d.gSize.toNat d.gAlignment }

/-- The header of a kernel. -/
def parse (decls : List ParamEntry) : Except ParamFailure FunctionInfo := decls.foldlM addParam {}

/-! ## The size of all parameters -/

/-- The loop of `get_args_aligned_size`. -/
def alignedLoop : ℕ → List ParamInfo → Except ParamFailure (List ParamInfo × ℕ)
  | total, [] => .ok ([], total)
  | total, p :: rest =>
    let argSize := p.size / 8
    if argSize = 0 then .error .division
    else do
      let total := (total + argSize - 1) / argSize * argSize
      let (rest, size) ← alignedLoop (total + argSize) rest
      return ({ p with offset := some total, address := some total } :: rest, size)

/-- `get_args_aligned_size`. -/
def getArgsAlignedSize (f : FunctionInfo) : Except ParamFailure (FunctionInfo × ℕ) :=
  match f.argsAlignedSize with
  | some size => .ok (f, size)
  | none => do
    let (params, total) ← alignedLoop 0 f.params
    let size := (total + 3) / 4 * 4
    return ({ f with params, argsAlignedSize := some size }, size)

/-! ## Launches -/

/-- `add_param_data` for a parameter. -/
def ParamInfo.addParamData (p : ParamInfo) (arg : HostArg) : Except ParamFailure ParamInfo :=
  if p.isPtrShared then .error .localPointer
  else if p.value.any fun v => v.nbytes ≠ arg.nbytes then .error .valueSize
  else .ok { p with value := some arg, offset := some arg.offset }

/-- `add_param_data` for the arguments. Their list begins with the last one, and they are counted
down to their parameters. -/
def addArgs : List ParamInfo → List HostArg → Except ParamFailure (List ParamInfo)
  | p :: params, arg :: args => do
    let p ← p.addParamData arg
    let params ← addArgs params args
    return p :: params
  | params, _ => .ok params

/-- The words of a parameter are copied to the memory. -/
def copyWords (mem : ℕ → UInt8) (start : HostValue) (paramAddress size : ℕ) : ℕ → UInt8 :=
  (List.range ((size + 3) / 4)).foldl
    (fun mem word => overwrite mem (paramAddress + 4 * word) (cells start (4 * word) 4)) mem

/-- The loop of `finalize`. -/
def finalizeLoop : ℕ → (ℕ → UInt8) → List ParamInfo →
    Except ParamFailure (List ParamInfo × (ℕ → UInt8))
  | _, mem, [] => .ok ([], mem)
  | paramAddress, mem, p :: rest =>
    if p.isPtrShared then do
      let (rest, mem) ← finalizeLoop paramAddress mem rest
      return (p :: rest, mem)
    else match p.value with
      | none => .error .value
      | some v =>
        let size := min v.nbytes (p.size / 8)
        let alignAmount := p.alignmentSpec.getD size
        if alignAmount = 0 then .error .division
        else
          let paramAddress := (paramAddress + alignAmount - 1) / alignAmount * alignAmount
          if p.offset ≠ some paramAddress then .error .offset
          else do
            let (rest, mem) ← finalizeLoop (paramAddress + size)
              (copyWords mem v.start paramAddress size) rest
            return ({ p with address := some paramAddress } :: rest, mem)

/-- A launch by the host, to a memory that is new: `cudaLaunchKernel` takes the sizes and the
offsets
from the parser, and `finalize` follows. -/
def launch (f : FunctionInfo) (values : List HostValue) :
    Except ParamFailure (FunctionInfo × (ℕ → UInt8)) := do
  let args := List.zipWith (fun start config => { start, nbytes := config.1, offset := config.2 })
    values f.configs
  let params ← addArgs f.params args
  let (params, mem) ← finalizeLoop 0 (fun _ => 0) params
  return ({ f with params }, mem)

/-! ## Runs -/

/-- What happens to a kernel. -/
inductive KernelStep
  | launch (values : List HostValue)
  /-- A launch from the device. -/
  | getArgsAlignedSize

def step (f : FunctionInfo) : KernelStep → Except ParamFailure FunctionInfo
  | .launch values => Prod.fst <$> launch f values
  | .getArgsAlignedSize => Prod.fst <$> getArgsAlignedSize f

/-- The host passes a value for each parameter. -/
def Enabled (f : FunctionInfo) : KernelStep → Prop
  | .launch values => values.length = f.configs.length
  | .getArgsAlignedSize => True

def machine (f₀ : FunctionInfo) : TransitionSystem (Except ParamFailure FunctionInfo) KernelStep :=
  .ofExcept (· = f₀) Enabled step

/-- In any run of launches no assertion fails, the offsets and the addresses of the parameters are
those the parser has recorded, and each value is found at the address of its parameter. The
parameters keep apart and are aligned. -/
structure Agrees (decls : List ParamEntry) (f₀ : FunctionInfo) : Prop where
  succeeds : ∀ r, (machine f₀).Reachable r → ∃ f, r = .ok f
  offset : ∀ f, (machine f₀).Reachable (.ok f) → ∀ p ∈ f.params.zip f₀.configs,
    (∀ o ∈ p.1.offset, o = p.2.2) ∧ ∀ o ∈ p.1.address, o = p.2.2
  passes : ∀ f, (machine f₀).Reachable (.ok f) → ∀ values, values.length = decls.length →
    ∃ f' mem, launch f values = .ok (f', mem) ∧
      f'.params.map (·.address) = f₀.configs.map (some ·.2) ∧
      ∀ p ∈ decls.zip (values.zip f₀.configs),
        cells mem p.2.2.2 p.1.bytes = cells p.2.1 0 p.1.bytes
  disjoint : (decls.zip f₀.configs).Pairwise fun p q => p.2.2 + p.1.bytes ≤ q.2.2
  aligned : ∀ p ∈ decls.zip f₀.configs, p.1.requiredAlignment ∣ p.2.2

end GpuCalorie.Ptx.Params
