/-
# Symbol tables

The parser gives a variable its address where it is declared: the table of the scope has a cursor
for each memory, which is moved on behind the variable. A function has a table of its own, which
starts with the cursors of the module for shared and for global memory when the function is first
named, and a group of instructions starts with the cursors of its scope and gives them back.
-/

import GpuCalorie.Hardware.Isa
import GpuCalorie.Instructions.Register
import GpuCalorie.Math.Transition

namespace GpuCalorie.Ptx.Symbols

open GpuCalorie.Hardware GpuCalorie.Instructions

/-! ## Declarations -/

/-- The types of variables, and the sizes `type_decode` gives them. -/
inductive DeclaredType
  | scalar (type : ScalarType)
  | ff64
  | bb64
  | bb128
  | texref
  | samplerref
  | surfref
  deriving DecidableEq, Repr

/-- The size of a type, in bits. -/
def DeclaredType.size : DeclaredType → ℕ
  | .scalar type => type.size
  | .ff64 | .bb64 => 64
  | .bb128 => 128
  | .texref | .samplerref | .surfref => 32

/-- `.v2`, `.v3`, `.v4`, or none of them. -/
inductive VectorSpec
  | none
  | v2
  | v3
  | v4
  deriving DecidableEq, Repr

def VectorSpec.lanes : VectorSpec → ℕ
  | .none => 1
  | .v2 => 2
  | .v3 => 3
  | .v4 => 4

/-- `NON_ARRAY_IDENTIFIER`, `ARRAY_IDENTIFIER_NO_DIM` and `ARRAY_IDENTIFIER`. -/
inductive ArrayIdentifier
  | nonArray
  | noDim
  | dim (n : ℕ)
  deriving DecidableEq, Repr

/-- The declaration of a variable. -/
structure Declaration where
  name : String
  /-- The space of the directive; `.param` is unclassified. -/
  space : MemorySpace
  type : DeclaredType
  vector : VectorSpec := .none
  /-- `.align` -/
  alignment : Option ℕ := .none
  array : ArrayIdentifier := .nonArray
  deriving DecidableEq, Repr

namespace Declaration

variable (d : Declaration)

/-- `num_bits`. It is the size of an element, of a vector too, and has 64 bits for an array. -/
def numBits : ℕ := match d.array with
  | .nonArray => d.type.size
  | .noDim => 0
  | .dim n => n * d.type.size % 2 ^ 64

/-- `num_bits / 8`, as an `unsigned`. -/
def numBytes : ℕ := d.numBits / 8 % 2 ^ 32

/-- How many bytes the variable has. -/
def bytes : ℕ := match d.array with
  | .nonArray => (d.vector.lanes * d.type.size + 7) / 8
  | .noDim => 0
  | .dim n => (n * (d.vector.lanes * d.type.size) + 7) / 8

/-- The alignment that is declared, or that of an element. -/
def requiredAlignment : ℕ := d.alignment.getD ((d.vector.lanes * d.type.size + 7) / 8)

end Declaration

/-! ## Tables -/

/-- The memories in which variables are given addresses. Constants are in global memory, and
parameters that are declared in a function are in local memory. -/
inductive Arena
  | shared
  | sstarr
  | global
  | local
  deriving DecidableEq, Repr

/-- `symbol_table`, as far as addresses go. -/
structure SymbolTable where
  /-- The names that have been declared. -/
  symbols : List String := []
  /-- `m_shared_next`, `m_sstarr_next`, `m_global_next` and `m_local_next`. -/
  next : Arena → ℕ

/-- What `pad_address` aligns to. -/
def alignTo (size maxalign : ℕ) : ℕ :=
  if size < maxalign ∧ size &&& (size - 1) = 0 then size else maxalign

/-- `pad_address`. -/
def padAddress (address size maxalign : ℕ) : ℕ :=
  let alignto := alignTo size maxalign
  if alignto = 0 then 0 else (alignto - address % alignto) % alignto

namespace SymbolTable

variable (t : SymbolTable)

/-- The constructor of a table without a parent. It leaves `m_sstarr_next` as it is. -/
def root (sstarr : ℕ) : SymbolTable where
  next
    | .shared => 0
    | .sstarr => sstarr
    | .global => 0x100
    | .local => 0

/-- The constructor of a table with a parent. -/
def child (sstarr : ℕ) : SymbolTable where
  next
    | .shared => t.next .shared
    | .sstarr => sstarr
    | .global => t.next .global
    | .local => 0

/-- `start_inst_group`. -/
def startInstGroup (sstarr : ℕ) : SymbolTable where
  next
    | .shared => t.next .shared
    | .sstarr => sstarr
    | .global => t.next .global
    | .local => t.next .local

/-- `end_inst_group`, with the table of the group. -/
def endInstGroup (group : SymbolTable) : SymbolTable where
  symbols := t.symbols
  next
    | .shared => group.next .shared
    | .sstarr => t.next .sstarr
    | .global => group.next .global
    | .local => group.next .local

/-- `add_variable`. -/
def addVariable (name : String) : SymbolTable := { t with symbols := name :: t.symbols }

/-- `alloc_shared`, `alloc_sstarr`, `alloc_global` and `alloc_local`. -/
def alloc (arena : Arena) (numBytes : ℕ) : SymbolTable :=
  { t with next := Function.update t.next arena ((t.next arena + numBytes) % 2 ^ 32) }

theorem next_alloc_self (arena : Arena) (numBytes : ℕ) :
    (t.alloc arena numBytes).next arena = (t.next arena + numBytes) % 2 ^ 32 :=
  Function.update_self ..

theorem next_alloc_of_ne {a arena : Arena} (ha : a ≠ arena) (numBytes : ℕ) :
    (t.alloc arena numBytes).next a = t.next a :=
  Function.update_of_ne ha ..

end SymbolTable

/-! ## The parser -/

/-- `.entry`, `.func` and `.extern .func`. -/
inductive EntryPoint
  | kernel
  | device
  | external
  deriving DecidableEq, Repr

/-- The module, or a function. -/
inductive Home
  | module
  | function (name : String) (kernel : Bool)
  deriving DecidableEq, Repr

/-- A variable that has an address. -/
structure Variable where
  declaration : Declaration
  arena : Arena
  home : Home
  address : ℕ
  deriving DecidableEq, Repr

/-- The end of the bytes of a variable. -/
def Variable.stop (v : Variable) : ℕ := v.address + v.declaration.bytes

/-- `function_info`, as far as addresses go, and what had been declared when it was created. -/
structure FunctionInfo where
  entryPoint : EntryPoint
  symtab : SymbolTable
  /-- `m_local_mem_framesize` -/
  framesize : ℕ := 0
  inherited : List Variable

/-- `g_current_symbol_table`: the table of the module or of a function, or that of the innermost of
some groups. -/
structure CurrentTable where
  function : Option String := none
  groups : List SymbolTable := []

/-- `ptx_recognizer`, as far as addresses go. The parser is in a statement or in the head of a
function, in a body or in none. -/
structure Recognizer where
  module : SymbolTable
  functions : String → Option FunctionInfo := fun _ => none
  current : CurrentTable := {}
  /-- `g_func_info` -/
  funcInfo : Option String := none
  /-- `g_func_decl` -/
  funcDecl : Bool := false
  /-- `g_entry_point` -/
  entryPoint : EntryPoint := .device
  body : Option String := none
  /-- How many groups of the body are open. -/
  depth : ℕ := 0
  declared : List Variable := []

/-- The ways to fail of the parser. -/
inductive SymbolFailure
  | partialByte
  | abort
  /-- A null pointer is followed. -/
  | nullPointer
  deriving DecidableEq, Repr

namespace Recognizer

variable (s : Recognizer)

/-- The table of the module or of a function. -/
def symtab : Option String → SymbolTable
  | none => s.module
  | some name => ((s.functions name).map (·.symtab)).getD (.root 0)

/-- The table to which `g_current_symbol_table` points. -/
def currentTable : SymbolTable := s.current.groups.headD (s.symtab s.current.function)

/-- A function is changed. -/
def modifyFunction (name : String) (f : FunctionInfo → FunctionInfo) : Recognizer :=
  { s with functions := Function.update s.functions name ((s.functions name).map f) }

theorem functions_modifyFunction_self (name : String) (f : FunctionInfo → FunctionInfo) :
    (s.modifyFunction name f).functions name = (s.functions name).map f :=
  Function.update_self ..

theorem functions_modifyFunction_of_ne {g name : String} (hg : g ≠ name)
    (f : FunctionInfo → FunctionInfo) :
    (s.modifyFunction name f).functions g = s.functions g :=
  Function.update_of_ne hg ..

/-- The table of the module or of a function is changed. -/
def setSymtab (function : Option String) (t : SymbolTable) : Recognizer := match function with
  | none => { s with module := t }
  | some name => s.modifyFunction name fun info => { info with symtab := t }

/-- The table to which `g_current_symbol_table` points is changed. -/
def setCurrentTable (t : SymbolTable) : Recognizer := match s.current.groups with
  | [] => s.setSymtab s.current.function t
  | _ :: groups => { s with current := { s.current with groups := t :: groups } }

/-- The names that `lookup` finds. -/
def visible : List String :=
  s.current.groups.flatMap (·.symbols) ++ (s.symtab s.current.function).symbols ++ s.module.symbols

/-- The function in which the parser is, in its head or in its body. -/
def scope : Option String := if s.funcDecl then s.funcInfo else s.body

/-- Where a variable is declared. -/
def home : Home := match s.scope with
  | none => .module
  | some name => .function name ((s.functions name).any (·.entryPoint = .kernel))

/-- `add_space_spec`, and `add_type`. -/
def spaceSpec (space : MemorySpace) : MemorySpace :=
  if space = .paramSpaceUnclassified then
    if s.funcDecl ∧ s.entryPoint = .kernel then .paramSpaceKernel else .paramSpaceLocal
  else space

/-- The variable gets an address, and the cursor is moved behind it. -/
def place (arena : Arena) (padded : Bool) (d : Declaration) : Recognizer :=
  let t := s.currentTable
  let addr := t.next arena
  let addrPad := if padded then padAddress addr d.numBytes 128 else 0
  let s' := s.setCurrentTable ((t.addVariable d.name).alloc arena (d.numBytes + addrPad))
  { s' with declared := ⟨d, arena, s.home, (addr + addrPad) % 2 ^ 32⟩ :: s.declared }

theorem exists_declared_place (arena : Arena) (padded : Bool) (d : Declaration) :
    ∃ v, (s.place arena padded d).declared = v :: s.declared := ⟨_, rfl⟩

/-- `set_framesize`, with the cursor. -/
def setFramesize (name : String) : Recognizer :=
  s.modifyFunction name fun info => { info with framesize := s.currentTable.next .local }

/-- `add_identifier`, of a name that is new. -/
def addNew (d : Declaration) : Except SymbolFailure Recognizer :=
  match s.spaceSpec d.space with
  | .regSpace | .texSpace | .paramSpaceKernel =>
    .ok (s.setCurrentTable (s.currentTable.addVariable d.name))
  | .sharedSpace => if d.numBits % 8 = 0 then .ok (s.place .shared true d) else .error .partialByte
  | .sstarrSpace => if d.numBits % 8 = 0 then .ok (s.place .sstarr true d) else .error .partialByte
  | .constSpace =>
    if d.array = .noDim then .ok (s.setCurrentTable (s.currentTable.addVariable d.name))
    else if d.numBits % 8 = 0 then .ok (s.place .global true d) else .error .partialByte
  | .globalSpace => if d.numBits % 8 = 0 then .ok (s.place .global true d) else .error .partialByte
  | .localSpace =>
    if d.numBits % 8 = 0 then
      match s.funcInfo with
      | none => .ok (s.place .local true d)
      | some name => .ok ((s.place .local true d).setFramesize name)
    else .error .partialByte
  | .paramSpaceLocal =>
    if d.numBits % 8 = 0 then
      match s.funcInfo with
      | none => .error .nullPointer
      | some name => .ok ((s.place .local false d).setFramesize name)
    else .error .partialByte
  | _ => .error .abort

/-- `add_identifier`. -/
def addIdentifier (d : Declaration) : Except SymbolFailure Recognizer :=
  if d.name ∈ s.visible then .ok s else s.addNew d

/-- `start_function` and `add_function_name`. A function that is named for the first time gets a
table, in which `_` is declared. -/
def functionName (entryPoint : EntryPoint) (name : String) (sstarr : ℕ) : Recognizer :=
  let functions := match s.functions name with
    | some _ => s.functions
    | none => Function.update s.functions name (some
        { entryPoint := entryPoint
          symtab := (s.module.child sstarr).addVariable "_"
          inherited := s.declared })
  let module := if name ∈ s.module.symbols then s.module else s.module.addVariable name
  { s with
    functions := functions, module := module, current := { function := some name },
    funcInfo := some name, funcDecl := true, entryPoint := entryPoint }

/-- `add_label`. -/
def addLabel (name : String) : Recognizer :=
  if name ∈ s.visible then s else s.setCurrentTable (s.currentTable.addVariable name)

/-- The head of a function ends, with `reset_symtab`. -/
def functionDecl : Recognizer := { s with funcDecl := false, current := {} }

/-- A body follows the head of a function: `set_symtab`. -/
def functionBody : Recognizer :=
  { s with funcDecl := false, body := s.funcInfo, depth := 0 }

/-- `start_inst_group`. -/
def startInstGroup (sstarr : ℕ) : Recognizer :=
  { s with
    current := { s.current with
      groups := s.currentTable.startInstGroup sstarr :: s.current.groups }
    depth := s.depth + 1 }

/-- `end_inst_group`. The parent of the table of a function is that of the module, which has
none. -/
def endInstGroup : Except SymbolFailure Recognizer :=
  match s.current.groups, s.current.function with
  | group :: groups, _ =>
    let s' := { s with current := { s.current with groups := groups }, depth := s.depth - 1 }
    .ok (s'.setCurrentTable (s'.currentTable.endInstGroup group))
  | [], some name =>
    .ok { s with
      current := {}, depth := s.depth - 1
      module := s.module.endInstGroup (s.symtab (some name)) }
  | [], none => .error .nullPointer

/-- `end_function`. -/
def endFunction : Recognizer := { s with current := {}, body := none }

/-! ## Runs -/

/-- What the parser does when it has read a part of a program. The numbers are what is in the
memory of a table before it is constructed. -/
inductive Action
  | functionName (entryPoint : EntryPoint) (name : String) (sstarr : ℕ)
  | declare (d : Declaration)
  | label (name : String)
  | functionDecl
  | functionBody
  | startInstGroup (sstarr : ℕ)
  | endInstGroup
  | endFunction
  deriving DecidableEq, Repr

/-- The grammar admits the part. Functions may be declared in bodies, but have bodies only outside
of them. -/
def Enabled : Action → Prop
  | .functionName .. => s.funcDecl = false
  | .declare d =>
    s.funcDecl = true → d.space = .paramSpaceUnclassified ∨ d.space = .regSpace
  | .label _ | .startInstGroup _ => s.funcDecl = false ∧ s.body ≠ none
  | .functionDecl => s.funcDecl = true
  | .functionBody => s.funcDecl = true ∧ s.body = none
  | .endInstGroup => s.funcDecl = false ∧ s.body ≠ none ∧ 0 < s.depth
  | .endFunction => s.funcDecl = false ∧ s.body ≠ none ∧ s.depth = 0

instance : ∀ a, Decidable (s.Enabled a)
  | .functionName .. => inferInstanceAs (Decidable (_ = _))
  | .declare _ => inferInstanceAs (Decidable (_ → _))
  | .label _ | .startInstGroup _ | .functionBody | .endInstGroup | .endFunction =>
    inferInstanceAs (Decidable (_ ∧ _))
  | .functionDecl => inferInstanceAs (Decidable (_ = _))

/-- A step of the parser. -/
def step : Action → Except SymbolFailure Recognizer
  | .functionName entryPoint name sstarr => .ok (s.functionName entryPoint name sstarr)
  | .declare d => s.addIdentifier d
  | .label name => .ok (s.addLabel name)
  | .functionDecl => .ok s.functionDecl
  | .functionBody => .ok s.functionBody
  | .startInstGroup sstarr => .ok (s.startInstGroup sstarr)
  | .endInstGroup => s.endInstGroup
  | .endFunction => .ok s.endFunction

/-- The parser before it reads a program. -/
def Init : Prop := ∃ sstarr, s = { module := .root sstarr }

/-- The runs of the parser. -/
def machine : Math.TransitionSystem (Except SymbolFailure Recognizer) Action :=
  .ofExcept Init Enabled step

end Recognizer

end GpuCalorie.Ptx.Symbols
