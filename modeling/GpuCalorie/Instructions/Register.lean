/-
# Registers and operands of the functional model

Every register of a thread is a `ptx_reg_t`, a union of integer and floating-point
members that all start at bit 0. Instructions read their operands with
`get_operand_value`, work on the member their type names, and write a whole union back
with `set_operand_value`, so bits above the member an instruction works on may be
anything its predecessors left there.

Operands are registers and literals, with the half selection and the negation of the
native instruction set. Its doubled operands, its operands in memory, the vector
operands of 128-bit types and the bit bucket `_` are left out, and so is the record of
accesses a debug trace keeps.
-/

import Mathlib.Data.BitVec
import Mathlib.Logic.Function.Basic

namespace GpuCalorie.Instructions

/-- The scalar types of instructions. -/
inductive ScalarType
  | s8
  | s16
  | s32
  | s64
  | u8
  | u16
  | u32
  | u64
  | b8
  | b16
  | b32
  | b64
  | f16
  | f32
  | f64
  | pred
  deriving DecidableEq, Repr

/-- The size `type_decode` gives a type, in bits. -/
def ScalarType.size : ScalarType → ℕ
  | .s8 | .u8 | .b8 => 8
  | .s16 | .u16 | .b16 | .f16 => 16
  | .s32 | .u32 | .b32 | .f32 => 32
  | .s64 | .u64 | .b64 | .f64 => 64
  | .pred => 1

/-- The assertions an instruction can trip. -/
inductive ExecFailure
  /-- `get_operand_value` negates an operand of a type it has no case for. -/
  | negatedType
  /-- `CmpOp` has no case for the type or for the operator. -/
  | comparison
  /-- The switch of an instruction has no case for its type. -/
  | typeMismatch
  /-- `offset >= 0` in `vote_impl` -/
  | noActiveLane
  /-- A lane number outside the mask in `shfl_impl` -/
  | laneOutOfRange
  deriving DecidableEq, Repr

/-- `ptx_reg_t`: its members are the low bits of one word. -/
structure PtxReg where
  u64 : BitVec 64
  deriving DecidableEq, Repr

namespace PtxReg

/-- The member of a width; a signed member has the bits of the unsigned one. -/
def low (w : ℕ) (r : PtxReg) : BitVec w :=
  r.u64.setWidth w

abbrev u8 (r : PtxReg) : BitVec 8 := r.low 8

abbrev u16 (r : PtxReg) : BitVec 16 := r.low 16

abbrev u32 (r : PtxReg) : BitVec 32 := r.low 32

/-- The four flag bits; bit 0 is the zero flag. -/
abbrev pred (r : PtxReg) : BitVec 4 := r.low 4

/-- A union that was zero before its member was assigned. -/
def ofBits {w : ℕ} (x : BitVec w) : PtxReg :=
  ⟨x.setWidth 64⟩

/-- The assignment to one member: the bits above it stay. -/
def setLow {w : ℕ} (r : PtxReg) (x : BitVec w) : PtxReg :=
  ⟨(r.u64 >>> w) <<< w ||| x.setWidth 64⟩

@[simp]
theorem low_u64 (w : ℕ) (x : BitVec 64) : (PtxReg.mk x).low w = x.setWidth w :=
  rfl

@[simp]
theorem low_ofBits {v : ℕ} (w : ℕ) (x : BitVec v) :
    (ofBits x).low w = (x.setWidth 64).setWidth w :=
  rfl

theorem low_setLow {w : ℕ} (hw : w ≤ 64) (r : PtxReg) (x : BitVec w) :
    (r.setLow x).low w = x := by
  apply BitVec.eq_of_getLsbD_eq
  intro i hi
  have hlow : i < 64 := Nat.lt_of_lt_of_le hi hw
  simp [setLow, hi, hlow]

end PtxReg

/-- The registers of a thread. One that was never written reads as zero. -/
abbrev RegisterFile := ℕ → PtxReg

/-! ## Operands -/

/-- Where an operand's value is. -/
inductive OperandSource
  | reg (symbol : ℕ)
  | literal (value : PtxReg)
  deriving DecidableEq, Repr

/-- `get_operand_lohi`: the whole register or one of its lower two halves. -/
inductive OperandHalf
  | whole
  | lo
  | hi
  deriving DecidableEq, Repr

/-- `operand_info`, for a source. -/
structure Operand where
  source : OperandSource
  lohi : OperandHalf := .whole
  neg : Bool := false
  deriving DecidableEq, Repr

/-- What an operand names, before its modifiers. -/
def OperandSource.value (regs : RegisterFile) : OperandSource → PtxReg
  | .reg symbol => regs symbol
  | .literal value => value

/-- The half of a register that an operand selects. -/
def OperandHalf.select (r : PtxReg) : OperandHalf → PtxReg
  | .whole => r
  | .lo => ⟨r.u64 &&& 0xFFFF⟩
  | .hi => ⟨(r.u64 >>> 16) &&& 0xFFFF⟩

/-- The value of an operand before its negation. -/
def Operand.fetch (regs : RegisterFile) (op : Operand) : PtxReg :=
  op.lohi.select (op.source.value regs)

/-- The last switch of `get_operand_value`: negate the member of the type. A
floating-point number is negated by its sign bit. -/
def negate (opType : ScalarType) (r : PtxReg) : Except ExecFailure PtxReg :=
  match opType with
  | .s8 | .u8 | .b8 => .ok (r.setLow (-r.low 8))
  | .s16 | .u16 | .b16 => .ok (r.setLow (-r.low 16))
  | .s32 | .u32 | .b32 => .ok (r.setLow (-r.low 32))
  | .s64 | .u64 | .b64 => .ok (r.setLow (-r.low 64))
  | .f16 => .ok (r.setLow (r.low 16 ^^^ 0x8000))
  | .f32 => .ok (r.setLow (r.low 32 ^^^ 0x80000000))
  | .f64 => .ok (r.setLow (r.low 64 ^^^ 0x8000000000000000))
  | .pred => .error .negatedType

/-- `get_operand_value`. -/
def getOperandValue (regs : RegisterFile) (op : Operand) (opType : ScalarType) :
    Except ExecFailure PtxReg :=
  if op.neg then negate opType (op.fetch regs) else .ok (op.fetch regs)

/-- `operand_info`, for a destination register. -/
structure Destination where
  symbol : ℕ
  lohi : OperandHalf := .whole
  deriving DecidableEq, Repr

/-- `set_operand_value`. The mask of the upper half is an `unsigned`, so its complement
also clears the upper word. -/
def setOperandValue (regs : RegisterFile) (dst : Destination) (data : PtxReg) : RegisterFile :=
  Function.update regs dst.symbol <|
    match dst.lohi with
    | .whole => data
    | .lo => ⟨((regs dst.symbol).u64 &&& 0xFFFFFFFFFFFF0000) + (data.u64 &&& 0xFFFF)⟩
    | .hi => ⟨((regs dst.symbol).u64 &&& 0xFFFF) + ((data.u64 <<< 16) &&& 0xFFFF0000)⟩

theorem negate_ok {opType : ScalarType} (hpred : opType ≠ .pred) (r : PtxReg) :
    ∃ value, negate opType r = .ok value := by
  cases opType with
  | pred => exact absurd rfl hpred
  | _ => exact ⟨_, rfl⟩

theorem getOperandValue_ok {opType : ScalarType} (hpred : opType ≠ .pred) (regs : RegisterFile)
    (op : Operand) : ∃ value, getOperandValue regs op opType = .ok value := by
  by_cases hneg : op.neg
  · rw [getOperandValue, if_pos hneg]
    exact negate_ok hpred _
  · rw [getOperandValue, if_neg hneg]
    exact ⟨_, rfl⟩

/-- Whether an operand reads a register. -/
def Operand.reads (op : Operand) (symbol : ℕ) : Prop :=
  op.source = .reg symbol

theorem getOperandValue_congr {regs regs' : RegisterFile} {op : Operand} (opType : ScalarType)
    (same : ∀ symbol, op.reads symbol → regs symbol = regs' symbol) :
    getOperandValue regs op opType = getOperandValue regs' op opType := by
  have hvalue : op.source.value regs = op.source.value regs' := by
    cases hsource : op.source with
    | reg symbol => exact same symbol hsource
    | literal value => rfl
  rw [getOperandValue, getOperandValue, Operand.fetch, Operand.fetch, hvalue]

end GpuCalorie.Instructions
