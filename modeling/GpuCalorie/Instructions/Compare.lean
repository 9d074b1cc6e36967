/-
# Comparisons: setp and set

`CmpOp` compares two registers through the member of the instruction's type; `setp_impl`
writes the result to a predicate register as a zero flag, `set_impl` writes it to a
register as a full word or as 1.0. The cases of the bit types fall through: a comparison
of 16 or 32 bits goes on to compare 64.

Floating-point numbers are compared by sign and magnitude of their representation, which
is the order of the numbers, with both zeros equal.
-/

import GpuCalorie.Instructions.Register

namespace GpuCalorie.Instructions

/-- The comparison operators of instructions. -/
inductive CmpOption
  | eq
  | ne
  | lt
  | le
  | gt
  | ge
  | lo
  | ls
  | hi
  | hs
  | equ
  | neu
  | ltu
  | leu
  | gtu
  | geu
  | num
  | nan
  deriving DecidableEq, Repr

/-- The comparison of a bit type. -/
def compareBits {w : ℕ} (x y : BitVec w) : CmpOption → Except ExecFailure Bool
  | .eq => .ok (x == y)
  | .ne => .ok (x != y)
  | _ => .error .comparison

/-- The comparison of signed members. -/
def compareSigned {w : ℕ} (x y : BitVec w) : CmpOption → Except ExecFailure Bool
  | .eq => .ok (x == y)
  | .ne => .ok (x != y)
  | .lt => .ok (x.slt y)
  | .le => .ok (x.sle y)
  | .gt => .ok (y.slt x)
  | .ge => .ok (y.sle x)
  | _ => .error .comparison

/-- The comparison of unsigned members. -/
def compareUnsigned {w : ℕ} (x y : BitVec w) : CmpOption → Except ExecFailure Bool
  | .eq => .ok (x == y)
  | .ne => .ok (x != y)
  | .lt | .lo => .ok (x.ult y)
  | .le | .ls => .ok (x.ule y)
  | .gt | .hi => .ok (y.ult x)
  | .ge | .hs => .ok (y.ule x)
  | _ => .error .comparison

/-! ## Floating-point numbers -/

/-- `isNaN`: all exponent bits are set, and some bit of the fraction is. -/
def isNaN {w : ℕ} (fraction : ℕ) (x : BitVec w) : Bool :=
  let magnitude := x.toNat % 2 ^ (w - 1)
  decide (2 ^ (w - 1) - 2 ^ fraction < magnitude)

/-- A number that orders like the floating-point number it represents. -/
def floatKey {w : ℕ} (x : BitVec w) : ℤ :=
  if x.msb then -((x.toNat % 2 ^ (w - 1) : ℕ) : ℤ) else (x.toNat : ℤ)

/-- The comparison of floating-point members: the plain operators are false when an
operand is not a number, the unordered ones are true. -/
def compareFloat {w : ℕ} (fraction : ℕ) (x y : BitVec w) (op : CmpOption) :
    Except ExecFailure Bool :=
  let number := !isNaN fraction x && !isNaN fraction y
  let kx := floatKey x
  let ky := floatKey y
  match op with
  | .eq => .ok (decide (kx = ky) && number)
  | .ne => .ok (decide (kx ≠ ky) && number)
  | .lt => .ok (decide (kx < ky) && number)
  | .le => .ok (decide (kx ≤ ky) && number)
  | .gt => .ok (decide (ky < kx) && number)
  | .ge => .ok (decide (ky ≤ kx) && number)
  | .equ => .ok (decide (kx = ky) || !number)
  | .neu => .ok (decide (kx ≠ ky) || !number)
  | .ltu => .ok (decide (kx < ky) || !number)
  | .leu => .ok (decide (kx ≤ ky) || !number)
  | .gtu => .ok (decide (ky < kx) || !number)
  | .geu => .ok (decide (ky ≤ kx) || !number)
  | .num => .ok number
  | .nan => .ok !number
  | _ => .error .comparison

/-! ## The instructions -/

/-- `CmpOp`. The cases `B16_TYPE` and `B32_TYPE` have no break: the result is that of the
64-bit comparison they end in. -/
def cmpOp (type : ScalarType) (a b : PtxReg) (cmpop : CmpOption) : Except ExecFailure Bool :=
  match type with
  | .b16 => do
      let _ ← compareBits a.u16 b.u16 cmpop
      let _ ← compareBits a.u32 b.u32 cmpop
      compareBits a.u64 b.u64 cmpop
  | .b32 => do
      let _ ← compareBits a.u32 b.u32 cmpop
      compareBits a.u64 b.u64 cmpop
  | .b64 => compareBits a.u64 b.u64 cmpop
  | .s8 | .s16 => compareSigned a.u16 b.u16 cmpop
  | .s32 => compareSigned a.u32 b.u32 cmpop
  | .s64 => compareSigned a.u64 b.u64 cmpop
  | .u8 | .u16 => compareUnsigned a.u16 b.u16 cmpop
  | .u32 => compareUnsigned a.u32 b.u32 cmpop
  | .u64 => compareUnsigned a.u64 b.u64 cmpop
  | .f32 => compareFloat 23 a.u32 b.u32 cmpop
  | .f64 => compareFloat 52 a.u64 b.u64 cmpop
  | .b8 | .f16 | .pred => .error .comparison

/-- `isFloat`. -/
def isFloat : ScalarType → Bool
  | .f16 | .f32 | .f64 => true
  | _ => false

/-- `my_abs` on a signed member. -/
def myAbs {w : ℕ} (x : BitVec w) : BitVec w :=
  if x.slt 0 then -x else x

/-- `my_abs` on a floating-point member: a number below zero loses its sign. -/
def myAbsFloat {w : ℕ} (fraction : ℕ) (x : BitVec w) : BitVec w :=
  if floatKey x < 0 ∧ isNaN fraction x = false then x ^^^ BitVec.twoPow w (w - 1) else x

/-- The operand modifier of `set_impl`: an unsigned member is its own absolute value. -/
def setAbs (type : ScalarType) (a : PtxReg) : Except ExecFailure PtxReg :=
  match type with
  | .s16 => .ok (a.setLow (myAbs a.u16))
  | .s32 => .ok (a.setLow (myAbs a.u32))
  | .s64 => .ok (a.setLow (myAbs a.u64))
  | .u16 | .u32 | .u64 => .ok a
  | .f32 => .ok (a.setLow (myAbsFloat 23 a.u32))
  | .f64 => .ok (a.setLow (myAbsFloat 52 a.u64))
  | .s8 | .u8 | .b8 | .b16 | .b32 | .b64 | .f16 | .pred => .error .typeMismatch

/-- An instruction with two source operands and a destination register. Its type is that
of the sources. -/
structure BinaryInst where
  type : ScalarType
  dst : ℕ
  src1 : Operand
  src2 : Operand
  deriving DecidableEq, Repr

/-- `setp_impl`. The zero flag is set when the comparison is false. -/
def setpImpl (cmpop : CmpOption) (pI : BinaryInst) (regs : RegisterFile) :
    Except ExecFailure RegisterFile := do
  let a ← getOperandValue regs pI.src1 pI.type
  let b ← getOperandValue regs pI.src2 pI.type
  let t ← cmpOp pI.type a b cmpop
  pure (setOperandValue regs ⟨pI.dst, .whole⟩ (.ofBits (if t then 0 else 1 : BitVec 4)))

/-- `set_impl`. -/
def setImpl (cmpop : CmpOption) (abs : Bool) (dstType : ScalarType) (pI : BinaryInst)
    (regs : RegisterFile) : Except ExecFailure RegisterFile := do
  let a ← getOperandValue regs pI.src1 pI.type
  let b ← getOperandValue regs pI.src2 pI.type
  let a ← if abs then setAbs pI.type a else pure a
  let t ← cmpOp pI.type a b cmpop
  let data : BitVec 32 :=
    if isFloat dstType then if t then 0x3F800000 else 0
    else if t then 0xFFFFFFFF else 0
  pure (setOperandValue regs ⟨pI.dst, .whole⟩ (.ofBits data))

end GpuCalorie.Instructions

/-!
## Addition and shifts

`add_impl`, `shl_impl` and `shr_impl` compute in the member of the instruction's type and
write the whole union. An addition of a narrow type leaves its carry above that member.
The shifts test their amount against the width of the type in one member and shift by
another one; where the two differ, a 64-bit shift by 64 or more can happen, which the
language leaves undefined. What the compiled program does there is a parameter.
-/

namespace GpuCalorie.Instructions

/-- `add_impl` for the integer types. Flags only go to a doubled destination. -/
def addData (type : ScalarType) (a b : PtxReg) : Except ExecFailure PtxReg :=
  match type with
  | .s8 | .u8 => .ok ⟨a.u8.setWidth 64 + b.u8.setWidth 64⟩
  | .s16 | .u16 => .ok ⟨a.u16.setWidth 64 + b.u16.setWidth 64⟩
  | .s32 | .u32 => .ok ⟨a.u32.setWidth 64 + b.u32.setWidth 64⟩
  | .s64 | .u64 => .ok ⟨a.u64 + b.u64⟩
  | _ => .error .typeMismatch

def addImpl (pI : BinaryInst) (regs : RegisterFile) : Except ExecFailure RegisterFile := do
  let a ← getOperandValue regs pI.src1 pI.type
  let b ← getOperandValue regs pI.src2 pI.type
  let data ← addData pI.type a b
  pure (setOperandValue regs ⟨pI.dst, .whole⟩ data)

/-- What the compiled program does for a 64-bit shift by an amount of at least 64. -/
structure WideShift where
  shl : BitVec 64 → BitVec 64 → BitVec 64
  shr : BitVec 64 → BitVec 64 → BitVec 64

/-- `shl_impl`: the result. -/
def shlData (wide : WideShift) (type : ScalarType) (a b : PtxReg) : Except ExecFailure PtxReg :=
  match type with
  | .b16 | .u16 => .ok (.ofBits (if 16 ≤ b.u16.toNat then 0 else a.u16 <<< b.u16.toNat))
  | .b32 | .u32 => .ok (.ofBits (if 32 ≤ b.u32.toNat then 0 else a.u32 <<< b.u32.toNat))
  | .b64 | .u64 =>
      .ok ⟨if 64 ≤ b.u32.toNat then 0
        else if b.u64.toNat < 64 then a.u64 <<< b.u64.toNat else wide.shl a.u64 b.u64⟩
  | _ => .error .typeMismatch

/-- `shr_impl`: the result. A signed type fills the whole union with its sign; an amount
too large for 64 bits that is negative as an `int` clears the lower word again. -/
def shrData (wide : WideShift) (type : ScalarType) (a b : PtxReg) : Except ExecFailure PtxReg :=
  match type with
  | .u16 | .b16 => .ok (.ofBits (if b.u16.toNat < 16 then a.u16 >>> b.u16.toNat else 0))
  | .u32 | .b32 => .ok (.ofBits (if b.u32.toNat < 32 then a.u32 >>> b.u32.toNat else 0))
  | .u64 | .b64 =>
      .ok ⟨if b.u32.toNat < 64 then
          if b.u64.toNat < 64 then a.u64 >>> b.u64.toNat else wide.shr a.u64 b.u64
        else 0⟩
  | .s16 =>
      .ok ⟨if b.u16.toNat < 16 then (a.u16.sshiftRight b.u16.toNat).signExtend 64
        else if a.u16.slt 0 then -1 else 0⟩
  | .s32 =>
      .ok ⟨if b.u32.toNat < 32 then (a.u32.sshiftRight b.u32.toNat).signExtend 64
        else if a.u32.slt 0 then -1 else 0⟩
  | .s64 =>
      .ok ⟨if b.u64.toNat < 64 then a.u64.sshiftRight b.u64.toNat
        else if a.u64.slt 0 then
          if b.u32.slt 0 then 0xFFFFFFFF00000000 else -1
        else 0⟩
  | _ => .error .typeMismatch

/-- `shl_impl`. -/
def shlImpl (wide : WideShift) (pI : BinaryInst) (regs : RegisterFile) :
    Except ExecFailure RegisterFile := do
  let a ← getOperandValue regs pI.src1 pI.type
  let b ← getOperandValue regs pI.src2 pI.type
  let data ← shlData wide pI.type a b
  pure (setOperandValue regs ⟨pI.dst, .whole⟩ data)

/-- `shr_impl`. -/
def shrImpl (wide : WideShift) (pI : BinaryInst) (regs : RegisterFile) :
    Except ExecFailure RegisterFile := do
  let a ← getOperandValue regs pI.src1 pI.type
  let b ← getOperandValue regs pI.src2 pI.type
  let data ← shrData wide pI.type a b
  pure (setOperandValue regs ⟨pI.dst, .whole⟩ data)

end GpuCalorie.Instructions
