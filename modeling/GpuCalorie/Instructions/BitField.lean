/-
# Instructions on bits and bit fields

`bfe_impl` extracts a field of bits, `bfi_impl` inserts one, `brev_impl` reverses the bits of a
word and `bfind_impl` looks for its most significant bit. The last three are loops over bits that
are made with `1 << i`, which is an `int` whatever the type of the instruction.

A shift by the width of its operand or more has no defined result and ends the instruction.
Amounts are computed as `unsigned`, so that a difference below zero is a large amount.
-/

import GpuCalorie.Instructions.Register

namespace GpuCalorie.Instructions

/-- What can go wrong in these instructions. -/
inductive BitFailure
  /-- An assertion, or a type without a case. -/
  | exec (e : ExecFailure)
  /-- A shift by the width of its operand or more. -/
  | shiftAmount
  /-- The loop of `bfind_impl` has not ended. -/
  | outOfFuel
  deriving DecidableEq, Repr

/-- A source operand. -/
def bitOperand (regs : RegisterFile) (op : Operand) (type : ScalarType) :
    Except BitFailure PtxReg :=
  (getOperandValue regs op type).mapError .exec

/-! ## Shifts with a defined result -/

section Shifts

variable {w : ℕ} (x : BitVec w) (amount : ℕ)

/-- `x << amount` -/
def shiftLeft : Except BitFailure (BitVec w) :=
  if amount < w then .ok (x <<< amount) else .error .shiftAmount

/-- `x >> amount` of an unsigned number. -/
def shiftRight : Except BitFailure (BitVec w) :=
  if amount < w then .ok (x >>> amount) else .error .shiftAmount

/-- `x >> amount` of a signed number. -/
def shiftRightSigned : Except BitFailure (BitVec w) :=
  if amount < w then .ok (x.sshiftRight amount) else .error .shiftAmount

variable {x amount}

theorem shiftLeft_ok (h : amount < w) : shiftLeft x amount = .ok (x <<< amount) :=
  if_pos h

theorem shiftLeft_error (h : w ≤ amount) : shiftLeft x amount = .error .shiftAmount :=
  if_neg (Nat.not_lt.mpr h)

theorem shiftRight_ok (h : amount < w) : shiftRight x amount = .ok (x >>> amount) :=
  if_pos h

theorem shiftRight_error (h : w ≤ amount) : shiftRight x amount = .error .shiftAmount :=
  if_neg (Nat.not_lt.mpr h)

theorem shiftRightSigned_ok (h : amount < w) :
    shiftRightSigned x amount = .ok (x.sshiftRight amount) :=
  if_pos h

theorem shiftRightSigned_error (h : w ≤ amount) :
    shiftRightSigned x amount = .error .shiftAmount :=
  if_neg (Nat.not_lt.mpr h)

end Shifts

/-- The difference of two numbers as an `unsigned`. -/
def unsignedSub (a b : ℕ) : ℕ :=
  (a + (2 ^ 32 - b)) % 2 ^ 32

/-- The position or the length in the low byte of a register. -/
def lowByte (r : PtxReg) : ℕ :=
  (r.u32 &&& 0xFF).toNat

/-! ## bfe -/

/-- The cases of unsigned types. -/
def bfeUnsigned {w : ℕ} (src : BitVec w) (pos len : ℕ) : Except BitFailure (BitVec w) := do
  let data ← shiftRight src pos
  let mask ← shiftRight (BitVec.allOnes w) (unsignedSub w len)
  return data &&& mask

/-- `sbit`, the sign of a field that ends below the most significant bit or there. -/
def fieldSign {w : ℕ} (src : BitVec w) (pos len : ℕ) : Except BitFailure (BitVec w) :=
  let min := min (unsignedSub (pos + len) 1) (w - 1)
  if len = 0 then .ok 0 else do return (← shiftRightSigned src min) &&& 1

/-- The field with its sign above it. -/
def extendField {w : ℕ} (sbit data : BitVec w) (len : ℕ) : Except BitFailure (BitVec w) :=
  if 0 < sbit.toNat then do
    let mask ← shiftLeft (BitVec.allOnes w) len
    return data ||| mask
  else do
    let mask ← shiftRight (BitVec.allOnes w) (unsignedSub w len)
    return data &&& mask

/-- The cases of signed types. -/
def bfeSigned {w : ℕ} (src : BitVec w) (pos len : ℕ) : Except BitFailure (BitVec w) := do
  let sbit ← fieldSign src pos len
  let data ← shiftRightSigned src pos
  extendField sbit data len

/-- The switch of `bfe_impl`. -/
def bfeData (type : ScalarType) (src b c : PtxReg) : Except BitFailure PtxReg :=
  let pos := lowByte b
  let len := lowByte c
  match type with
  | .u32 => return .ofBits (← bfeUnsigned src.u32 pos len)
  | .u64 => return .ofBits (← bfeUnsigned src.u64 pos len)
  | .s32 => return .ofBits (← bfeSigned src.u32 pos len)
  | .s64 => return .ofBits (← bfeSigned src.u64 pos len)
  | _ => .error (.exec .typeMismatch)

/-- An instruction with three source operands. -/
structure TernaryInst where
  type : ScalarType
  dst : ℕ
  src1 : Operand
  src2 : Operand
  src3 : Operand

/-- `bfe_impl` -/
def bfeImpl (pI : TernaryInst) (regs : RegisterFile) : Except BitFailure RegisterFile := do
  let src ← bitOperand regs pI.src1 pI.type
  let b ← bitOperand regs pI.src2 pI.type
  let c ← bitOperand regs pI.src3 pI.type
  let data ← bfeData pI.type src b c
  return setOperandValue regs ⟨pI.dst, .whole⟩ data

/-! ## bfi -/

/-- One bit of the field. -/
def bfiBit (src1 : PtxReg) (pos i : ℕ) (data : PtxReg) : Except BitFailure PtxReg := do
  let data := data.setLow (~~~(← shiftLeft (1 : BitVec 32) (pos + i)) &&& data.u32)
  let bit ← shiftLeft (src1.u32 &&& (← shiftLeft (1 : BitVec 32) i)) pos
  return data.setLow (data.u32 ||| bit)

/-- The loop of `bfi_impl` from `i` on, with the number of bits that are left of the field. -/
def bfiFrom (src1 : PtxReg) (pos max : ℕ) : ℕ → ℕ → PtxReg → Except BitFailure PtxReg
  | 0, _, data => .ok data
  | left + 1, i, data =>
    if pos + i < max then do bfiFrom src1 pos max left (i + 1) (← bfiBit src1 pos i data)
    else .ok data

/-- The result of `bfi_impl`. -/
def bfiData (type : ScalarType) (src1 src2 src3 src4 : PtxReg) : Except BitFailure PtxReg :=
  let pos := lowByte src3
  let len := lowByte src4
  match type with
  | .b32 => bfiFrom src1 pos 32 len 0 src2
  | .b64 => bfiFrom src1 pos 64 len 0 src2
  | _ => .error (.exec .typeMismatch)

/-- An instruction with four source operands. -/
structure QuaternaryInst extends TernaryInst where
  src4 : Operand

/-- `bfi_impl` -/
def bfiImpl (pI : QuaternaryInst) (regs : RegisterFile) : Except BitFailure RegisterFile := do
  let src1 ← bitOperand regs pI.src1 pI.type
  let src2 ← bitOperand regs pI.src2 pI.type
  let src3 ← bitOperand regs pI.src3 pI.type
  let src4 ← bitOperand regs pI.src4 pI.type
  let data ← bfiData pI.type src1 src2 src3 src4
  return setOperandValue regs ⟨pI.dst, .whole⟩ data

/-! ## brev -/

/-- One bit of the word; an `int` is extended by its sign. -/
def brevBit {w : ℕ} (src1 : BitVec w) (msb i : ℕ) (data : BitVec w) :
    Except BitFailure (BitVec w) := do
  let bit ← shiftLeft (1 : BitVec 32) i
  if src1 &&& bit.signExtend w ≠ 0 then
    return data ||| (← shiftLeft (1 : BitVec 32) (msb - i)).signExtend w
  else return data

/-- The loop of `brev_impl` over the bits below `n`. -/
def brevBelow {w : ℕ} (src1 : BitVec w) (msb : ℕ) : ℕ → Except BitFailure (BitVec w)
  | 0 => .ok 0
  | n + 1 => do brevBit src1 msb n (← brevBelow src1 msb n)

/-- The switch of `brev_impl`. -/
def brevData (type : ScalarType) (src1 : PtxReg) : Except BitFailure PtxReg :=
  match type with
  | .b32 => return .ofBits (← brevBelow src1.u32 31 32)
  | .b64 => return .ofBits (← brevBelow src1.u64 63 64)
  | _ => .error (.exec .typeMismatch)

/-- An instruction with one source operand. -/
structure UnaryInst where
  type : ScalarType
  dst : ℕ
  src1 : Operand

/-- `brev_impl` -/
def brevImpl (pI : UnaryInst) (regs : RegisterFile) : Except BitFailure RegisterFile := do
  let src1 ← bitOperand regs pI.src1 pI.type
  let data ← brevData pI.type src1
  return setOperandValue regs ⟨pI.dst, .whole⟩ data

/-! ## bfind -/

/-- `a & (1 << i)` -/
def testBit (a : BitVec 64) (i : ℕ) : Except BitFailure Bool := do
  return a &&& (← shiftLeft (1 : BitVec 32) i).signExtend 64 ≠ 0

/-- The loop of `bfind_impl` from `i` on. The condition `i >= 0` of an unsigned number is always
true. -/
def bfindFrom (a : BitVec 64) : ℕ → BitVec 32 → Except BitFailure (BitVec 32)
  | 0, _ => .error .outOfFuel
  | fuel + 1, i => do
    if ← testBit a i.toNat then return i else bfindFrom a fuel (i - 1)

/-- The operand as an `unsigned long`. -/
def bfindValue (type : ScalarType) (src1 : PtxReg) : Except BitFailure (BitVec 64) :=
  match type with
  | .s32 => .ok (src1.u32.signExtend 64)
  | .u32 => .ok (src1.u32.setWidth 64)
  | .s64 | .u64 => .ok src1.u64
  | _ => .error (.exec .typeMismatch)

/-- What `bfind_impl` stores. -/
def bfindData (type : ScalarType) (src1 : PtxReg) (fuel : ℕ) : Except BitFailure PtxReg := do
  let msb := if type = .u32 ∨ type = .s32 then 31 else 63
  let a ← bfindValue type src1
  let negative ← if type = .s32 ∨ type = .s64 then testBit a msb else pure false
  let a := if negative then ~~~a else a
  return .ofBits (← bfindFrom a fuel (BitVec.ofNat 32 msb))

/-- `bfind_impl` -/
def bfindImpl (fuel : ℕ) (pI : UnaryInst) (regs : RegisterFile) :
    Except BitFailure RegisterFile := do
  let src1 ← bitOperand regs pI.src1 pI.type
  let data ← bfindData pI.type src1 fuel
  return setOperandValue regs ⟨pI.dst, .whole⟩ data

end GpuCalorie.Instructions
