/-
# Atomic operations

`atom_callback` has a switch over the operations, and in each case one over the types that the
operation accepts. A leaf of the two works on the member of the unions that has the type. What
the leaves have in common is that the operands stand for numbers, and that the result is the
number the operation gives, in the bits of the type. Sums of floating-point numbers are those of
the host.
-/

import GpuCalorie.DeviceMemory.Flat
import GpuCalorie.DeviceMemory.Generic
import GpuCalorie.Instructions.Register
import GpuCalorie.Math.Bytes
import Mathlib.Tactic.Common

namespace GpuCalorie.Atomics

open GpuCalorie.Instructions

/-- The operations of the grammar. -/
inductive AtomicOp
  | popc
  | and
  | or
  | xor
  | cas
  | exch
  | add
  | inc
  | dec
  | min
  | max
  deriving DecidableEq, Repr

/-- The assertions of the switch. -/
inductive OperationFailure
  | operand (e : ExecFailure)
  /-- "type mismatch with instruction". -/
  | typeMismatch
  /-- The operation has no case. -/
  | operation
  deriving DecidableEq, Repr

/-! ## The switch -/

section Macros

variable {w : ℕ}

/-- `MY_MAX_I` on an unsigned member. -/
def myMaxU (a b : BitVec w) : BitVec w := if b.ult a then a else b

/-- `MY_MAX_I` on a signed member. -/
def myMaxS (a b : BitVec w) : BitVec w := if b.slt a then a else b

/-- `MY_MIN_I` on an unsigned member. -/
def myMinU (a b : BitVec w) : BitVec w := if a.ult b then a else b

/-- `MY_MIN_I` on a signed member. -/
def myMinS (a b : BitVec w) : BitVec w := if a.slt b then a else b

/-- `MY_INC_I`. -/
def myIncI (a b : BitVec w) : BitVec w := if a ≥ b then 0 else a + 1

/-- `MY_DEC_I`. -/
def myDecI (a b : BitVec w) : BitVec w := if a = 0 ∨ a > b then b else a - 1

/-- `MY_CAS_I`. -/
def myCasI (a b c : BitVec w) : BitVec w := if a = b then c else a

/-- `MY_EXCH`. -/
def myExch (_a b : BitVec w) : BitVec w := b

end Macros

/-- The switch of `atom_callback`. The operand `c` is fetched where it is used. -/
def atomResult (addF32 : BitVec 32 → BitVec 32 → BitVec 32) (op : AtomicOp) (toType : ScalarType)
    (data src2 : PtxReg) (src3 : Except ExecFailure PtxReg) :
    Except OperationFailure PtxReg :=
  match op with
  | .and => match toType with
    | .b32 | .u32 | .s32 => .ok (.ofBits (data.u32 &&& src2.u32))
    | _ => .error .typeMismatch
  | .or => match toType with
    | .b32 | .u32 | .s32 => .ok (.ofBits (data.u32 ||| src2.u32))
    | _ => .error .typeMismatch
  | .xor => match toType with
    | .b32 | .u32 | .s32 => .ok (.ofBits (data.u32 ^^^ src2.u32))
    | _ => .error .typeMismatch
  | .cas => match src3 with
    | .error e => .error (.operand e)
    | .ok src3 => match toType with
      | .b32 | .u32 | .s32 => .ok (.ofBits (myCasI data.u32 src2.u32 src3.u32))
      | .b64 | .u64 => .ok (.ofBits (myCasI data.u64 src2.u64 src3.u64))
      | _ => .error .typeMismatch
  | .exch => match toType with
    | .b32 | .u32 | .s32 => .ok (.ofBits (myExch data.u32 src2.u32))
    | .b64 | .u64 => .ok (.ofBits (myExch data.u64 src2.u64))
    | _ => .error .typeMismatch
  | .add => match toType with
    | .u32 | .s32 => .ok (.ofBits (data.u32 + src2.u32))
    | .u64 => .ok (.ofBits (data.u64 + src2.u64))
    | .f32 => .ok (.ofBits (addF32 data.u32 src2.u32))
    | _ => .error .typeMismatch
  | .inc => match toType with
    | .u32 => .ok (.ofBits (myIncI data.u32 src2.u32))
    | _ => .error .typeMismatch
  | .dec => match toType with
    | .u32 => .ok (.ofBits (myDecI data.u32 src2.u32))
    | _ => .error .typeMismatch
  | .min => match toType with
    | .u32 => .ok (.ofBits (myMinU data.u32 src2.u32))
    | .s32 => .ok (.ofBits (myMinS data.u32 src2.u32))
    | _ => .error .typeMismatch
  | .max => match toType with
    | .u32 => .ok (.ofBits (myMaxU data.u32 src2.u32))
    | .s32 => .ok (.ofBits (myMaxS data.u32 src2.u32))
    | _ => .error .typeMismatch
  | .popc => .error .operation

/-! ## What the operations are -/

/-- The types an operation accepts. -/
def AtomicOp.accepted : AtomicOp → List ScalarType
  | .and | .or | .xor => [.b32, .u32, .s32]
  | .cas | .exch => [.b32, .u32, .s32, .b64, .u64]
  | .add => [.u32, .s32, .u64, .f32]
  | .inc | .dec => [.u32]
  | .min | .max => [.u32, .s32]
  | .popc => []

section Meaning

variable (addF32 : BitVec 32 → BitVec 32 → BitVec 32)

/-- The number that bits of a type stand for. -/
def reading (t : ScalarType) (x : BitVec t.size) : ℤ := match t with
  | .s8 | .s16 | .s32 | .s64 => x.toInt
  | _ => x.toNat

/-- The bits of a number. -/
def bits (t : ScalarType) (x : ℤ) : BitVec t.size := BitVec.ofInt t.size x

/-- Numbers that have integer types are added as integers. -/
def sum : (t : ScalarType) → BitVec t.size → BitVec t.size → BitVec t.size
  | .f32, x, y => addF32 x y
  | t, x, y => bits t (reading t x + reading t y)

/-- What the memory is to hold after an operation with the operands `b` and `c`. -/
def AtomicOp.apply (op : AtomicOp) (t : ScalarType) (old b c : BitVec t.size) : BitVec t.size :=
  match op with
  | .and => old &&& b
  | .or => old ||| b
  | .xor => old ^^^ b
  | .cas => if old = b then c else old
  | .exch => b
  | .add => sum addF32 t old b
  | .inc => bits t (if reading t old < reading t b then reading t old + 1 else 0)
  | .dec => bits t (if 0 < reading t old ∧ reading t old ≤ reading t b then reading t old - 1
      else reading t b)
  | .min => bits t (Min.min (reading t old) (reading t b))
  | .max => bits t (Max.max (reading t old) (reading t b))
  | .popc => old

end Meaning

/-! ## The leaves -/

section Leaves

variable {w : ℕ} (a b : BitVec w)

theorem ofInt_toNat : BitVec.ofInt w (a.toNat : ℤ) = a := by
  rw [BitVec.ofInt_natCast, BitVec.ofNat_toNat, BitVec.setWidth_eq]

theorem add_eq_unsigned : a + b = BitVec.ofInt w ((a.toNat : ℤ) + b.toNat) := by
  rw [BitVec.ofInt_add, ofInt_toNat, ofInt_toNat]

theorem add_eq_signed : a + b = BitVec.ofInt w (a.toInt + b.toInt) := by
  rw [BitVec.ofInt_add, BitVec.ofInt_toInt, BitVec.ofInt_toInt]

theorem myMaxU_eq : myMaxU a b = BitVec.ofInt w (max (a.toNat : ℤ) b.toNat) := by
  by_cases hlt : b.toNat < a.toNat
  · rw [myMaxU, if_pos (BitVec.ult_iff_toNat_lt.mpr hlt), max_eq_left (by omega), ofInt_toNat]
  · rw [myMaxU, if_neg (mt BitVec.ult_iff_toNat_lt.mp hlt), max_eq_right (by omega), ofInt_toNat]

theorem myMinU_eq : myMinU a b = BitVec.ofInt w (min (a.toNat : ℤ) b.toNat) := by
  by_cases hlt : a.toNat < b.toNat
  · rw [myMinU, if_pos (BitVec.ult_iff_toNat_lt.mpr hlt), min_eq_left (by omega), ofInt_toNat]
  · rw [myMinU, if_neg (mt BitVec.ult_iff_toNat_lt.mp hlt), min_eq_right (by omega), ofInt_toNat]

theorem myMaxS_eq : myMaxS a b = BitVec.ofInt w (max a.toInt b.toInt) := by
  by_cases hlt : b.toInt < a.toInt
  · rw [myMaxS, if_pos (BitVec.slt_iff_toInt_lt.mpr hlt), max_eq_left hlt.le, BitVec.ofInt_toInt]
  · rw [myMaxS, if_neg (mt BitVec.slt_iff_toInt_lt.mp hlt), max_eq_right (not_lt.mp hlt),
      BitVec.ofInt_toInt]

theorem myMinS_eq : myMinS a b = BitVec.ofInt w (min a.toInt b.toInt) := by
  by_cases hlt : a.toInt < b.toInt
  · rw [myMinS, if_pos (BitVec.slt_iff_toInt_lt.mpr hlt), min_eq_left hlt.le, BitVec.ofInt_toInt]
  · rw [myMinS, if_neg (mt BitVec.slt_iff_toInt_lt.mp hlt), min_eq_right (not_lt.mp hlt),
      BitVec.ofInt_toInt]

theorem myIncI_eq :
    myIncI a b = BitVec.ofInt w (if (a.toNat : ℤ) < b.toNat then (a.toNat : ℤ) + 1 else 0) := by
  by_cases hlt : a.toNat < b.toNat
  · rw [myIncI, if_neg (by simpa [BitVec.le_def] using hlt), if_pos (by omega), BitVec.ofInt_add,
      ofInt_toNat]
    rfl
  · rw [myIncI, if_pos (by simpa [BitVec.le_def] using hlt), if_neg (by omega)]
    rfl

theorem myDecI_eq : myDecI a b = BitVec.ofInt w
    (if 0 < (a.toNat : ℤ) ∧ (a.toNat : ℤ) ≤ b.toNat then (a.toNat : ℤ) - 1 else b.toNat) := by
  have hzero : a = 0 ↔ a.toNat = 0 := by
    rw [← BitVec.toNat_inj]
    rfl
  by_cases hlt : 0 < a.toNat ∧ a.toNat ≤ b.toNat
  · have hkeep : ¬ (a = 0 ∨ a > b) := by
      rw [hzero, gt_iff_lt, BitVec.lt_def]
      omega
    rw [myDecI, if_neg hkeep, if_pos (by omega)]
    have hpred : BitVec.ofInt w ((a.toNat : ℤ) - 1) + 1 = a := by
      have hone : (1 : BitVec w) = BitVec.ofInt w 1 := rfl
      rw [hone, ← BitVec.ofInt_add, sub_add_cancel, ofInt_toNat]
    calc a - 1 = BitVec.ofInt w ((a.toNat : ℤ) - 1) + 1 - 1 := by rw [hpred]
      _ = BitVec.ofInt w ((a.toNat : ℤ) - 1) := BitVec.add_sub_cancel _ _
  · have hreset : a = 0 ∨ a > b := by
      rw [hzero, gt_iff_lt, BitVec.lt_def]
      omega
    rw [myDecI, if_pos hreset, if_neg (by omega), ofInt_toNat]

end Leaves

section Switch

variable {op : AtomicOp} {t : ScalarType} {src3 : Except ExecFailure PtxReg}

theorem AtomicOp.accepted_size (haccepted : t ∈ op.accepted) : t.size = 32 ∨ t.size = 64 := by
  cases op <;> cases t <;>
    first | exact .inl rfl | exact .inr rfl | exact absurd haccepted (by decide)

theorem low_ofBits_self {w : ℕ} (hw : w ≤ 64) (x : BitVec w) : (PtxReg.ofBits x).low w = x := by
  rw [PtxReg.low_ofBits, BitVec.setWidth_setWidth_of_le x hw, BitVec.setWidth_eq]

theorem low_64 (r : PtxReg) : r.low 64 = r.u64 := BitVec.setWidth_eq _

theorem atomResult_ok (addF32 : BitVec 32 → BitVec 32 → BitVec 32) (haccepted : t ∈ op.accepted)
    (data src2 c : PtxReg) (hsrc3 : op = .cas → src3 = .ok c) :
    ∃ result, atomResult addF32 op t data src2 src3 = .ok (.ofBits result) ∧
      result = op.apply addF32 t (data.low t.size) (src2.low t.size) (c.low t.size) := by
  cases op with
  | popc => exact absurd haccepted List.not_mem_nil
  | and =>
      obtain rfl | rfl | rfl := by simpa [AtomicOp.accepted] using haccepted
      all_goals exact ⟨_, rfl, rfl⟩
  | or =>
      obtain rfl | rfl | rfl := by simpa [AtomicOp.accepted] using haccepted
      all_goals exact ⟨_, rfl, rfl⟩
  | xor =>
      obtain rfl | rfl | rfl := by simpa [AtomicOp.accepted] using haccepted
      all_goals exact ⟨_, rfl, rfl⟩
  | cas =>
      have hcas : myCasI data.u64 src2.u64 c.u64 =
          myCasI (data.low 64) (src2.low 64) (c.low 64) := by
        rw [low_64, low_64, low_64]
      rw [hsrc3 rfl]
      obtain rfl | rfl | rfl | rfl | rfl := by simpa [AtomicOp.accepted] using haccepted
      · exact ⟨_, rfl, rfl⟩
      · exact ⟨_, rfl, rfl⟩
      · exact ⟨_, rfl, rfl⟩
      · exact ⟨_, rfl, hcas⟩
      · exact ⟨_, rfl, hcas⟩
  | exch =>
      obtain rfl | rfl | rfl | rfl | rfl := by simpa [AtomicOp.accepted] using haccepted
      · exact ⟨_, rfl, rfl⟩
      · exact ⟨_, rfl, rfl⟩
      · exact ⟨_, rfl, rfl⟩
      · exact ⟨_, rfl, (low_64 src2).symm⟩
      · exact ⟨_, rfl, (low_64 src2).symm⟩
  | add =>
      obtain rfl | rfl | rfl | rfl := by simpa [AtomicOp.accepted] using haccepted
      · exact ⟨_, rfl, add_eq_unsigned _ _⟩
      · exact ⟨_, rfl, add_eq_signed _ _⟩
      · refine ⟨_, rfl, ?_⟩
        rw [← low_64 data, ← low_64 src2]
        exact add_eq_unsigned _ _
      · exact ⟨_, rfl, rfl⟩
  | inc =>
      obtain rfl : t = .u32 := by simpa [AtomicOp.accepted] using haccepted
      exact ⟨_, rfl, myIncI_eq _ _⟩
  | dec =>
      obtain rfl : t = .u32 := by simpa [AtomicOp.accepted] using haccepted
      exact ⟨_, rfl, myDecI_eq _ _⟩
  | min =>
      obtain rfl | rfl := by simpa [AtomicOp.accepted] using haccepted
      · exact ⟨_, rfl, myMinU_eq _ _⟩
      · exact ⟨_, rfl, myMinS_eq _ _⟩
  | max =>
      obtain rfl | rfl := by simpa [AtomicOp.accepted] using haccepted
      · exact ⟨_, rfl, myMaxU_eq _ _⟩
      · exact ⟨_, rfl, myMaxS_eq _ _⟩

end Switch

end GpuCalorie.Atomics

/-!
## Callbacks of atomic instructions

An atomic instruction finds its address when it is issued, and is performed by a callback when
its request reaches the memory. The callback reads the operands again, reads the memory, writes
what it has read to the destination, and the result of the operation to the memory. A warp waits
as long as it has atomics under way, so that the callback finds the registers the instruction was
issued with.
-/

namespace GpuCalorie.Atomics

open GpuCalorie.DeviceMemory GpuCalorie.Hardware GpuCalorie.Instructions GpuCalorie.Math

/-- The ways to fail of an atomic instruction. -/
inductive AtomFailure
  | operation (e : OperationFailure)
  | address (e : AddressFailure)
  | memory (e : MemoryFailure)
  deriving DecidableEq, Repr

/-- The operand of the address: a register, or the address of a symbol, and an offset. -/
structure AddressOperand where
  base : OperandSource
  offset : ℤ := 0
  deriving DecidableEq, Repr

/-- `get_operand_value`, for an operand in brackets. -/
def AddressOperand.value (regs : RegisterFile) (op : AddressOperand) : PtxReg :=
  ⟨(op.base.value regs).u64 + BitVec.ofInt 64 op.offset⟩

/-- `atom.space.operation.type d, a, b[, c]`. -/
structure AtomInst where
  space : MemorySpace
  op : AtomicOp
  type : ScalarType
  /-- There is none for `_`. -/
  dst : Option ℕ
  src1 : AddressOperand
  src2 : Operand
  src3 : Operand := { source := .literal ⟨0⟩ }
  deriving DecidableEq, Repr

/-- A thread, and the block of threads whose shared memory it has. -/
structure AtomThread where
  thread : PtxThread
  cta : ℕ
  deriving DecidableEq, Repr

/-- A memory of the device. -/
inductive MemoryId
  | global
  | shared (cta : ℕ)
  deriving DecidableEq, Repr

/-- The size of its blocks. -/
def MemoryId.block : MemoryId → BlockSize
  | .global => globalBlock
  | .shared _ => sharedBlock

/-- The memories, and the registers of the threads. -/
structure Device where
  global : MemorySpaceImpl globalBlock := {}
  shared : ℕ → MemorySpaceImpl sharedBlock := fun _ => {}
  regs : ℕ → RegisterFile := fun _ _ => ⟨0⟩

namespace Device

variable (s : Device)

/-- `mem->read`. -/
def read (mem : MemoryId) (addr length : ℕ) : Except MemoryFailure (List UInt8) :=
  match mem with
  | .global => s.global.read addr length
  | .shared cta => (s.shared cta).read addr length

/-- `mem->write`. -/
def write (mem : MemoryId) (addr : ℕ) (data : List UInt8) : Except MemoryFailure Device :=
  match mem with
  | .global => do
    let m ← s.global.write addr data
    return { s with global := m }
  | .shared cta => do
    let m ← (s.shared cta).write addr data
    return { s with shared := Function.update s.shared cta m }

/-- `set_operand_value`, unless the destination is `_`. -/
def setDst (tid : ℕ) (dst : Option ℕ) (data : PtxReg) : Device :=
  match dst with
  | none => s
  | some d =>
      { s with regs := Function.update s.regs tid (setOperandValue (s.regs tid) ⟨d, .whole⟩ data) }

end Device

/-! ## Instructions and callbacks -/

/-- A byte of a memory. -/
structure Location where
  mem : MemoryId
  addr : ℕ
  deriving DecidableEq, Repr

/-- The space of an address and the address in it, as both functions find them. -/
def resolve (t : AtomThread) (space : MemorySpace) (addr : ℕ) :
    Except AddressFailure (MemorySpace × ℕ) :=
  if space = .undefinedSpace then
    match whichspace addr with
    | .globalSpace => .ok (.globalSpace, genericToGlobal addr)
    | .sharedSpace => do
      let addr ← genericToShared t.thread.hwSid addr
      return (.sharedSpace, addr)
    | _ => .error .abort
  else if space = .globalSpace ∨ space = .sharedSpace then .ok (space, addr)
  else .error .assertion

/-- `atom_impl`: what it leaves in `m_last_memory_space` and `m_last_effective_address`. -/
def atomImpl (t : AtomThread) (regs : RegisterFile) (pI : AtomInst) :
    Except AddressFailure (MemorySpace × ℕ) :=
  resolve t pI.space (pI.src1.value regs).u32.toNat

/-- The memory of a space. -/
def memoryOf (t : AtomThread) (space : MemorySpace) : Except AddressFailure MemoryId :=
  match space with
  | .globalSpace => .ok .global
  | .sharedSpace => .ok (.shared t.cta)
  | _ => .error .abort

/-- The byte an atomic instruction accesses first. -/
def locate (t : AtomThread) (regs : RegisterFile) (pI : AtomInst) :
    Except AddressFailure Location := do
  let place ← resolve t pI.space (pI.src1.value regs).u32.toNat
  let mem ← memoryOf t place.1
  return ⟨mem, place.2⟩

section

variable (addF32 : BitVec 32 → BitVec 32 → BitVec 32) (threads : ℕ → AtomThread)

/-- `atom_callback`. -/
def atomCallback (tid : ℕ) (pI : AtomInst) (s : Device) : Except AtomFailure Device := do
  let size := pI.type.size
  let src2 ← (getOperandValue (s.regs tid) pI.src2 pI.type).mapError fun e =>
    .operation (.operand e)
  let loc ← (locate (threads tid) (s.regs tid) pI).mapError .address
  let bytes ← (s.read loc.mem loc.addr (size / 8)).mapError .memory
  let data : PtxReg := ⟨BitVec.ofNat 64 (ofBytes bytes)⟩
  let s := s.setDst tid pI.dst data
  -- the operand `c` is read from registers that have the destination already
  let result ← (atomResult addF32 pI.op pI.type data src2
    (getOperandValue (s.regs tid) pI.src3 pI.type)).mapError .operation
  (s.write loc.mem loc.addr (toBytes (size / 8) result.u64.toNat)).mapError .memory

/-! ## What atomic instructions are to do -/

/-- The memories as bytes, and the registers. -/
structure Flat where
  memory : MemoryId → ℕ → UInt8
  regs : ℕ → RegisterFile

/-- The bytes of a device. -/
def Device.flat (s : Device) : Flat where
  memory mem := match mem with
    | .global => s.global.content
    | .shared cta => (s.shared cta).content
  regs := s.regs

namespace Flat

variable (f : Flat)

/-- The value of a type at a location. -/
def word (loc : Location) (t : ScalarType) : BitVec t.size :=
  BitVec.ofNat t.size (ofBytes (cells (f.memory loc.mem) loc.addr (t.size / 8)))

/-- The value of a source. -/
def source (tid : ℕ) (op : Operand) (t : ScalarType) : BitVec t.size :=
  match getOperandValue (f.regs tid) op t with
  | .ok value => value.low t.size
  | .error _ => 0

/-- A value is stored. -/
def store (loc : Location) {w : ℕ} (value : BitVec w) : Flat :=
  let bytes := overwrite (f.memory loc.mem) loc.addr (toBytes (w / 8) value.toNat)
  { f with memory := Function.update f.memory loc.mem bytes }

/-- A register is written. -/
def setReg (tid : ℕ) (dst : Option ℕ) (value : PtxReg) : Flat :=
  match dst with
  | none => f
  | some d => { f with regs := Function.update f.regs tid (Function.update (f.regs tid) d value) }

/-- The operation on the values before the instruction. -/
def result (tid : ℕ) (pI : AtomInst) (loc : Location) : BitVec pI.type.size :=
  pI.op.apply addF32 pI.type (f.word loc pI.type) (f.source tid pI.src2 pI.type)
    (f.source tid pI.src3 pI.type)

/-- An atomic operation at a location. -/
def atom (tid : ℕ) (pI : AtomInst) (loc : Location) : Flat :=
  (f.setReg tid pI.dst (.ofBits (f.word loc pI.type))).store loc (f.result addF32 tid pI loc)

end Flat

end

end GpuCalorie.Atomics
