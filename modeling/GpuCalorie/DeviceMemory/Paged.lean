/-
# Paged memory

`memory_space_impl` keeps its bytes in blocks that are made when they are first written. An
access that stays in a block takes the fast route, and another one goes from block to block.
Addresses are numbers of 32 bits, and so is the end of a block with which the two routes are
told apart. Watchpoints are left out.
-/

import GpuCalorie.Math.Bytes
import Mathlib.Algebra.Group.Nat.Defs
import Mathlib.Data.List.AList

namespace GpuCalorie.DeviceMemory

open GpuCalorie.Math

/-- The ways to fail of a memory space. -/
inductive MemoryFailure
  /-- `throw 1` of `read_single_block`. -/
  | unaligned
  /-- The assertions of `mem_storage`. -/
  | storage
  /-- A block is accessed without an end. -/
  | rounds
  deriving DecidableEq, Repr

/-- `BSIZE`, which the constructor asserts to be a power of two. -/
structure BlockSize where
  /-- `m_log2_block_size`. -/
  log2 : ℕ
  lt : log2 < 32

namespace BlockSize

variable (b : BlockSize)

def size : ℕ := 2 ^ b.log2

/-- The block of an address. -/
def page (addr : ℕ) : ℕ := addr >>> b.log2

/-- The place of an address in its block. -/
def offset (addr : ℕ) : ℕ := addr &&& (b.size - 1)

/-- `(index + 1) * BSIZE`. -/
def pageEnd (index : ℕ) : ℕ := (index + 1) * b.size % 2 ^ 32

end BlockSize

/-- The sizes memory spaces are made with. -/
def localBlock : BlockSize := ⟨5, by decide⟩

def globalBlock : BlockSize := ⟨13, by decide⟩

def sharedBlock : BlockSize := ⟨14, by decide⟩

/-! ## Blocks -/

/-- `mem_storage`. -/
abbrev MemStorage := ℕ → UInt8

namespace MemStorage

variable (b : BlockSize) (storage : MemStorage) (offset length : ℕ)

/-- `write`. -/
def write (data : List UInt8) : Except MemoryFailure MemStorage :=
  if offset + length ≤ b.size then .ok (overwrite storage offset (data.take length))
  else .error .storage

/-- `read`. -/
def read : Except MemoryFailure (List UInt8) :=
  if offset + length ≤ b.size then .ok (cells storage offset length) else .error .storage

end MemStorage

/-- `memory_space_impl`. -/
structure MemorySpaceImpl (b : BlockSize) where
  data : AList fun _ : ℕ => MemStorage := ∅

namespace MemorySpaceImpl

variable {b : BlockSize} (m : MemorySpaceImpl b)

/-- `m_data[index]`. -/
def block (index : ℕ) : MemStorage := (m.data.lookup index).getD fun _ => 0

/-- `m_data[index].write`. -/
def writeBlock (index offset length : ℕ) (data : List UInt8) :
    Except MemoryFailure (MemorySpaceImpl b) := do
  let storage ← MemStorage.write b (m.block index) offset length data
  return { data := m.data.insert index storage }

/-- How many bytes of the current block are accessed, in 32 bits. -/
def txBytes (b : BlockSize) (current remain : ℕ) : ℕ :=
  let limit := (b.offset current + remain) % 2 ^ 32
  let limit := if limit > b.size then b.size else limit
  (limit + 2 ^ 32 - b.offset current) % 2 ^ 32

/-- The slow route of `write`, with enough rounds for the bytes that remain. -/
def writeBlocks : ℕ → MemorySpaceImpl b → ℕ → ℕ → List UInt8 →
    Except MemoryFailure (MemorySpaceImpl b)
  | rounds, m, current, remain, data =>
    if remain = 0 then .ok m
    else match rounds with
      | 0 => .error .rounds
      | rounds + 1 => do
        let tx := txBytes b current remain
        let m ← m.writeBlock (b.page current) (b.offset current) tx data
        writeBlocks rounds m ((current + tx) % 2 ^ 32) (remain - tx) (data.drop tx)

/-- `write`. -/
def write (addr : ℕ) (data : List UInt8) : Except MemoryFailure (MemorySpaceImpl b) :=
  if addr + data.length ≤ b.pageEnd (b.page addr) then
    m.writeBlock (b.page addr) (b.offset addr) (data.length % 2 ^ 32) data
  else writeBlocks (data.length % 2 ^ 32) m addr (data.length % 2 ^ 32) data

/-- `read_single_block`. -/
def readSingleBlock (index addr length : ℕ) : Except MemoryFailure (List UInt8) :=
  if addr + length > b.pageEnd index then .error .unaligned
  else match m.data.lookup index with
    | none => .ok (List.replicate length 0)
    | some storage => storage.read b (b.offset addr) (length % 2 ^ 32)

/-- The slow route of `read`. -/
def readBlocks : ℕ → ℕ → ℕ → Except MemoryFailure (List UInt8)
  | rounds, current, remain =>
    if remain = 0 then .ok []
    else match rounds with
      | 0 => .error .rounds
      | rounds + 1 => do
        let tx := txBytes b current remain
        let bytes ← m.readSingleBlock (b.page current) current tx
        let rest ← readBlocks rounds ((current + tx) % 2 ^ 32) (remain - tx)
        return bytes ++ rest

/-- `read`, which returns the bytes it has put to its destination. -/
def read (addr length : ℕ) : Except MemoryFailure (List UInt8) :=
  if addr + length ≤ b.pageEnd (b.page addr) then m.readSingleBlock (b.page addr) addr length
  else m.readBlocks (length % 2 ^ 32) addr (length % 2 ^ 32)

/-! ## The bytes of a memory -/

/-- The byte at an address. -/
def content (addr : ℕ) : UInt8 := m.block (b.page addr) (b.offset addr)

end MemorySpaceImpl

/-! ## Blocks of addresses -/

namespace BlockSize

variable (b : BlockSize) (addr : ℕ)

theorem size_pos : 0 < b.size := Nat.two_pow_pos _

theorem size_dvd : b.size ∣ 2 ^ 32 := Nat.pow_dvd_pow 2 b.lt.le

theorem size_lt : b.size < 2 ^ 32 := Nat.pow_lt_pow_right (by decide) b.lt

theorem page_eq : b.page addr = addr / b.size := Nat.shiftRight_eq_div_pow _ _

theorem offset_eq : b.offset addr = addr % b.size := Nat.and_two_pow_sub_one_eq_mod _ _

theorem offset_lt : b.offset addr < b.size := by
  rw [b.offset_eq]
  exact Nat.mod_lt _ b.size_pos

theorem page_add_offset : b.page addr * b.size + b.offset addr = addr := by
  rw [b.page_eq, b.offset_eq, Nat.mul_comm]
  exact Nat.div_add_mod _ _

theorem offset_le : b.offset addr ≤ addr := by
  rw [b.offset_eq]
  exact Nat.mod_le _ _

theorem page_add {i : ℕ} (h : b.offset addr + i < b.size) : b.page (addr + i) = b.page addr := by
  have hsum := b.page_add_offset addr
  have heq : addr + i = b.size * b.page addr + (b.offset addr + i) := by
    rw [Nat.mul_comm]
    omega
  rw [b.page_eq (addr + i), heq, Nat.mul_add_div b.size_pos, Nat.div_eq_of_lt h, Nat.add_zero]

theorem offset_add {i : ℕ} (h : b.offset addr + i < b.size) :
    b.offset (addr + i) = b.offset addr + i := by
  have hsum := b.page_add_offset addr
  have hsum' := b.page_add_offset (addr + i)
  rw [b.page_add addr h] at hsum'
  omega

theorem next_le (h : addr + b.size < 2 ^ 32 + b.offset addr) :
    addr + 2 * b.size ≤ 2 ^ 32 + b.offset addr := by
  obtain ⟨n, hn⟩ := b.size_dvd
  have hsum := b.page_add_offset addr
  have hend : (b.page addr + 1) * b.size = addr - b.offset addr + b.size := by
    rw [Nat.add_mul, Nat.one_mul]
    omega
  have hpage : b.page addr + 1 < n := by
    refine Nat.lt_of_mul_lt_mul_right (a := b.size) ?_
    rw [hend, Nat.mul_comm n, ← hn]
    omega
  have hle : (b.page addr + 2) * b.size ≤ n * b.size := Nat.mul_le_mul_right _ hpage
  rw [Nat.mul_comm n, ← hn, Nat.add_mul] at hle
  omega

theorem pageEnd_eq (h : addr < 2 ^ 32) : b.pageEnd (b.page addr)
    = if addr + b.size < 2 ^ 32 + b.offset addr then addr - b.offset addr + b.size else 0 := by
  obtain ⟨n, hn⟩ := b.size_dvd
  have hsum := b.page_add_offset addr
  have hlt := b.offset_lt addr
  have hend : (b.page addr + 1) * b.size = addr - b.offset addr + b.size := by
    rw [Nat.add_mul, Nat.one_mul]
    omega
  have hpage : b.page addr < n := by
    rw [b.page_eq, Nat.div_lt_iff_lt_mul b.size_pos, Nat.mul_comm, ← hn]
    exact h
  rw [pageEnd, hend]
  split_ifs with hlast
  · exact Nat.mod_eq_of_lt (by omega)
  · have hle : (b.page addr + 1) * b.size ≤ n * b.size := Nat.mul_le_mul_right _ hpage
    rw [Nat.mul_comm n, ← hn] at hle
    have hfull : addr - b.offset addr + b.size = 2 ^ 32 := by omega
    rw [hfull, Nat.mod_self]

end BlockSize

end GpuCalorie.DeviceMemory
