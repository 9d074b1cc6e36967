/-
# Allocations

`gpu_malloc` moves a pointer of 64 bits on from the start of the heap, in steps of 256 bytes, and
never refuses. The memory it allocates has addresses of 32 bits. An allocation is `Layout`ed well
as long as the pointer is not moved beyond the window from which instructions are fetched.
-/

import GpuCalorie.DeviceMemory.Flat
import GpuCalorie.DeviceMemory.Windows
import Mathlib.Algebra.GroupWithZero.Nat

namespace GpuCalorie.DeviceMemory

open GpuCalorie.Math

/-- What an allocation returns, and its size. -/
structure Region where
  start : ℕ
  size : ℕ
  deriving DecidableEq, Repr

/-- `gpgpu_t`, as far as its global memory goes. The regions that were allocated are recorded. -/
structure Gpgpu where
  /-- `m_dev_malloc`. -/
  devMalloc : ℕ := globalHeapStart
  /-- `m_global_mem`. -/
  globalMem : MemorySpaceImpl globalBlock := {}
  regions : List Region := []

/-- `m_dev_malloc` after an allocation. -/
def bump (devMalloc size : ℕ) : ℕ :=
  if size % 256 ≠ 0 then ((devMalloc + size) % 2 ^ 64 + (256 - size % 256)) % 2 ^ 64
  else (devMalloc + size) % 2 ^ 64

namespace Gpgpu

variable (s : Gpgpu)

/-- What `gpu_malloc` and `gpu_mallocarray` do. -/
def allocate (size : ℕ) : Gpgpu :=
  { s with devMalloc := bump s.devMalloc size, regions := s.regions ++ [⟨s.devMalloc, size⟩] }

/-- `gpu_malloc`. -/
def gpuMalloc (size : ℕ) : Gpgpu := s.allocate size

/-- `gpu_mallocarray`. -/
def gpuMallocarray (size : ℕ) : Gpgpu := s.allocate size

/-- The loop of a copy to the memory, one byte after the other. -/
def writeBytes (m : MemorySpaceImpl globalBlock) (dst : ℕ) :
    List UInt8 → Except MemoryFailure (MemorySpaceImpl globalBlock)
  | [] => .ok m
  | byte :: rest => do
    let m ← m.write (dst % 2 ^ 32) [byte]
    writeBytes m (dst + 1) rest

/-- The loop of a copy from the memory. -/
def readBytes (m : MemorySpaceImpl globalBlock) : ℕ → ℕ → Except MemoryFailure (List UInt8)
  | _, 0 => .ok []
  | src, count + 1 => do
    let byte ← m.read (src % 2 ^ 32) 1
    let rest ← readBytes m (src + 1) count
    return byte ++ rest

/-- The loop of a copy within the memory. -/
def moveBytes (m : MemorySpaceImpl globalBlock) : ℕ → ℕ → ℕ →
    Except MemoryFailure (MemorySpaceImpl globalBlock)
  | _, _, 0 => .ok m
  | dst, src, count + 1 => do
    let byte ← m.read (src % 2 ^ 32) 1
    let m ← m.write (dst % 2 ^ 32) byte
    moveBytes m (dst + 1) (src + 1) count

/-- The loops count with 32 bits, and do not end for more bytes. -/
def bounded {α : Type} (count : ℕ) (loop : Except MemoryFailure α) : Except MemoryFailure α :=
  if count < 2 ^ 32 then loop else .error .rounds

/-- `memcpy_to_gpu`. -/
def memcpyToGpu (dst : ℕ) (src : List UInt8) : Except MemoryFailure Gpgpu :=
  bounded src.length do
    let m ← writeBytes s.globalMem dst src
    return { s with globalMem := m }

/-- `memcpy_from_gpu`. -/
def memcpyFromGpu (src count : ℕ) : Except MemoryFailure (List UInt8) :=
  bounded count (readBytes s.globalMem src count)

/-- `memcpy_gpu_to_gpu`. -/
def memcpyGpuToGpu (dst src count : ℕ) : Except MemoryFailure Gpgpu :=
  bounded count do
    let m ← moveBytes s.globalMem dst src count
    return { s with globalMem := m }

/-- `gpu_memset`, with the byte that is stored. -/
def gpuMemset (dst : ℕ) (c : UInt8) (count : ℕ) : Except MemoryFailure Gpgpu :=
  bounded count do
    let m ← writeBytes s.globalMem dst (List.replicate count c)
    return { s with globalMem := m }

end Gpgpu

/-! ## Calls -/

/-- The calls of a program, which names bytes by their region and their place in it. -/
inductive Call
  | malloc (size : ℕ)
  | mallocarray (size : ℕ)
  | toGpu (region offset : ℕ) (src : List UInt8)
  | memset (region offset : ℕ) (c : UInt8) (count : ℕ)
  | gpuToGpu (region offset region' offset' count : ℕ)

/-- The sizes of the regions after a call. -/
def Call.sizes (sizes : List ℕ) : Call → List ℕ
  | .malloc size | .mallocarray size => sizes ++ [size]
  | _ => sizes

/-- Sizes have 64 bits, and what is copied is in the regions there are. -/
def Call.Valid (sizes : List ℕ) : Call → Prop
  | .malloc size | .mallocarray size => size < 2 ^ 64
  | .toGpu k offset src => ∃ size ∈ sizes[k]?, offset + src.length ≤ size
  | .memset k offset _ count => ∃ size ∈ sizes[k]?, offset + count ≤ size
  | .gpuToGpu k offset k' offset' count =>
    (∃ size ∈ sizes[k]?, offset + count ≤ size) ∧ ∃ size ∈ sizes[k']?, offset' + count ≤ size

instance (sizes : List ℕ) (call : Call) : Decidable (call.Valid sizes) := by
  cases call <;> unfold Call.Valid <;> infer_instance

/-- Each call is valid when it is made. -/
def ValidCalls : List ℕ → List Call → Prop
  | _, [] => True
  | sizes, call :: rest => call.Valid sizes ∧ ValidCalls (call.sizes sizes) rest

instance : (sizes : List ℕ) → (calls : List Call) → Decidable (ValidCalls sizes calls)
  | _, [] => isTrue trivial
  | sizes, call :: rest =>
    have : Decidable (ValidCalls (call.sizes sizes) rest) := instDecidableValidCalls _ _
    inferInstanceAs (Decidable (_ ∧ _))

/-- The address of a byte of a region. -/
def Gpgpu.address (s : Gpgpu) (k offset : ℕ) : ℕ := (s.regions[k]?.map Region.start).getD 0 + offset

/-- A call. -/
def Gpgpu.call (s : Gpgpu) : Call → Except MemoryFailure Gpgpu
  | .malloc size => .ok (s.gpuMalloc size)
  | .mallocarray size => .ok (s.gpuMallocarray size)
  | .toGpu k offset src => s.memcpyToGpu (s.address k offset) src
  | .memset k offset c count => s.gpuMemset (s.address k offset) c count
  | .gpuToGpu k offset k' offset' count =>
    s.memcpyGpuToGpu (s.address k offset) (s.address k' offset') count

/-- The regions and their bytes, when each region has a memory of its own. -/
abbrev Apart := ℕ → ℕ → UInt8

/-- A byte is stored in a region. -/
def Apart.put (apart : Apart) (k offset : ℕ) (src : List UInt8) : Apart :=
  Function.update apart k (overwrite (apart k) offset src)

/-- The bytes of regions are moved one after the other. -/
def Apart.move (apart : Apart) (k offset k' offset' : ℕ) : ℕ → Apart
  | 0 => apart
  | count + 1 => (apart.put k offset [apart k' offset']).move k (offset + 1) k' (offset' + 1) count

/-- What a call is to do. -/
def Apart.call (apart : Apart) : Call → Apart
  | .malloc _ | .mallocarray _ => apart
  | .toGpu k offset src => apart.put k offset src
  | .memset k offset c count => apart.put k offset (List.replicate count c)
  | .gpuToGpu k offset k' offset' count => apart.move k offset k' offset' count

end GpuCalorie.DeviceMemory
