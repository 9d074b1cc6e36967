/-
# Windows of the address space

The addresses of the generic space: statically allocated globals from below, then the local
memories of all threads, the shared memories of all cores, and the heap for global memory.
-/

import Mathlib.Algebra.Group.Nat.Defs
import Mathlib.Data.Nat.Notation

namespace GpuCalorie.DeviceMemory

/-- Dynamic allocations start here, and lower addresses are for the globals of a program. -/
abbrev globalHeapStart : ℕ := 0xC0000000

abbrev sharedMemSizeMax : ℕ := 96 * 2 ^ 10

abbrev localMemSizeMax : ℕ := 2 ^ 14

abbrev maxStreamingMultiprocessors : ℕ := 80

abbrev maxThreadPerSm : ℕ := 2 ^ 11

abbrev totalLocalMemPerSm : ℕ := maxThreadPerSm * localMemSizeMax

abbrev totalSharedMem : ℕ := maxStreamingMultiprocessors * sharedMemSizeMax

abbrev totalLocalMem : ℕ := maxStreamingMultiprocessors * maxThreadPerSm * localMemSizeMax

abbrev sharedGenericStart : ℕ := globalHeapStart - totalSharedMem

abbrev localGenericStart : ℕ := sharedGenericStart - totalLocalMem

abbrev staticAllocLimit : ℕ := globalHeapStart - (totalLocalMem + totalSharedMem)

/-- Instructions are fetched from here. -/
abbrev programMemStart : ℕ := 0xF0000000

theorem programMemStart_eq : programMemStart = 4026531840 := rfl

theorem globalHeapStart_eq : globalHeapStart = 3221225472 := rfl

theorem staticAllocLimit_eq : staticAllocLimit = 529006592 := rfl

theorem sharedGenericStart_eq : sharedGenericStart = 3213361152 := rfl

theorem localGenericStart_eq : localGenericStart = 529006592 := rfl

theorem sharedMemSizeMax_eq : sharedMemSizeMax = 98304 := rfl

theorem totalLocalMem_eq : totalLocalMem = 2684354560 := rfl

theorem localMemSizeMax_eq : localMemSizeMax = 16384 := rfl

end GpuCalorie.DeviceMemory
