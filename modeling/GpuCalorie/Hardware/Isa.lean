/-
# Operation classes, memory spaces and cache operators

`uarch_op_t` classifies decoded instructions for the issue logic, the SIMT stack and the
functional core. A memory instruction also says where its data lives and how it is to be cached,
on which the coalescer and the load-store unit branch.
-/

import Mathlib.Algebra.GroupWithZero.Nat
import Mathlib.Data.Fintype.Defs

namespace GpuCalorie.Hardware

instance neZeroThreads : NeZero 32 := ⟨by decide⟩

/-- `uarch_op_t`, the class of a decoded instruction. The eight
`SPECIALIZED_UNIT_k_OP` constants are one constructor with an index. -/
inductive OpType
  | noOp
  | aluOp
  | sfuOp
  | tensorCoreOp
  | dpOp
  | spOp
  | intpOp
  | aluSfuOp
  | loadOp
  | tensorCoreLoadOp
  | tensorCoreStoreOp
  | storeOp
  | branchOp
  | barrierOp
  | memoryBarrierOp
  | callOps
  | retOps
  | exitOps
  | specializedUnitOp (unit : Fin 8)
  deriving DecidableEq, Repr

/-- `_memory_space_t`. -/
inductive MemorySpace
  | undefinedSpace
  | regSpace
  | localSpace
  | sharedSpace
  | sstarrSpace
  | paramSpaceUnclassified
  | paramSpaceKernel
  | paramSpaceLocal
  | constSpace
  | texSpace
  | surfSpace
  | globalSpace
  | genericSpace
  | instructionSpace
  deriving DecidableEq, Repr

namespace MemorySpace

/-- `is_local`. -/
def isLocal (space : MemorySpace) : Bool := space = .localSpace || space = .paramSpaceLocal

/-- `is_global`. -/
def isGlobal (space : MemorySpace) : Bool := space = .globalSpace

end MemorySpace

/-- `cache_operator_type`. -/
inductive CacheOperator
  | cacheUndefined
  | cacheAll
  | cacheLastUse
  | cacheVolatile
  | cacheL1
  | cacheStreaming
  | cacheGlobal
  | cacheWriteBack
  | cacheWriteThrough
  deriving DecidableEq, Repr

end GpuCalorie.Hardware
