/-
# Memory accesses of a warp

`memory_coalescing_arch` turns the addresses of the threads of a warp into the accesses
the warp sends to memory. The threads of each part of the warp are sorted into
transactions, one for each segment they touch, and
`memory_coalescing_arch_reduce_and_send` shrinks each transaction to the part of its
segment that is used.
-/

import GpuCalorie.Cache.Types
import GpuCalorie.Hardware.Isa
import GpuCalorie.Math.Grouping

namespace GpuCalorie.Coalescer

open Hardware

/-- `new_addr_type`. -/
abbrev Addr := Cache.Addr

/-- `active_mask_t`. -/
abbrev ActiveMask := Finset (Fin 32)

/-- `MAX_ACCESSES_PER_INSN_PER_THREAD`. -/
def maxAccessesPerInsnPerThread : ℕ := 8

/-- What the coalescer reads of a `core_config`; the constructor of `warp_inst_t` checks
`warp_size`. -/
structure CoreConfig where
  warpSize : ℕ
  memWarpParts : ℕ
  gpgpuCoalesceArch : ℤ
  gmemSkipL1D : Bool
  warpSize_le : warpSize ≤ 32

/-- The addresses `set_addr` is given for a thread. -/
abbrev Request :=
  { addrs : List Addr // addrs ≠ [] ∧ addrs.length ≤ maxAccessesPerInsnPerThread }

/-- What the coalescer reads of a `warp_inst_t` that loads or stores `data_size` bytes at
the addresses set for each active thread. -/
structure WarpInst where
  space : MemorySpace
  cacheOp : CacheOperator
  dataSize : ℕ
  activeMask : ActiveMask
  request : Fin 32 → Request
  dataSize_pos : 0 < dataSize

/-- `memreqaddr` of a thread: 0 where no address has been set. -/
def WarpInst.memreqaddr (inst : WarpInst) (thread : Fin 32) (access : ℕ) : Addr :=
  (inst.request thread).val.getD access 0

/-- `transaction_info`. -/
structure TransactionInfo where
  chunks : Cache.SectorMask := ∅
  bytes : Cache.ByteMask := ∅
  active : ActiveMask := ∅
  deriving DecidableEq, Inhabited

/-- `mem_access_t` with its warp mask. -/
structure WarpAccess extends Cache.MemAccess where
  warpMask : ActiveMask
  deriving DecidableEq

/-- The assertions of `generate_mem_accesses`, its divisions, bits beyond those of a bitset, and
where it aborts. -/
inductive CoalescerFailure
  /-- `warp_size / warp_parts` -/
  | warpParts
  /-- `(addr / WORD_SIZE) % num_shmem_bank` -/
  | shmemBanks
  /-- a byte that `mem_access_byte_mask_t` does not have -/
  | byteIndex
  /-- the space is none of those handled -/
  | space
  /-- `gpgpu_coalesce_arch >= 13` -/
  | coalesceArch
  /-- `total_accesses > 0 && total_accesses <= m_config->warp_size` -/
  | totalAccesses
  /-- `n > 1` and `bank_accesses >= (n - 1)` -/
  | broadcast
  /-- `space.get_type() == global_space` -/
  | atomicSpace
  /-- `block_address == line_size_based_tag_func(addr + data_size - 1, segment_size)` -/
  | twoSegments
  /-- `!info->bytes.test(idx + i)` -/
  | byteTaken
  /-- `num_accesses <= MAX_ACCESSES_PER_INSN_PER_THREAD` -/
  | numAccesses
  /-- `(addr & (segment_size - 1)) == 0` -/
  | unalignedSegment
  /-- `q.count() >= 1` -/
  | noChunk
  /-- `(addr % 128) == 64` -/
  | halfSegment
  /-- `lower_half_used && upper_half_used` -/
  | unusedHalves
  deriving DecidableEq, Repr

/-! ## Segments -/

/-- What an `address_type` keeps of an address. -/
def addressType (address : Addr) : Addr := (address.setWidth 32).setWidth 64

/-- `line_size_based_tag_func`, which returns an `address_type`. -/
def lineSizeBasedTagFunc (address lineSize : Addr) : Addr :=
  addressType (address &&& ~~~(lineSize - 1))

/-- `sector_segment_size`. -/
def sectorSegmentSize (cfg : CoreConfig) (cacheOp : CacheOperator) : Bool :=
  if cfg.gpgpuCoalesceArch ≥ 20 ∧ cfg.gpgpuCoalesceArch < 39 then
    -- Fermi and Kepler, L1 is normal and L2 is sector
    cfg.gmemSkipL1D || cacheOp = .cacheGlobal
  else
    -- Maxwell, Pascal and Volta, L1 and L2 are sectors
    cfg.gpgpuCoalesceArch ≥ 40

/-- `segment_size`, by the data size. -/
def segmentSize (sectorSegment : Bool) (dataSize : ℕ) : ℕ :=
  match dataSize with
  | 1 => 32
  | 2 => if sectorSegment then 32 else 64
  | 4 | 8 | 16 => if sectorSegment then 32 else 128
  | _ => 0

/-- `segment_size` for an instruction. -/
def WarpInst.segmentSize (inst : WarpInst) (cfg : CoreConfig) : ℕ :=
  Coalescer.segmentSize (sectorSegmentSize cfg inst.cacheOp) inst.dataSize

/-- `data_size_coales`: local accesses of more than 4 bytes come in pieces of 4. -/
def WarpInst.dataSizeCoales (inst : WarpInst) : ℕ :=
  if inst.space.isLocal ∧ inst.dataSize ≥ 4 then 4 else inst.dataSize

/-- `num_accesses`. -/
def WarpInst.numAccesses (inst : WarpInst) : ℕ :=
  if inst.space.isLocal ∧ inst.dataSize ≥ 4 then inst.dataSize / 4 else 1

/-! ## Transactions of a part of the warp -/

/-- `addr & 127`. -/
def offset (addr : Addr) : ℕ := (addr &&& 127).toNat

/-- `(addr & 127) / 32`: the 32-byte chunk of `addr`. -/
def chunk (addr : Addr) : Fin 4 := Fin.ofNat 4 (offset addr / 32)

/-- The bits `idx, …, idx + size - 1` of a byte mask, those it does not have left out. -/
def byteRange (idx size : ℕ) : Cache.ByteMask :=
  Finset.univ.filter fun byte => idx ≤ byte.val ∧ byte.val < idx + size

/-- Note that `thread` touches `size` bytes from `addr` on. -/
def TransactionInfo.touch (thread : Fin 32) (addr : Addr) (size : ℕ) (info : TransactionInfo) :
    TransactionInfo :=
  { chunks := insert (chunk addr) info.chunks
    active := insert thread info.active
    bytes := info.bytes ∪ byteRange (offset addr) size }

/-- `subwarp_transactions`. -/
abbrev Transactions := Std.TreeMap Addr TransactionInfo

/-- One round of the loop over the addresses of a thread. -/
def touchAddr (segment size : ℕ) (thread : Fin 32) (m : Transactions) (addr : Addr) :
    Transactions :=
  let blockAddress := lineSizeBasedTagFunc addr (.ofNat 64 segment)
  let m := Math.upsert m blockAddress (.touch thread addr size)
  let last := addr + .ofNat 64 size - 1
  let lastAddress := lineSizeBasedTagFunc last (.ofNat 64 segment)
  -- a thread can write to more than one segment
  if blockAddress ≠ lastAddress then Math.upsert m lastAddress (.touch thread last size) else m

/-- The addresses the loop over `memreqaddr` visits, up to the first 0. -/
def WarpInst.visited (inst : WarpInst) (thread : Fin 32) : List Addr :=
  ((List.range maxAccessesPerInsnPerThread).map (inst.memreqaddr thread)).takeWhile (· ≠ 0)

/-- What a thread adds to the transactions. -/
def touchThread (cfg : CoreConfig) (inst : WarpInst) (m : Transactions) (thread : Fin 32) :
    Except CoalescerFailure Transactions :=
  if thread ∉ inst.activeMask then .ok m
  else if inst.numAccesses ≤ maxAccessesPerInsnPerThread then
    .ok ((inst.visited thread).foldl
      (touchAddr (inst.segmentSize cfg) inst.dataSizeCoales thread) m)
  else .error .numAccesses

/-- `subwarp_size`. -/
def CoreConfig.subwarpSize (cfg : CoreConfig) : ℕ := cfg.warpSize / cfg.memWarpParts

/-- The threads of a part of the warp. -/
def CoreConfig.subwarpThreads (cfg : CoreConfig) (subwarp : ℕ) : List (Fin 32) :=
  (List.finRange 32).filter fun thread =>
    subwarp * cfg.subwarpSize ≤ thread.val ∧ thread.val < cfg.subwarpSize * (subwarp + 1)

/-- Step 1: find all transactions generated by this part of the warp. -/
def subwarpTransactions (cfg : CoreConfig) (inst : WarpInst) (subwarp : ℕ) :
    Except CoalescerFailure Transactions :=
  (cfg.subwarpThreads subwarp).foldlM (touchThread cfg inst) ∅

/-! ## Accesses -/

/-- The part of a segment that is used: the lower or the upper 64 bytes of 128, and which
halves of 64 bytes are used. -/
def usedPart (q : Cache.SectorMask) (addr : Addr) (segment : ℕ) :
    Except CoalescerFailure (Addr × ℕ × Bool × Bool) :=
  if segment = 128 then
    let lowerHalfUsed := 0 ∈ q ∨ 1 ∈ q
    let upperHalfUsed := 2 ∈ q ∨ 3 ∈ q
    if lowerHalfUsed ∧ ¬ upperHalfUsed then .ok (addr, 64, 0 ∈ q, 1 ∈ q)
    else if ¬ lowerHalfUsed ∧ upperHalfUsed then .ok (addr + 64, 64, 2 ∈ q, 3 ∈ q)
    else if lowerHalfUsed ∧ upperHalfUsed then .ok (addr, 128, false, false)
    else .error .unusedHalves
  else if segment = 64 then
    if addr.toNat % 128 = 0 then .ok (addr, 64, 0 ∈ q, 1 ∈ q)
    else if addr.toNat % 128 = 64 then .ok (addr, 64, 2 ∈ q, 3 ∈ q)
    else .error .halfSegment
  else .ok (addr, segment, false, false)

/-- The part of 64 bytes that is used. -/
def usedHalf : Addr × ℕ × Bool × Bool → Except CoalescerFailure (Addr × ℕ)
  | (addr, size, lowerHalfUsed, upperHalfUsed) =>
      if size = 64 then
        if lowerHalfUsed ∧ ¬ upperHalfUsed then .ok (addr, 32)
        else if ¬ lowerHalfUsed ∧ upperHalfUsed then .ok (addr + 32, 32)
        else if lowerHalfUsed ∧ upperHalfUsed then .ok (addr, 64)
        else .error .unusedHalves
      else .ok (addr, size)

/-- `memory_coalescing_arch_reduce_and_send`; `segment_size - 1` is unsigned. -/
def memoryCoalescingArchReduceAndSend (isWrite : Bool) (accessType : Cache.MemAccessType)
    (segment : ℕ) (transaction : Addr × TransactionInfo) : Except CoalescerFailure WarpAccess := do
  let (addr, info) := transaction
  if addr &&& (BitVec.ofNat 32 segment - 1).setWidth 64 ≠ 0 then throw .unalignedSegment
  if info.chunks = ∅ then throw .noChunk
  let (addr, size) ← usedHalf (← usedPart info.chunks addr segment)
  return { type := accessType, addr := addr, reqSize := size, write := isWrite,
           warpMask := info.active, byteMask := info.bytes, sectorMask := info.chunks }

/-- What a part of the warp sends: its transactions in the order of their addresses. -/
def coalesceSubwarp (cfg : CoreConfig) (inst : WarpInst) (isWrite : Bool)
    (accessType : Cache.MemAccessType) (subwarp : ℕ) :
    Except CoalescerFailure (List WarpAccess) := do
  let transactions ← subwarpTransactions cfg inst subwarp
  transactions.toList.mapM
    (memoryCoalescingArchReduceAndSend isWrite accessType (inst.segmentSize cfg))

/-- `memory_coalescing_arch`: what it puts on the access queue. -/
def memoryCoalescingArch (cfg : CoreConfig) (inst : WarpInst) (isWrite : Bool)
    (accessType : Cache.MemAccessType) : Except CoalescerFailure (List WarpAccess) :=
  if cfg.memWarpParts = 0 then .error .warpParts
  else do
    let accesses ← (List.range cfg.memWarpParts).mapM (coalesceSubwarp cfg inst isWrite accessType)
    return accesses.flatten

end GpuCalorie.Coalescer
