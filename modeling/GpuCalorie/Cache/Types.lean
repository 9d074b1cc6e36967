/-
# Requests and configurations of caches

What a cache reads of a request (`mem_fetch` and its `mem_access_t`) and of its
configuration. A bitset is the set of its bits. `mem_fetch` objects are told apart by
pointers, which are the `uid`s here: a copy with the same `uid` stands for the same object
at another time.

A configuration carries the checks `cache_config::init` makes. Its set index function is
virtual and a parameter.
-/

import Mathlib.Algebra.GroupWithZero.Nat
import Mathlib.Data.Fintype.Fin
import Mathlib.Data.Finset.Card

namespace GpuCalorie.Cache

/-- `new_addr_type`. -/
abbrev Addr := BitVec 64

/-! ## Requests -/

/-- `mem_access_type`. -/
inductive MemAccessType
  | globalAccR
  | localAccR
  | constAccR
  | textureAccR
  | globalAccW
  | localAccW
  | l1WrbkAcc
  | l2WrbkAcc
  | instAccR
  | l1WrAllocR
  | l2WrAllocR
  deriving DecidableEq, Repr

instance neZeroSectors : NeZero 4 := ⟨by decide⟩

instance neZeroBytes : NeZero 128 := ⟨by decide⟩

/-- `mem_access_sector_mask_t`. -/
abbrev SectorMask := Finset (Fin 4)

/-- `mem_access_byte_mask_t`. -/
abbrev ByteMask := Finset (Fin 128)

/-- `SECTOR_SIZE`. -/
def sectorSize : ℕ := 32

/-- `mem_access_t`. -/
structure MemAccess where
  type : MemAccessType
  addr : Addr
  reqSize : ℕ
  write : Bool
  byteMask : ByteMask := ∅
  sectorMask : SectorMask := ∅
  deriving DecidableEq

/-- What caches read of a `mem_fetch`. Of the write that a fetch-on-write request was made
for, its identity and access are kept. -/
structure MemFetch where
  uid : ℕ
  access : MemAccess
  dataSize : ℕ
  /-- `get_inst().get_uid()`, 0 without an instruction. -/
  instUid : ℕ := 0
  isatomic : Bool := false
  originalMf : Option ℕ := none
  originalWrMf : Option (ℕ × MemAccess) := none
  deriving DecidableEq

/-- The constructor of `mem_fetch` for an access without an instruction. -/
def MemFetch.new (uid : ℕ) (access : MemAccess) (originalWrMf : Option (ℕ × MemAccess)) :
    MemFetch :=
  { uid := uid, access := access, dataSize := access.reqSize, originalWrMf := originalWrMf }

abbrev MemFetch.addr (mf : MemFetch) : Addr := mf.access.addr

abbrev MemFetch.isWrite (mf : MemFetch) : Bool := mf.access.write

abbrev MemFetch.sectorMask (mf : MemFetch) : SectorMask := mf.access.sectorMask

abbrev MemFetch.byteMask (mf : MemFetch) : ByteMask := mf.access.byteMask

/-- `set_addr` and `set_data_size`. -/
def MemFetch.sentFor (mf : MemFetch) (addr : Addr) (dataSize : ℕ) : MemFetch :=
  { mf with access := { mf.access with addr := addr }, dataSize := dataSize }

/-! ## Status of blocks and accesses -/

/-- `cache_block_state`. -/
inductive BlockState
  | invalid
  | reserved
  | valid
  | modified
  deriving DecidableEq, Repr

/-- `cache_request_status`. -/
inductive RequestStatus
  | hit
  | hitReserved
  | miss
  | reservationFail
  | sectorMiss
  deriving DecidableEq, Repr

/-- `evicted_block_info`. -/
structure EvictedBlockInfo where
  blockAddr : Addr := 0
  modifiedSize : ℕ := 0
  deriving DecidableEq

/-- `cache_event_type` with the block a write-back was for. -/
inductive CacheEvent
  | writeBackRequestSent (evicted : EvictedBlockInfo)
  | readRequestSent
  | writeRequestSent
  | writeAllocateSent
  deriving DecidableEq

/-- The assertions of the cache. -/
inductive CacheFailure
  /-- `m_alloc_policy == ON_MISS` where all lines of a set are reserved -/
  | allReserved
  /-- `abort` where no line can be replaced -/
  | noVictim
  /-- `m_cache_type == SECTOR` at a sector miss -/
  | sectorMissOfLine
  /-- `is_valid_line()` in `allocate_sector` -/
  | allocateSector
  /-- `!wb` in `tag_array::access` -/
  | droppedWriteBack
  /-- `m_alloc_policy == ON_MISS` in `tag_array::fill` -/
  | fillByIndex
  /-- `m_data.size() <= m_num_entries` -/
  | mshrEntries
  /-- `m_list.size() <= m_max_merged` -/
  | mshrMerged
  /-- `a != m_data.end()` in `mark_ready` -/
  | markReadyEntry
  /-- `m_current_response.size() <= m_data.size()` in `mark_ready` -/
  | markReadySize
  /-- `access_ready()` in `next_access` -/
  | accessReady
  /-- `!m_list.empty()` in `next_access` -/
  | emptyEntry
  /-- `mf->get_original_mf()` in `fill` -/
  | noOriginalMf
  /-- `e != m_extra_mf_fields.end()` in `fill` -/
  | noExtraMfFields
  /-- `m_alloc_policy == ON_MISS` for atomics in `fill` -/
  | atomicOnFill
  /-- `assert(0)` in `send_read_request` -/
  | sendReadRequest
  /-- `assert(0)` where a write miss looks for the reason of its failure -/
  | failReason
  /-- `status == MISS` where `wr_miss_wa_naive` writes back -/
  | writeBackStatus
  /-- `status != HIT` in the write misses -/
  | writeMissHit
  /-- `get_access_type() == GLOBAL_ACC_R` for atomics -/
  | atomicType
  /-- `get_data_size() <= m_config.get_atom_sz()` -/
  | dataSize
  /-- `m_write_policy == READ_ONLY` in `read_only_cache::access` -/
  | readOnlyPolicy
  /-- `!mf->get_is_write()` in `read_only_cache::access` -/
  | readOnlyWrite
  /-- A data cache whose write policy is `READ_ONLY` -/
  | writableReadOnly
  deriving DecidableEq, Repr

/-! ## Configurations -/

/-- `cache_type`. -/
inductive CacheType
  | normal
  | sector
  deriving DecidableEq, Repr

/-- `replacement_policy_t`. -/
inductive ReplacementPolicy
  | lru
  | fifo
  deriving DecidableEq, Repr

/-- `write_policy_t`. -/
inductive WritePolicy
  | readOnly
  | writeBack
  | writeThrough
  | writeEvict
  | localWbGlobalWt
  deriving DecidableEq, Repr

/-- `allocation_policy_t`; `STREAMING` is `ON_FILL` with a flag. -/
inductive AllocationPolicy
  | onMiss
  | onFill
  deriving DecidableEq, Repr

/-- `write_allocate_policy_t`. -/
inductive WriteAllocatePolicy
  | noWriteAllocate
  | writeAllocate
  | fetchOnWrite
  | lazyFetchOnRead
  deriving DecidableEq, Repr

/-- `mshr_config_t`, of the kinds `baseline_cache::init` accepts. -/
inductive MshrConfig
  | assoc
  | sectorAssoc
  deriving DecidableEq, Repr

/-- `cache_config`, with the checks of `init`. -/
structure CacheConfig where
  cacheType : CacheType
  lineSz : ℕ
  assoc : ℕ
  replacementPolicy : ReplacementPolicy
  writePolicy : WritePolicy
  allocPolicy : AllocationPolicy
  isStreaming : Bool
  writeAllocPolicy : WriteAllocatePolicy
  mshrType : MshrConfig
  mshrEntries : ℕ
  mshrMaxMerge : ℕ
  missQueueSize : ℕ
  dataPortWidth : ℕ
  /-- `set_index`. -/
  setIndex : Addr → ℕ
  sectors : cacheType = .sector → lineSz = 4 * sectorSize
  streaming : isStreaming = true → allocPolicy = .onFill
  onFill_writePolicy : allocPolicy = .onFill → writePolicy ≠ .writeBack
  onFill_writeAllocPolicy : allocPolicy = .onFill →
    writeAllocPolicy ≠ .fetchOnWrite ∧ writeAllocPolicy ≠ .lazyFetchOnRead

namespace CacheConfig

variable (cfg : CacheConfig)

/-- `m_atom_sz`. -/
def atomSz : ℕ :=
  match cfg.cacheType with
  | .normal => cfg.lineSz
  | .sector => sectorSize

/-- `block_addr`, and `tag`, which is the same. -/
def blockAddr (addr : Addr) : Addr :=
  addr &&& ~~~(BitVec.ofNat 64 (cfg.lineSz - 1))

/-- `mshr_addr`. -/
def mshrAddr (addr : Addr) : Addr :=
  addr &&& ~~~(BitVec.ofNat 64 (cfg.atomSz - 1))

end CacheConfig

theorem CacheConfig.onFill_of_ne (cfg : CacheConfig) (h : cfg.allocPolicy ≠ .onMiss) :
    cfg.allocPolicy = .onFill := by
  cases hpolicy : cfg.allocPolicy with
  | onMiss => exact absurd hpolicy h
  | onFill => rfl

/-! ## Sectors -/

/-- `get_sector_index`: the first bit of the mask. That it is the only one is part of
`CacheConfig.Accepts`. -/
def getSectorIndex (mask : SectorMask) : Fin 4 :=
  if 0 ∈ mask then 0 else if 1 ∈ mask then 1 else if 2 ∈ mask then 2 else 3

/-- The sector of a line that an address is in. -/
def sectorOf (addr : Addr) : Fin 4 :=
  Fin.ofNat 4 (addr.toNat / sectorSize)

/-- The requests a cache is given: with sectors, they are for the sector of their address. -/
def CacheConfig.Accepts (cfg : CacheConfig) (mf : MemFetch) : Prop :=
  cfg.cacheType = .sector → mf.sectorMask = {sectorOf mf.addr}

instance (cfg : CacheConfig) (mf : MemFetch) : Decidable (cfg.Accepts mf) :=
  inferInstanceAs (Decidable (_ → _))

theorem getSectorIndex_singleton (k : Fin 4) : getSectorIndex {k} = k := by
  revert k
  decide

theorem toNat_and_not_mask (addr : Addr) (k : ℕ) :
    (addr &&& ~~~(BitVec.ofNat 64 (2 ^ k - 1))).toNat = addr.toNat / 2 ^ k * 2 ^ k := by
  have hshift : addr &&& ~~~(BitVec.ofNat 64 (2 ^ k - 1)) = (addr >>> k) <<< k := by
    apply BitVec.eq_of_getLsbD_eq
    intro i hi
    rw [BitVec.getLsbD_and, BitVec.getLsbD_not, BitVec.getLsbD_ofNat, Nat.testBit_two_pow_sub_one,
      BitVec.getLsbD_shiftLeft, BitVec.getLsbD_ushiftRight]
    by_cases hik : i < k
    · simp [hi, hik]
    · simp [hi, hik, Nat.add_sub_cancel' (Nat.not_lt.mp hik)]
  rw [hshift, BitVec.toNat_shiftLeft, BitVec.toNat_ushiftRight, Nat.shiftRight_eq_div_pow,
    Nat.shiftLeft_eq, Nat.mod_eq_of_lt]
  exact (Nat.div_mul_le_self _ _).trans_lt addr.isLt

namespace CacheConfig

variable {cfg : CacheConfig} {a b : Addr}

theorem mshrAddr_of_normal (h : cfg.cacheType = .normal) (a : Addr) :
    cfg.mshrAddr a = cfg.blockAddr a := by
  rw [mshrAddr, blockAddr, atomSz, h]

theorem toNat_mshrAddr_of_sector (h : cfg.cacheType = .sector) (a : Addr) :
    (cfg.mshrAddr a).toNat = a.toNat / 32 * 32 := by
  rw [mshrAddr, atomSz, h]
  exact toNat_and_not_mask a 5

theorem toNat_blockAddr_of_sector (h : cfg.cacheType = .sector) (a : Addr) :
    (cfg.blockAddr a).toNat = a.toNat / 128 * 128 := by
  rw [blockAddr, cfg.sectors h]
  exact toNat_and_not_mask a 7

theorem mshrAddr_eq (hblock : cfg.blockAddr a = cfg.blockAddr b)
    (hsector : cfg.cacheType = .sector → sectorOf a = sectorOf b) :
    cfg.mshrAddr a = cfg.mshrAddr b := by
  cases h : cfg.cacheType with
  | normal => rw [mshrAddr_of_normal h, mshrAddr_of_normal h, hblock]
  | sector =>
      have hsame := congrArg Fin.val (hsector h)
      simp only [sectorOf, sectorSize, Fin.val_ofNat] at hsame
      have hround := congrArg BitVec.toNat hblock
      rw [toNat_blockAddr_of_sector h, toNat_blockAddr_of_sector h] at hround
      apply BitVec.eq_of_toNat_eq
      rw [toNat_mshrAddr_of_sector h, toNat_mshrAddr_of_sector h]
      omega

theorem blockAddr_eq (h : cfg.mshrAddr a = cfg.mshrAddr b) :
    cfg.blockAddr a = cfg.blockAddr b := by
  cases htype : cfg.cacheType with
  | normal =>
      rw [mshrAddr_of_normal htype, mshrAddr_of_normal htype] at h
      exact h
  | sector =>
      have hround := congrArg BitVec.toNat h
      rw [toNat_mshrAddr_of_sector htype, toNat_mshrAddr_of_sector htype] at hround
      apply BitVec.eq_of_toNat_eq
      rw [toNat_blockAddr_of_sector htype, toNat_blockAddr_of_sector htype]
      omega

@[simp]
theorem blockAddr_blockAddr (cfg : CacheConfig) (a : Addr) :
    cfg.blockAddr (cfg.blockAddr a) = cfg.blockAddr a := by
  rw [blockAddr, blockAddr, BitVec.and_assoc, BitVec.and_self]

@[simp]
theorem mshrAddr_mshrAddr (cfg : CacheConfig) (a : Addr) :
    cfg.mshrAddr (cfg.mshrAddr a) = cfg.mshrAddr a := by
  rw [mshrAddr, mshrAddr, BitVec.and_assoc, BitVec.and_self]

@[simp]
theorem blockAddr_mshrAddr (cfg : CacheConfig) (a : Addr) :
    cfg.blockAddr (cfg.mshrAddr a) = cfg.blockAddr a :=
  blockAddr_eq (cfg.mshrAddr_mshrAddr a)

end CacheConfig

end GpuCalorie.Cache
