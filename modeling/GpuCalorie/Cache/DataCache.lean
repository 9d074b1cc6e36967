/-
# Data caches and read-only caches

An access probes the tags and is handled by a function for its kind: read or write, hit or
miss. Which functions handle writes is the configuration's write policy and
write-allocate policy. Each first checks that the next level's queue and the miss status
holding registers have room, and refuses the access with `RESERVATION_FAIL` otherwise.
-/

import GpuCalorie.Cache.Baseline

namespace GpuCalorie.Cache

/-- Which data cache it is: `l1_cache` or `l2_cache`. -/
inductive DataCacheLevel
  | l1
  | l2
  deriving DecidableEq, Repr

/-- `m_wr_alloc_type`. -/
def DataCacheLevel.wrAllocType : DataCacheLevel → MemAccessType
  | .l1 => .l1WrAllocR
  | .l2 => .l2WrAllocR

/-- `m_wrbk_type`. -/
def DataCacheLevel.wrbkType : DataCacheLevel → MemAccessType
  | .l1 => .l1WrbkAcc
  | .l2 => .l2WrbkAcc

/-- What an access returns, and the cache after it. -/
structure AccessResult (cfg : CacheConfig) where
  status : RequestStatus
  events : List CacheEvent
  cache : BaselineCache cfg

namespace BaselineCache

variable {cfg : CacheConfig}

/-- `send_write_request`. -/
def sendWriteRequest (c : BaselineCache cfg) (mf : MemFetch) (request : CacheEvent)
    (events : List CacheEvent) : List CacheEvent × BaselineCache cfg :=
  (events ++ [request], { c with missQueue := c.missQueue ++ [mf] })

/-- The write-back of an evicted block, unless writes went through. -/
def sendWriteBack (level : DataCacheLevel) (c : BaselineCache cfg) (wb : Bool)
    (evicted : EvictedBlockInfo) (request : CacheEvent) (events : List CacheEvent) :
    List CacheEvent × BaselineCache cfg :=
  if wb ∧ cfg.writePolicy ≠ .writeThrough then
    let mf := MemFetch.new c.nextUid
      { type := level.wrbkType
        addr := evicted.blockAddr
        reqSize := evicted.modifiedSize
        write := true } none
    sendWriteRequest { c with nextUid := c.nextUid + 1 } mf request events
  else (events, c)

/-- The read request of a write that allocates. -/
def writeAllocateRequest (level : DataCacheLevel) (c : BaselineCache cfg) (mf : MemFetch)
    (originalWrMf : Option (ℕ × MemAccess)) : MemFetch :=
  MemFetch.new c.nextUid
    { mf.access with type := level.wrAllocType, reqSize := cfg.atomSz, write := false } originalWrMf

/-- The check of the write misses: the queue has no room for this many requests, or the
registers none for the miss. -/
def refusesMiss (c : BaselineCache cfg) (mshrAddr : Addr) (numMiss : ℕ) :
    Except CacheFailure Bool :=
  let mshrHit := c.mshrs.probe mshrAddr
  let mshrAvail := !c.mshrs.full cfg mshrAddr
  if c.missQueueFull numMiss || (!(mshrHit && mshrAvail) &&
      !(!mshrHit && mshrAvail && decide (c.missQueue.length < cfg.missQueueSize))) then
    if c.missQueueFull numMiss || (mshrHit && !mshrAvail) || (!mshrHit && !mshrAvail) then .ok true
    else .error .failReason
  else .ok false

/-! ## Write hits -/

/-- `wr_hit_wb`. -/
def wrHitWb (c : BaselineCache cfg) (addr : Addr) (cacheIndex : ℕ) (mf : MemFetch) (time : UInt32)
    (events : List CacheEvent) : Except CacheFailure (AccessResult cfg) := do
  let r ← c.tagArray.accessNoWb cfg (cfg.blockAddr addr) time cacheIndex mf
  let tags := r.tags.modifyLine r.idx (·.setStatus .modified mf.sectorMask)
  return ⟨.hit, events, { c with tagArray := tags }⟩

/-- `wr_hit_wt`. -/
def wrHitWt (c : BaselineCache cfg) (addr : Addr) (cacheIndex : ℕ) (mf : MemFetch) (time : UInt32)
    (events : List CacheEvent) : Except CacheFailure (AccessResult cfg) := do
  if c.missQueueFull 0 then return ⟨.reservationFail, events, c⟩
  let r ← c.tagArray.accessNoWb cfg (cfg.blockAddr addr) time cacheIndex mf
  let tags := r.tags.modifyLine r.idx (·.setStatus .modified mf.sectorMask)
  let (events, c) := sendWriteRequest { c with tagArray := tags } mf .writeRequestSent events
  return ⟨.hit, events, c⟩

/-- `wr_hit_we`. -/
def wrHitWe (c : BaselineCache cfg) (cacheIndex : ℕ) (mf : MemFetch) (events : List CacheEvent) :
    Except CacheFailure (AccessResult cfg) := do
  if c.missQueueFull 0 then return ⟨.reservationFail, events, c⟩
  let (events, c) := c.sendWriteRequest mf .writeRequestSent events
  return ⟨.hit, events, c.modifyLine cacheIndex (·.setStatus .invalid mf.sectorMask)⟩

/-- `wr_hit_global_we_local_wb`. -/
def wrHitGlobalWeLocalWb (c : BaselineCache cfg) (addr : Addr) (cacheIndex : ℕ) (mf : MemFetch)
    (time : UInt32) (events : List CacheEvent) : Except CacheFailure (AccessResult cfg) :=
  if mf.access.type = .globalAccW then c.wrHitWe cacheIndex mf events
  else c.wrHitWb addr cacheIndex mf time events

/-! ## Write misses -/

/-- `wr_miss_wa_naive`. -/
def wrMissWaNaive (level : DataCacheLevel) (c : BaselineCache cfg) (addr : Addr) (cacheIndex : ℕ)
    (mf : MemFetch) (time : UInt32) (events : List CacheEvent) (status : RequestStatus) :
    Except CacheFailure (AccessResult cfg) := do
  let refused ← c.refusesMiss (cfg.mshrAddr mf.addr) 2
  if refused then return ⟨.reservationFail, events, c⟩
  let (events, c) := c.sendWriteRequest mf .writeRequestSent events
  let nMf := c.writeAllocateRequest level mf none
  let r ← sendReadRequest { c with nextUid := c.nextUid + 1 } (cfg.blockAddr addr) cacheIndex nMf
    time events false true
  let events := r.events ++ [.writeAllocateSent]
  if r.doMiss then
    if r.wb ∧ cfg.writePolicy ≠ .writeThrough ∧ status ≠ .miss then .error .writeBackStatus
    else
      let (events, c) :=
        r.cache.sendWriteBack level r.wb r.evicted (.writeBackRequestSent r.evicted)
        events
      return ⟨.miss, events, c⟩
  else return ⟨.reservationFail, events, r.cache⟩

/-- `wr_miss_wa_fetch_on_write` for a request that writes all of its line or sector. -/
def wrMissWaFetchOnWriteFull (level : DataCacheLevel) (c : BaselineCache cfg) (addr : Addr)
    (cacheIndex : ℕ) (mf : MemFetch) (time : UInt32) (events : List CacheEvent) :
    Except CacheFailure (AccessResult cfg) := do
  if c.missQueueFull 0 then return ⟨.reservationFail, events, c⟩
  let r ← c.tagArray.access cfg (cfg.blockAddr addr) time cacheIndex mf
  if r.status = .hit then .error .writeMissHit
  else
    let tags := r.tags.modifyLine r.idx (·.setStatus .modified mf.sectorMask)
    let tags :=
      if r.status = .hitReserved then
        tags.modifyLine r.idx (·.setIgnoreOnFill true mf.sectorMask)
      else tags
    let c := { c with tagArray := tags }
    if r.status ≠ .reservationFail then
      let (events, c) := c.sendWriteBack level r.wb r.evicted (.writeBackRequestSent r.evicted)
        events
      return ⟨.miss, events, c⟩
    else return ⟨.reservationFail, events, c⟩

/-- `wr_miss_wa_fetch_on_write` for a request that writes a part. -/
def wrMissWaFetchOnWritePart (level : DataCacheLevel) (c : BaselineCache cfg) (addr : Addr)
    (cacheIndex : ℕ) (mf : MemFetch) (time : UInt32) (events : List CacheEvent) :
    Except CacheFailure (AccessResult cfg) := do
  let mshrAddr := cfg.mshrAddr mf.addr
  let refused ← c.refusesMiss mshrAddr 1
  if refused then return ⟨.reservationFail, events, c⟩
  -- another write would change what the read in between gets
  if c.mshrs.probe mshrAddr ∧ c.mshrs.isReadAfterWritePending mshrAddr ∧ mf.isWrite then
    return ⟨.reservationFail, events, c⟩
  let nMf := c.writeAllocateRequest level mf (some (mf.uid, mf.access))
  let r ← sendReadRequest { c with nextUid := c.nextUid + 1 } (cfg.blockAddr addr) cacheIndex nMf
    time events false true
  let c := r.cache.modifyLine cacheIndex (·.setModifiedOnFill true mf.sectorMask)
  let events := r.events ++ [.writeAllocateSent]
  if r.doMiss then
    let (events, c) := c.sendWriteBack level r.wb r.evicted (.writeBackRequestSent r.evicted) events
    return ⟨.miss, events, c⟩
  else return ⟨.reservationFail, events, c⟩

/-- `wr_miss_wa_fetch_on_write`. -/
def wrMissWaFetchOnWrite (level : DataCacheLevel) (c : BaselineCache cfg) (addr : Addr)
    (cacheIndex : ℕ) (mf : MemFetch) (time : UInt32) (events : List CacheEvent) :
    Except CacheFailure (AccessResult cfg) :=
  if mf.byteMask.card = cfg.atomSz then
    c.wrMissWaFetchOnWriteFull level addr cacheIndex mf time events
  else c.wrMissWaFetchOnWritePart level addr cacheIndex mf time events

/-- `wr_miss_wa_lazy_fetch_on_read`. -/
def wrMissWaLazyFetchOnRead (level : DataCacheLevel) (c : BaselineCache cfg) (addr : Addr)
    (cacheIndex : ℕ) (mf : MemFetch) (time : UInt32) (events : List CacheEvent) :
    Except CacheFailure (AccessResult cfg) := do
  if c.missQueueFull 0 then return ⟨.reservationFail, events, c⟩
  let r ← c.tagArray.access cfg (cfg.blockAddr addr) time cacheIndex mf
  if r.status = .hit then .error .writeMissHit
  else
    let tags := r.tags.modifyLine r.idx (·.setStatus .modified mf.sectorMask)
    let tags :=
      if r.status = .hitReserved then
        (tags.modifyLine r.idx (·.setIgnoreOnFill true mf.sectorMask)).modifyLine r.idx
          (·.setModifiedOnFill true mf.sectorMask)
      else tags
    let tags := tags.modifyLine r.idx
      (·.setReadable (decide (mf.byteMask.card = cfg.atomSz)) mf.sectorMask)
    let c := { c with tagArray := tags }
    if r.status ≠ .reservationFail then
      let (events, c) := c.sendWriteBack level r.wb r.evicted (.writeBackRequestSent r.evicted)
        events
      return ⟨.miss, events, c⟩
    else return ⟨.reservationFail, events, c⟩

/-- `wr_miss_no_wa`. -/
def wrMissNoWa (c : BaselineCache cfg) (mf : MemFetch) (events : List CacheEvent) :
    Except CacheFailure (AccessResult cfg) := do
  if c.missQueueFull 0 then return ⟨.reservationFail, events, c⟩
  let (events, c) := c.sendWriteRequest mf .writeRequestSent events
  return ⟨.miss, events, c⟩

/-! ## Reads -/

/-- `rd_hit_base`. -/
def rdHitBase (c : BaselineCache cfg) (addr : Addr) (cacheIndex : ℕ) (mf : MemFetch)
    (time : UInt32) (events : List CacheEvent) : Except CacheFailure (AccessResult cfg) := do
  let r ← c.tagArray.accessNoWb cfg (cfg.blockAddr addr) time cacheIndex mf
  if mf.isatomic then
    if mf.access.type = .globalAccR then
      let tags := r.tags.modifyLine r.idx (·.setStatus .modified mf.sectorMask)
      return ⟨.hit, events, { c with tagArray := tags }⟩
    else .error .atomicType
  else return ⟨.hit, events, { c with tagArray := r.tags }⟩

/-- `rd_miss_base`. Its event of a write-back does not say what was evicted. -/
def rdMissBase (level : DataCacheLevel) (c : BaselineCache cfg) (addr : Addr) (cacheIndex : ℕ)
    (mf : MemFetch) (time : UInt32) (events : List CacheEvent) :
    Except CacheFailure (AccessResult cfg) := do
  if c.missQueueFull 1 then return ⟨.reservationFail, events, c⟩
  let r ← c.sendReadRequest (cfg.blockAddr addr) cacheIndex mf time events false false
  if r.doMiss then
    let (events, c) :=
      r.cache.sendWriteBack level r.wb r.evicted (.writeBackRequestSent {}) r.events
    return ⟨.miss, events, c⟩
  else return ⟨.reservationFail, r.events, r.cache⟩

/-! ## Accesses -/

/-- `m_wr_hit`. -/
def wrHit (c : BaselineCache cfg) (addr : Addr) (cacheIndex : ℕ) (mf : MemFetch) (time : UInt32)
    (events : List CacheEvent) : Except CacheFailure (AccessResult cfg) :=
  match cfg.writePolicy with
  | .readOnly => .error .writableReadOnly
  | .writeBack => c.wrHitWb addr cacheIndex mf time events
  | .writeThrough => c.wrHitWt addr cacheIndex mf time events
  | .writeEvict => c.wrHitWe cacheIndex mf events
  | .localWbGlobalWt => c.wrHitGlobalWeLocalWb addr cacheIndex mf time events

/-- `m_wr_miss`. -/
def wrMiss (level : DataCacheLevel) (c : BaselineCache cfg) (addr : Addr) (cacheIndex : ℕ)
    (mf : MemFetch) (time : UInt32) (events : List CacheEvent) (status : RequestStatus) :
    Except CacheFailure (AccessResult cfg) :=
  match cfg.writeAllocPolicy with
  | .noWriteAllocate => c.wrMissNoWa mf events
  | .writeAllocate => c.wrMissWaNaive level addr cacheIndex mf time events status
  | .fetchOnWrite => c.wrMissWaFetchOnWrite level addr cacheIndex mf time events
  | .lazyFetchOnRead => c.wrMissWaLazyFetchOnRead level addr cacheIndex mf time events

/-- `process_tag_probe`, without the use of the data port. -/
def processTagProbe (level : DataCacheLevel) (c : BaselineCache cfg) (status : RequestStatus)
    (addr : Addr) (cacheIndex : ℕ) (mf : MemFetch) (time : UInt32) :
    Except CacheFailure (AccessResult cfg) :=
  if mf.isWrite then
    if status = .hit then c.wrHit addr cacheIndex mf time []
    else if status ≠ .reservationFail ∨ cfg.writeAllocPolicy = .noWriteAllocate then
      c.wrMiss level addr cacheIndex mf time [] status
    else .ok ⟨.reservationFail, [], c⟩
  else if status = .hit then c.rdHitBase addr cacheIndex mf time []
  else if status ≠ .reservationFail then c.rdMissBase level addr cacheIndex mf time []
  else .ok ⟨.reservationFail, [], c⟩

/-- `data_cache::access`. -/
def dataAccess (level : DataCacheLevel) (c : BaselineCache cfg) (addr : Addr) (mf : MemFetch)
    (time : UInt32) : Except CacheFailure (AccessResult cfg) := do
  if cfg.atomSz < mf.dataSize then .error .dataSize
  else
    let (status, cacheIndex) ←
      c.tagArray.probe cfg (cfg.blockAddr addr) noIndex mf.sectorMask (some mf)
    let r ← c.processTagProbe level status addr cacheIndex mf time
    return { r with cache := r.cache.useDataPort mf r.status r.events }

/-- `read_only_cache::access`. -/
def readOnlyAccess (c : BaselineCache cfg) (addr : Addr) (mf : MemFetch) (time : UInt32) :
    Except CacheFailure (AccessResult cfg) := do
  if cfg.atomSz < mf.dataSize then .error .dataSize
  else if cfg.writePolicy ≠ .readOnly then .error .readOnlyPolicy
  else if mf.isWrite then .error .readOnlyWrite
  else
    let (status, cacheIndex) ←
      c.tagArray.probe cfg (cfg.blockAddr addr) noIndex mf.sectorMask none
    if status = .hit then
      let r ← c.tagArray.accessNoWb cfg (cfg.blockAddr addr) time cacheIndex mf
      return ⟨r.status, [], { c with tagArray := r.tags }⟩
    else if status ≠ .reservationFail then
      if c.missQueueFull 0 then return ⟨.reservationFail, [], c⟩
      let r ← c.sendReadRequest (cfg.blockAddr addr) cacheIndex mf time [] true false
      return ⟨if r.doMiss then .miss else .reservationFail, r.events, r.cache⟩
    else return ⟨.reservationFail, [], c⟩

end BaselineCache

end GpuCalorie.Cache
