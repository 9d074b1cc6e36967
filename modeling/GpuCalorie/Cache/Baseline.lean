/-
# The baseline cache

`baseline_cache`: a tag array, the miss status holding registers, the queue of requests to
the next level, and for each request that waits for its fill the record of where it goes.
Statistics are left out, as nothing reads them back.

A request that is sent to the next level has the address and size of what is fetched until
its fill restores its own. The copy in the miss queue has the former, the one in the record
and in the registers the latter.
-/

import GpuCalorie.Cache.TagArray
import GpuCalorie.Cache.Mshr

namespace GpuCalorie.Cache

/-- `extra_mf_fields`, with the request it is filed under. Records in the map are always
valid, which `m_valid` says. -/
structure ExtraMfFields where
  mf : MemFetch
  blockAddr : Addr
  addr : Addr
  cacheIndex : ℕ
  dataSize : ℕ
  pendingRead : UInt32

/-- The constructor of `extra_mf_fields`. -/
def ExtraMfFields.new (cfg : CacheConfig) (mf : MemFetch) (cacheIndex : ℕ) : ExtraMfFields :=
  { mf := mf
    blockAddr := cfg.mshrAddr mf.addr
    addr := mf.addr
    cacheIndex := cacheIndex
    dataSize := mf.dataSize
    pendingRead :=
      match cfg.mshrType with
      | .sectorAssoc => (cfg.lineSz / sectorSize).toUInt32
      | .assoc => 0 }

/-- `baseline_cache`. `nextUid` is where requests the cache makes itself get their identity
from. -/
structure BaselineCache (cfg : CacheConfig) where
  tagArray : TagArray cfg.cacheType := {}
  mshrs : MshrTable := {}
  missQueue : List MemFetch := []
  extraMfFields : ℕ → Option ExtraMfFields := fun _ => none
  dataPortOccupiedCycles : ℕ := 0
  fillPortOccupiedCycles : ℕ := 0
  nextUid : ℕ

namespace BaselineCache

variable {cfg : CacheConfig}

/-- `miss_queue_full`: no room for more requests than this in the queue. -/
def missQueueFull (c : BaselineCache cfg) (numMiss : ℕ) : Bool :=
  decide (cfg.missQueueSize ≤ c.missQueue.length + numMiss)

/-- A line of the tag array changes. -/
def modifyLine (c : BaselineCache cfg) (idx : ℕ)
    (change : CacheBlock cfg.cacheType → CacheBlock cfg.cacheType) : BaselineCache cfg :=
  { c with tagArray := c.tagArray.modifyLine idx change }

/-! ## Ports -/

/-- `use_data_port`. Of the events `was_writeback_sent` only sees the first. -/
def useDataPort (c : BaselineCache cfg) (mf : MemFetch) (outcome : RequestStatus)
    (events : List CacheEvent) : BaselineCache cfg :=
  match outcome with
  | .hit =>
    { c with
      dataPortOccupiedCycles := c.dataPortOccupiedCycles + mf.dataSize / cfg.dataPortWidth +
        if 0 < mf.dataSize % cfg.dataPortWidth then 1 else 0 }
  | .hitReserved | .miss =>
    match events with
    | .writeBackRequestSent evicted :: _ =>
      { c with
        dataPortOccupiedCycles :=
          c.dataPortOccupiedCycles + evicted.modifiedSize / cfg.dataPortWidth }
    | _ => c
  | .sectorMiss | .reservationFail => c

/-- `use_fill_port`. -/
def useFillPort (c : BaselineCache cfg) : BaselineCache cfg :=
  { c with fillPortOccupiedCycles := c.fillPortOccupiedCycles + cfg.atomSz / cfg.dataPortWidth }

/-- `replenish_port_bandwidth`. -/
def replenishPortBandwidth (c : BaselineCache cfg) : BaselineCache cfg :=
  { c with
    dataPortOccupiedCycles := c.dataPortOccupiedCycles - 1
    fillPortOccupiedCycles := c.fillPortOccupiedCycles - 1 }

/-! ## Cycles and fills -/

/-- `cycle`: the first request of the queue is sent if the memory port is not full. -/
def cycle (c : BaselineCache cfg) (memportFull : Bool) : Option MemFetch × BaselineCache cfg :=
  match c.missQueue with
  | [] => (none, c.replenishPortBandwidth)
  | mf :: rest =>
    if memportFull then (none, c.replenishPortBandwidth)
    else (some mf, replenishPortBandwidth { c with missQueue := rest })

/-- The tags after the fill of a request. -/
def fillTags (c : BaselineCache cfg) (e : ExtraMfFields) (mf : MemFetch) (time : UInt32) :
    Except CacheFailure (TagArray cfg.cacheType) :=
  match cfg.allocPolicy with
  | .onMiss => c.tagArray.fillLine cfg e.cacheIndex time mf.sectorMask
  | .onFill => do
    let tags ← c.tagArray.fillBlock cfg e.blockAddr time mf.sectorMask
    return if cfg.isStreaming then tags.removePendingLine cfg mf else tags

/-- A line is dirty for an atomic operation that waits. -/
def markAtomic (cfg : CacheConfig) (tags : TagArray cfg.cacheType) (cacheIndex : ℕ)
    (mask : SectorMask) (hasAtomic : Bool) : Except CacheFailure (TagArray cfg.cacheType) :=
  if hasAtomic then
    if cfg.allocPolicy = .onMiss then .ok (tags.modifyLine cacheIndex (·.setStatus .modified mask))
    else .error .atomicOnFill
  else .ok tags

/-- The fill of a request all of whose data has come. -/
def fillRequest (c : BaselineCache cfg) (uid : ℕ) (time : UInt32) :
    Except CacheFailure (BaselineCache cfg) :=
  match c.extraMfFields uid with
  | none => .error .noExtraMfFields
  | some e => do
    let mf := e.mf.sentFor e.addr e.dataSize
    let tags ← c.fillTags e mf time
    let (hasAtomic, mshrs) ← c.mshrs.markReady e.blockAddr
    let tags ← markAtomic cfg tags e.cacheIndex mf.sectorMask hasAtomic
    return useFillPort { c with
      tagArray := tags
      mshrs := mshrs
      extraMfFields := Function.update c.extraMfFields uid none }

/-- `fill`. With `SECTOR_ASSOC` a request is answered sector by sector. -/
def fill (c : BaselineCache cfg) (reply : MemFetch) (time : UInt32) :
    Except CacheFailure (BaselineCache cfg) :=
  match cfg.mshrType with
  | .assoc => c.fillRequest reply.uid time
  | .sectorAssoc =>
    match reply.originalMf with
    | none => .error .noOriginalMf
    | some uid =>
      match c.extraMfFields uid with
      | none => .error .noExtraMfFields
      | some e =>
        let c := { c with
          extraMfFields := Function.update c.extraMfFields uid
            (some { e with pendingRead := e.pendingRead - 1 }) }
        if 0 < e.pendingRead - 1 then .ok c else c.fillRequest uid time

/-! ## Read misses -/

/-- What `send_read_request` tells its caller: whether the miss was taken, and what was
evicted for it. -/
structure ReadRequest (cfg : CacheConfig) where
  doMiss : Bool
  wb : Bool
  evicted : EvictedBlockInfo
  events : List CacheEvent
  cache : BaselineCache cfg

/-- The access of `send_read_request` to the tags: a read-only cache expects no
write-back. -/
def missAccess (c : BaselineCache cfg) (blockAddr : Addr) (cacheIndex : ℕ) (mf : MemFetch)
    (time : UInt32) (readOnly : Bool) : Except CacheFailure (TagAccess cfg.cacheType) :=
  if readOnly then c.tagArray.accessNoWb cfg blockAddr time cacheIndex mf
  else c.tagArray.access cfg blockAddr time cacheIndex mf

/-- `send_read_request`. -/
def sendReadRequest (c : BaselineCache cfg) (blockAddr : Addr) (cacheIndex : ℕ) (mf : MemFetch)
    (time : UInt32) (events : List CacheEvent) (readOnly wa : Bool) :
    Except CacheFailure (ReadRequest cfg) := do
  let mshrAddr := cfg.mshrAddr mf.addr
  let mshrHit := c.mshrs.probe mshrAddr
  let mshrAvail := !c.mshrs.full cfg mshrAddr
  if mshrHit && mshrAvail then
    let r ← c.missAccess blockAddr cacheIndex mf time readOnly
    let mshrs ← c.mshrs.add cfg mshrAddr mf
    return ⟨true, r.wb, r.evicted, events, { c with tagArray := r.tags, mshrs := mshrs }⟩
  else if !mshrHit && mshrAvail && decide (c.missQueue.length < cfg.missQueueSize) then
    let r ← c.missAccess blockAddr cacheIndex mf time readOnly
    let mshrs ← c.mshrs.add cfg mshrAddr mf
    let tags :=
      if cfg.isStreaming ∧ cfg.cacheType = .sector then r.tags.addPendingLine cfg mf else r.tags
    return ⟨true, r.wb, r.evicted, if wa then events else events ++ [.readRequestSent],
      { c with
        tagArray := tags
        mshrs := mshrs
        extraMfFields := Function.update c.extraMfFields mf.uid (some (.new cfg mf r.idx))
        missQueue := c.missQueue ++ [mf.sentFor mshrAddr cfg.atomSz] }⟩
  else if mshrHit && !mshrAvail || !mshrHit && !mshrAvail then
    return ⟨false, false, {}, events, c⟩
  else .error .sendReadRequest

end BaselineCache

end GpuCalorie.Cache
