/-
# Statistics of caches

`cache_stats` counts accesses by their type and outcome, since the beginning and in the current
window, and refusals by their reason. Two operators accumulate it. `operator+=` adds to the counts
of the window the whole counts of its argument, and `operator+` leaves them out.
-/

import GpuCalorie.Cache.Types
import Mathlib.Algebra.BigOperators.Group.List.Basic
import Mathlib.Data.BitVec

namespace GpuCalorie.Cache

/-- `cache_reservation_fail_reason`. -/
inductive ReservationFailReason
  | lineAllocFail
  | missQueueFull
  | mshrEntryFail
  | mshrMergeEntryFail
  | mshrRwPending
  deriving DecidableEq, Repr

/-- `cache_stats`. -/
@[ext]
structure CacheStats where
  stats : MemAccessType → RequestStatus → BitVec 64 := fun _ _ => 0
  statsPw : MemAccessType → RequestStatus → BitVec 64 := fun _ _ => 0
  failStats : MemAccessType → ReservationFailReason → BitVec 64 := fun _ _ => 0
  cachePortAvailableCycles : BitVec 64 := 0
  cacheDataPortBusyCycles : BitVec 64 := 0
  cacheFillPortBusyCycles : BitVec 64 := 0

namespace CacheStats

/-- `clear`. -/
def clear (c : CacheStats) : CacheStats := { statsPw := c.statsPw }

/-- `clear_pw`. -/
def clearPw (c : CacheStats) : CacheStats := { c with statsPw := fun _ _ => 0 }

/-- `inc_stats`. -/
def incStats (c : CacheStats) (type : MemAccessType) (outcome : RequestStatus) : CacheStats :=
  { c with
    stats := Function.update c.stats type
      (Function.update (c.stats type) outcome (c.stats type outcome + 1)) }

/-- `inc_stats_pw`. -/
def incStatsPw (c : CacheStats) (type : MemAccessType) (outcome : RequestStatus) : CacheStats :=
  { c with
    statsPw := Function.update c.statsPw type
      (Function.update (c.statsPw type) outcome (c.statsPw type outcome + 1)) }

/-- `inc_fail_stats`. -/
def incFailStats (c : CacheStats) (type : MemAccessType) (fail : ReservationFailReason) :
    CacheStats :=
  { c with
    failStats := Function.update c.failStats type
      (Function.update (c.failStats type) fail (c.failStats type fail + 1)) }

/-- `operator()`, whose flag says which of two tables it reads. -/
def read (c : CacheStats) (type : MemAccessType) : RequestStatus ⊕ ReservationFailReason → BitVec 64
  | .inl status => c.stats type status
  | .inr fail => c.failStats type fail

/-- `operator+`. -/
def add (c cs : CacheStats) : CacheStats where
  stats type status := c.stats type status + cs.read type (.inl status)
  failStats type fail := c.failStats type fail + cs.read type (.inr fail)
  cachePortAvailableCycles := c.cachePortAvailableCycles + cs.cachePortAvailableCycles
  cacheDataPortBusyCycles := c.cacheDataPortBusyCycles + cs.cacheDataPortBusyCycles
  cacheFillPortBusyCycles := c.cacheFillPortBusyCycles + cs.cacheFillPortBusyCycles

/-- `operator+=`. -/
def addAssign (c cs : CacheStats) : CacheStats where
  stats type status := c.stats type status + cs.read type (.inl status)
  statsPw type status := c.statsPw type status + cs.read type (.inl status)
  failStats type fail := c.failStats type fail + cs.read type (.inr fail)
  cachePortAvailableCycles := c.cachePortAvailableCycles + cs.cachePortAvailableCycles
  cacheDataPortBusyCycles := c.cacheDataPortBusyCycles + cs.cacheDataPortBusyCycles
  cacheFillPortBusyCycles := c.cacheFillPortBusyCycles + cs.cacheFillPortBusyCycles

end CacheStats

/-! ## Summaries -/

/-- `cache_sub_stats`. -/
@[ext]
structure CacheSubStats where
  accesses : BitVec 64 := 0
  misses : BitVec 64 := 0
  pendingHits : BitVec 64 := 0
  resFails : BitVec 64 := 0
  portAvailableCycles : BitVec 64 := 0
  dataPortBusyCycles : BitVec 64 := 0
  fillPortBusyCycles : BitVec 64 := 0
  deriving DecidableEq

instance : Zero CacheSubStats := ⟨{}⟩

/-- `operator+`. -/
instance : Add CacheSubStats where
  add a b :=
    { accesses := a.accesses + b.accesses
      misses := a.misses + b.misses
      pendingHits := a.pendingHits + b.pendingHits
      resFails := a.resFails + b.resFails
      portAvailableCycles := a.portAvailableCycles + b.portAvailableCycles
      dataPortBusyCycles := a.dataPortBusyCycles + b.dataPortBusyCycles
      fillPortBusyCycles := a.fillPortBusyCycles + b.fillPortBusyCycles }

/-- `cache_sub_stats_pw`. -/
@[ext]
structure CacheSubStatsPw where
  accesses : BitVec 32 := 0
  writeMisses : BitVec 32 := 0
  writeHits : BitVec 32 := 0
  writePendingHits : BitVec 32 := 0
  writeResFails : BitVec 32 := 0
  readMisses : BitVec 32 := 0
  readHits : BitVec 32 := 0
  readPendingHits : BitVec 32 := 0
  readResFails : BitVec 32 := 0
  deriving DecidableEq

instance : Zero CacheSubStatsPw := ⟨{}⟩

/-- The sums of all members. The operators of the source leave out the hits. -/
instance : Add CacheSubStatsPw where
  add a b :=
    { accesses := a.accesses + b.accesses
      writeMisses := a.writeMisses + b.writeMisses
      writeHits := a.writeHits + b.writeHits
      writePendingHits := a.writePendingHits + b.writePendingHits
      writeResFails := a.writeResFails + b.writeResFails
      readMisses := a.readMisses + b.readMisses
      readHits := a.readHits + b.readHits
      readPendingHits := a.readPendingHits + b.readPendingHits
      readResFails := a.readResFails + b.readResFails }

/-- The types in their order. -/
def MemAccessType.all : List MemAccessType :=
  [.globalAccR, .localAccR, .constAccR, .textureAccR, .globalAccW, .localAccW, .l1WrbkAcc,
    .l2WrbkAcc, .instAccR,
    .l1WrAllocR, .l2WrAllocR]

/-- The outcomes in their order. -/
def RequestStatus.all : List RequestStatus :=
  [.hit, .hitReserved, .miss, .reservationFail, .sectorMiss]

namespace CacheStats

/-- A step of the loops of `get_sub_stats`. -/
def visit (c : CacheStats) (t : CacheSubStats) (type : MemAccessType) (status : RequestStatus) :
    CacheSubStats :=
  let n := c.stats type status
  match status with
  | .hit => { t with accesses := t.accesses + n }
  | .hitReserved => { t with accesses := t.accesses + n, pendingHits := t.pendingHits + n }
  | .miss | .sectorMiss => { t with accesses := t.accesses + n, misses := t.misses + n }
  | .reservationFail => { t with resFails := t.resFails + n }

/-- The loops of `get_sub_stats`. -/
def visitAll (c : CacheStats) (t : CacheSubStats) : CacheSubStats :=
  MemAccessType.all.foldl (fun t type => RequestStatus.all.foldl (c.visit · type ·) t) t

/-- `get_sub_stats`. -/
def getSubStats (c : CacheStats) : CacheSubStats :=
  { c.visitAll {} with
    portAvailableCycles := c.cachePortAvailableCycles
    dataPortBusyCycles := c.cacheDataPortBusyCycles
    fillPortBusyCycles := c.cacheFillPortBusyCycles }

/-- A step of the loops of `get_sub_stats_pw`. -/
def visitPw (c : CacheStats) (t : CacheSubStatsPw) (type : MemAccessType) (status : RequestStatus) :
    CacheSubStatsPw :=
  let n := (c.statsPw type status).setWidth 32
  let isRead := type = .globalAccR ∨ type = .constAccR ∨ type = .instAccR
  let isWrite := type = .globalAccW
  match status with
  | .hit =>
    let t := { t with accesses := t.accesses + n }
    if isRead then { t with readHits := t.readHits + n }
    else if isWrite then { t with writeHits := t.writeHits + n }
    else t
  | .miss | .sectorMiss =>
    let t := { t with accesses := t.accesses + n }
    if isRead then { t with readMisses := t.readMisses + n }
    else if isWrite then { t with writeMisses := t.writeMisses + n }
    else t
  | .hitReserved =>
    let t := { t with accesses := t.accesses + n }
    if isRead then { t with readPendingHits := t.readPendingHits + n }
    else if isWrite then { t with writePendingHits := t.writePendingHits + n }
    else t
  | .reservationFail =>
    if isRead then { t with readResFails := t.readResFails + n }
    else if isWrite then { t with writeResFails := t.writeResFails + n }
    else t

/-- `get_sub_stats_pw`. -/
def getSubStatsPw (c : CacheStats) : CacheSubStatsPw :=
  MemAccessType.all.foldl (fun t type => RequestStatus.all.foldl (c.visitPw · type ·) t) {}

end CacheStats

/-! ## Statistics that are built by calls -/

/-- A call that changes the statistics of a cache. -/
inductive StatsCall
  | incStats (type : MemAccessType) (outcome : RequestStatus)
  | incStatsPw (type : MemAccessType) (outcome : RequestStatus)
  | incFailStats (type : MemAccessType) (fail : ReservationFailReason)
  | clearPw
  deriving DecidableEq

def StatsCall.apply (c : CacheStats) : StatsCall → CacheStats
  | .incStats type outcome => c.incStats type outcome
  | .incStatsPw type outcome => c.incStatsPw type outcome
  | .incFailStats type fail => c.incFailStats type fail
  | .clearPw => c.clearPw

/-- The statistics after calls on a new object, the last one first. -/
def CacheStats.built : List StatsCall → CacheStats
  | [] => {}
  | call :: earlier => call.apply (built earlier)

/-- The calls since the last `clear_pw`. -/
def sinceClearPw (calls : List StatsCall) : List StatsCall := calls.takeWhile (· ≠ .clearPw)

/-- The counters of an aggregate, and its summaries, are the sums of those of the parts. -/
structure SumsUp (parts : List CacheStats) (aggregate : CacheStats) : Prop where
  stats : ∀ type status, aggregate.stats type status = (parts.map fun c => c.stats type status).sum
  statsPw : ∀ type status, aggregate.statsPw type status =
    (parts.map fun c => c.statsPw type status).sum
  failStats : ∀ type fail, aggregate.failStats type fail =
    (parts.map fun c => c.failStats type fail).sum
  subStats : aggregate.getSubStats = (parts.map CacheStats.getSubStats).sum
  subStatsPw : aggregate.getSubStatsPw = (parts.map CacheStats.getSubStatsPw).sum

end GpuCalorie.Cache
