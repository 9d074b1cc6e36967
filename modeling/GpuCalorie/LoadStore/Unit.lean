/-
# The load-store unit

`ldst_unit` with its L1 data cache, and the requests it has in the memory system. A cycle
first takes a response from `m_response_fifo`, then lets the L1 send a request and works off
its latency queue, and last sends accesses of the dispatched instruction, either through the
L1 or past it.

Which way a response goes is decided by the access type and the cache operator of the
`mem_fetch` that comes back. It is the request itself, or one a sub-partition made for a
sector of it, which has no instruction. Pending writes, the scoreboard and store counters
are left out, as neither decision reads them; so are the texture and constant caches but for
their requests. Which client writes back, and when instructions come and go, is up to the
rest of the core.
-/

import GpuCalorie.Cache.Machine
import GpuCalorie.Hardware.Isa
import GpuCalorie.Math.Loop
import GpuCalorie.SubPartition.SectorRequests

namespace GpuCalorie.LoadStore

open GpuCalorie.Math Hardware Cache

/-- What the load-store unit reads of its configuration. -/
structure LdstConfig where
  l1dConfig : CacheConfig
  /-- `m_L1D_config.disabled()`: there is no L1. -/
  l1dDisabled : Bool
  l1Latency : ℕ
  l1Banks : ℕ
  /-- `set_bank`. -/
  setBank : Addr → ℕ
  gmemSkipL1D : Bool
  gpgpuPerfectMem : Bool
  /-- The sub-partitions have caches with sectors. -/
  l2Sectors : Bool

/-- The assertions of the load-store unit, of its L1 and of the sub-partitions. -/
inductive LdstFailure
  | l1d (failure : CacheFailure)
  | subPartition (failure : SubPartition.SectorFailure)
  /-- `CACHE_UNDEFINED != inst.cache_op` -/
  | cacheOpUndefined
  /-- `bank_id < l1_banks` -/
  | bankId
  /-- `!read_sent` -/
  | readSent
  /-- `!write_sent` -/
  | writeSent
  /-- `status == MISS || status == HIT_RESERVED` -/
  | accessStatus
  deriving DecidableEq

/-- `access_type` in `generate_mem_accesses`. -/
def accessType (space : MemorySpace) (isWrite : Bool) : Option MemAccessType :=
  match space with
  | .constSpace | .paramSpaceKernel => some .constAccR
  | .texSpace => some .textureAccR
  | .globalSpace => some (if isWrite then .globalAccW else .globalAccR)
  | .localSpace | .paramSpaceLocal => some (if isWrite then .localAccW else .localAccR)
  | _ => none

/-- What the load-store unit reads of a `warp_inst_t` that loads or stores, with its
`m_accessq`. -/
structure DispatchInst where
  uid : ℕ
  space : MemorySpace
  cacheOp : CacheOperator
  isStore : Bool
  isatomic : Bool
  activeCount : ℕ
  accessq : List MemAccess
  accesses : ∀ access ∈ accessq,
    accessType space isStore = some access.type ∧ access.write = isStore

/-- `accessq_pop_back`. -/
def DispatchInst.accessqPopBack (inst : DispatchInst) : DispatchInst :=
  { inst with
    accessq := inst.accessq.dropLast
    accesses := fun access hmem => inst.accesses access (List.mem_of_mem_dropLast hmem) }

/-- The two ways of requests and of responses. -/
inductive Route
  | l1d
  | bypass
  deriving DecidableEq, Repr

/-- What is noted of requests and of responses to reads: by which way a request was sent,
and by which a response was handed on. -/
inductive RouteEvent
  | sent (uid : ℕ) (isWrite : Bool) (route : Route)
  | delivered (uid : ℕ) (route : Route)
  deriving DecidableEq, Repr

/-- The load-store unit and the memory system. The L1 also has the supply of identities of
requests. -/
structure LdstUnit (cfg : LdstConfig) where
  dispatchReg : Option DispatchInst := none
  l1d : BaselineCache cfg.l1dConfig
  /-- `l1_latency_queue`, by bank and stage. -/
  l1LatencyQueue : ℕ → ℕ → Option MemFetch := fun _ _ => none
  /-- `get_inst().cache_op` of requests. -/
  cacheOp : ℕ → CacheOperator := fun _ => .cacheUndefined
  responseFifo : List MemFetch := []
  nextGlobal : Option MemFetch := none
  /-- Requests on the way to memory. -/
  icnt : List MemFetch := []
  /-- Requests in the memory system. -/
  memory : List MemFetch := []
  /-- What has happened so far, which nothing reads. -/
  log : List RouteEvent := []

namespace LdstUnit

variable {cfg : LdstConfig}

/-! ## Sending accesses -/

/-- `m_mf_allocator->alloc`. -/
def alloc (s : LdstUnit cfg) (inst : DispatchInst) (access : MemAccess) :
    MemFetch × LdstUnit cfg :=
  ({ uid := s.l1d.nextUid
     access := access
     dataSize := access.reqSize
     instUid := inst.uid
     isatomic := inst.isatomic },
   { s with
     l1d := { s.l1d with nextUid := s.l1d.nextUid + 1 }
     cacheOp := Function.update s.cacheOp s.l1d.nextUid inst.cacheOp })

/-- A request is on its way to memory. -/
def push (s : LdstUnit cfg) (mf : MemFetch) (route : Route) : LdstUnit cfg :=
  { s with icnt := s.icnt ++ [mf], log := s.log ++ [.sent mf.uid mf.isWrite route] }

/-- An access of the L1, whose assertions on the events are those of its callers. -/
def accessL1D (s : LdstUnit cfg) (mf : MemFetch) (time : UInt32) :
    Except LdstFailure (RequestStatus × LdstUnit cfg) := do
  let r ← (s.l1d.access (.data .l1) mf time).mapError .l1d
  match r.status with
  | .hit =>
    if .readRequestSent ∈ r.events then .error .readSent else .ok (.hit, { s with l1d := r.cache })
  | .reservationFail =>
    if .readRequestSent ∈ r.events then .error .readSent
    else if .writeRequestSent ∈ r.events then .error .writeSent
    else .ok (.reservationFail, { s with l1d := r.cache })
  | .miss => .ok (.miss, { s with l1d := r.cache })
  | .hitReserved => .ok (.hitReserved, { s with l1d := r.cache })
  | .sectorMiss => .error .accessStatus

/-- The loop over the banks in `process_memory_access_queue_l1cache`, with the rounds left. -/
def fillBanks (inst : DispatchInst) :
    ℕ → LdstUnit cfg → Except LdstFailure (DispatchInst × LdstUnit cfg)
  | 0, s => .ok (inst, s)
  | n + 1, s =>
    match inst.accessq.getLast? with
    | none => .ok (inst, s)
    | some access =>
      let (mf, s) := s.alloc inst access
      let bankId := cfg.setBank mf.addr
      if cfg.l1Banks ≤ bankId then .error .bankId
      else if s.l1LatencyQueue bankId (cfg.l1Latency - 1) = none then
        fillBanks inst.accessqPopBack n
          { s with
            l1LatencyQueue := Function.update s.l1LatencyQueue bankId
              (Function.update (s.l1LatencyQueue bankId) (cfg.l1Latency - 1) (some mf)) }
      else .ok (inst, s)  -- a bank conflict, `mf` is deleted

/-- `process_memory_access_queue_l1cache`. -/
def processMemoryAccessQueueL1cache (s : LdstUnit cfg) (inst : DispatchInst) (time : UInt32) :
    Except LdstFailure (DispatchInst × LdstUnit cfg) :=
  if 0 < cfg.l1Latency then fillBanks inst cfg.l1Banks s
  else
    match inst.accessq.getLast? with
    | none => .ok (inst, s)
    | some access => do
      let (mf, s) := s.alloc inst access
      let (status, s) ← s.accessL1D mf time
      return (if status = .reservationFail then inst else inst.accessqPopBack, s)

/-- `bypassL1D` in `memory_cycle`. -/
def bypassL1D (cfg : LdstConfig) (inst : DispatchInst) : Bool :=
  if inst.cacheOp = .cacheGlobal ∨ cfg.l1dDisabled then true
  else inst.space.isGlobal && cfg.gmemSkipL1D && inst.cacheOp ≠ .cacheL1

/-- `memory_cycle` for an instruction of global or local memory. -/
def memoryCycleInst (s : LdstUnit cfg) (inst : DispatchInst) (icntFull : Bool) (time : UInt32) :
    Except LdstFailure (DispatchInst × LdstUnit cfg) :=
  match inst.accessq.getLast? with
  | none => .ok (inst, s)
  | some access =>
    if bypassL1D cfg inst then
      if icntFull then .ok (inst, s)
      else
        let (mf, s) := s.alloc inst access
        .ok (inst.accessqPopBack, s.push mf .bypass)
    else if inst.cacheOp = .cacheUndefined then .error .cacheOpUndefined
    else s.processMemoryAccessQueueL1cache inst time

/-- `memory_cycle`. -/
def memoryCycle (s : LdstUnit cfg) (icntFull : Bool) (time : UInt32) :
    Except LdstFailure (LdstUnit cfg) :=
  match s.dispatchReg with
  | none => .ok s
  | some inst =>
    if ¬ inst.space.isGlobal ∧ ¬ inst.space.isLocal ∨ inst.activeCount = 0 then .ok s
    else do
      let (inst, s) ← s.memoryCycleInst inst icntFull time
      return { s with dispatchReg := some inst }

/-! ## The L1 -/

/-- `m_L1D->cycle()`. -/
def l1dCycle (s : LdstUnit cfg) (memportFull : Bool) : LdstUnit cfg :=
  match s.l1d.cycle memportFull with
  | (none, l1d) => { s with l1d := l1d }
  | (some mf, l1d) => { s with l1d := l1d }.push mf .l1d

/-- The access at the end of a bank of the latency queue. -/
def latencyQueueAccess (s : LdstUnit cfg) (bank : ℕ) (time : UInt32) :
    Except LdstFailure (LdstUnit cfg) :=
  match s.l1LatencyQueue bank 0 with
  | none => .ok s
  | some mf => do
    let (status, s) ← s.accessL1D mf time
    return if status = .reservationFail then s
      else { s with
        l1LatencyQueue := Function.update s.l1LatencyQueue bank
          (Function.update (s.l1LatencyQueue bank) 0 none) }

/-- A stage of a bank moves up where it can. -/
def latencyQueueShift (queue : ℕ → Option MemFetch) (stage : ℕ) : ℕ → Option MemFetch :=
  if queue stage = none then
    Function.update (Function.update queue stage (queue (stage + 1))) (stage + 1) none
  else queue

/-- A round of the loop of `L1_latency_queue_cycle`. -/
def latencyQueueBank (time : UInt32) (bank : ℕ) (s : LdstUnit cfg) :
    Except LdstFailure (LdstUnit cfg) := do
  let s ← s.latencyQueueAccess bank time
  return { s with
    l1LatencyQueue := Function.update s.l1LatencyQueue bank
      ((List.range (cfg.l1Latency - 1)).foldl latencyQueueShift (s.l1LatencyQueue bank)) }

/-- `L1_latency_queue_cycle`. -/
def l1LatencyQueueCycle (s : LdstUnit cfg) (time : UInt32) : Except LdstFailure (LdstUnit cfg) :=
  countUp (latencyQueueBank time) cfg.l1Banks s

/-- What a cycle does with the L1, if there is one. -/
def l1dPart (s : LdstUnit cfg) (memportFull : Bool) (time : UInt32) :
    Except LdstFailure (LdstUnit cfg) :=
  if cfg.l1dDisabled then .ok s
  else if 0 < cfg.l1Latency then (s.l1dCycle memportFull).l1LatencyQueueCycle time
  else .ok (s.l1dCycle memportFull)

/-! ## Responses -/

/-- The request a response is for. -/
def requestUid (mf : MemFetch) : ℕ := mf.originalMf.getD mf.uid

/-- `bypassL1D` where responses are handled, by the cache operator and the access type. -/
def responseBypass (cfg : LdstConfig) (cacheOp : CacheOperator) (type : MemAccessType) : Bool :=
  if cacheOp = .cacheGlobal ∨ cfg.l1dDisabled then true
  else (type = .globalAccR || type = .globalAccW) && cfg.gmemSkipL1D

/-- A response to a read is handed to where it is waited for, if there is room. -/
def routeResponse (s : LdstUnit cfg) (mf : MemFetch) (rest : List MemFetch) (time : UInt32) :
    Except LdstFailure (LdstUnit cfg) :=
  if responseBypass cfg (s.cacheOp mf.uid) mf.access.type then
    if s.nextGlobal = none then
      .ok { s with
        responseFifo := rest
        nextGlobal := some mf
        log := s.log ++ [.delivered (requestUid mf) .bypass] }
    else .ok s
  else if s.l1d.fillPortOccupiedCycles = 0 then do
    let l1d ← (s.l1d.fill mf time).mapError .l1d
    return { s with
      responseFifo := rest
      l1d := l1d
      log := s.log ++ [.delivered (requestUid mf) .l1d] }
  else .ok s

/-- The part of `cycle` that handles responses. A response to a write is a `WRITE_ACK`, or
comes from perfect memory, and is acknowledged; `fillPortFree` is that of the texture and
constant caches. -/
def handleResponse (s : LdstUnit cfg) (fillPortFree : Bool) (time : UInt32) :
    Except LdstFailure (LdstUnit cfg) :=
  match s.responseFifo with
  | [] => .ok s
  | mf :: rest =>
    if mf.access.type = .textureAccR ∨ mf.access.type = .constAccR then
      .ok (if fillPortFree then { s with responseFifo := rest } else s)
    else if mf.isWrite then .ok { s with responseFifo := rest }
    else s.routeResponse mf rest time

/-! ## Cycles -/

/-- The clients of `writeback` that matter here. -/
inductive WritebackClient
  | globalLocal
  | l1d
  | other
  deriving DecidableEq, Repr

/-- `writeback`, for the client whose turn it is. -/
def writeback (s : LdstUnit cfg) (client : WritebackClient) : Except LdstFailure (LdstUnit cfg) :=
  match client with
  | .globalLocal => .ok { s with nextGlobal := none }
  | .l1d =>
    if cfg.l1dDisabled ∨ s.l1d.mshrs.currentResponse = [] then .ok s
    else do
      let (_, l1d) ← s.l1d.nextAccess.mapError .l1d
      return { s with l1d := l1d }
  | .other => .ok s

/-- What the rest of the core and the memory system decide in a cycle. -/
structure CycleInput where
  client : WritebackClient
  fillPortFree : Bool
  memportFull : Bool
  icntFull : Bool
  time : UInt32
  /-- The instruction leaves the dispatch register if it has no more accesses. -/
  retires : Bool
  deriving DecidableEq

/-- The end of `cycle`: the instruction is done or stays. -/
def retire (s : LdstUnit cfg) (retires : Bool) : LdstUnit cfg :=
  match s.dispatchReg with
  | some inst => if inst.accessq = [] ∧ retires then { s with dispatchReg := none } else s
  | none => s

/-- `ldst_unit::cycle`. -/
def cycle (s : LdstUnit cfg) (i : CycleInput) : Except LdstFailure (LdstUnit cfg) := do
  let s ← s.writeback i.client
  let s ← s.handleResponse i.fillPortFree i.time
  let s ← s.l1dPart i.memportFull i.time
  let s ← s.memoryCycle i.icntFull i.time
  return s.retire i.retires

/-! ## The memory system -/

/-- A request arrives at its sub-partition. -/
def arrive (s : LdstUnit cfg) (mf : MemFetch) : Except LdstFailure (LdstUnit cfg) :=
  if cfg.l2Sectors ∧ ¬ cfg.gpgpuPerfectMem then do
    let requests ←
      (SubPartition.breakdownRequestToSectorRequests mf s.l1d.nextUid).mapError .subPartition
    return { s with
      icnt := s.icnt.erase mf
      memory := s.memory ++ requests
      l1d := { s.l1d with nextUid := s.l1d.nextUid + 4 } }
  else .ok { s with icnt := s.icnt.erase mf, memory := s.memory ++ [mf] }

/-- What happens to the load-store unit. -/
inductive LdstAction
  /-- An instruction is issued. -/
  | issue (inst : DispatchInst)
  | cycle (i : CycleInput)
  /-- The texture or the constant cache sends a request. -/
  | sendOther (access : MemAccess)
  /-- A request arrives at its sub-partition. -/
  | arrive (mf : MemFetch)
  /-- A request comes back, `fill`. -/
  | respond (mf : MemFetch)

/-- When it can happen. Write-backs are not answered. -/
def Enabled (s : LdstUnit cfg) : LdstAction → Prop
  | .issue _ => s.dispatchReg = none
  | .cycle _ => True
  | .sendOther access => access.type = .textureAccR ∨ access.type = .constAccR
  | .arrive mf => mf ∈ s.icnt
  | .respond mf => mf ∈ s.memory ∧ mf.access.type ≠ .l1WrbkAcc

instance (s : LdstUnit cfg) (a : LdstAction) : Decidable (s.Enabled a) :=
  match a with
  | .issue _ => inferInstanceAs (Decidable (s.dispatchReg = none))
  | .cycle _ => .isTrue trivial
  | .sendOther _ => inferInstanceAs (Decidable (_ ∨ _))
  | .arrive mf => inferInstanceAs (Decidable (mf ∈ s.icnt))
  | .respond _ => inferInstanceAs (Decidable (_ ∧ _))

/-- The state after it. -/
def step (s : LdstUnit cfg) : LdstAction → Except LdstFailure (LdstUnit cfg)
  | .issue inst => .ok { s with dispatchReg := some inst }
  | .cycle i => s.cycle i
  | .sendOther access =>
    .ok { s with
      icnt := s.icnt ++ [MemFetch.new s.l1d.nextUid access none]
      l1d := { s.l1d with nextUid := s.l1d.nextUid + 1 } }
  | .arrive mf => s.arrive mf
  | .respond mf =>
    .ok { s with memory := s.memory.erase mf, responseFifo := s.responseFifo ++ [mf] }

/-- A load-store unit that has not started. -/
def IsInitial (s : LdstUnit cfg) : Prop := s = { l1d := { nextUid := s.l1d.nextUid } }

end LdstUnit

/-- The runs of a load-store unit. -/
def ldstSystem (cfg : LdstConfig) :
    TransitionSystem (Except LdstFailure (LdstUnit cfg)) LdstUnit.LdstAction :=
  .ofExcept LdstUnit.IsInitial LdstUnit.Enabled LdstUnit.step

end GpuCalorie.LoadStore
