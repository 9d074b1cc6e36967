/-
# From issue to writeback

An instruction that was issued is in the pipeline until it is written back: by the core at
EX_WB, or by the load-store unit. There a load waits in the dispatch register until its
accesses were sent, and `m_pending_writes` counts for each of its registers how many of them
have not come back. An access may hit at once, or in the latency queue of the L1, or be
answered later. The registers of a load are free when the count is down to zero, or when it
leaves the dispatch register with a count of zero. Loads from shared memory go through the
unit's own pipeline.

Which instruction moves when, what the caches answer and which client of the load-store unit
is served are the choices of a step. `lost` has the accesses of which no path will report,
which the code does not know of.
-/

import GpuCalorie.Issue.Instruction

namespace GpuCalorie.Issue

open GpuCalorie.Hardware GpuCalorie.Math

/-- `m_pending_writes`, by warp and register. What is not in the map counts zero. -/
abbrev PendingWrites := ℕ → ℕ → ℕ

/-- The instructions that were issued and are not written back, and what is kept of them. -/
structure BackEnd where
  /-- `m_scoreboard` -/
  regTable : RegTable := fun _ => ∅
  /-- From the operand collector to the units and to EX_WB. -/
  pipeline : List WarpInst := []
  /-- `m_dispatch_reg` of the load-store unit, with what is left of `m_accessq`. -/
  dispatchReg : Option (WarpInst × ℕ) := none
  /-- `m_pipeline_reg` of the load-store unit: loads from shared memory. -/
  smem : List WarpInst := []
  /-- The loads in `l1_latency_queue`, one for each access. -/
  l1LatencyQueue : List WarpInst := []
  /-- The loads whose accesses are in a cache or in the memory system. -/
  outstanding : List WarpInst := []
  nextWb : Option WarpInst := none
  pendingWrites : PendingWrites := fun _ _ => 0
  /-- Accesses of loads that were sent or dropped and will not be reported. -/
  lost : List WarpInst := []
  /-- The calls of `warp_inst_complete`. -/
  completed : List WarpInst := []
  /-- What was issued so far. -/
  issued : List WarpInst := []

/-- The result of a step, with the warp whose `dec_inst_in_pipeline` is called. -/
abbrev Stepped := BackEnd × Option ℕ

/-- `--m_pending_writes[...][...]`, of an `unsigned`. -/
def decrement (count : ℕ) : ℕ :=
  if count = 0 then 2 ^ 32 - 1 else count - 1

/-- What happens to an access of the instruction in the dispatch register, and the calls of
`inc_store_req` it makes. -/
inductive AccessOutcome
  /-- `process_cache_access` with `HIT` -/
  | hit (storeReqs : ℕ)
  /-- It is on its way, past the caches or because of a miss. -/
  | sent (storeReqs : ℕ)
  /-- It is in the latency queue of the L1. -/
  | queued (storeReqs : ℕ)
  deriving DecidableEq, Repr

/-- The calls of `inc_store_req`. -/
def AccessOutcome.storeReqs : AccessOutcome → ℕ
  | .hit n | .sent n | .queued n => n

namespace BackEnd

variable (b : BackEnd)

/-- The part of `issue_warp` behind the front end: `reserveRegisters`. -/
def issue (d : WarpInst) : Except CoreFailure BackEnd := do
  let regTable ← reserveRegisters b.regTable d
  return { b with
    regTable := regTable
    pipeline := b.pipeline ++ [d]
    issued := b.issued ++ [d] }

/-- `shader_core_ctx::writeback`, for the instruction at a place of the pipeline. The
load-store unit takes its instructions before they get to EX_WB. -/
def writeback (k : ℕ) : Stepped :=
  match b.pipeline[k]? with
  | none => (b, none)
  | some d =>
    if isMemOp d.inst.op then (b, none)
    else
      ({ b with
          regTable := releaseRegisters b.regTable d
          pipeline := b.pipeline.eraseIdx k
          completed := b.completed ++ [d] },
        some d.warpId)

/-- Change the counts of some registers of a warp one after the other. -/
def changePending (change : ℕ → ℕ) (pending : PendingWrites) (warpId : ℕ) (regs : List ℕ) :
    PendingWrites :=
  regs.foldl
    (fun pending r => Function.update pending warpId
      (Function.update (pending warpId) r (change (pending warpId r)))) pending

/-- `ldst_unit::issue`, for the instruction at a place of the pipeline. -/
def ldstIssue (k : ℕ) : Stepped :=
  match b.pipeline[k]?, b.dispatchReg with
  | some d, none =>
    if isMemOp d.inst.op then
      ({ b with
          pipeline := b.pipeline.eraseIdx k
          dispatchReg := some (d, d.accessqCount)
          pendingWrites :=
            if d.countsAccesses then
              changePending (· + d.accessqCount) b.pendingWrites d.warpId d.inst.dests
            else b.pendingWrites },
        none)
    else (b, none)
  | _, _ => (b, none)

/-- One access of the instruction in the dispatch register. -/
def sendAccess (outcome : AccessOutcome) : BackEnd :=
  match b.dispatchReg with
  | some (d, n + 1) =>
    let b := { b with dispatchReg := some (d, n) }
    if d.inst.isLoad then
      match outcome with
      | .hit _ =>
        { b with pendingWrites := changePending decrement b.pendingWrites d.warpId d.inst.dests }
      | .sent _ => { b with outstanding := b.outstanding ++ [d] }
      | .queued _ => { b with l1LatencyQueue := b.l1LatencyQueue ++ [d] }
    else b
  | _ => b

/-- `constant_cycle` with `perfect_inst_const_cache`: all accesses of a load are dropped, and
the counts decremented once. -/
def perfectConst (d : WarpInst) (n : ℕ) : BackEnd :=
  if d.inst.isLoad then
    { b with
      dispatchReg := some (d, 0)
      pendingWrites := changePending decrement b.pendingWrites d.warpId d.inst.dests
      lost := b.lost ++ List.replicate (n - 1) d }
  else { b with dispatchReg := some (d, 0) }

/-- The accesses of the instruction in the dispatch register that are sent in a cycle. -/
def sendAccesses (perfectInstConstCache : Bool) (outcomes : List AccessOutcome) : BackEnd :=
  match b.dispatchReg with
  | some (d, n) =>
    if perfectInstConstCache ∧ (d.space = .constSpace ∨ d.space = .paramSpaceKernel) then
      if d.activeCount = 0 then b else b.perfectConst d n
    else outcomes.foldl sendAccess b
  | none => b

/-- `pending_requests` in `ldst_unit::cycle`: the loop ends at the first register with a count,
and erases the counts of zero before it. -/
def pendingRequests (d : WarpInst) : Bool :=
  d.inst.dests.any fun r => 0 < b.pendingWrites d.warpId r

/-- The end of `ldst_unit::cycle`, once the accesses of the instruction were sent. A load from
shared memory stays where it is while the unit's pipeline is not free. -/
def leaveDispatch (smemFree : Bool) : Stepped :=
  match b.dispatchReg with
  | some (d, n) =>
    if 0 < n then (b, none)
    else if d.inst.isLoad then
      if d.space = .sharedSpace then
        if smemFree then ({ b with dispatchReg := none, smem := b.smem ++ [d] }, none)
        else (b, none)
      else if b.pendingRequests d then ({ b with dispatchReg := none }, some d.warpId)
      else
        ({ b with
            dispatchReg := none
            regTable := releaseRegisters b.regTable d
            completed := b.completed ++ [d] },
          some d.warpId)
    else ({ b with dispatchReg := none, completed := b.completed ++ [d] }, some d.warpId)
  | none => (b, none)

/-- The part of `ldst_unit::cycle` that works on the dispatch register: some accesses, and the
end of the instruction if these were the last ones. -/
def dispatchCycle (perfectInstConstCache : Bool) (outcomes : List AccessOutcome)
    (smemFree : Bool) : Stepped :=
  (b.sendAccesses perfectInstConstCache outcomes).leaveDispatch smemFree

/-- The loop over the registers of a load of which an access came in: a count that gets to
zero is erased and its register released. The number of these registers comes with it. -/
def settle (warpId : ℕ) : List ℕ → RegTable → PendingWrites →
    Except CoreFailure (RegTable × PendingWrites × ℕ)
  | [], table, pending => .ok (table, pending, 0)
  | r :: regs, table, pending =>
    if pending warpId r = 0 then .error .pendingWrites
    else
      let pending := Function.update pending warpId
        (Function.update (pending warpId) r (pending warpId r - 1))
      if pending warpId r = 0 then do
        let (table, pending, n) ← settle warpId regs (releaseRegister table warpId r) pending
        return (table, pending, n + 1)
      else settle warpId regs table pending

/-- `L1_latency_queue_cycle` with `HIT`: `warp_inst_complete` is called in the loop. -/
def latencyHit (k : ℕ) : Except CoreFailure BackEnd :=
  match b.l1LatencyQueue[k]? with
  | none => .ok b
  | some d => do
    let (table, pending, n) ← settle d.warpId d.inst.dests b.regTable b.pendingWrites
    return { b with
      regTable := table
      pendingWrites := pending
      l1LatencyQueue := b.l1LatencyQueue.eraseIdx k
      completed := b.completed ++ List.replicate n d }

/-- `L1_latency_queue_cycle` with a miss: the access is answered later. -/
def latencyMiss (k : ℕ) : BackEnd :=
  match b.l1LatencyQueue[k]? with
  | none => b
  | some d =>
    { b with
      l1LatencyQueue := b.l1LatencyQueue.eraseIdx k
      outstanding := b.outstanding ++ [d] }

/-- An answer gets to `m_next_wb`. It is the request with its instruction, or, from a memory
partition that splits requests by sectors, one that has no instruction. -/
def answer (k : ℕ) (hasInst : Bool) : BackEnd :=
  match b.outstanding[k]?, b.nextWb with
  | some d, none =>
    if hasInst then { b with outstanding := b.outstanding.eraseIdx k, nextWb := some d }
    else { b with outstanding := b.outstanding.eraseIdx k, lost := b.lost ++ [d] }
  | _, _ => b

/-- Client 0 of `ldst_unit::writeback`: a load from shared memory. -/
def answerShared (k : ℕ) : Stepped :=
  match b.smem[k]?, b.nextWb with
  | some d, none => ({ b with smem := b.smem.eraseIdx k, nextWb := some d }, some d.warpId)
  | _, _ => (b, none)

/-- The first part of `ldst_unit::writeback`: `warp_inst_complete` is called once, if some
register was released. -/
def ldstWriteback : Except CoreFailure BackEnd :=
  match b.nextWb with
  | none => .ok b
  | some d =>
    if d.space = .sharedSpace then
      .ok { b with
        regTable := releaseRegisters b.regTable d
        nextWb := none
        completed := if d.inst.dests = [] then b.completed else b.completed ++ [d] }
    else do
      let (table, pending, n) ← settle d.warpId d.inst.dests b.regTable b.pendingWrites
      return { b with
        regTable := table
        pendingWrites := pending
        nextWb := none
        completed := if n = 0 then b.completed else b.completed ++ [d] }

end BackEnd

/-- The steps of the back end, with their choices. -/
inductive BackAction
  | writeback (k : ℕ)
  | ldstIssue (k : ℕ)
  | dispatchCycle (outcomes : List AccessOutcome) (smemFree : Bool)
  | latencyHit (k : ℕ)
  | latencyMiss (k : ℕ)
  | answer (k : ℕ) (hasInst : Bool)
  | answerShared (k : ℕ)
  | ldstWriteback
  deriving DecidableEq, Repr

/-- A step of the back end. -/
def BackEnd.step (perfectInstConstCache : Bool) (b : BackEnd) :
    BackAction → Except CoreFailure Stepped
  | .writeback k => .ok (b.writeback k)
  | .ldstIssue k => .ok (b.ldstIssue k)
  | .dispatchCycle outcomes smemFree =>
    .ok (b.dispatchCycle perfectInstConstCache outcomes smemFree)
  | .latencyHit k => (·, none) <$> b.latencyHit k
  | .latencyMiss k => .ok (b.latencyMiss k, none)
  | .answer k hasInst => .ok (b.answer k hasInst, none)
  | .answerShared k => .ok (b.answerShared k)
  | .ldstWriteback => (·, none) <$> b.ldstWriteback

end GpuCalorie.Issue
