/-
# The FR-FCFS scheduler

`frfcfs_scheduler` keeps the requests of every bank in a queue, newest first, and sorted
into bins by row. A bank goes on with the row it served last while that row has
requests, then with the row that is open, and else with the row of the oldest request.
With a separate write queue there are two such sets of queues, and a mode that says which
of them is served: it goes from reading to writing when enough writes wait, and back
when few are left.

Every call of `schedule` first updates the mode, for whichever bank it is called.
-/

import GpuCalorie.Dram.Types
import GpuCalorie.Math.Transition
import Mathlib.Logic.Function.Basic

namespace GpuCalorie.Dram

open GpuCalorie.Math

/-- The assertions of the scheduler, and what a broken queue would lead to. -/
inductive SchedFailure
  /-- `m_num_pending` or `m_num_write_pending` is at its limit in `add_req`. -/
  | queueFull
  /-- "where did the request go???" -/
  | missingBin
  /-- The row served last has no requests. -/
  | emptyBin
  /-- `m_num_pending != 0`, `m_num_write_pending != 0` -/
  | noPending
  deriving DecidableEq, Repr

/-- `memory_mode`. -/
inductive MemoryMode
  | read
  | write
  deriving DecidableEq, Repr

/-- The other mode. -/
def MemoryMode.flip : MemoryMode → MemoryMode
  | .read => .write
  | .write => .read

/-- The queue of one bank: `m_queue`, `m_bins` and `m_last_row`, newest requests first. A
row without an entry in the map has no bin. -/
structure BankQueue where
  queue : List DramReq
  bins : ℕ → Option (List DramReq)
  lastRow : Option ℕ

namespace BankQueue

def empty : BankQueue where
  queue := []
  bins _ := none
  lastRow := none

/-- `add_req`, for the queue it adds to. -/
def addReq (q : BankQueue) (req : DramReq) : BankQueue where
  queue := req :: q.queue
  bins := Function.update q.bins req.row (some (req :: (q.bins req.row).getD []))
  lastRow := q.lastRow

/-- The row to serve: the one served last, the open one, or that of the oldest request.
There is none if the queue is empty. -/
def selectRow (q : BankQueue) (currRow : ℕ) : Except SchedFailure (Option ℕ) :=
  match q.lastRow with
  | some row => .ok (some row)
  | none =>
      match q.queue.getLast? with
      | none => .ok none
      | some oldest =>
          if (q.bins currRow).isSome then .ok (some currRow)
          else if (q.bins oldest.row).isSome then .ok (some oldest.row)
          else .error .missingBin

/-- The queue without the oldest request of a row. A bin that becomes empty is erased from
the map. -/
def remove (q : BankQueue) (row : ℕ) (req : DramReq) : BankQueue :=
  let bin := ((q.bins row).getD []).dropLast
  { queue := q.queue.eraseP fun other => other.id == req.id
    bins := Function.update q.bins row (if bin = [] then none else some bin)
    lastRow := if bin = [] then none else some row }

/-- Take the oldest request of a row. -/
def take (q : BankQueue) (row : ℕ) : Except SchedFailure (DramReq × BankQueue) :=
  match ((q.bins row).getD []).getLast? with
  | none => .error .emptyBin
  | some req => .ok (req, q.remove row req)

/-- `schedule`, for the queue it serves. -/
def schedule (q : BankQueue) (currRow : ℕ) :
    Except SchedFailure (Option (DramReq × BankQueue)) := do
  match ← q.selectRow currRow with
  | none => pure none
  | some row => pure (some (← q.take row))

end BankQueue

/-- `frfcfs_scheduler`. -/
structure Frfcfs where
  reads : ℕ → BankQueue
  writes : ℕ → BankQueue
  numPending : ℕ
  numWritePending : ℕ
  mode : MemoryMode

namespace Frfcfs

def new : Frfcfs where
  reads _ := .empty
  writes _ := .empty
  numPending := 0
  numWritePending := 0
  mode := .read

/-- The queues of a mode. -/
def bank (s : Frfcfs) (mode : MemoryMode) (b : ℕ) : BankQueue :=
  match mode with
  | .read => s.reads b
  | .write => s.writes b

def setBank (s : Frfcfs) (mode : MemoryMode) (b : ℕ) (q : BankQueue) : Frfcfs :=
  match mode with
  | .read => { s with reads := Function.update s.reads b q }
  | .write => { s with writes := Function.update s.writes b q }

/-- Where a request is queued. -/
def modeOf (cfg : DramConfig) (req : DramReq) : MemoryMode :=
  if cfg.seperateWriteQueueEnabled ∧ req.isWrite then .write else .read

/-- The number of requests queued for a mode. -/
def pending (s : Frfcfs) : MemoryMode → ℕ
  | .read => s.numPending
  | .write => s.numWritePending

def setPending (s : Frfcfs) (mode : MemoryMode) (n : ℕ) : Frfcfs :=
  match mode with
  | .read => { s with numPending := n }
  | .write => { s with numWritePending := n }

def queueSize (cfg : DramConfig) : MemoryMode → ℕ
  | .read => cfg.schedQueueSize
  | .write => cfg.writeQueueSize

/-- `add_req`. -/
def addReq (cfg : DramConfig) (s : Frfcfs) (req : DramReq) : Except SchedFailure Frfcfs :=
  let mode := modeOf cfg req
  if s.pending mode < queueSize cfg mode then
    .ok ((s.setPending mode (s.pending mode + 1)).setBank mode req.bk
      ((s.bank mode req.bk).addReq req))
  else .error .queueFull

/-- The mode that a mode is updated to, by the number of pending writes. -/
def switch (cfg : DramConfig) (numWritePending : ℕ) (mode : MemoryMode) : MemoryMode :=
  if cfg.seperateWriteQueueEnabled then
    match mode with
    | .read => if cfg.writeHighWatermark ≤ numWritePending then .write else .read
    | .write => if numWritePending < cfg.writeLowWatermark then .read else .write
  else mode

/-- The update of the mode at the head of `schedule`. -/
def nextMode (cfg : DramConfig) (s : Frfcfs) : MemoryMode :=
  switch cfg s.numWritePending s.mode

/-- `schedule`. -/
def schedule (cfg : DramConfig) (s : Frfcfs) (b currRow : ℕ) :
    Except SchedFailure (Option DramReq × Frfcfs) := do
  let s := { s with mode := s.nextMode cfg }
  match ← (s.bank s.mode b).schedule currRow with
  | none => pure (none, s)
  | some (req, q) =>
      let s := s.setBank s.mode b q
      let mode := modeOf cfg req
      if s.pending mode = 0 then .error .noPending
      else pure (some req, s.setPending mode (s.pending mode - 1))

/-! ## Runs of the scheduler -/

/-- What a channel does with its scheduler. -/
inductive Action
  | addReq (req : DramReq)
  | schedule (b currRow : ℕ)

/-- A request object is queued once. -/
def Fresh (s : Frfcfs) (req : DramReq) : Prop :=
  ∀ mode, ∀ b, ∀ other ∈ (s.bank mode b).queue, other.id ≠ req.id

/-- When an action can be taken: a request is new, and its bank exists. -/
def Enabled (cfg : DramConfig) (s : Frfcfs) : Action → Prop
  | .addReq req => s.Fresh req ∧ req.bk < cfg.nbk
  | .schedule .. => True

def step (cfg : DramConfig) (s : Frfcfs) : Action → Except SchedFailure Frfcfs
  | .addReq req => s.addReq cfg req
  | .schedule b currRow => do pure (← s.schedule cfg b currRow).2

end Frfcfs

/-- The runs of the scheduler of a channel. -/
def frfcfsSystem (cfg : DramConfig) : TransitionSystem (Except SchedFailure Frfcfs) Frfcfs.Action :=
  .ofExcept (· = .new) (Frfcfs.Enabled cfg) (Frfcfs.step cfg)

end GpuCalorie.Dram
