/-
# Requests and configuration of a DRAM channel

A `dram_req_t` is allocated for every `mem_fetch` that is pushed into a channel. Its
address and the fields that never change are a value here; the two byte counters that
change while the request is in service, and whether it has been deleted, belong to the
state of the channel.
-/

import GpuCalorie.Cache.Types

namespace GpuCalorie.Dram

open Cache (MemAccessType)

/-- What a channel reads of a `mem_fetch`. The bank is what the configured indexing
function makes of the decoded address. -/
structure DramFetch where
  uid : ℕ
  chip : ℕ
  subPartition : ℕ
  isWrite : Bool
  accessType : MemAccessType
  dataSize : ℕ
  bk : ℕ
  row : ℕ
  deriving DecidableEq, Repr

/-- The access type is `L1_WRBK_ACC` or `L2_WRBK_ACC`. -/
def DramFetch.isWriteBack (data : DramFetch) : Bool :=
  data.accessType == .l1WrbkAcc || data.accessType == .l2WrbkAcc

/-- A pointer to a `dram_req_t`, with the fields its constructor sets for good. -/
structure DramReq where
  id : ℕ
  data : DramFetch
  deriving DecidableEq, Repr

namespace DramReq

abbrev bk (req : DramReq) : ℕ := req.data.bk

abbrev row (req : DramReq) : ℕ := req.data.row

abbrev nbytes (req : DramReq) : ℕ := req.data.dataSize

/-- `rw == WRITE`, and `data->is_write()`. -/
abbrev isWrite (req : DramReq) : Bool := req.data.isWrite

end DramReq

/-- `dram_ctrl_t`. -/
inductive DramCtrl
  | fifo
  | frfcfs
  deriving DecidableEq, Repr

/-- `bank_grp_bits_position`. -/
inductive BankGrpBits
  | higher
  | lower
  deriving DecidableEq, Repr

/-- `memory_config`, as far as a channel and its schedulers read it. The turnaround and
write delays that `init` derives from the others are fields like these. -/
structure DramConfig where
  nbk : ℕ
  nbkgrp : ℕ
  bkTagLength : ℕ
  bnkgrpIndexing : BankGrpBits
  schedulerType : DramCtrl
  dualBusInterface : Bool
  tCCD : ℕ
  tCCDL : ℕ
  tRRD : ℕ
  tRCD : ℕ
  tRCDWR : ℕ
  tRAS : ℕ
  tRP : ℕ
  tRC : ℕ
  tRTW : ℕ
  tWTR : ℕ
  tWTP : ℕ
  tRTPL : ℕ
  cl : ℕ
  wl : ℕ
  bl : ℕ
  dataCommandFreqRatio : ℕ
  dramAtomSize : ℕ
  returnQueueSize : ℕ
  schedQueueSize : ℕ
  seperateWriteQueueEnabled : Bool
  writeQueueSize : ℕ
  writeHighWatermark : ℕ
  writeLowWatermark : ℕ
  deriving DecidableEq, Repr

/-- The timing options of a tested configuration, with the default write queue. -/
def splitQueues : DramConfig where
  nbk := 16
  nbkgrp := 4
  bkTagLength := 2
  bnkgrpIndexing := .higher
  schedulerType := .frfcfs
  dualBusInterface := false
  tCCD := 2
  tCCDL := 3
  tRRD := 6
  tRCD := 12
  tRCDWR := 7
  tRAS := 28
  tRP := 12
  tRC := 40
  tRTW := 12
  tWTR := 11
  tWTP := 18
  tRTPL := 2
  cl := 12
  wl := 4
  bl := 8
  dataCommandFreqRatio := 4
  dramAtomSize := 32
  returnQueueSize := 116
  schedQueueSize := 64
  seperateWriteQueueEnabled := true
  writeQueueSize := 32
  writeHighWatermark := 28
  writeLowWatermark := 16

/-- A channel with two banks and one bank group. -/
def twoBanks : DramConfig :=
  { splitQueues with nbk := 2, nbkgrp := 1, bkTagLength := 1, tRCD := 2, cl := 2, wl := 1 }

/-- A read of two bursts from row 3 of bank 0. -/
def longRead : DramFetch := ⟨0, 0, 0, false, .globalAccR, 64, 0, 3⟩

end GpuCalorie.Dram
