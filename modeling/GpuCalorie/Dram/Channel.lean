/-
# A DRAM channel

`dram_t`. A request that is pushed waits in `mrqq`, is handed to the scheduler and from it
to its bank, where it stays while commands are issued for it: the row it needs is opened,
and one burst after the other goes into the pipeline `rwq`. What leaves the pipeline has
been transferred, and a request that is complete goes to the return queue, or is done if
it is a write-back.

In a cycle the pipeline drains first, then the scheduler fills a bank, then commands are
issued, and last all timing counters go down. With two buses a row and a column command
can be issued in a cycle. With one bus the loop over the banks can also issue both, a row
command and after it a column command.

Requests are objects on a heap, allocated by `push` and deleted when they are complete.
-/

import GpuCalorie.Dram.FifoPipeline
import GpuCalorie.Dram.Frfcfs

namespace GpuCalorie.Dram

open GpuCalorie.Math

/-- The assertions of a channel, and accesses to memory that it does not own. -/
inductive DramFailure
  | pipeline (failure : PipelineFailure)
  | sched (failure : SchedFailure)
  /-- `id == data->get_tlx_addr().chip` -/
  | wrongChannel
  /-- The bank of a request is none of the channel. -/
  | bankOutOfRange
  /-- An empty entry of `mrqq` is taken for a request. -/
  | nullPointer
  /-- A `dram_req_t` is accessed that has been deleted. -/
  | useAfterFree
  deriving DecidableEq, Repr

/-- `BANK_IDLE` and `BANK_ACTIVE`. -/
inductive BankState
  | idle
  | active
  deriving DecidableEq, Repr

/-- `bankgrp_t`. -/
structure BankGrp where
  ccdlc : ℕ
  rtplc : ℕ
  deriving DecidableEq

/-- `bank_t`. -/
structure Bank where
  rcdc : ℕ
  rcdwrc : ℕ
  rasc : ℕ
  rpc : ℕ
  rcc : ℕ
  wtpc : ℕ
  rtpc : ℕ
  state : BankState
  currRow : ℕ
  mrq : Option DramReq
  deriving DecidableEq

def Bank.idle : Bank := ⟨0, 0, 0, 0, 0, 0, 0, .idle, 0, none⟩

/-- The counters of a bank go down, `DEC2ZERO`. -/
def Bank.countDown (bank : Bank) : Bank :=
  { bank with
    rcdc := bank.rcdc - 1
    rasc := bank.rasc - 1
    rcc := bank.rcc - 1
    rpc := bank.rpc - 1
    rcdwrc := bank.rcdwrc - 1
    wtpc := bank.wtpc - 1
    rtpc := bank.rtpc - 1 }

/-- A `dram_req_t` on the heap, as far as it changes, and the fetch it is for. -/
structure DramObject where
  fetch : DramFetch
  txbytes : ℕ
  dqbytes : ℕ
  deriving DecidableEq

/-- `dram_t`. The direction of the last burst is that of `rw == WRITE`. -/
structure Channel where
  id : ℕ
  bkgrp : ℕ → BankGrp
  bk : ℕ → Bank
  prio : ℕ
  ccdc : ℕ
  rrdc : ℕ
  rtwc : ℕ
  wtrc : ℕ
  rwWrite : Bool
  rwq : FifoPipeline DramReq
  mrqq : FifoPipeline DramReq
  returnq : FifoPipeline DramFetch
  sched : Frfcfs
  heap : ℕ → Option DramObject
  nextId : ℕ

/-- A command on the buses of a channel, with its bank and the row of the request it is issued
for. -/
inductive Command
  | activate (b row : ℕ)
  | precharge (b : ℕ)
  | read (b row : ℕ)
  | write (b row : ℕ)
  deriving DecidableEq, Repr

namespace Channel

/-- The constructor. -/
def new (cfg : DramConfig) (id : ℕ) : Except PipelineFailure Channel := do
  let rwq ← FifoPipeline.new cfg.cl (cfg.cl + 1)
  let mrqq ← FifoPipeline.new 0 2
  let returnq ← FifoPipeline.new 0 (if cfg.returnQueueSize = 0 then 1024 else cfg.returnQueueSize)
  pure
    { id := id
      bkgrp := fun _ => ⟨0, 0⟩
      bk := fun _ => .idle
      prio := 0
      ccdc := 0
      rrdc := 0
      rtwc := 0
      wtrc := 0
      rwWrite := false
      rwq := rwq
      mrqq := mrqq
      returnq := returnq
      sched := .new
      heap := fun _ => none
      nextId := 0 }

/-- `get_bankgrp_number`. -/
def bankgrpNumber (cfg : DramConfig) (i : ℕ) : ℕ :=
  match cfg.bnkgrpIndexing with
  | .higher => i >>> cfg.bkTagLength
  | .lower => i &&& (cfg.nbkgrp - 1)

/-- Access a request. -/
def deref (s : Channel) (req : DramReq) : Except DramFailure DramObject :=
  match s.heap req.id with
  | some obj => .ok obj
  | none => .error .useAfterFree

/-- `full`. -/
def full (cfg : DramConfig) (s : Channel) (isWrite : Bool) : Bool :=
  match cfg.schedulerType with
  | .frfcfs =>
      if cfg.schedQueueSize = 0 then false
      else if cfg.seperateWriteQueueEnabled && isWrite then
        decide (cfg.writeQueueSize ≤ s.sched.numWritePending)
      else decide (cfg.schedQueueSize ≤ s.sched.numPending)
  | .fifo => s.mrqq.full

/-- `push`. -/
def push (s : Channel) (data : DramFetch) : Except DramFailure Channel := do
  if s.id ≠ data.chip then throw .wrongChannel
  let mrqq ← (s.mrqq.push (some ⟨s.nextId, data⟩)).mapError .pipeline
  pure { s with
    mrqq := mrqq
    heap := Function.update s.heap s.nextId (some ⟨data, 0, 0⟩)
    nextId := s.nextId + 1 }

/-! ## The scheduler hands a request to a bank -/

def setBank (s : Channel) (b : ℕ) (bank : Bank) : Channel :=
  { s with bk := Function.update s.bk b bank }

def setMrq (s : Channel) (b : ℕ) (mrq : Option DramReq) : Channel :=
  s.setBank b { s.bk b with mrq := mrq }

/-- `scheduler_fifo`. -/
def schedulerFifo (cfg : DramConfig) (s : Channel) : Except DramFailure Channel :=
  if s.mrqq.isEmpty then .ok s
  else
    match s.mrqq.top with
    | none => .error .nullPointer
    | some head => do
        let _ ← s.deref head
        if cfg.nbk ≤ head.bk then throw .bankOutOfRange
        if (s.bk head.bk).mrq.isSome then pure s
        else do
          let (mrq, mrqq) ← s.mrqq.pop.mapError .pipeline
          pure ({ s with mrqq := mrqq }.setMrq head.bk mrq)

/-- Hand all waiting requests to the scheduler. Every round takes one. -/
def acceptAll (cfg : DramConfig) (s : Channel) : ℕ → Except DramFailure Channel
  | 0 => .ok s
  | rounds + 1 =>
      if s.mrqq.isEmpty then .ok s
      else do
        match ← s.mrqq.pop.mapError .pipeline with
        | (none, _) => throw .nullPointer
        | (some req, mrqq) =>
            let _ ← s.deref req
            if cfg.nbk ≤ req.bk then throw .bankOutOfRange
            let sched ← (s.sched.addReq cfg req).mapError .sched
            acceptAll cfg { s with mrqq := mrqq, sched := sched } rounds

/-- Ask for a request for the banks that have none, from the one with priority on, until
there is one. -/
def fillBank (cfg : DramConfig) : List ℕ → Channel → Except DramFailure Channel
  | [], s => .ok s
  | i :: rest, s => do
      let b := (i + s.prio) % cfg.nbk
      if (s.bk b).mrq.isSome then fillBank cfg rest s
      else
        match ← (s.sched.schedule cfg b (s.bk b).currRow).mapError .sched with
        | (none, sched) => fillBank cfg rest { s with sched := sched }
        | (some req, sched) =>
            let _ ← s.deref req
            pure ({ s with sched := sched, prio := (s.prio + 1) % cfg.nbk }.setMrq b (some req))

/-- `scheduler_frfcfs`. -/
def schedulerFrfcfs (cfg : DramConfig) (s : Channel) : Except DramFailure Channel := do
  fillBank cfg (List.range cfg.nbk) (← acceptAll cfg s s.mrqq.entries.length)

def scheduler (cfg : DramConfig) (s : Channel) : Except DramFailure Channel :=
  match cfg.schedulerType with
  | .fifo => schedulerFifo cfg s
  | .frfcfs => schedulerFrfcfs cfg s

/-! ## A burst leaves the pipeline -/

/-- A request that is complete, with the bytes that were transferred for it. -/
structure Completion where
  fetch : DramFetch
  bytes : ℕ
  deriving DecidableEq

/-- The return queue with a fetch that is complete, unless it is a write-back. -/
def deliver (s : Channel) (data : DramFetch) : Except DramFailure (FifoPipeline DramFetch) :=
  if data.isWriteBack then .ok s.returnq
  else (s.returnq.push (some data)).mapError .pipeline

/-- The head of `cycle`. A complete request is deleted. -/
def drain (cfg : DramConfig) (s : Channel) : Except DramFailure (Option Completion × Channel) :=
  if s.returnq.full then .ok (none, s)
  else do
    match ← s.rwq.pop.mapError .pipeline with
    | (none, rwq) => pure (none, { s with rwq := rwq })
    | (some cmd, rwq) =>
        let obj ← s.deref cmd
        let dqbytes := obj.dqbytes + cfg.dramAtomSize
        if obj.fetch.dataSize ≤ dqbytes then do
          let returnq ← deliver s obj.fetch
          pure (some ⟨obj.fetch, dqbytes⟩, { s with
            rwq := rwq
            returnq := returnq
            heap := Function.update s.heap cmd.id none })
        else
          pure (none, { s with
            rwq := rwq
            heap := Function.update s.heap cmd.id (some { obj with dqbytes := dqbytes }) })

/-! ## Commands -/

/-- A column command can be issued for the request of a bank, as far as reads and writes
have conditions in common. -/
def columnReady (cfg : DramConfig) (s : Channel) (j : ℕ) (mrq : DramReq) : Prop :=
  s.ccdc = 0 ∧ (s.bkgrp (bankgrpNumber cfg j)).ccdlc = 0 ∧ (s.bk j).currRow = mrq.row ∧
    (s.bk j).state = .active ∧ s.rwq.full = false

instance (cfg : DramConfig) (s : Channel) (j : ℕ) (mrq : DramReq) :
    Decidable (columnReady cfg s j mrq) :=
  inferInstanceAs (Decidable (_ ∧ _ ∧ _ ∧ _ ∧ _))

/-- The pipeline, with another delay if the last burst went the other way. -/
def turnaround (cfg : DramConfig) (s : Channel) (mrq : DramReq) :
    Except DramFailure (FifoPipeline DramReq) :=
  if s.rwWrite = mrq.isWrite then .ok s.rwq
  else (s.rwq.setMinLength (if mrq.isWrite then cfg.wl else cfg.cl)).mapError .pipeline

/-- A burst enters the pipeline. The bank is free again after the last burst of its
request. -/
def sendBurst (cfg : DramConfig) (s : Channel) (j : ℕ) (mrq : DramReq) :
    Except DramFailure Channel := do
  let obj ← s.deref mrq
  let rwq ← turnaround cfg s mrq
  let rwq ← (rwq.push (some mrq)).mapError .pipeline
  let txbytes := obj.txbytes + cfg.dramAtomSize
  pure ({ s with
    rwWrite := mrq.isWrite
    rwq := rwq
    heap := Function.update s.heap mrq.id (some { obj with txbytes := txbytes }) }.setMrq j
      (if txbytes < mrq.nbytes then some mrq else none))

/-- The counters that a read loads. -/
def startRead (cfg : DramConfig) (s : Channel) (j : ℕ) : Channel :=
  { s with
    ccdc := cfg.tCCD
    rtwc := cfg.tRTW
    bkgrp := Function.update s.bkgrp (bankgrpNumber cfg j) ⟨cfg.tCCDL, cfg.tRTPL⟩
    bk := Function.update s.bk j { s.bk j with rtpc := cfg.bl / cfg.dataCommandFreqRatio } }

/-- The counters that a write loads. -/
def startWrite (cfg : DramConfig) (s : Channel) (j : ℕ) : Channel :=
  { s with
    ccdc := cfg.tCCD
    wtrc := cfg.tWTR
    bkgrp := Function.update s.bkgrp (bankgrpNumber cfg j)
      { s.bkgrp (bankgrpNumber cfg j) with ccdlc := cfg.tCCDL }
    bk := Function.update s.bk j { s.bk j with wtpc := cfg.tWTP } }

/-- `issue_col_command`. -/
def issueColCommand (cfg : DramConfig) (s : Channel) (j : ℕ) :
    Except DramFailure (Option Command × Channel) :=
  match (s.bk j).mrq with
  | none => .ok (none, s)
  | some mrq => do
      let _ ← s.deref mrq
      if columnReady cfg s j mrq ∧ (s.bk j).rcdc = 0 ∧ mrq.isWrite = false ∧ s.wtrc = 0 then
        pure (some (.read j mrq.row), startRead cfg (← sendBurst cfg s j mrq) j)
      else if columnReady cfg s j mrq ∧ (s.bk j).rcdwrc = 0 ∧ mrq.isWrite = true ∧ s.rtwc = 0 then
        pure (some (.write j mrq.row), startWrite cfg (← sendBurst cfg s j mrq) j)
      else pure (none, s)

/-- The row of a request is opened in an idle bank. -/
def activateRow (cfg : DramConfig) (s : Channel) (j row : ℕ) : Channel :=
  { s with
    rrdc := cfg.tRRD
    prio := (j + 1) % cfg.nbk
    bk := Function.update s.bk j { s.bk j with
      currRow := row
      state := .active
      rcdc := cfg.tRCD
      rcdwrc := cfg.tRCDWR
      rasc := cfg.tRAS
      rcc := cfg.tRC } }

/-- A bank is made idle again. -/
def prechargeBank (cfg : DramConfig) (s : Channel) (j : ℕ) : Channel :=
  { s with
    prio := (j + 1) % cfg.nbk
    bk := Function.update s.bk j { s.bk j with state := .idle, rpc := cfg.tRP } }

/-- `issue_row_command`. -/
def issueRowCommand (cfg : DramConfig) (s : Channel) (j : ℕ) :
    Except DramFailure (Option Command × Channel) :=
  match (s.bk j).mrq with
  | none => .ok (none, s)
  | some mrq => do
      let _ ← s.deref mrq
      if s.rrdc = 0 ∧ (s.bk j).state = .idle ∧ (s.bk j).rpc = 0 ∧ (s.bk j).rcc = 0 then
        pure (some (.activate j mrq.row), activateRow cfg s j mrq.row)
      else if (s.bk j).currRow ≠ mrq.row ∧ (s.bk j).state = .active ∧ (s.bk j).rasc = 0 ∧
          (s.bk j).wtpc = 0 ∧ (s.bk j).rtpc = 0 ∧ (s.bkgrp (bankgrpNumber cfg j)).rtplc = 0 then
        pure (some (.precharge j), prechargeBank cfg s j)
      else pure (none, s)

/-! ## A cycle -/

/-- The commands of a cycle, the last one first, with the flags of the loops that issue
them. -/
structure Bus where
  dram : Channel
  issuedCol : Bool
  issuedRow : Bool
  commands : List Command

namespace Bus

def tryCol (cfg : DramConfig) (t : Bus) (j : ℕ) : Except DramFailure Bus := do
  let (command, dram) ← issueColCommand cfg t.dram j
  pure { t with
    dram := dram
    issuedCol := command.isSome
    commands := command.toList ++ t.commands }

def tryRow (cfg : DramConfig) (t : Bus) (j : ℕ) : Except DramFailure Bus := do
  let (command, dram) ← issueRowCommand cfg t.dram j
  pure { t with
    dram := dram
    issuedRow := command.isSome
    commands := command.toList ++ t.commands }

/-- The bank that comes at place `i`. -/
def bankAt (cfg : DramConfig) (t : Bus) (i : ℕ) : ℕ :=
  (i + t.dram.prio) % cfg.nbk

/-- Column commands of the dual bus: up to the first. -/
def colLoop (cfg : DramConfig) : List ℕ → Bus → Except DramFailure Bus
  | [], t => .ok t
  | i :: rest, t => do
      let t ← t.tryCol cfg (t.bankAt cfg i)
      if t.issuedCol then pure t else colLoop cfg rest t

/-- Row commands of the dual bus: up to the first. -/
def rowLoop (cfg : DramConfig) : List ℕ → Bus → Except DramFailure Bus
  | [], t => .ok t
  | i :: rest, t => do
      let t ← t.tryRow cfg (t.bankAt cfg i)
      if t.issuedRow then pure t else rowLoop cfg rest t

/-- A turn of a bank on the single bus: at most one column command is issued, and no row
command after it or after another. -/
def turn (cfg : DramConfig) (t : Bus) (j : ℕ) : Except DramFailure Bus := do
  let col (t : Bus) := if t.issuedCol then pure t else t.tryCol cfg j
  let row (t : Bus) := if t.issuedCol || t.issuedRow then pure t else t.tryRow cfg j
  row (← col t)

/-- The loop of the single bus. A row command changes the bank that comes next. -/
def singleLoop (cfg : DramConfig) : List ℕ → Bus → Except DramFailure Bus
  | [], t => .ok t
  | i :: rest, t => do singleLoop cfg rest (← t.turn cfg (t.bankAt cfg i))

end Bus

def issueCommands (cfg : DramConfig) (s : Channel) : Except DramFailure Bus := do
  let t : Bus := ⟨s, false, false, []⟩
  if cfg.dualBusInterface then
    Bus.rowLoop cfg (List.range cfg.nbk) (← Bus.colLoop cfg (List.range cfg.nbk) t)
  else Bus.singleLoop cfg (List.range cfg.nbk) t

/-- All counters go down. -/
def countDown (cfg : DramConfig) (s : Channel) : Channel :=
  { s with
    rrdc := s.rrdc - 1
    ccdc := s.ccdc - 1
    rtwc := s.rtwc - 1
    wtrc := s.wtrc - 1
    bk := fun j => if j < cfg.nbk then (s.bk j).countDown else s.bk j
    bkgrp := fun j =>
      if j < cfg.nbkgrp then ⟨(s.bkgrp j).ccdlc - 1, (s.bkgrp j).rtplc - 1⟩ else s.bkgrp j }

/-- What a cycle leaves, completes and issues. -/
structure CycleResult where
  dram : Channel
  completed : Option Completion
  commands : List Command

/-- `cycle`. -/
def cycle (cfg : DramConfig) (s : Channel) : Except DramFailure CycleResult := do
  let (completed, s) ← drain cfg s
  let t ← issueCommands cfg (← scheduler cfg s)
  pure ⟨countDown cfg t.dram, completed, t.commands⟩

/-- `return_queue_pop`. -/
def returnQueuePop (s : Channel) : Except DramFailure (Option DramFetch × Channel) := do
  let (data, returnq) ← s.returnq.pop.mapError .pipeline
  pure (data, { s with returnq := returnq })

/-! ## Runs of a channel -/

/-- A channel with what happened to it: the number of cycles, the commands with the cycles
they were issued in, and the requests that were pushed, completed and handed back, which
they are from the return queue or, for write-backs, at once. The last event is first. -/
structure Log where
  dram : Channel
  now : ℕ
  commands : List (ℕ × Command)
  pushed : List DramFetch
  completed : List Completion
  handed : List DramFetch

inductive Action
  | push (data : DramFetch)
  | cycle
  | returnQueuePop

def Log.start (dram : Channel) : Log := ⟨dram, 0, [], [], [], []⟩

def Log.step (cfg : DramConfig) (log : Log) : Action → Except DramFailure Log
  | .push data => do
      let dram ← log.dram.push data
      pure { log with dram := dram, pushed := data :: log.pushed }
  | .cycle => do
      let result ← log.dram.cycle cfg
      let done := (result.completed.map Completion.fetch).filter DramFetch.isWriteBack
      pure { log with
        dram := result.dram
        now := log.now + 1
        commands := result.commands.map (Prod.mk log.now) ++ log.commands
        completed := result.completed.toList ++ log.completed
        handed := done.toList ++ log.handed }
  | .returnQueuePop => do
      let (data, dram) ← log.dram.returnQueuePop
      pure { log with dram := dram, handed := data.toList ++ log.handed }

end Channel

/-- The runs of a channel, with requests pushed and popped at any time. -/
def dramSystem (cfg : DramConfig) :
    TransitionSystem (Except DramFailure Channel.Log) Channel.Action :=
  .ofExcept (fun log => ∃ id dram, Channel.new cfg id = .ok dram ∧ log = .start dram)
    (fun _ _ => True) (Channel.Log.step cfg)

/-- Replay a list of actions on a new channel. -/
def Channel.replay (cfg : DramConfig) (id : ℕ) (actions : List Channel.Action) :
    Option Channel.Log :=
  match Channel.new cfg id with
  | .ok dram =>
      TransitionSystem.execOk (fun _ _ => True) (Channel.Log.step cfg) (.start dram) actions
  | .error _ => none

theorem Channel.reachable_of_replay {cfg : DramConfig} {id : ℕ} {actions : List Channel.Action}
    {log : Channel.Log} (h : Channel.replay cfg id actions = some log) :
    (dramSystem cfg).Reachable (.ok log) := by
  unfold Channel.replay at h
  cases hnew : Channel.new cfg id with
  | error e =>
      rw [hnew] at h
      cases h
  | ok dram =>
      rw [hnew] at h
      exact .execOk actions (.init ⟨.start dram, rfl, id, dram, hnew, rfl⟩) h

/-! ## The loops over the banks -/

namespace Channel

variable {cfg : DramConfig} {P : Channel → List Command → Prop} {F : DramFailure → Prop}

theorem issueCommands_keeps {s : Channel}
    (hcol : ∀ s commands j, P s commands →
      OkOr (fun r => P r.2 (r.1.toList ++ commands)) F (issueColCommand cfg s j))
    (hrow : ∀ s commands j, P s commands →
      OkOr (fun r => P r.2 (r.1.toList ++ commands)) F (issueRowCommand cfg s j))
    (h : P s []) : OkOr (fun t => P t.dram t.commands) F (issueCommands cfg s) := by
  have htryCol : ∀ (t : Bus) j, P t.dram t.commands →
      OkOr (fun t => P t.dram t.commands) F (t.tryCol cfg j) := fun t j ht =>
    (hcol t.dram t.commands j ht).bind fun r hr => hr
  have htryRow : ∀ (t : Bus) j, P t.dram t.commands →
      OkOr (fun t => P t.dram t.commands) F (t.tryRow cfg j) := fun t j ht =>
    (hrow t.dram t.commands j ht).bind fun r hr => hr
  have hcolLoop : ∀ places (t : Bus), P t.dram t.commands →
      OkOr (fun t => P t.dram t.commands) F (Bus.colLoop cfg places t) := by
    intro places
    induction places with
    | nil => exact fun t ht => ht
    | cons i rest ih =>
        intro t ht
        apply (htryCol t (t.bankAt cfg i) ht).bind
        intro t ht
        exact .ite (fun _ => ht) (fun _ => ih t ht)
  have hrowLoop : ∀ places (t : Bus), P t.dram t.commands →
      OkOr (fun t => P t.dram t.commands) F (Bus.rowLoop cfg places t) := by
    intro places
    induction places with
    | nil => exact fun t ht => ht
    | cons i rest ih =>
        intro t ht
        apply (htryRow t (t.bankAt cfg i) ht).bind
        intro t ht
        exact .ite (fun _ => ht) (fun _ => ih t ht)
  have hturn : ∀ (t : Bus) j, P t.dram t.commands →
      OkOr (fun t => P t.dram t.commands) F (t.turn cfg j) := by
    intro t j ht
    have hfirst : OkOr (fun t => P t.dram t.commands) F
        (if t.issuedCol then pure t else t.tryCol cfg j) :=
      .ite (fun _ => ht) (fun _ => htryCol t j ht)
    apply hfirst.bind
    intro t ht
    exact .ite (fun _ => ht) (fun _ => htryRow t j ht)
  have hsingle : ∀ places (t : Bus), P t.dram t.commands →
      OkOr (fun t => P t.dram t.commands) F (Bus.singleLoop cfg places t) := by
    intro places
    induction places with
    | nil => exact fun t ht => ht
    | cons i rest ih =>
        intro t ht
        exact (hturn t _ ht).bind ih
  apply OkOr.ite
  · intro _
    exact (hcolLoop (List.range cfg.nbk) ⟨s, false, false, []⟩ h).bind (hrowLoop _)
  · intro _
    exact hsingle _ _ h

end Channel

end GpuCalorie.Dram
