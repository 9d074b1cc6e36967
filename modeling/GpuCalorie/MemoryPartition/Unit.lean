/-
# A memory partition

`memory_partition_unit` connects the L2 slices of its sub-partitions to its DRAM channel.
A request leaves the L2 of a sub-partition for the latency queue when a credit can be
borrowed for it, goes from there to the channel, and returns to the sub-partition it belongs
to; a write-back ends in the channel. The simple model has no channel, and what is in the
latency queue comes back from there.

The L2 slices themselves are the environment: they fill one queue of their sub-partition
and empty the other.
-/

import GpuCalorie.Dram.Channel
import GpuCalorie.Math.RoundRobin
import GpuCalorie.MemoryPartition.Arbitration

namespace GpuCalorie.MemoryPartition

open Dram GpuCalorie.Math

/-- The assertions of a memory partition and its parts. -/
inductive PartitionFailure
  | dram (failure : DramFailure)
  | pipeline (failure : PipelineFailure)
  | credit (failure : CreditFailure)
  /-- `m_sub_partition[dest_spid]->get_id() == dest_global_spid` -/
  | wrongPartition
  /-- An empty entry of a queue is taken for a request. -/
  | nullPointer
  deriving DecidableEq, Repr

/-- `memory_config`, as far as a memory partition reads it. -/
structure PartitionConfig where
  dram : DramConfig
  /-- `m_n_sub_partition_per_memory_channel`. -/
  nSub : ℕ
  dramLatency : ℕ
  l2DramQueueSize : ℕ
  dramL2QueueSize : ℕ

/-- `dram_delay_t`. -/
structure DramDelay where
  readyCycle : ℕ
  req : DramFetch
  deriving DecidableEq

/-- The queues of a sub-partition to and from the channel. -/
structure SubPartition where
  l2DramQueue : FifoPipeline DramFetch
  dramL2Queue : FifoPipeline DramFetch
  deriving DecidableEq

/-- `memory_partition_unit`. -/
structure PartitionUnit where
  id : ℕ
  subPartition : ℕ → SubPartition
  dram : Channel
  arbitration : Arbitration
  dramLatencyQueue : List DramDelay

namespace PartitionUnit

/-- The constructor. -/
def new (cfg : PartitionConfig) (id : ℕ) : Except PartitionFailure PartitionUnit := do
  let arbitration ← (Arbitration.new cfg.dram cfg.nSub).mapError .credit
  let dram ← (Channel.new cfg.dram id).mapError .pipeline
  let l2DramQueue ← (FifoPipeline.new 0 cfg.l2DramQueueSize).mapError .pipeline
  let dramL2Queue ← (FifoPipeline.new 0 cfg.dramL2QueueSize).mapError .pipeline
  pure
    { id := id
      subPartition := fun _ => ⟨l2DramQueue, dramL2Queue⟩
      dram := dram
      arbitration := arbitration
      dramLatencyQueue := [] }

def setSubPartition (s : PartitionUnit) (p : ℕ) (sub : SubPartition) : PartitionUnit :=
  { s with subPartition := Function.update s.subPartition p sub }

/-- `global_sub_partition_id_to_local_id`, for a sub-partition of this unit. -/
def localId (cfg : PartitionConfig) (s : PartitionUnit) (globalId : ℕ) :
    Except PartitionFailure ℕ :=
  if s.id * cfg.nSub ≤ globalId ∧ globalId - s.id * cfg.nSub < cfg.nSub then
    .ok (globalId - s.id * cfg.nSub)
  else .error .wrongPartition

/-- `can_issue_to_dram`. -/
def canIssueToDram (s : PartitionUnit) (spid : ℕ) : Bool :=
  s.arbitration.hasCredits spid && !(s.subPartition spid).dramL2Queue.full

/-- `return_credit`, for a request of a sub-partition. -/
def returnCredit (s : PartitionUnit) (spid : ℕ) : Except PartitionFailure PartitionUnit := do
  let arbitration ← (s.arbitration.returnCredit spid).mapError .credit
  pure { s with arbitration := arbitration }

/-- `set_done`. The requests that a sub-partition tracks are not modelled. -/
def setDone (cfg : PartitionConfig) (s : PartitionUnit) (data : DramFetch) :
    Except PartitionFailure PartitionUnit := do
  let spid ← s.localId cfg data.subPartition
  if data.isWriteBack then s.returnCredit spid else pure s

/-- A request goes back to its sub-partition, with its credit. -/
def reply (s : PartitionUnit) (spid : ℕ) (data : DramFetch) :
    Except PartitionFailure PartitionUnit := do
  let queue ← ((s.subPartition spid).dramL2Queue.push (some data)).mapError .pipeline
  (s.setSubPartition spid { s.subPartition spid with dramL2Queue := queue }).returnCredit spid

/-- What a step of a unit did: a request it borrowed a credit for, and those whose credits
it returned. -/
structure Traffic where
  borrowed : List DramFetch
  returned : List DramFetch

/-- Let the first sub-partition, from the one after the last borrower on, that has a request
and can issue it, send it to the latency queue. A full channel lets none. -/
def arbitrate (cfg : PartitionConfig) (now last : ℕ) :
    List ℕ → PartitionUnit → Except PartitionFailure (List DramFetch × PartitionUnit)
  | [], s => .ok ([], s)
  | p :: rest, s =>
      let spid := (p + last + 1) % cfg.nSub
      if !(s.subPartition spid).l2DramQueue.isEmpty && s.canIssueToDram spid then
        match (s.subPartition spid).l2DramQueue.top with
        | none => .error .nullPointer
        | some mf =>
            if s.dram.full cfg.dram mf.isWrite then .ok ([], s)
            else do
              let (_, queue) ← (s.subPartition spid).l2DramQueue.pop.mapError .pipeline
              let arbitration ← (s.arbitration.borrowCredit spid).mapError .credit
              pure ([mf], { s.setSubPartition spid
                  { s.subPartition spid with l2DramQueue := queue } with
                dramLatencyQueue := s.dramLatencyQueue ++ [⟨now + cfg.dramLatency, mf⟩]
                arbitration := arbitration })
      else arbitrate cfg now last rest s

/-- The arbitration of a cycle. -/
def issueToDram (cfg : PartitionConfig) (now : ℕ) (s : PartitionUnit) :
    Except PartitionFailure (List DramFetch × PartitionUnit) :=
  arbitrate cfg now s.arbitration.lastBorrower (List.range cfg.nSub) s

/-- The head of `simple_dram_model_cycle`: what is ready comes back. -/
def simpleReturn (cfg : PartitionConfig) (now : ℕ) (s : PartitionUnit) :
    Except PartitionFailure (List DramFetch × PartitionUnit) :=
  match s.dramLatencyQueue with
  | [] => .ok ([], s)
  | front :: rest =>
      if now < front.readyCycle then .ok ([], s)
      else if front.req.isWriteBack then do
        let s ← s.setDone cfg front.req
        pure ([front.req], { s with dramLatencyQueue := rest })
      else do
        let spid ← s.localId cfg front.req.subPartition
        if (s.subPartition spid).dramL2Queue.full then pure ([], s)
        else
          let s ← s.reply spid front.req
          pure ([front.req], { s with dramLatencyQueue := rest })

/-- `simple_dram_model_cycle`. -/
def simpleDramModelCycle (cfg : PartitionConfig) (now : ℕ) (s : PartitionUnit) :
    Except PartitionFailure (Traffic × PartitionUnit) := do
  let (returned, s) ← simpleReturn cfg now s
  let (borrowed, s) ← issueToDram cfg now s
  pure (⟨borrowed, returned⟩, s)

/-- The head of `dram_cycle`: the first request of the return queue goes back. The channel
returns no write-backs, for which no credit is returned here. -/
def dramReturn (cfg : PartitionConfig) (s : PartitionUnit) :
    Except PartitionFailure (List DramFetch × PartitionUnit) :=
  match s.dram.returnq.top with
  | none => do
      let (_, dram) ← s.dram.returnQueuePop.mapError .dram
      pure ([], { s with dram := dram })
  | some mf => do
      let spid ← s.localId cfg mf.subPartition
      if (s.subPartition spid).dramL2Queue.full then pure ([], s)
      else if mf.accessType = .l1WrbkAcc then
        let (_, dram) ← s.dram.returnQueuePop.mapError .dram
        pure ([], { s with dram := dram })
      else
        let s ← s.reply spid mf
        let (_, dram) ← s.dram.returnQueuePop.mapError .dram
        pure ([mf], { s with dram := dram })

/-- The cycle of the channel. A write-back that it completes is done. -/
def channelCycle (cfg : PartitionConfig) (s : PartitionUnit) :
    Except PartitionFailure (List DramFetch × PartitionUnit) := do
  let result ← (s.dram.cycle cfg.dram).mapError .dram
  let s := { s with dram := result.dram }
  match (result.completed.map Channel.Completion.fetch).filter DramFetch.isWriteBack with
  | none => pure ([], s)
  | some data => do
      let next ← s.setDone cfg data
      pure ([data], next)

/-- The tail of `dram_cycle`: what is ready in the latency queue goes to the channel. -/
def pushToDram (cfg : PartitionConfig) (now : ℕ) (s : PartitionUnit) :
    Except PartitionFailure PartitionUnit :=
  match s.dramLatencyQueue with
  | [] => .ok s
  | front :: rest =>
      if front.readyCycle ≤ now ∧ s.dram.full cfg.dram front.req.isWrite = false then do
        let dram ← (s.dram.push front.req).mapError .dram
        pure { s with dram := dram, dramLatencyQueue := rest }
      else .ok s

/-- `dram_cycle`. -/
def dramCycle (cfg : PartitionConfig) (now : ℕ) (s : PartitionUnit) :
    Except PartitionFailure (Traffic × PartitionUnit) := do
  let (replied, s) ← dramReturn cfg s
  let (done, s) ← channelCycle cfg s
  let (borrowed, s) ← issueToDram cfg now s
  let s ← pushToDram cfg now s
  pure (⟨borrowed, replied ++ done⟩, s)

/-! ## Runs of a memory partition -/

/-- A unit with the requests for which credits were borrowed and returned so far. -/
structure Log where
  unit : PartitionUnit
  traffic : Traffic

inductive Action
  /-- The L2 of a sub-partition sends a request. -/
  | l2Push (p : ℕ) (data : DramFetch)
  /-- The L2 of a sub-partition takes a request that came back. -/
  | l2Pop (p : ℕ)
  | dramCycle (now : ℕ)
  | simpleDramModelCycle (now : ℕ)

/-- The addresses of requests in the L2 of a sub-partition belong to that sub-partition. -/
def Enabled (cfg : PartitionConfig) (log : Log) : Action → Prop
  | .l2Push p data => p < cfg.nSub ∧ data.subPartition = log.unit.id * cfg.nSub + p
  | .l2Pop p => p < cfg.nSub
  | .dramCycle _ => True
  | .simpleDramModelCycle _ => True

instance (cfg : PartitionConfig) (log : Log) (a : Action) : Decidable (Enabled cfg log a) :=
  match a with
  | .l2Push _ _ => inferInstanceAs (Decidable (_ ∧ _))
  | .l2Pop _ => inferInstanceAs (Decidable (_ < _))
  | .dramCycle _ => isTrue trivial
  | .simpleDramModelCycle _ => isTrue trivial

def Log.add (log : Log) (r : Traffic × PartitionUnit) : Log :=
  ⟨r.2, r.1.borrowed ++ log.traffic.borrowed, r.1.returned ++ log.traffic.returned⟩

def Log.step (cfg : PartitionConfig) (log : Log) : Action → Except PartitionFailure Log
  | .l2Push p data => do
      let sub := log.unit.subPartition p
      let queue ← (sub.l2DramQueue.push (some data)).mapError .pipeline
      pure { log with unit := log.unit.setSubPartition p { sub with l2DramQueue := queue } }
  | .l2Pop p => do
      let sub := log.unit.subPartition p
      let (_, queue) ← sub.dramL2Queue.pop.mapError .pipeline
      pure { log with unit := log.unit.setSubPartition p { sub with dramL2Queue := queue } }
  | .dramCycle now => do pure (log.add (← log.unit.dramCycle cfg now))
  | .simpleDramModelCycle now => do pure (log.add (← log.unit.simpleDramModelCycle cfg now))

end PartitionUnit

/-- The runs of a memory partition, whichever of its cycles are taken. -/
def partitionSystem (cfg : PartitionConfig) :
    TransitionSystem (Except PartitionFailure PartitionUnit.Log) PartitionUnit.Action :=
  .ofExcept (fun log => ∃ id unit, PartitionUnit.new cfg id = .ok unit ∧ log = ⟨unit, [], []⟩)
    (PartitionUnit.Enabled cfg) (PartitionUnit.Log.step cfg)

namespace PartitionUnit

/-- Replay a list of actions on a new unit. -/
def replay (cfg : PartitionConfig) (id : ℕ) (actions : List Action) : Option Log :=
  match new cfg id with
  | .ok unit => TransitionSystem.execOk (Enabled cfg) (Log.step cfg) ⟨unit, [], []⟩ actions
  | .error _ => none

theorem reachable_of_replay {cfg : PartitionConfig} {id : ℕ} {actions : List Action} {log : Log}
    (h : replay cfg id actions = some log) : (partitionSystem cfg).Reachable (.ok log) := by
  unfold replay at h
  cases hnew : new cfg id with
  | error e =>
      rw [hnew] at h
      cases h
  | ok unit =>
      rw [hnew] at h
      exact .execOk actions (.init ⟨⟨unit, [], []⟩, rfl, id, unit, hnew, rfl⟩) h

/-! ## Turns -/

/-- A sub-partition has a request, and can issue it. -/
def MayIssue (s : PartitionUnit) (spid : ℕ) : Prop :=
  (!(s.subPartition spid).l2DramQueue.isEmpty && s.canIssueToDram spid) = true

instance (s : PartitionUnit) (spid : ℕ) : Decidable (s.MayIssue spid) :=
  inferInstanceAs (Decidable (_ = true))

/-- The unit when a cycle comes to its arbitration. -/
def atArbitration (cfg : PartitionConfig) (s : PartitionUnit) : Action → Option PartitionUnit
  | .dramCycle _ => ((dramReturn cfg s).bind fun r => channelCycle cfg r.2).toOption.map Prod.snd
  | .simpleDramModelCycle now => (simpleReturn cfg now s).toOption.map Prod.snd
  | .l2Push _ _ | .l2Pop _ => none

/-- The arbiter of the sub-partitions: a step serves the one for whose request it borrows. -/
def turns (cfg : PartitionConfig) : RoundRobin.Arbiter Log Action where
  step log a := (log.step cfg a).toOption
  pointer log := log.unit.arbitration.lastBorrower + 1
  served log a := (log.step cfg a).toOption.bind fun next =>
    if next.traffic.borrowed = log.traffic.borrowed then none
    else some next.unit.arbitration.lastBorrower
  may log a spid := ∃ s ∈ atArbitration cfg log.unit a, s.MayIssue spid

variable {cfg : PartitionConfig} {s s' : PartitionUnit} {data : DramFetch} {now spid : ℕ}

/-- A step does not move the pointer of the arbiter. -/
def Stays (s s' : PartitionUnit) : Prop :=
  s'.arbitration.lastBorrower = s.arbitration.lastBorrower

theorem returnCredit_stays : OkOr (Stays s) (fun _ => True) (s.returnCredit spid) := by
  have hreturn : OkOr (fun a => a.lastBorrower = s.arbitration.lastBorrower) (fun _ => True)
      ((s.arbitration.returnCredit spid).mapError PartitionFailure.credit) := by
    apply OkOr.mapError
    rw [Arbitration.returnCredit]
    split_ifs <;> first | rfl | trivial
  exact hreturn.bind fun _ ha => ha

theorem setDone_stays : OkOr (Stays s) (fun _ => True) (s.setDone cfg data) := by
  exact OkOr.bind_any fun p => .ite (fun _ => returnCredit_stays) fun _ => rfl

theorem reply_stays : OkOr (Stays s) (fun _ => True) (s.reply spid data) := by
  exact OkOr.bind_any fun _ => returnCredit_stays

theorem simpleReturn_stays :
    OkOr (fun r => Stays s r.2) (fun _ => True) (simpleReturn cfg now s) := by
  rw [simpleReturn]
  cases s.dramLatencyQueue with
  | nil => exact rfl
  | cons front rest =>
      refine .ite (fun _ => rfl) fun _ => .ite (fun _ => ?_) fun _ => ?_
      · exact setDone_stays.bind fun _ h => h
      · refine OkOr.bind_any fun p => .ite (fun _ => rfl) fun _ => ?_
        exact reply_stays.bind fun _ h => h

theorem dramReturn_stays : OkOr (fun r => Stays s r.2) (fun _ => True) (dramReturn cfg s) := by
  rw [dramReturn]
  cases s.dram.returnq.top with
  | none => exact OkOr.bind_any fun _ => rfl
  | some mf =>
      refine OkOr.bind_any fun p => .ite (fun _ => rfl) fun _ => .ite (fun _ => ?_) fun _ => ?_
      · exact OkOr.bind_any fun _ => rfl
      · exact reply_stays.bind fun _ h => OkOr.bind_any fun _ => h

theorem channelCycle_stays :
    OkOr (fun r => Stays s r.2) (fun _ => True) (channelCycle cfg s) := by
  refine OkOr.bind_any fun result => ?_
  dsimp only
  cases (result.completed.map Channel.Completion.fetch).filter DramFetch.isWriteBack with
  | none => exact rfl
  | some data => exact setDone_stays.bind fun _ h => h

theorem borrowCredit_last {a : Arbitration} :
    OkOr (fun next => next.lastBorrower = spid) (fun _ => True) (a.borrowCredit spid) := by
  rw [Arbitration.borrowCredit]
  split_ifs <;> first | rfl | trivial

/-- The arbitration goes on from a place before which no sub-partition may issue. -/
theorem arbitrate_serves {last start count : ℕ} (hcount : start + count = cfg.nSub)
    (hbefore : ∀ i < start, ¬ s.MayIssue ((i + (last + 1)) % cfg.nSub)) :
    OkOr (fun r => (r.1 = [] ∧ r.2 = s) ∨ (r.1 ≠ [] ∧
        RoundRobin.Serves cfg.nSub (last + 1) s.MayIssue r.2.arbitration.lastBorrower))
      (fun _ => True) (arbitrate cfg now last (List.range' start count) s) := by
  induction count generalizing start with
  | zero => exact .inl ⟨rfl, rfl⟩
  | succ count ih =>
      have hstart : start < cfg.nSub := by omega
      rw [List.range'_succ, arbitrate]
      refine .ite (fun hmay => ?_) fun hnot => ?_
      · cases (s.subPartition ((start + last + 1) % cfg.nSub)).l2DramQueue.top with
        | none => trivial
        | some mf =>
            refine .ite (fun _ => .inl ⟨rfl, rfl⟩) fun _ => OkOr.bind_any fun queue => ?_
            refine OkOr.bind (borrowCredit_last.mono (fun _ h => h) fun _ _ => trivial).mapError ?_
            intro arbitration hlast
            refine .inr ⟨List.cons_ne_nil _ _, ?_⟩
            show RoundRobin.Serves cfg.nSub (last + 1) s.MayIssue arbitration.lastBorrower
            rw [hlast]
            refine ⟨Nat.mod_lt _ (Nat.zero_lt_of_lt hstart), hmay, fun other hother hmayOther => ?_⟩
            rw [Nat.add_assoc, RoundRobin.distance_rotate hstart]
            by_contra hlt
            refine hbefore _ (Nat.not_le.mp hlt) ?_
            rwa [RoundRobin.rotate_distance hother]
      · refine ih (by omega) fun i hi => ?_
        rcases Nat.lt_succ_iff_lt_or_eq.mp hi with hi | rfl
        · exact hbefore i hi
        · exact hnot

theorem issueToDram_serves :
    OkOr (fun r => (r.1 = [] ∧ r.2 = s) ∨ (r.1 ≠ [] ∧ RoundRobin.Serves cfg.nSub
        (s.arbitration.lastBorrower + 1) s.MayIssue r.2.arbitration.lastBorrower))
      (fun _ => True) (issueToDram cfg now s) := by
  rw [issueToDram, List.range_eq_range']
  exact arbitrate_serves (Nat.zero_add _) fun i hi => absurd hi (Nat.not_lt_zero i)

/-- A step borrows nothing and leaves the pointer, or serves a sub-partition. -/
def Turned (cfg : PartitionConfig) (log : Log) (a : Action) (next : Log) : Prop :=
  (next.traffic.borrowed = log.traffic.borrowed ∧ Stays log.unit next.unit) ∨
    (next.traffic.borrowed ≠ log.traffic.borrowed ∧ ∃ s ∈ atArbitration cfg log.unit a,
      RoundRobin.Serves cfg.nSub (log.unit.arbitration.lastBorrower + 1) s.MayIssue
        next.unit.arbitration.lastBorrower)

variable {log : Log} {a : Action}

/-- A cycle turns as its arbitration does. -/
theorem turned_of_arbitration {r : List DramFetch × PartitionUnit} {returned : List DramFetch}
    (hstays : Stays log.unit s) (hs : s ∈ atArbitration cfg log.unit a)
    (h : (r.1 = [] ∧ r.2 = s) ∨ (r.1 ≠ [] ∧ RoundRobin.Serves cfg.nSub
      (s.arbitration.lastBorrower + 1) s.MayIssue r.2.arbitration.lastBorrower))
    (hlast : Stays r.2 s') : Turned cfg log a (log.add (⟨r.1, returned⟩, s')) := by
  have hlast : s'.arbitration.lastBorrower = r.2.arbitration.lastBorrower := hlast
  rw [Stays] at hstays
  rcases h with ⟨hnone, hsame⟩ | ⟨hsome, hserves⟩
  · refine .inl ⟨?_, ?_⟩
    · show r.1 ++ log.traffic.borrowed = log.traffic.borrowed
      rw [hnone, List.nil_append]
    · show s'.arbitration.lastBorrower = log.unit.arbitration.lastBorrower
      rw [hlast, hsame, hstays]
  · refine .inr ⟨fun heq => hsome (List.append_left_eq_self.mp heq), s, hs, ?_⟩
    show RoundRobin.Serves _ _ _ s'.arbitration.lastBorrower
    rwa [hlast, ← hstays]

theorem step_turned : OkOr (Turned cfg log a) (fun _ => True) (log.step cfg a) := by
  cases a with
  | l2Push p data => exact OkOr.bind_any fun _ => .inl ⟨rfl, rfl⟩
  | l2Pop p => exact OkOr.bind_any fun _ => .inl ⟨rfl, rfl⟩
  | dramCycle now =>
      refine OkOr.bind (P := fun r => Turned cfg log (.dramCycle now) (log.add r)) ?_
        fun _ h => h
      refine dramReturn_stays.bind_eq fun r hr hfirst => ?_
      refine channelCycle_stays.bind_eq fun r' hr' hsecond => ?_
      refine issueToDram_serves.bind fun r'' h => ?_
      refine OkOr.bind (P := Stays r''.2) ?_ fun s' hs' => ?_
      · rw [pushToDram]
        cases r''.2.dramLatencyQueue with
        | nil => exact rfl
        | cons front rest =>
            exact .ite (fun _ => OkOr.bind_any fun _ => rfl) fun _ => rfl
      · refine turned_of_arbitration (hsecond.trans hfirst) ?_ h hs'
        simp [atArbitration, hr, hr', Except.bind, Except.toOption]
  | simpleDramModelCycle now =>
      refine OkOr.bind (P := fun r => Turned cfg log (.simpleDramModelCycle now) (log.add r)) ?_
        fun _ h => h
      refine simpleReturn_stays.bind_eq fun r hr hfirst => ?_
      refine issueToDram_serves.bind fun r' h => ?_
      refine turned_of_arbitration hfirst ?_ h rfl
      simp [atArbitration, hr, Except.toOption]

theorem turns_fair : (turns cfg).Fair cfg.nSub := by
  have hstep : ∀ {log next a}, (turns cfg).step log a = some next → Turned cfg log a next ∧
      (turns cfg).served log a = if next.traffic.borrowed = log.traffic.borrowed then none
        else some next.unit.arbitration.lastBorrower := by
    intro log next a hnext
    have hnext : (log.step cfg a).toOption = some next := hnext
    constructor
    · cases hlog : log.step cfg a with
      | error e =>
          rw [hlog] at hnext
          cases hnext
      | ok next' =>
          rw [hlog] at hnext
          cases hnext
          exact step_turned.of_ok hlog
    · show (log.step cfg a).toOption.bind _ = _
      rw [hnext, Option.bind_some]
  constructor
  case serves =>
    intro log a next d hnext hserved
    obtain ⟨hturned, hwho⟩ := hstep hnext
    rw [hwho] at hserved
    split_ifs at hserved with hsame
    cases hserved
    rcases hturned with ⟨hsame', -⟩ | ⟨-, s, hs, hserves⟩
    · exact absurd hsame' hsame
    · refine ⟨⟨hserves.lt, ⟨s, hs, hserves.admitted⟩, fun other hother hmay => ?_⟩, rfl⟩
      obtain ⟨s', hs', hmay⟩ := hmay
      cases Option.mem_unique hs hs'
      exact hserves.first other hother hmay
  case keeps =>
    intro log a next hnext hserved
    obtain ⟨hturned, hwho⟩ := hstep hnext
    rw [hwho] at hserved
    split_ifs at hserved with hsame
    rcases hturned with ⟨-, hstays⟩ | ⟨hsame', -⟩
    · exact congrArg (· + 1) hstays
    · exact absurd hsame hsame'

theorem overtaken_once {p : ℕ} (hp : p < cfg.nSub) (log : Log) (actions : List Action)
    (hwaits : (turns cfg).Waits p log actions) (hnot : p ∉ (turns cfg).servedIn log actions) :
    ((turns cfg).servedIn log actions).Nodup ∧
      ((turns cfg).servedIn log actions).length < cfg.nSub :=
  ⟨RoundRobin.Arbiter.nodup_servedIn turns_fair hp hwaits hnot,
    RoundRobin.Arbiter.length_servedIn_lt turns_fair hp hwaits hnot⟩

instance (cfg : PartitionConfig) (log : Log) (a : Action) (p : ℕ) :
    Decidable ((turns cfg).may log a p) :=
  inferInstanceAs (Decidable (∃ s ∈ atArbitration cfg log.unit a, s.MayIssue p))

/-- Three sub-partitions on a channel with two banks. -/
def threeSubPartitions : PartitionConfig where
  dram := twoBanks
  nSub := 3
  dramLatency := 0
  l2DramQueueSize := 8
  dramL2QueueSize := 8

/-- A read of a sub-partition. -/
def readOf (p : ℕ) : DramFetch := ⟨p, 0, p, false, .globalAccR, 32, 0, 3⟩

theorem overtaken_once_three :
    ∃ log, (partitionSystem threeSubPartitions).Reachable (.ok log) ∧
      (turns threeSubPartitions).servedIn log [.dramCycle 0, .dramCycle 1] = [0, 1] ∧
      [0, 1].Nodup ∧ [0, 1].length < 3 := by
  have hrun : (replay threeSubPartitions 0 ((List.range 3).flatMap fun p =>
      [.l2Push p (readOf p), .l2Push p (readOf p)])).map (fun log =>
        (decide ((turns threeSubPartitions).Waits 2 log [.dramCycle 0, .dramCycle 1]),
          (turns threeSubPartitions).servedIn log [.dramCycle 0, .dramCycle 1])) =
      some (true, [0, 1]) := by decide
  obtain ⟨log, hlog, hboth⟩ := Option.map_eq_some_iff.mp hrun
  obtain ⟨hwaits, hserved⟩ := Prod.mk.inj hboth
  have h := @overtaken_once threeSubPartitions 2 (by decide) log
    [.dramCycle 0, .dramCycle 1] (of_decide_eq_true hwaits) (by rw [hserved]; decide)
  rw [hserved] at h
  exact ⟨log, reachable_of_replay hlog, hserved, h⟩

end PartitionUnit

end GpuCalorie.MemoryPartition
