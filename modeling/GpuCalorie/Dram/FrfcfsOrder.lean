/-
# What does the FR-FCFS scheduler serve?

`schedule` returns the oldest request of the row it has been serving; when that row has none left,
the oldest of the row that is open in the bank; and if there is none for that either, the oldest
request of the bank.

A channel asks `full` before it adds a request. A queue size of 0 stands for no limit there, but
`add_req` asserts that there is room.
-/

import GpuCalorie.Dram.FrfcfsQueue

namespace GpuCalorie.Dram

open GpuCalorie.Math TransitionSystem

/-! ## One bank -/

namespace BankQueue

/-- The request to serve. -/
def oldestServed (q : BankQueue) (currRow : ℕ) : Option DramReq :=
  match q.lastRow with
  | some row => (ofRow row q.queue).getLast?
  | none => (ofRow currRow q.queue).getLast? <|> q.queue.getLast?

variable {q : BankQueue}

theorem getLast?_ofRow {requests : List DramReq} {oldest : DramReq}
    (h : requests.getLast? = some oldest) : (ofRow oldest.row requests).getLast? = some oldest := by
  obtain ⟨front, hfront⟩ := List.getLast?_eq_some_iff.mp h
  have hself : ofRow oldest.row [oldest] = [oldest] := List.filter_cons_of_pos (by simp)
  have hsplit : ofRow oldest.row requests = ofRow oldest.row front ++ [oldest] := by
    rw [hfront, ofRow, List.filter_append]
    exact congrArg _ hself
  rw [hsplit, List.getLast?_concat]

theorem Sorted.take_getLast (h : q.Sorted) {row : ℕ} {req : DramReq} {next : BankQueue}
    (htake : q.take row = .ok (req, next)) : (ofRow row q.queue).getLast? = some req := by
  rw [BankQueue.take, h.getD_bins] at htake
  cases hlast : (ofRow row q.queue).getLast? with
  | none =>
      rw [hlast] at htake
      cases htake
  | some oldest =>
      rw [hlast] at htake
      cases htake
      rfl

theorem Sorted.selectRow_served (h : q.Sorted) {currRow row : ℕ}
    (hselect : q.selectRow currRow = .ok (some row)) :
    (ofRow row q.queue).getLast? = q.oldestServed currRow := by
  rw [selectRow] at hselect
  rw [oldestServed]
  cases hlast : q.lastRow with
  | some served =>
      rw [hlast] at hselect
      cases hselect
      rfl
  | none =>
      rw [hlast] at hselect
      cases holdest : q.queue.getLast? with
      | none =>
          rw [holdest] at hselect
          cases hselect
      | some oldest =>
          simp only [holdest] at hselect
          by_cases hopen : ofRow currRow q.queue = []
          · have hbin : ¬ (q.bins currRow).isSome := by
              rw [h.bins, if_pos hopen]
              exact Bool.false_ne_true
            rw [if_neg hbin] at hselect
            split_ifs at hselect
            cases hselect
            rw [hopen, getLast?_ofRow holdest]
            rfl
          · have hbin : (q.bins currRow).isSome := by
              rw [h.bins, if_neg hopen]
              rfl
            rw [if_pos hbin] at hselect
            cases hselect
            rw [List.getLast?_eq_some_getLast hopen]
            rfl

theorem Sorted.schedule_served (h : q.Sorted) {currRow : ℕ}
    {result : Option (DramReq × BankQueue)} (hsched : q.schedule currRow = .ok result) :
    result.map Prod.fst = q.oldestServed currRow := by
  rw [BankQueue.schedule] at hsched
  cases hselect : q.selectRow currRow with
  | error e =>
      rw [hselect] at hsched
      cases hsched
  | ok selected =>
      rw [hselect] at hsched
      cases selected with
      | none =>
          cases hsched
          obtain ⟨hempty, -⟩ | ⟨req, next, hok, -⟩ := h.schedule currRow
          · have hnone : q.lastRow = none := by
              cases hlast : q.lastRow with
              | none => rfl
              | some row => exact absurd (by rw [hempty]; rfl) (h.lastRow row hlast)
            rw [oldestServed, hnone, hempty]
            rfl
          · rw [BankQueue.schedule, hselect] at hok
            cases hok
      | some row =>
          cases htake : q.take row with
          | error e =>
              simp only [bind, Except.bind, htake] at hsched
              cases hsched
          | ok taken =>
              obtain ⟨req, next⟩ := taken
              simp only [bind, Except.bind, htake] at hsched
              cases hsched
              rw [← h.selectRow_served hselect, h.take_getLast htake]
              rfl

end BankQueue

/-! ## The scheduler -/

namespace Frfcfs

variable {cfg : DramConfig} {s : Frfcfs}

theorem schedule_result {b currRow : ℕ} {result : Option DramReq} {next : Frfcfs}
    (hsched : s.schedule cfg b currRow = .ok (result, next)) :
    ∃ taken, (s.bank (s.nextMode cfg) b).schedule currRow = .ok taken ∧
      taken.map Prod.fst = result := by
  rw [Frfcfs.schedule] at hsched
  simp only [bank_withMode] at hsched
  cases htaken : (s.bank (s.nextMode cfg) b).schedule currRow with
  | error e =>
      rw [htaken] at hsched
      cases hsched
  | ok taken =>
      refine ⟨taken, rfl, ?_⟩
      rw [htaken] at hsched
      cases taken with
      | none =>
          cases hsched
          rfl
      | some pair =>
          obtain ⟨req, q⟩ := pair
          simp only [bind, Except.bind] at hsched
          split_ifs at hsched
          cases hsched
          rfl

/-- `dram_t::full`, for this scheduler. -/
def full (cfg : DramConfig) (s : Frfcfs) (isWrite : Bool) : Bool :=
  if cfg.schedQueueSize = 0 then false
  else if cfg.seperateWriteQueueEnabled then
    if isWrite then decide (cfg.writeQueueSize ≤ s.numWritePending)
    else decide (cfg.schedQueueSize ≤ s.numPending)
  else decide (cfg.schedQueueSize ≤ s.numPending)

theorem pending_lt_of_not_full (hsize : cfg.schedQueueSize ≠ 0) {req : DramReq}
    (hfull : full cfg s req.isWrite = false) :
    s.pending (modeOf cfg req) < queueSize cfg (modeOf cfg req) := by
  rw [full, if_neg hsize] at hfull
  rw [modeOf]
  cases hseparate : cfg.seperateWriteQueueEnabled with
  | false =>
      rw [hseparate, if_neg Bool.false_ne_true, decide_eq_false_iff_not] at hfull
      rw [if_neg fun h => Bool.false_ne_true h.1]
      exact Nat.not_le.mp hfull
  | true =>
      rw [hseparate, if_pos rfl] at hfull
      cases hwrite : req.isWrite with
      | false =>
          rw [hwrite, if_neg Bool.false_ne_true, decide_eq_false_iff_not] at hfull
          rw [if_neg fun h => Bool.false_ne_true h.2]
          exact Nat.not_le.mp hfull
      | true =>
          rw [hwrite, if_pos rfl, decide_eq_false_iff_not] at hfull
          rw [if_pos ⟨rfl, rfl⟩]
          exact Nat.not_le.mp hfull

/-- A channel adds a new request for one of its banks after `full` has returned false, and asks
for a request of one of its banks. -/
def Admitted (cfg : DramConfig) (s : Frfcfs) : Action → Prop
  | .addReq req => s.Fresh req ∧ req.bk < cfg.nbk ∧ full cfg s req.isWrite = false
  | .schedule b _ => b < cfg.nbk

end Frfcfs

/-- The runs of the scheduler with the test for fullness. -/
def admittedSystem (cfg : DramConfig) :
    TransitionSystem (Except SchedFailure Frfcfs) Frfcfs.Action :=
  .ofExcept (· = .new) (Frfcfs.Admitted cfg) (Frfcfs.step cfg)

namespace Frfcfs

variable {cfg : DramConfig} {s : Frfcfs}

/-- Where the queues have no limit for `full`, a request is added to one that has room for
`add_req`. -/
def HasRoom (cfg : DramConfig) (s : Frfcfs) : Action → Prop
  | .addReq req => cfg.schedQueueSize = 0 →
      s.pending (modeOf cfg req) < queueSize cfg (modeOf cfg req)
  | .schedule .. => True

/-- A call of `schedule` returns the request to serve of the mode's queue, and removes it and
nothing else. -/
def ServesOldest (cfg : DramConfig) (s : Frfcfs) (b currRow : ℕ) : Prop :=
  ∃ next, s.schedule cfg b currRow =
      .ok ((s.bank (s.nextMode cfg) b).oldestServed currRow, next) ∧
    Scheduled cfg s b ((s.bank (s.nextMode cfg) b).oldestServed currRow) next

theorem Ok.servesOldest (h : s.Ok cfg) (b currRow : ℕ) : s.ServesOldest cfg b currRow := by
  obtain ⟨result, next, hsched, -, hscheduled⟩ := h.schedule b currRow
  obtain ⟨taken, htaken, hresult⟩ := schedule_result hsched
  have hserved := (h.sorted (s.nextMode cfg) b).schedule_served htaken
  rw [hresult] at hserved
  rw [ServesOldest, ← hserved]
  exact ⟨next, hsched, hscheduled⟩

/-- The queues, bins and counters are consistent, and every call serves the oldest request. -/
structure Consistent (cfg : DramConfig) (r : Except SchedFailure Frfcfs) : Prop where
  state : ∃ s, r = .ok s ∧ s.Ok cfg
  serves : ∀ s, r = .ok s → ∀ b currRow, s.ServesOldest cfg b currRow

/-- In every run in which requests are added only when `full` returns false, and with a queue size
of 0 only to queues that have room, no assertion fails, the queues, bins and counters are
consistent, and `schedule` serves the oldest request. -/
theorem consistent_of_reachable {r : Except SchedFailure Frfcfs}
    (reached : ((admittedSystem cfg).restrict (onOk (HasRoom cfg))).Reachable r) :
    Consistent cfg r := by
  have hok : OkOr (Ok cfg) (fun _ => False) r := by
    apply reached.invariant_ofExcept (fun s hs => hs ▸ ok_new cfg)
    intro s a h hroom hadmitted
    cases a with
    | addReq req =>
        obtain ⟨hfresh, hbk, hfull⟩ := hadmitted
        have hlt : s.pending (modeOf cfg req) < queueSize cfg (modeOf cfg req) := by
          by_cases hsize : cfg.schedQueueSize = 0
          · exact hroom hsize
          · exact pending_lt_of_not_full hsize hfull
        obtain herror | ⟨next, hnext, hok, -⟩ := h.addReq hfresh hbk
        · rw [Frfcfs.addReq, if_pos hlt] at herror
          cases herror
        · show OkOr _ _ (s.addReq cfg req)
          rw [hnext]
          exact hok
    | schedule b currRow =>
        obtain ⟨result, next, hnext, hok, -⟩ := h.schedule b currRow
        show OkOr _ _ (do pure (← s.schedule cfg b currRow).2)
        rw [hnext]
        exact hok
  cases r with
  | error e => exact hok.elim
  | ok s =>
      refine ⟨⟨s, rfl, hok⟩, fun s' heq b currRow => ?_⟩
      cases heq
      exact Ok.servesOldest hok b currRow

/-- A write for row 7 of bank 3. -/
def oneWrite : DramReq where
  id := 0
  data := ⟨0, 0, 0, true, .globalAccW, 32, 3, 7⟩

theorem fresh_new (req : DramReq) : Frfcfs.new.Fresh req := by
  intro mode b other hother
  cases mode <;> exact absurd hother List.not_mem_nil

/-- The run that adds a write to a split queue. -/
theorem consistent_oneWrite :
    Consistent splitQueues (Frfcfs.new.addReq splitQueues oneWrite) := by
  have hstart : ((admittedSystem splitQueues).restrict (onOk (HasRoom splitQueues))).Reachable
      (.ok .new) := .init ⟨.new, rfl, rfl⟩
  have hroom : HasRoom splitQueues .new (.addReq oneWrite) := fun h => absurd h (by decide)
  exact consistent_of_reachable
    (hstart.step (a := .addReq oneWrite) ⟨hroom, .new, rfl, ⟨fresh_new _, by decide, rfl⟩, rfl⟩)

/-- A queue without a limit has no room for its first read. -/
theorem not_consistent_unlimited :
    ¬ ∀ (cfg : DramConfig) (r : Except SchedFailure Frfcfs), (admittedSystem cfg).Reachable r →
      Consistent cfg r := by
  intro hall
  have hstart : (admittedSystem { splitQueues with schedQueueSize := 0 }).Reachable (.ok .new) :=
    .init ⟨.new, rfl, rfl⟩
  obtain ⟨s, hs, -⟩ := (hall _ _ (hstart.step (a := .addReq ⟨0, longRead⟩)
    ⟨.new, rfl, ⟨fresh_new _, by decide, rfl⟩, rfl⟩)).state
  cases hs

end Frfcfs

end GpuCalorie.Dram
