/-
# The arbiter of the register banks

The operand collectors queue their reads at the banks of the register file. In each cycle
`allocate_reads` goes through the matrix of requests along its diagonals, from another one each
time, and a bank that is being written takes part in no grant. As one collector may be granted
reads of several banks, every other bank reads its first request: the diagonals meet each pair of
a bank and a collector, and it makes no difference where they begin.
-/

import GpuCalorie.Math.Outcome
import GpuCalorie.Math.RoundRobin
import GpuCalorie.Math.Transition

namespace GpuCalorie.Issue

open GpuCalorie.Math

/-- `op_t`: the collector, the place of the operand there, the register and its bank. -/
structure OperandRead where
  ocId : ℕ
  operand : ℕ
  register : ℕ
  bank : ℕ
  deriving DecidableEq, Repr

/-- `alloc_t` -/
inductive BankAllocation
  | noAlloc | readAlloc | writeAlloc
  deriving DecidableEq, Repr

/-- `arbiter_t`. The numbers are those of `init`. -/
structure OperandArbiter (numBanks numCollectors : ℕ) where
  queue : ℕ → List OperandRead := fun _ => []
  allocatedBank : ℕ → BankAllocation := fun _ => .noAlloc
  lastCu : ℕ := 0

/-- The assertion `is_free()` of an allocation. -/
inductive BankFailure
  | notFree
  deriving DecidableEq, Repr

namespace OperandArbiter

variable {numBanks numCollectors : ℕ} (a : OperandArbiter numBanks numCollectors)

/-- `_request`: the first in the queue of a bank is for a collector. -/
def Requests (bank cu : ℕ) : Prop := ∃ op ∈ (a.queue bank).head?, op.ocId = cu

instance (bank cu : ℕ) : Decidable (a.Requests bank cu) :=
  inferInstanceAs (Decidable (∃ op ∈ (a.queue bank).head?, op.ocId = cu))

/-- A place of a diagonal: the bank is granted to the collector, if it is not to another. -/
def visit (p : ℕ) (inmatch : ℕ → Option ℕ) (input : ℕ) : ℕ → Option ℕ :=
  let output := (a.lastCu + p + input) % numCollectors
  if inmatch input = none ∧ a.Requests input output then
    Function.update inmatch input (some output)
  else inmatch

/-- `_inmatch` after the loop through the diagonals. A write gets priority. What is put into
`_outmatch` is not looked at. -/
def inmatch : ℕ → Option ℕ :=
  (List.range (max numBanks numCollectors)).foldl
    (fun inmatch p => (List.range numBanks).foldl (a.visit p) inmatch)
    fun bank => if a.allocatedBank bank = .writeAlloc then some 0 else none

/-- The banks whose first request is taken. -/
def Granted (bank : ℕ) : Prop :=
  bank < numBanks ∧ a.inmatch bank ≠ none ∧ a.allocatedBank bank ≠ .writeAlloc

instance : DecidablePred a.Granted := fun _ => inferInstanceAs (Decidable (_ ∧ _ ∧ _))

/-- `arbiter_t::allocate_reads` -/
def grants : List OperandRead × OperandArbiter numBanks numCollectors :=
  (((List.range numBanks).filter (a.Granted ·)).flatMap fun bank => (a.queue bank).head?.toList,
    { a with
      queue := fun bank => if a.Granted bank then (a.queue bank).tail else a.queue bank
      lastCu := (a.lastCu + 1) % numCollectors })

/-- `allocate_for_read` and `allocate_bank_for_write`. -/
def allocate (allocation : BankAllocation) (bank : ℕ) :
    Except BankFailure (OperandArbiter numBanks numCollectors) :=
  if a.allocatedBank bank = .noAlloc then
    .ok { a with allocatedBank := Function.update a.allocatedBank bank allocation }
  else .error .notFree

/-- `opndcoll_rfu_t::allocate_reads`, as far as the arbiter is concerned. -/
def allocateReads :
    Except BankFailure (List OperandRead × OperandArbiter numBanks numCollectors) := do
  let a' ← a.grants.1.foldlM (fun a op => a.allocate .readAlloc op.bank) a.grants.2
  pure (a.grants.1, a')

/-- `add_read_requests` -/
def addReadRequests (ops : List OperandRead) : OperandArbiter numBanks numCollectors :=
  ops.foldl (fun a op =>
    { a with queue := Function.update a.queue op.bank (a.queue op.bank ++ [op]) }) a

/-- `reset_alloction` -/
def resetAllocation : OperandArbiter numBanks numCollectors :=
  { a with allocatedBank := fun _ => .noAlloc }

end OperandArbiter

/-! ## Runs -/

/-- What happens to an arbiter: a `writeback` that finds a bank idle, and a `step`, in which
collectors that were allocated add requests. -/
inductive BankAction
  | writeback (bank : ℕ)
  | step (ops : List OperandRead)

/-- An arbiter with all requests that were made and granted. -/
structure BankLog (numBanks numCollectors : ℕ) where
  arbiter : OperandArbiter numBanks numCollectors := {}
  requested : List OperandRead := []
  granted : List OperandRead := []

namespace BankLog

variable {numBanks numCollectors : ℕ} (log : BankLog numBanks numCollectors)

/-- `writeback` asks `bank_idle`, and requests are of collectors and banks that there are. -/
def Enabled : BankAction → Prop
  | .writeback bank => log.arbiter.allocatedBank bank = .noAlloc
  | .step ops => ∀ op ∈ ops, op.ocId < numCollectors ∧ op.bank < numBanks

instance (action : BankAction) : Decidable (log.Enabled action) :=
  match action with
  | .writeback _ => inferInstanceAs (Decidable (_ = _))
  | .step _ => inferInstanceAs (Decidable (∀ op ∈ _, _ ∧ _))

def step : BankAction → Except BankFailure (BankLog numBanks numCollectors)
  | .writeback bank => do
      let arbiter ← log.arbiter.allocate .writeAlloc bank
      pure { log with arbiter := arbiter }
  | .step ops => do
      let (granted, arbiter) ← log.arbiter.allocateReads
      pure
        { arbiter := (arbiter.addReadRequests ops).resetAllocation
          requested := log.requested ++ ops
          granted := log.granted ++ granted }

end BankLog

/-- The runs of an arbiter. -/
def bankSystem (numBanks numCollectors : ℕ) :
    TransitionSystem (Except BankFailure (BankLog numBanks numCollectors)) BankAction :=
  .ofExcept (· = {}) BankLog.Enabled BankLog.step

namespace OperandArbiter

variable {numBanks numCollectors : ℕ} {a a' : OperandArbiter numBanks numCollectors} {bank p : ℕ}
  {m : ℕ → Option ℕ}

/-- The requests of each queue are for its bank, and of collectors that there are. -/
def Queued (a : OperandArbiter numBanks numCollectors) : Prop :=
  ∀ bank, ∀ op ∈ a.queue bank, op.ocId < numCollectors ∧ op.bank = bank ∧ bank < numBanks

theorem foldl_visit (inputs : List ℕ) : inputs.foldl (a.visit p) m bank = none ↔
    m bank = none ∧ (bank ∈ inputs →
      ¬ a.Requests bank ((a.lastCu + p + bank) % numCollectors)) := by
  induction inputs generalizing m with
  | nil => simp
  | cons input inputs ih =>
      rw [List.foldl_cons, ih, visit]
      by_cases heq : bank = input
      · subst heq
        split_ifs with hgrant
        · simp [hgrant.2]
        · simp only [List.mem_cons_self, true_implies]
          tauto
      · split_ifs <;> simp [heq]

theorem foldl_diagonals (diagonals : List ℕ) (hbank : bank < numBanks) :
    diagonals.foldl (fun m p => (List.range numBanks).foldl (a.visit p) m) m bank = none ↔
      m bank = none ∧ ∀ p ∈ diagonals,
        ¬ a.Requests bank ((a.lastCu + p + bank) % numCollectors) := by
  induction diagonals generalizing m with
  | nil => simp
  | cons p diagonals ih =>
      rw [List.foldl_cons, ih, foldl_visit, List.forall_mem_cons, and_assoc]
      simp only [List.mem_range, hbank, true_implies]

/-- Each diagonal meets another collector at a bank, and all of them are met. -/
theorem granted_iff (h : a.Queued) :
    a.Granted bank ↔ a.allocatedBank bank ≠ .writeAlloc ∧ a.queue bank ≠ [] := by
  have hstart : (if a.allocatedBank bank = .writeAlloc then some 0 else none) = none ↔
      a.allocatedBank bank ≠ .writeAlloc := by
    split_ifs with hwrite <;> simp [hwrite]
  constructor
  · rintro ⟨hbank, hmatch, hwrite⟩
    refine ⟨hwrite, fun hnone => hmatch ?_⟩
    rw [inmatch, foldl_diagonals _ hbank, hstart]
    refine ⟨hwrite, fun p _ hrequests => ?_⟩
    obtain ⟨op, hop, -⟩ := hrequests
    rw [hnone] at hop
    cases hop
  · rintro ⟨hwrite, hsome⟩
    obtain ⟨op, rest, hqueue⟩ := List.exists_cons_of_ne_nil hsome
    obtain ⟨hcu, -, hbank⟩ := h bank op (hqueue ▸ List.mem_cons_self)
    refine ⟨hbank, fun hmatch => ?_, hwrite⟩
    rw [inmatch, foldl_diagonals _ hbank] at hmatch
    refine hmatch.2 (RoundRobin.distance numCollectors (a.lastCu + bank) op.ocId) ?_
      ⟨op, by rw [hqueue]; rfl, ?_⟩
    · exact List.mem_range.mpr ((RoundRobin.distance_lt hcu).trans_le (le_max_right _ _))
    · rw [Nat.add_right_comm, Nat.add_comm, RoundRobin.rotate_distance hcu]

/-- The first requests of the banks that are not written to. -/
def firstReads (a : OperandArbiter numBanks numCollectors) : List OperandRead :=
  (List.range numBanks).flatMap fun bank =>
    if a.allocatedBank bank = .writeAlloc then [] else (a.queue bank).head?.toList

theorem grants_eq (h : a.Queued) : a.grants.1 = a.firstReads := by
  rw [grants, firstReads]
  dsimp only
  induction List.range numBanks with
  | nil => rfl
  | cons bank banks ih =>
      rw [List.flatMap_cons, ← ih, List.filter_cons]
      by_cases hgranted : a.Granted bank
      · rw [if_pos (decide_eq_true hgranted), List.flatMap_cons,
          if_neg ((granted_iff h).mp hgranted).1]
      · rw [if_neg (by simpa using hgranted)]
        split_ifs with hwrite
        · rfl
        · rw [granted_iff h, not_and_not_right] at hgranted
          rw [hgranted hwrite]
          rfl

theorem filter_flatMap {f : ℕ → List OperandRead} (hf : ∀ c, ∀ op ∈ f c, op.bank = c)
    {banks : List ℕ} (hnodup : banks.Nodup) :
    (banks.flatMap f).filter (·.bank = bank) = if bank ∈ banks then f bank else [] := by
  induction banks with
  | nil => rfl
  | cons c banks ih =>
      obtain ⟨hc, hnodup⟩ := List.nodup_cons.mp hnodup
      rw [List.flatMap_cons, List.filter_append, ih hnodup]
      by_cases heq : bank = c
      · subst heq
        rw [if_neg hc, List.append_nil, if_pos List.mem_cons_self, List.filter_eq_self]
        exact fun op hop => decide_eq_true (hf _ op hop)
      · have hnone : (f c).filter (·.bank = bank) = [] := by
          rw [List.filter_eq_nil_iff]
          intro op hop
          rw [hf c op hop]
          simpa using fun h : c = bank => heq h.symm
        rw [hnone, List.nil_append]
        simp only [List.mem_cons, heq, false_or]

theorem filter_grants (h : a.Queued) : a.grants.1.filter (·.bank = bank) =
    if a.Granted bank then (a.queue bank).head?.toList else [] := by
  rw [grants, filter_flatMap _ (List.nodup_range.filter _)]
  · refine if_congr ?_ rfl rfl
    rw [List.mem_filter, decide_eq_true_iff, List.mem_range, and_iff_right_iff_imp]
    exact fun hgranted => hgranted.1
  · intro c op hop
    exact (h c op (List.mem_of_mem_head? (Option.mem_toList.mp hop))).2.1

/-- Banks that are free may be allocated, one after the other. -/
theorem foldlM_allocate {ops : List OperandRead}
    (hfree : ∀ op ∈ ops, a.allocatedBank op.bank = .noAlloc) (hnodup : (ops.map (·.bank)).Nodup) :
    OkOr (fun a' => a'.queue = a.queue) (fun _ => False)
      (ops.foldlM (fun a op => a.allocate .readAlloc op.bank) a) := by
  induction ops generalizing a with
  | nil => exact rfl
  | cons op ops ih =>
      rw [List.map_cons, List.nodup_cons] at hnodup
      rw [List.foldlM_cons, allocate, if_pos (hfree op List.mem_cons_self)]
      refine (ih (fun op' hop' => ?_) hnodup.2).imp fun _ h => h
      have hne : op'.bank ≠ op.bank := fun heq => hnodup.1 (heq ▸ List.mem_map_of_mem hop')
      dsimp only
      rw [Function.update_of_ne hne]
      exact hfree op' (List.mem_cons_of_mem _ hop')

theorem map_bank_grants (h : a.Queued) :
    a.grants.1.map (·.bank) = (List.range numBanks).filter (a.Granted ·) := by
  rw [grants, List.map_flatMap]
  refine (List.flatMap_congr fun c hc => ?_).trans (List.flatMap_singleton' _)
  have hgranted : a.Granted c := of_decide_eq_true (List.mem_filter.mp hc).2
  obtain ⟨op, rest, hqueue⟩ := List.exists_cons_of_ne_nil ((granted_iff h).mp hgranted).2
  rw [hqueue, List.head?_cons, Option.toList_some, List.map_singleton,
    (h c op (hqueue ▸ List.mem_cons_self)).2.1]

theorem allocateReads_spec (h : a.Queued) (hread : ∀ bank, a.allocatedBank bank ≠ .readAlloc) :
    OkOr (fun r => r.1 = a.grants.1 ∧ r.2.queue = a.grants.2.queue) (fun _ => False)
      a.allocateReads := by
  have hall : OkOr (fun a' => a'.queue = a.grants.2.queue) (fun _ => False)
      (a.grants.1.foldlM (fun a op => a.allocate .readAlloc op.bank) a.grants.2) := by
    apply foldlM_allocate
    · intro op hop
      have hmem : op.bank ∈ a.grants.1.map (·.bank) := List.mem_map_of_mem hop
      rw [map_bank_grants h, List.mem_filter, decide_eq_true_iff] at hmem
      change a.allocatedBank op.bank = .noAlloc
      cases hbank : a.allocatedBank op.bank with
      | noAlloc => rfl
      | readAlloc => exact absurd hbank (hread _)
      | writeAlloc => exact absurd hbank hmem.2.2.2
    · rw [map_bank_grants h]
      exact List.nodup_range.filter _
  exact hall.bind fun a' ha' => ⟨rfl, ha'⟩

theorem queue_addReadRequests {ops : List OperandRead} :
    (a.addReadRequests ops).queue bank = a.queue bank ++ ops.filter (·.bank = bank) := by
  induction ops generalizing a with
  | nil => exact (List.append_nil _).symm
  | cons op ops ih =>
      rw [addReadRequests, List.foldl_cons]
      refine ih.trans ?_
      dsimp only
      by_cases heq : op.bank = bank
      · subst heq
        rw [Function.update_self, List.filter_cons_of_pos (by simp), List.append_assoc]
        rfl
      · rw [Function.update_of_ne (Ne.symm heq), List.filter_cons_of_neg (by simpa using heq)]

end OperandArbiter

namespace BankLog

variable {numBanks numCollectors : ℕ} {log : BankLog numBanks numCollectors}

/-- The requests of each bank were granted from the first on, and the others are in its queue. -/
structure Fifo (log : BankLog numBanks numCollectors) : Prop where
  queued : log.arbiter.Queued
  free : ∀ bank, log.arbiter.allocatedBank bank ≠ .readAlloc
  order : ∀ bank, log.granted.filter (·.bank = bank) ++ log.arbiter.queue bank =
    log.requested.filter (·.bank = bank)

/-- A step succeeds, and grants the first request of each bank that is not written to. -/
def GrantsFirst (log : BankLog numBanks numCollectors) : Prop :=
  ∀ ops, OkOr (fun next => next.granted = log.granted ++ log.arbiter.firstReads)
    (fun _ => False) (log.step (.step ops))

theorem Fifo.grantsFirst (h : log.Fifo) : log.GrantsFirst := by
  intro ops
  refine (OperandArbiter.allocateReads_spec h.queued h.free).bind ?_
  rintro ⟨granted, a⟩ ⟨hgranted, -⟩
  show log.granted ++ granted = _
  rw [show granted = _ from hgranted, OperandArbiter.grants_eq h.queued]

theorem Fifo.step (h : log.Fifo) {action : BankAction} (henabled : log.Enabled action) :
    OkOr Fifo (fun _ => False) (log.step action) := by
  cases action with
  | writeback bank =>
      have hallocate : log.arbiter.allocate .writeAlloc bank = .ok { log.arbiter with
          allocatedBank := Function.update log.arbiter.allocatedBank bank .writeAlloc } :=
        if_pos henabled
      rw [BankLog.step, hallocate]
      refine ⟨h.queued, fun other => ?_, h.order⟩
      show Function.update log.arbiter.allocatedBank bank .writeAlloc other ≠ _
      by_cases heq : other = bank
      · rw [heq, Function.update_self]
        decide
      · rw [Function.update_of_ne heq]
        exact h.free other
  | step ops =>
      refine (OperandArbiter.allocateReads_spec h.queued h.free).bind ?_
      rintro ⟨granted, a⟩ ⟨hgranted, hqueue⟩
      have hgranted : granted = log.arbiter.grants.1 := hgranted
      have hqueue : ∀ bank, ((a.addReadRequests ops).resetAllocation).queue bank =
          (if log.arbiter.Granted bank then (log.arbiter.queue bank).tail
            else log.arbiter.queue bank) ++ ops.filter (·.bank = bank) := fun bank =>
        OperandArbiter.queue_addReadRequests.trans (congrArg (· ++ _) (congrFun hqueue bank))
      refine ⟨fun bank op hop => ?_, fun bank hread => ?_, fun bank => ?_⟩
      · rw [hqueue] at hop
        rcases List.mem_append.mp hop with hop | hop
        · refine h.queued bank op ?_
          split_ifs at hop
          · exact List.mem_of_mem_tail hop
          · exact hop
        · obtain ⟨hop, hbank⟩ := List.mem_filter.mp hop
          have hbank : op.bank = bank := of_decide_eq_true hbank
          obtain ⟨hcu, hlt⟩ := henabled op hop
          exact ⟨hcu, hbank, hbank ▸ hlt⟩
      · cases hread
      · show (log.granted ++ granted).filter _ ++ _ = (log.requested ++ ops).filter _
        rw [hqueue, List.filter_append, List.filter_append, hgranted,
          OperandArbiter.filter_grants h.queued, ← h.order bank]
        split_ifs
        · cases log.arbiter.queue bank <;> simp
        · simp

/-- In every run the requests of each bank are granted in their order, none is lost, a step
grants the first request of each bank that is not written to, and no assertion fails. -/
theorem fifo_of_reachable {r : Except BankFailure (BankLog numBanks numCollectors)}
    (reached : (bankSystem numBanks numCollectors).Reachable r) :
    OkOr (fun log => log.Fifo ∧ log.GrantsFirst) (fun _ => False) r := by
  have hfifo : OkOr Fifo (fun _ => False) r := by
    apply reached.invariant_ofExcept_all
    · rintro log rfl
      refine ⟨fun _ _ hop => ?_, fun _ hread => ?_, fun _ => rfl⟩
      · cases hop
      · cases hread
    · exact fun log action h henabled => h.step henabled
  exact hfifo.imp fun log h => ⟨h, h.grantsFirst⟩

/-- Both collectors read from the first bank, and one from the other, which is written to in
between. -/
theorem fifo_run :
    ∃ log : BankLog 2 2, (bankSystem 2 2).Reachable (.ok log) ∧
      log.granted = [⟨0, 0, 4, 0⟩, ⟨1, 0, 6, 0⟩, ⟨0, 1, 5, 1⟩] ∧ log.Fifo := by
  have hrun : (TransitionSystem.execOk Enabled step ({} : BankLog 2 2)
      [.step [⟨0, 0, 4, 0⟩, ⟨0, 1, 5, 1⟩, ⟨1, 0, 6, 0⟩], .writeback 1, .step [], .step []]).map
        granted = some [⟨0, 0, 4, 0⟩, ⟨1, 0, 6, 0⟩, ⟨0, 1, 5, 1⟩] := by decide
  obtain ⟨log, hlog, hgranted⟩ := Option.map_eq_some_iff.mp hrun
  have hreached : (bankSystem 2 2).Reachable (.ok log) := .execOk _ (.init ⟨_, rfl, rfl⟩) hlog
  have hfifo : OkOr (fun log : BankLog 2 2 => log.Fifo ∧ log.GrantsFirst) (fun _ => False)
      (.ok log : Except BankFailure _) := fifo_of_reachable hreached
  exact ⟨log, hreached, hgranted, hfifo.1⟩

end BankLog

end GpuCalorie.Issue
