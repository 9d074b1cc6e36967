/-
# The two-level scheduler

The scheduler keeps the warps it supervises in a vector of active ones, from which it issues, and
a queue of pending ones. `order_warps` moves active warps that wait to the end of the queue, and
then warps from its front to the vector until it has as many as may be active. There is no test of
whether the queue has any, so that all of this is right only with as many warps as may be active.
-/

import GpuCalorie.Issue.LongOps
import Mathlib.Data.List.Rotate

namespace GpuCalorie.Issue

open GpuCalorie.Math

/-- `scheduler_prioritization_type` -/
inductive SchedulerPrioritization
  | lrr | srr | gto | gtlrr | gty | oldest | youngest
  deriving DecidableEq, Repr

/-- The numbers of the configuration string. -/
structure TwoLevelConfig where
  maxActiveWarps : ℕ
  innerLevel : SchedulerPrioritization := .lrr
  outerLevel : SchedulerPrioritization := .srr

/-- What stops the scheduler. -/
inductive SchedulerFailure
  /-- `Unimplemented m_inner_level_prioritization` -/
  | unimplementedInner
  /-- `Unimplemented m_outer_level_prioritization` -/
  | unimplementedOuter
  /-- `front` of an empty `m_pending_warps` -/
  | emptyQueue
  /-- `num_promoted == num_demoted` -/
  | promotedNotDemoted
  /-- `num_warps_to_add <= input_list.size()` -/
  | tooManyToAdd
  deriving DecidableEq, Repr

/-- What the scheduler sees of the warps when it orders them. -/
structure WarpView where
  /-- `shd_warp_t::waiting`: the warp is done, or waits at a barrier, at a memory barrier, or for
  an atomic operation. -/
  waiting : ℕ → Bool := fun _ => false
  /-- `ibuffer_next_inst` -/
  nextInst : ℕ → Option Inst := fun _ => none
  longopregs : LongopRegs := fun _ => ∅

/-- `waiting` in `order_warps`. -/
def WarpView.demotes (view : WarpView) (w : ℕ) : Bool :=
  view.waiting w || waitsOnLongop view.longopregs w (view.nextInst w)

/-- `two_level_active_scheduler` -/
structure TwoLevelScheduler where
  /-- `m_next_cycle_prioritized_warps` -/
  active : List ℕ := []
  /-- `m_pending_warps` -/
  pending : List ℕ := []
  deriving DecidableEq, Repr

/-- The scheduler after `order_warps`, with the warps it reports as demoted and promoted. -/
structure OrderedWarps where
  scheduler : TwoLevelScheduler
  demoted : List ℕ
  promoted : List ℕ
  deriving DecidableEq, Repr

/-- `order_lrr`, from the place of an iterator on. -/
def orderLrrLoop (input : List ℕ) : ℕ → ℕ → List ℕ
  | 0, _ => []
  | count + 1, iter =>
    let iter := if iter = input.length then 0 else iter
    input[iter]?.toList ++ orderLrrLoop input count (iter + 1)

/-- `order_lrr` -/
def orderLrr (input : List ℕ) (lastIssued numWarpsToAdd : ℕ) : Except SchedulerFailure (List ℕ) :=
  if numWarpsToAdd ≤ input.length then
    .ok (orderLrrLoop input numWarpsToAdd
      (if lastIssued = input.length then 0 else lastIssued + 1))
  else .error .tooManyToAdd

namespace TwoLevelScheduler

variable (cfg : TwoLevelConfig)

/-- `add_supervised_warp_id` -/
def addSupervisedWarpId (s : TwoLevelScheduler) (i : ℕ) : TwoLevelScheduler :=
  if s.active.length < cfg.maxActiveWarps then { s with active := s.active ++ [i] }
  else { s with pending := s.pending ++ [i] }

/-- The scheduler of some warps at first. -/
def supervising (warps : List ℕ) : TwoLevelScheduler :=
  warps.foldl (addSupervisedWarpId cfg) {}

/-- The loop that demotes. The iterator is at the first of the warps that are left, and stays at
that place when one is erased. -/
def demoteLoop (view : WarpView) (before pending demoted : List ℕ) :
    List ℕ → List ℕ × List ℕ × List ℕ
  | [] => (before, pending, demoted)
  | w :: rest =>
    if view.demotes w then demoteLoop view before (pending ++ [w]) (demoted ++ [w]) rest
    else demoteLoop view (before ++ [w]) pending demoted rest

/-- The loop that promotes. -/
def promoteLoop (active promoted : List ℕ) :
    List ℕ → Except SchedulerFailure (List ℕ × List ℕ × List ℕ)
  | [] =>
    if active.length < cfg.maxActiveWarps then .error .emptyQueue else .ok (active, [], promoted)
  | w :: rest =>
    if active.length < cfg.maxActiveWarps then promoteLoop (active ++ [w]) (promoted ++ [w]) rest
    else .ok (active, w :: rest, promoted)

/-- `order_warps` -/
def orderWarps (view : WarpView) (s : TwoLevelScheduler) : Except SchedulerFailure OrderedWarps :=
  let (active, pending, demoted) := demoteLoop view [] s.pending [] s.active
  if cfg.outerLevel = .srr then do
    let (active, pending, promoted) ← promoteLoop cfg active [] pending
    if promoted.length = demoted.length then .ok ⟨⟨active, pending⟩, demoted, promoted⟩
    else .error .promotedNotDemoted
  else .error .unimplementedOuter

/-- `do_on_warp_issued`, with the place of the warp in the vector. -/
def doOnWarpIssued (s : TwoLevelScheduler) (place : ℕ) :
    Except SchedulerFailure TwoLevelScheduler :=
  if cfg.innerLevel = .lrr then do
    let newActive ← orderLrr s.active place s.active.length
    .ok { s with active := newActive }
  else .error .unimplementedInner

/-- Some instructions of one warp are issued. The iterator stays at its place. -/
def issueLoop (place : ℕ) : ℕ → TwoLevelScheduler → Except SchedulerFailure TwoLevelScheduler
  | 0, s => .ok s
  | issued + 1, s => do
    let s ← s.doOnWarpIssued cfg place
    issueLoop place issued s

end TwoLevelScheduler

/-- What happens in a cycle: what the scheduler sees when it orders the warps, the place of the
warp that issues, and how many instructions it issues. -/
structure SchedulerCycle where
  view : WarpView
  place : ℕ
  issued : ℕ

namespace TwoLevelScheduler

variable (cfg : TwoLevelConfig)

/-- `cycle`: there is a warp at the place when an instruction is issued. -/
def cycle (s : TwoLevelScheduler) (c : SchedulerCycle) :
    Except SchedulerFailure TwoLevelScheduler := do
  let ordered ← s.orderWarps cfg c.view
  if c.place < ordered.scheduler.active.length then
    ordered.scheduler.issueLoop cfg c.place c.issued
  else .ok ordered.scheduler

/-- The runs of a scheduler of some warps. -/
def twoLevelSystem (warps : List ℕ) :
    TransitionSystem (Except SchedulerFailure TwoLevelScheduler) SchedulerCycle :=
  .ofExcept (· = supervising cfg warps) (fun _ _ => True) (cycle cfg)

/-- The warps are shared out between the vector and the queue, and as many as may be are active. -/
structure Partitions (warps : List ℕ) (s : TwoLevelScheduler) : Prop where
  perm : (s.active ++ s.pending).Perm warps
  full : s.active.length = cfg.maxActiveWarps

/-- What `order_warps` does: each warp stays in one place, no more warps are active than may be,
those that were active and are demoted wait, and those that are promoted come from the front of
the queue. -/
structure OrdersWell (warps : List ℕ) (view : WarpView) (s : TwoLevelScheduler)
    (o : OrderedWarps) : Prop where
  perm : (o.scheduler.active ++ o.scheduler.pending).Perm warps
  bound : o.scheduler.active.length ≤ cfg.maxActiveWarps
  demoted : ∀ w ∈ o.demoted, w ∈ s.active ∧ (view.waiting w ∨
    waitsOnLongop view.longopregs w (view.nextInst w))
  active : ∀ w ∈ s.active, w ∈ o.scheduler.active ∨ w ∈ o.demoted
  promoted : o.promoted ++ o.scheduler.pending = s.pending ++ o.demoted

variable {cfg} {warps : List ℕ} {view : WarpView} {s : TwoLevelScheduler} {input : List ℕ}
  {place : ℕ}

/-! ## Loops -/

theorem demoteLoop_eq (before pending demoted rest : List ℕ) :
    demoteLoop view before pending demoted rest =
      (before ++ rest.filter fun w => !view.demotes w, pending ++ rest.filter view.demotes,
        demoted ++ rest.filter view.demotes) := by
  induction rest generalizing before pending demoted with
  | nil => simp [demoteLoop]
  | cons w rest ih =>
      rw [demoteLoop]
      by_cases hw : view.demotes w
      · rw [if_pos hw, ih, List.filter_cons_of_pos hw, List.filter_cons_of_neg (by simp [hw])]
        simp
      · rw [if_neg hw, ih, List.filter_cons_of_neg hw, List.filter_cons_of_pos (by simp [hw])]
        simp

theorem promoteLoop_eq {active promoted pending : List ℕ} {space : ℕ}
    (hspace : active.length + space = cfg.maxActiveWarps) (hpending : space ≤ pending.length) :
    promoteLoop cfg active promoted pending =
      .ok (active ++ pending.take space, pending.drop space, promoted ++ pending.take space) := by
  induction pending generalizing active promoted space with
  | nil =>
      obtain rfl : space = 0 := Nat.le_zero.mp hpending
      have hfull : ¬ active.length < cfg.maxActiveWarps := by omega
      simp [promoteLoop, hfull]
  | cons w rest ih =>
      rw [promoteLoop]
      cases space with
      | zero =>
          have hfull : ¬ active.length < cfg.maxActiveWarps := by omega
          simp [hfull]
      | succ space =>
          have hless : active.length < cfg.maxActiveWarps := by omega
          have hspace' : (active ++ [w]).length + space = cfg.maxActiveWarps := by
            rw [List.length_append, List.length_singleton]
            omega
          rw [if_pos hless, ih hspace' (Nat.le_of_succ_le_succ hpending)]
          simp

theorem rotate_succ_eq (hplace : place < input.length) :
    ∃ others, input.rotate place = input[place] :: others ∧
      input.rotate (place + 1) = others ++ [input[place]] := by
  refine ⟨input.drop (place + 1) ++ input.take place, ?_, ?_⟩
  · rw [List.rotate_eq_drop_append_take hplace.le, List.drop_eq_getElem_cons hplace,
      List.cons_append]
  · rw [List.rotate_eq_drop_append_take hplace, List.take_succ_eq_append_getElem hplace,
      List.append_assoc]

theorem orderLrrLoop_eq {count iter : ℕ} (hcount : count ≤ input.length)
    (hiter : iter ≤ input.length) :
    orderLrrLoop input count iter = (input.rotate iter).take count := by
  induction count generalizing iter with
  | zero => rfl
  | succ count ih =>
      -- at the end the iterator is set to the start, which makes no difference to what follows
      obtain ⟨place, hplace, hwrap, hrotate⟩ : ∃ place, place < input.length ∧
          (if iter = input.length then 0 else iter) = place ∧
            input.rotate iter = input.rotate place := by
        by_cases hend : iter = input.length
        · refine ⟨0, by omega, if_pos hend, ?_⟩
          rw [hend, List.rotate_length, List.rotate_zero]
        · exact ⟨iter, by omega, if_neg hend, rfl⟩
      obtain ⟨others, hhere, hnext⟩ := rotate_succ_eq hplace
      have hlength : count ≤ others.length := by
        have := congrArg List.length hhere
        rw [List.length_rotate, List.length_cons] at this
        omega
      have hrest := ih (by omega) (Nat.succ_le_of_lt hplace)
      rw [orderLrrLoop, hwrap, hrest, hrotate, hhere, hnext, List.take_append_of_le_length hlength,
        List.getElem?_eq_getElem hplace]
      rfl

theorem orderLrr_perm {lastIssued : ℕ} (hlast : lastIssued < input.length) :
    ∃ result, orderLrr input lastIssued input.length = .ok result ∧ result.Perm input := by
  refine ⟨input.rotate (lastIssued + 1), ?_, List.rotate_perm _ _⟩
  rw [orderLrr, if_pos le_rfl, if_neg hlast.ne, orderLrrLoop_eq le_rfl hlast,
    List.take_of_length_le (List.length_rotate _ _).le]

/-! ## Steps -/

theorem addSupervisedWarpId_perm (i : ℕ) :
    ((s.addSupervisedWarpId cfg i).active ++ (s.addSupervisedWarpId cfg i).pending).Perm
      (s.active ++ s.pending ++ [i]) := by
  rw [addSupervisedWarpId]
  split_ifs
  · rw [List.append_assoc, List.append_assoc]
    exact List.perm_append_comm.append_left _
  · rw [← List.append_assoc]

theorem addSupervisedWarpId_length (hs : s.active.length ≤ cfg.maxActiveWarps) (i : ℕ) :
    (s.addSupervisedWarpId cfg i).active.length = min cfg.maxActiveWarps (s.active.length + 1) := by
  rw [addSupervisedWarpId]
  split_ifs with hless
  · rw [List.length_append, List.length_singleton, Nat.min_eq_right hless]
  · rw [Nat.min_eq_left (by omega)]
    exact Nat.le_antisymm hs (Nat.le_of_not_lt hless)

theorem foldl_addSupervisedWarpId (hs : s.active.length ≤ cfg.maxActiveWarps) (rest : List ℕ) :
    ((rest.foldl (addSupervisedWarpId cfg) s).active ++
        (rest.foldl (addSupervisedWarpId cfg) s).pending).Perm (s.active ++ s.pending ++ rest) ∧
      (rest.foldl (addSupervisedWarpId cfg) s).active.length =
        min cfg.maxActiveWarps (s.active.length + rest.length) := by
  induction rest generalizing s with
  | nil => simp [hs]
  | cons i rest ih =>
      have hnext := addSupervisedWarpId_length hs i
      obtain ⟨hperm, hlength⟩ := @ih (s.addSupervisedWarpId cfg i) (by omega)
      constructor
      · rw [List.append_cons, List.foldl_cons]
        exact hperm.trans ((addSupervisedWarpId_perm i).append_right rest)
      · rw [List.foldl_cons, hlength, hnext, List.length_cons]
        omega

theorem partitions_supervising (hmany : cfg.maxActiveWarps ≤ warps.length) :
    Partitions cfg warps (supervising cfg warps) := by
  obtain ⟨hperm, hlength⟩ := foldl_addSupervisedWarpId (s := {}) (Nat.zero_le _) warps
  refine ⟨hperm, hlength.trans ?_⟩
  rw [List.length_nil, Nat.zero_add, Nat.min_eq_left hmany]

namespace Partitions

variable (h : Partitions cfg warps s)

include h

theorem orderWarps (view : WarpView) :
    OkOr (fun o => OrdersWell cfg warps view s o ∧ Partitions cfg warps o.scheduler)
      (· = .unimplementedOuter) (s.orderWarps cfg view) := by
  rw [TwoLevelScheduler.orderWarps, demoteLoop_eq]
  dsimp only
  split_ifs with houter
  case neg => rfl
  let demoted := s.active.filter view.demotes
  let kept := s.active.filter fun w => !view.demotes w
  let queue := s.pending ++ demoted
  have hsplit : (kept ++ demoted).Perm s.active :=
    List.perm_append_comm.trans (List.filter_append_perm _ _)
  have hspace : kept.length + demoted.length = cfg.maxActiveWarps := by
    rw [← List.length_append, hsplit.length_eq, h.full]
  have hqueue : demoted.length ≤ queue.length := by
    rw [List.length_append]
    exact Nat.le_add_left _ _
  have hpromoted : (queue.take demoted.length).length = demoted.length :=
    List.length_take_of_le hqueue
  have hpromote : promoteLoop cfg kept [] queue = .ok
      (kept ++ queue.take demoted.length, queue.drop demoted.length,
        queue.take demoted.length) := promoteLoop_eq hspace hqueue
  rw [List.nil_append, List.nil_append, hpromote]
  have hperm : (kept ++ queue.take demoted.length ++ queue.drop demoted.length).Perm warps := by
    rw [List.append_assoc, List.take_append_drop]
    refine List.Perm.trans ?_ h.perm
    refine (List.perm_append_comm_assoc kept s.pending demoted).trans ?_
    exact (hsplit.append_left s.pending).trans List.perm_append_comm
  have hfull : (kept ++ queue.take demoted.length).length = cfg.maxActiveWarps := by
    rw [List.length_append, hpromoted, hspace]
  show OkOr _ _ (if (queue.take demoted.length).length = demoted.length then _ else _)
  rw [if_pos hpromoted]
  refine ⟨⟨hperm, hfull.le, ?_, ?_, List.take_append_drop _ _⟩, hperm, hfull⟩
  · intro w hw
    obtain ⟨hactive, hdemotes⟩ := List.mem_filter.mp hw
    exact ⟨hactive, Bool.or_eq_true_iff.mp hdemotes⟩
  · intro w hw
    by_cases hdemotes : view.demotes w
    · exact .inr (List.mem_filter.mpr ⟨hw, hdemotes⟩)
    · exact .inl (List.mem_append_left _ (List.mem_filter.mpr ⟨hw, by simp [hdemotes]⟩))

theorem doOnWarpIssued (hplace : place < s.active.length) :
    OkOr (Partitions cfg warps) (· = .unimplementedInner) (s.doOnWarpIssued cfg place) := by
  rw [TwoLevelScheduler.doOnWarpIssued]
  split_ifs
  · obtain ⟨newActive, hok, hperm⟩ := orderLrr_perm hplace
    rw [hok]
    exact ⟨(hperm.append_right _).trans h.perm, hperm.length_eq.trans h.full⟩
  · rfl

omit h in
theorem issueLoop (hplace : place < cfg.maxActiveWarps) (issued : ℕ) (h : Partitions cfg warps s) :
    OkOr (Partitions cfg warps) (· = .unimplementedInner) (s.issueLoop cfg place issued) := by
  induction issued generalizing s with
  | zero => exact h
  | succ issued ih => exact (h.doOnWarpIssued (h.full ▸ hplace)).bind fun t ht => ih ht

theorem cycle (c : SchedulerCycle) :
    OkOr (Partitions cfg warps) (fun e => e = .unimplementedInner ∨ e = .unimplementedOuter)
      (s.cycle cfg c) := by
  refine ((h.orderWarps c.view).mono (fun o ho => ho.2) fun e he => .inr he).bind fun o ho => ?_
  split_ifs with hplace
  · exact (ho.issueLoop (ho.full ▸ hplace) c.issued).mono (fun t ht => ht) fun e he => .inl he
  · exact ho

end Partitions

/-! ## Runs -/

/-- The two-level scheduler, with as many warps as may be active: after any cycles each warp is in
one place, and `order_warps` keeps it so, demotes only warps that wait, and promotes from the
front of a queue that is not empty. -/
theorem partitioned_of_reachable (hmany : cfg.maxActiveWarps ≤ warps.length)
    {outcome : Except SchedulerFailure TwoLevelScheduler}
    (reached : (twoLevelSystem cfg warps).Reachable outcome) :
    OkOr (fun s => (s.active ++ s.pending).Perm warps ∧ s.active.length ≤ cfg.maxActiveWarps ∧
        ∀ view, OkOr (OrdersWell cfg warps view s) (· = .unimplementedOuter)
          (s.orderWarps cfg view))
      (fun e => e = .unimplementedInner ∨ e = .unimplementedOuter) outcome := by
  have h : OkOr (Partitions cfg warps)
      (fun e => e = .unimplementedInner ∨ e = .unimplementedOuter) outcome := by
    refine reached.invariant_ofExcept_all ?_ fun s c hs _ => hs.cycle c
    rintro s rfl
    exact partitions_supervising hmany
  exact h.imp fun s hs =>
    ⟨hs.perm, hs.full.le, fun view => (hs.orderWarps view).imp fun o ho => ho.1⟩

/-- Of two warps one may be active, and it waits at a barrier. -/
def atBarrier : WarpView where
  waiting w := w = 0

theorem partitioned_of_reachable_atBarrier :
    OrdersWell ⟨1, .lrr, .srr⟩ [0, 1] atBarrier ⟨[0], [1]⟩ ⟨⟨[1], [0]⟩, [0], [1]⟩ := by
  have reached : (twoLevelSystem ⟨1, .lrr, .srr⟩ [0, 1]).Reachable (.ok ⟨[0], [1]⟩) :=
    .init ⟨_, rfl, rfl⟩
  exact ((partitioned_of_reachable (by decide) reached).2.2 atBarrier).of_ok rfl

/-- A warp at a barrier is demoted without a long operation, and with fewer warps than may be
active the scheduler takes the front of an empty queue. -/
theorem not_partitioned :
    (¬ ∀ (cfg : TwoLevelConfig) (warps : List ℕ) (s : TwoLevelScheduler),
      (twoLevelSystem cfg warps).Reachable (.ok s) →
      ∀ view o, s.orderWarps cfg view = .ok o →
        ∀ w ∈ o.demoted, waitsOnLongop view.longopregs w (view.nextInst w)) ∧
      ¬ ∀ (cfg : TwoLevelConfig) (warps : List ℕ),
        ¬ (twoLevelSystem cfg warps).Reachable (.error .emptyQueue) := by
  constructor
  · intro hall
    have hlongop := hall ⟨1, .lrr, .srr⟩ [0, 1] ⟨[0], [1]⟩ (.init ⟨_, rfl, rfl⟩) atBarrier
      ⟨⟨[1], [0]⟩, [0], [1]⟩ rfl 0 (by decide)
    exact absurd hlongop (by decide)
  · intro hall
    refine hall ⟨2, .lrr, .srr⟩ [0] (.step (a := ⟨{}, 0, 0⟩) (.init ⟨_, rfl, rfl⟩) ?_)
    exact ⟨_, rfl, trivial, rfl⟩

end TwoLevelScheduler

end GpuCalorie.Issue
