/-
# The back end as a machine

A step of the core's back end issues an instruction, when `checkCollision` finds none of its
registers reserved, or moves what is in flight. The choices of a run are which instruction
is issued next and what moves. `InFlight` and `Waiting` hold in every state of a run, so the
only assertion that can fail is the one in `reserveRegister`.
-/

import GpuCalorie.Issue.InFlight
import GpuCalorie.Math.Transition

namespace GpuCalorie.Issue

open GpuCalorie.Hardware GpuCalorie.Math BackEnd

/-- A step of the back end. -/
inductive IssueAction
  | issue (d : WarpInst)
  | back (action : BackAction)
  deriving DecidableEq

/-- The scheduler issues an instruction if the scoreboard allows it. -/
def BackEnd.schedule (b : BackEnd) (d : WarpInst) : Except CoreFailure BackEnd :=
  if checkCollision b.regTable d.warpId d.inst then .ok b else b.issue d

/-- A step of the back end, or the failure that stops the core. -/
def issueStep (perfectInstConstCache : Bool) (b : BackEnd) :
    IssueAction → Except CoreFailure BackEnd
  | .issue d => b.schedule d
  | .back action => Prod.fst <$> b.step perfectInstConstCache action

/-- Every instruction that is issued gets another `m_uid`. -/
def IssueEnabled (b : BackEnd) : IssueAction → Prop
  | .issue d => ∀ e ∈ b.issued, e.uid ≠ d.uid
  | .back _ => True

instance (b : BackEnd) (action : IssueAction) : Decidable (IssueEnabled b action) := by
  cases action <;> unfold IssueEnabled <;> infer_instance

/-- The runs of the back end. -/
def issueSystem (perfectInstConstCache : Bool) :
    TransitionSystem (Except CoreFailure BackEnd) IssueAction :=
  .ofExcept (· = {}) IssueEnabled (issueStep perfectInstConstCache)

variable {b b' : BackEnd} {d e : WarpInst} {k n : ℕ} {perfect : Bool}

/-! ## The dispatch register -/

theorem BackEnd.Waiting.ldstIssue (h : b.InFlight) (hwaiting : b.Waiting perfect) :
    (b.ldstIssue k).1.Waiting perfect := by
  rw [BackEnd.ldstIssue]
  cases hk : b.pipeline[k]? with
  | none => exact hwaiting
  | some d =>
      cases hreg : b.dispatchReg with
      | some other => exact hwaiting
      | none =>
          dsimp only
          by_cases hop : isMemOp d.inst.op = true
          case neg =>
            rw [if_neg hop]
            exact hwaiting
          rw [if_pos hop]
          have hanswers : d ∉ b.answers := by
            intro hd
            have hmem : d ∈ b.pipeline ++ b.smem ++ b.sharedWb :=
              List.mem_append_left _ (List.mem_append_left _ (List.mem_of_getElem? hk))
            exact h.notMem_due hmem (List.mem_append_right _ hd)
          constructor
          case left =>
            intro e n heq hdue
            cases heq
            rcases List.mem_append.mp hdue with hqueued | hsent
            · rw [queued] at hqueued
              dsimp only at hqueued
              split_ifs at hqueued
              · exact Nat.pos_of_ne_zero (List.mem_replicate.mp hqueued).1
              · cases hqueued
            · exact absurd hsent hanswers
          case unsent =>
            intro e heq
            simp only [Option.some.injEq, Prod.mk.injEq] at heq
            exact heq.1 ▸ heq.2
          case whole =>
            intro e n heq _ _
            cases heq
            rfl

theorem leaveDispatch_stays {smemFree : Bool}
    (hreg : (b.leaveDispatch smemFree).1.dispatchReg = some (d, n)) :
    (b.leaveDispatch smemFree).1 = b ∧ (0 < n ∨ d.space = .sharedSpace) := by
  rw [BackEnd.leaveDispatch] at hreg ⊢
  rcases hold : b.dispatchReg with _ | ⟨e, m⟩
  · rw [hold] at hreg
    dsimp only at hreg
    rw [hold] at hreg
    cases hreg
  rw [hold] at hreg
  dsimp only at hreg ⊢
  split_ifs at hreg ⊢ with hm hload hshared hfree hpending
  case pos =>
    rw [hold] at hreg
    cases hreg
    exact ⟨rfl, .inl hm⟩
  case neg =>
    rw [hold] at hreg
    cases hreg
    exact ⟨rfl, .inr hshared⟩

theorem sendAccess_dispatchReg {outcome : AccessOutcome} :
    (b.sendAccess outcome).dispatchReg = b.dispatchReg.map fun (d, n) => (d, n - 1) := by
  rw [BackEnd.sendAccess]
  rcases hreg : b.dispatchReg with _ | ⟨d, _ | n⟩
  · exact hreg
  · exact hreg
  · dsimp only
    split_ifs
    · cases outcome <;> rfl
    · rfl

theorem foldl_sendAccess_dispatchReg (outcomes : List AccessOutcome) :
    (outcomes.foldl BackEnd.sendAccess b).dispatchReg =
      b.dispatchReg.map fun (d, n) => (d, n - outcomes.length) := by
  induction outcomes generalizing b with
  | nil => rcases hreg : b.dispatchReg with _ | ⟨d, n⟩ <;> exact hreg
  | cons outcome outcomes ih =>
      rw [List.foldl_cons, ih, sendAccess_dispatchReg, Option.map_map]
      refine congrArg (fun f => b.dispatchReg.map f) (funext fun p => ?_)
      show (p.1, p.2 - 1 - outcomes.length) = (p.1, p.2 - (outcomes.length + 1))
      rw [Nat.sub_sub, Nat.add_comm]

theorem sendAccesses_whole (hwaiting : b.Waiting perfect) {outcomes : List AccessOutcome}
    (hreg : (b.sendAccesses perfect outcomes).dispatchReg = some (d, n)) (hn : 0 < n)
    (hperfect : perfect = true) (hconst : d.space = .constSpace ∨ d.space = .paramSpaceKernel) :
    n = d.accessqCount := by
  rw [BackEnd.sendAccesses] at hreg
  rcases hold : b.dispatchReg with _ | ⟨e, m⟩
  · rw [hold] at hreg
    dsimp only at hreg
    rw [hold] at hreg
    cases hreg
  rw [hold] at hreg
  dsimp only at hreg
  split_ifs at hreg with hspace hactive
  · exact hwaiting.whole d n hreg hperfect hconst
  · rw [BackEnd.perfectConst] at hreg
    split_ifs at hreg <;> cases hreg <;> exact absurd hn (Nat.lt_irrefl 0)
  · rw [foldl_sendAccess_dispatchReg, hold] at hreg
    cases hreg
    exact absurd ⟨hperfect, hconst⟩ hspace

theorem BackEnd.Waiting.dispatchCycle (h : b.InFlight) (hwaiting : b.Waiting perfect)
    (outcomes : List AccessOutcome) (smemFree : Bool) :
    (b.dispatchCycle perfect outcomes smemFree).1.Waiting perfect := by
  have hsent : (b.sendAccesses perfect outcomes).InFlight := h.sendAccesses hwaiting outcomes
  have hstays : ∀ d n,
      (b.dispatchCycle perfect outcomes smemFree).1.dispatchReg = some (d, n) →
      (b.dispatchCycle perfect outcomes smemFree).1 = b.sendAccesses perfect outcomes ∧
        (0 < n ∨ d.space = .sharedSpace) := fun d n => leaveDispatch_stays
  constructor
  case left =>
    intro d n hreg hdue
    obtain ⟨heq, hn | hshared⟩ := hstays d n hreg
    · exact hn
    · rw [heq] at hdue
      have hcounts := hsent.counts d hdue
      simp [WarpInst.countsAccesses, hshared] at hcounts
  case unsent =>
    intro d hreg
    obtain ⟨-, hn | hshared⟩ := hstays d 0 hreg
    · exact absurd hn (Nat.lt_irrefl 0)
    · by_contra hpos
      have huses := (d.accessqCount_pos.mp (Nat.pos_of_ne_zero hpos)).2.2.1
      rw [hshared] at huses
      cases huses
  case whole =>
    intro d n hreg hperfect hconst
    obtain ⟨heq, hn | hshared⟩ := hstays d n hreg
    · rw [heq] at hreg
      exact sendAccesses_whole hwaiting hreg hn hperfect hconst
    · rcases hconst with hspace | hspace <;> rw [hshared] at hspace <;> cases hspace

/-! ## Steps -/

theorem writeback_kept : (b.writeback k).1.dispatchReg = b.dispatchReg ∧
    (b.writeback k).1.due = b.due := by
  rw [BackEnd.writeback]
  cases b.pipeline[k]? with
  | none => exact ⟨rfl, rfl⟩
  | some d =>
      dsimp only
      split_ifs <;> exact ⟨rfl, rfl⟩

theorem latencyMiss_dispatchReg : (b.latencyMiss k).dispatchReg = b.dispatchReg := by
  rw [BackEnd.latencyMiss]
  cases b.l1LatencyQueue[k]? <;> rfl

theorem answer_dispatchReg {hasInst : Bool} :
    (b.answer k hasInst).dispatchReg = b.dispatchReg := by
  rw [BackEnd.answer]
  cases b.outstanding[k]? with
  | none => rfl
  | some d =>
      cases b.nextWb with
      | some other => rfl
      | none => cases hasInst <;> rfl

theorem answerShared_dispatchReg : (b.answerShared k).1.dispatchReg = b.dispatchReg := by
  rw [BackEnd.answerShared]
  cases b.smem[k]? with
  | none => rfl
  | some d => cases b.nextWb <;> rfl

/-- What holds of the back end between two steps. -/
structure BackEnd.Consistent (perfectInstConstCache : Bool) (b : BackEnd) : Prop where
  inFlight : b.InFlight
  waiting : b.Waiting perfectInstConstCache

namespace BackEnd.Consistent

theorem step (h : b.Consistent perfect) (action : BackAction) :
    ∃ next, b.step perfect action = .ok next ∧ next.1.Consistent perfect := by
  obtain ⟨hin, hwaiting⟩ := h
  cases action with
  | writeback k =>
      refine ⟨_, rfl, hin.writeback, hwaiting.mono writeback_kept.1 fun e he => ?_⟩
      exact writeback_kept.2 ▸ he
  | ldstIssue k => exact ⟨_, rfl, hin.ldstIssue, hwaiting.ldstIssue hin⟩
  | dispatchCycle outcomes smemFree =>
      exact ⟨_, rfl, (hin.sendAccesses hwaiting outcomes).leaveDispatch smemFree,
        hwaiting.dispatchCycle hin outcomes smemFree⟩
  | latencyHit k =>
      obtain ⟨b', hok, hin', hwaiting'⟩ := hin.latencyHit (k := k) hwaiting
      exact ⟨(b', none), by rw [BackEnd.step, hok]; rfl, hin', hwaiting'⟩
  | latencyMiss k =>
      obtain ⟨hin', hdue⟩ := hin.latencyMiss (k := k)
      exact ⟨_, rfl, hin', hwaiting.mono latencyMiss_dispatchReg fun e => hdue.mem_iff.mp⟩
  | answer k hasInst =>
      obtain ⟨hin', hdue⟩ := hin.answer (k := k) hasInst
      exact ⟨_, rfl, hin', hwaiting.mono answer_dispatchReg fun e => hdue.mem_iff.mp⟩
  | answerShared k =>
      obtain ⟨hin', hdue⟩ := hin.answerShared (k := k)
      exact ⟨_, rfl, hin', hwaiting.mono answerShared_dispatchReg fun e => hdue.mem_iff.mp⟩
  | ldstWriteback =>
      obtain ⟨b', hok, hin', hwaiting'⟩ := hin.ldstWriteback hwaiting
      exact ⟨(b', none), by rw [BackEnd.step, hok]; rfl, hin', hwaiting'⟩

theorem issue (h : b.Consistent perfect) (hnew : d ∉ b.issued) :
    OkOr (BackEnd.Consistent perfect) (· = .reservedTwice) (b.issue d) := by
  refine .intro (fun b' hok => ⟨(h.inFlight.issue hnew).of_ok hok, ?_⟩) fun failure herror =>
    (h.inFlight.issue hnew).of_error herror
  rw [BackEnd.issue] at hok
  obtain ⟨table, -, heq⟩ := bind_eq_ok.mp hok
  cases heq
  exact h.waiting.mono rfl fun e he => he

theorem init : BackEnd.Consistent perfect {} := by
  have hnone : ∀ d, ¬ ({} : BackEnd).ledger.Has d := by
    rintro d (hd | hd) <;> exact absurd hd List.not_mem_nil
  constructor
  case inFlight =>
    constructor
    case sound =>
      refine ⟨fun reg => ?_, fun d e reg hd => absurd hd (hnone d), fun reg => rfl⟩
      exact ⟨fun hreg => absurd hreg (Finset.notMem_empty _), fun ⟨d, hd, _⟩ => absurd hd (hnone d)⟩
    case nodup => exact fun d hd => absurd hd (hnone d)
    case stages => exact List.nodup_nil
    case late => exact fun d hd => absurd hd List.not_mem_nil
    case counts => exact fun d hd => absurd hd List.not_mem_nil
    case smem => exact fun d hd => absurd hd List.not_mem_nil
    case issued => exact fun d hd => absurd hd (hnone d)
    case dispatch => exact fun d n hreg => by cases hreg
  case waiting =>
    constructor
    case left => exact fun d n hreg => by cases hreg
    case unsent => exact fun d hreg => by cases hreg
    case whole => exact fun d n hreg => by cases hreg

end BackEnd.Consistent

theorem notMem_issued (henabled : IssueEnabled b (.issue d)) : d ∉ b.issued :=
  fun hd => henabled d hd rfl

theorem BackEnd.Consistent.issueStep (h : b.Consistent perfect) {action : IssueAction}
    (henabled : IssueEnabled b action) :
    OkOr (BackEnd.Consistent perfect) (· = .reservedTwice) (issueStep perfect b action) := by
  cases action with
  | issue d =>
      rw [Issue.issueStep, BackEnd.schedule]
      split_ifs
      · exact h
      · exact h.issue (notMem_issued henabled)
  | back action =>
      obtain ⟨next, hok, hnext⟩ := h.step action
      rw [Issue.issueStep, hok]
      exact hnext

end GpuCalorie.Issue
