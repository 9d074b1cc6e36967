/-
# Loads and their accesses

The registers of a load are reserved until its last access has completed, and its entries of
`m_pending_writes` count the accesses that have not. This holds in every run in which the
core hears of every access: a perfect constant cache takes all accesses of a load and reports
one, and an answer without its instruction is not written back.
-/

import GpuCalorie.Issue.Discipline

namespace GpuCalorie.Issue

open GpuCalorie.Hardware GpuCalorie.Math BackEnd

namespace BackEnd

variable (b : BackEnd)

/-- The loads of the accesses that have not completed: those that wait in the dispatch
register, and those that are on their way. -/
def accesses : List WarpInst :=
  b.queued ++ (b.l1LatencyQueue ++ b.outstanding ++ b.loadWb)

/-- The instruction was issued and has not got past its last place, or it is a load with
accesses that have not completed. -/
def Incomplete (d : WarpInst) : Prop :=
  d ∈ b.issued ∧ (d ∈ b.stages ∨ d ∈ b.accesses)

/-- Registers are reserved until the last access of the load that writes them has completed. -/
structure ReleasesOnTime : Prop where
  reserved : ∀ w r, r ∈ b.regTable w ↔ ∃ d, b.Incomplete d ∧ d.Writes (w, r)
  pending : ∀ w r, b.pendingWrites w r = b.accesses.countP fun d => d.Writes (w, r)
  unique : ∀ d e reg, b.Incomplete d → b.Incomplete e → d.Writes reg → e.Writes reg → d = e
  /-- No load waits in the dispatch register for accesses that were sent. -/
  unsent : ∀ d, b.dispatchReg = some (d, 0) → d.accessqCount = 0

end BackEnd

/-- The core will not hear of an access: of all but one of a load of a perfect constant cache,
or of the one whose answer has no instruction. -/
def LosesAccess (perfectInstConstCache : Bool) (b : BackEnd) : IssueAction → Prop
  | .back (.dispatchCycle _ _) =>
    ∃ p ∈ b.dispatchReg, perfectInstConstCache = true ∧
      (p.1.space = .constSpace ∨ p.1.space = .paramSpaceKernel) ∧ p.1.inst.isLoad = true ∧
      p.1.inst.dests ≠ [] ∧ 1 < p.2
  | .back (.answer k hasInst) =>
    hasInst = false ∧ b.nextWb = none ∧ ∃ d ∈ b.outstanding[k]?, d.inst.dests ≠ []
  | _ => False

variable {b b' : BackEnd} {d : WarpInst} {k n : ℕ} {perfect : Bool}

/-- No load that writes registers has lost accesses. -/
def BackEnd.Heard (b : BackEnd) : Prop :=
  ∀ d ∈ b.lost, d.inst.dests = []

theorem writes_of_dests_eq_nil (h : d.inst.dests = []) (reg : ℕ × ℕ) : ¬ d.Writes reg := by
  rintro ⟨-, hr⟩
  rw [h] at hr
  cases hr

theorem BackEnd.Consistent.releasesOnTime (h : b.Consistent perfect) (heard : b.Heard) :
    b.ReleasesOnTime := by
  have hdue : b.due = b.accesses ++ b.lost := by
    simp only [due, answers, accesses, List.append_assoc]
  have hincomplete : ∀ {d reg}, d.Writes reg → (b.Incomplete d ↔ b.ledger.Has d) := by
    intro d reg hwrites
    have hlost : d ∉ b.lost := fun hd => writes_of_dests_eq_nil (heard d hd) reg hwrites
    have hhas : b.ledger.Has d ↔ d ∈ b.stages ∨ d ∈ b.accesses := by
      show d ∈ b.stages ∨ d ∈ b.due ↔ _
      rw [hdue, List.mem_append, or_iff_left hlost]
    rw [Incomplete, ← hhas]
    exact and_iff_right_of_imp (h.inFlight.issued d)
  constructor
  case reserved =>
    intro w r
    refine (h.inFlight.sound.table (w, r)).trans (exists_congr fun d => ?_)
    exact and_congr_left fun hwrites => (hincomplete hwrites).symm
  case pending =>
    intro w r
    have hcount := h.inFlight.sound.pending (w, r)
    have hlost : b.lost.countP (fun d => d.Writes (w, r)) = 0 := by
      rw [List.countP_eq_zero]
      intro d hd
      simpa using writes_of_dests_eq_nil (heard d hd) (w, r)
    rw [show b.ledger.due = b.accesses ++ b.lost from hdue, List.countP_append, hlost] at hcount
    exact hcount
  case unique =>
    intro d e reg hd he hwd hwe
    exact h.inFlight.sound.unique d e reg ((hincomplete hwd).mp hd)
      ((hincomplete hwe).mp he) hwd hwe
  case unsent => exact h.waiting.unsent

/-! ## What is lost in a step -/

theorem sendAccess_lost {outcome : AccessOutcome} : (b.sendAccess outcome).lost = b.lost := by
  rw [BackEnd.sendAccess]
  rcases b.dispatchReg with _ | ⟨d, _ | n⟩
  · rfl
  · rfl
  · dsimp only
    split_ifs
    · cases outcome <;> rfl
    · rfl

theorem foldl_sendAccess_lost (outcomes : List AccessOutcome) :
    (outcomes.foldl BackEnd.sendAccess b).lost = b.lost := by
  induction outcomes generalizing b with
  | nil => rfl
  | cons outcome outcomes ih => rw [List.foldl_cons, ih, sendAccess_lost]

theorem leaveDispatch_lost {smemFree : Bool} : (b.leaveDispatch smemFree).1.lost = b.lost := by
  rw [BackEnd.leaveDispatch]
  rcases b.dispatchReg with _ | ⟨d, n⟩
  · rfl
  · dsimp only
    split_ifs <;> rfl

theorem latencyHit_lost (hok : b.latencyHit k = .ok b') : b'.lost = b.lost := by
  rw [BackEnd.latencyHit] at hok
  cases hk : b.l1LatencyQueue[k]? with
  | none =>
      rw [hk] at hok
      cases hok
      rfl
  | some d =>
      rw [hk] at hok
      obtain ⟨result, -, heq⟩ := bind_eq_ok.mp hok
      cases heq
      rfl

theorem ldstWriteback_lost (hok : b.ldstWriteback = .ok b') : b'.lost = b.lost := by
  rw [BackEnd.ldstWriteback] at hok
  cases hwb : b.nextWb with
  | none =>
      rw [hwb] at hok
      cases hok
      rfl
  | some d =>
      rw [hwb] at hok
      dsimp only at hok
      by_cases hshared : d.space = .sharedSpace
      · rw [if_pos hshared] at hok
        cases hok
        rfl
      · rw [if_neg hshared] at hok
        obtain ⟨result, -, heq⟩ := bind_eq_ok.mp hok
        cases heq
        rfl

namespace BackEnd.Heard

theorem dispatchCycle (h : b.Heard) {outcomes : List AccessOutcome} {smemFree : Bool}
    (hheard : ¬ LosesAccess perfect b (.back (.dispatchCycle outcomes smemFree))) :
    (b.dispatchCycle perfect outcomes smemFree).1.Heard := by
  have hlost : (b.dispatchCycle perfect outcomes smemFree).1.lost =
      (b.sendAccesses perfect outcomes).lost := leaveDispatch_lost
  rw [Heard, hlost, BackEnd.sendAccesses]
  rcases hreg : b.dispatchReg with _ | ⟨d, n⟩
  · exact h
  dsimp only
  split_ifs with hconst hactive
  · exact h
  · rw [BackEnd.perfectConst]
    split_ifs with hload
    · intro e he
      rcases List.mem_append.mp he with he | he
      · exact h e he
      · obtain ⟨hne, rfl⟩ := List.mem_replicate.mp he
        by_contra hdests
        refine hheard ⟨(e, n), hreg, hconst.1, hconst.2, hload, hdests, ?_⟩
        show 1 < n
        omega
    · exact h
  · rw [foldl_sendAccess_lost]
    exact h

theorem answer (h : b.Heard) {hasInst : Bool}
    (hheard : ¬ LosesAccess perfect b (.back (.answer k hasInst))) :
    (b.answer k hasInst).Heard := by
  rw [BackEnd.answer]
  cases hk : b.outstanding[k]? with
  | none => exact h
  | some d =>
      cases hwb : b.nextWb with
      | some other => exact h
      | none =>
          cases hasInst with
          | true => exact h
          | false =>
              intro e he
              rcases List.mem_append.mp he with he | he
              · exact h e he
              · by_contra hdests
                rw [List.mem_singleton.mp he] at hdests
                exact hheard ⟨rfl, hwb, d, hk, hdests⟩

theorem step (h : b.Heard) {action : BackAction}
    (hheard : ¬ LosesAccess perfect b (.back action)) {next : Stepped}
    (hstep : b.step perfect action = .ok next) : next.1.Heard := by
  cases action with
  | writeback k =>
      cases hstep
      rw [BackEnd.writeback]
      cases b.pipeline[k]? with
      | none => exact h
      | some d =>
          dsimp only
          split_ifs <;> exact h
  | ldstIssue k =>
      cases hstep
      rw [BackEnd.ldstIssue]
      cases b.pipeline[k]? with
      | none => exact h
      | some d =>
          cases b.dispatchReg with
          | some other => exact h
          | none =>
              dsimp only
              split_ifs <;> exact h
  | dispatchCycle outcomes smemFree =>
      cases hstep
      exact h.dispatchCycle hheard
  | latencyHit k =>
      obtain ⟨b', hok, heq⟩ := map_eq_ok.mp hstep
      cases heq
      rw [Heard, latencyHit_lost hok]
      exact h
  | latencyMiss k =>
      cases hstep
      show (b.latencyMiss k).Heard
      rw [BackEnd.latencyMiss]
      cases b.l1LatencyQueue[k]? <;> exact h
  | answer k hasInst =>
      cases hstep
      exact h.answer hheard
  | answerShared k =>
      cases hstep
      rw [BackEnd.answerShared]
      cases b.smem[k]? with
      | none => exact h
      | some d => cases b.nextWb <;> exact h
  | ldstWriteback =>
      obtain ⟨b', hok, heq⟩ := map_eq_ok.mp hstep
      cases heq
      rw [Heard, ldstWriteback_lost hok]
      exact h

end BackEnd.Heard

/-! ## Runs -/

/-- In a run without lost accesses the registers of a load are released, and its entries of
`m_pending_writes` erased, when its last access has completed, or an instruction finds one of
its registers reserved. -/
theorem loads_releaseOnTime {outcome : Except CoreFailure BackEnd}
    (reached : ((issueSystem perfect).restrict (TransitionSystem.onOk fun b action =>
      ¬ LosesAccess perfect b action)).Reachable outcome) :
    OkOr BackEnd.ReleasesOnTime (· = .reservedTwice) outcome := by
  have h : OkOr (fun b => b.Consistent perfect ∧ b.Heard) (· = .reservedTwice) outcome := by
    refine reached.invariant_ofExcept ?_ ?_
    · rintro b rfl
      exact ⟨.init, fun d hd => absurd hd List.not_mem_nil⟩
    · rintro b action ⟨hb, heard⟩ hheard henabled
      refine .intro (fun b' hok => ⟨(hb.issueStep henabled).of_ok hok, ?_⟩) fun failure herror =>
        (hb.issueStep henabled).of_error herror
      cases action with
      | issue d =>
          rw [issueStep, BackEnd.schedule] at hok
          split_ifs at hok
          · cases hok
            exact heard
          · obtain ⟨table, -, heq⟩ := bind_eq_ok.mp hok
            cases heq
            exact heard
      | back action =>
          cases hstep : b.step perfect action with
          | error failure =>
              rw [issueStep, hstep] at hok
              cases hok
          | ok next =>
              rw [issueStep, hstep] at hok
              cases hok
              exact heard.step hheard hstep
  exact h.imp fun b hb => hb.1.releasesOnTime hb.2

/-- `ld.const.u32 %r4, [%r9]`, with two accesses. -/
def loadConst : WarpInst where
  uid := 1
  warpId := 0
  inst := loadR4.inst
  space := .constSpace
  activeCount := 32
  accessqCount := 2
  accessqCount_pos := by decide

/-- The load after it was issued. -/
def loadConstIssued : BackEnd where
  regTable := Function.update (fun _ => ∅) 0 {4}
  pipeline := [loadConst]
  issued := [loadConst]

/-- The load in the dispatch register. -/
def loadConstDispatched : BackEnd :=
  (loadConstIssued.ldstIssue 0).1

/-- The load after a cycle of the perfect constant cache. -/
def loadConstSent : BackEnd :=
  (loadConstDispatched.dispatchCycle true [] true).1

/-- A perfect constant cache completes all accesses of a load, and its register stays reserved. -/
theorem not_loads_releaseOnTime :
    ¬ ∀ (perfect : Bool) (outcome : Except CoreFailure BackEnd),
      (issueSystem perfect).Reachable outcome →
        OkOr BackEnd.ReleasesOnTime (· = .reservedTwice) outcome := by
  intro hall
  have issued : (issueSystem true).Reachable (.ok loadConstIssued) :=
    .step (a := .issue loadConst) (.init ⟨{}, rfl, rfl⟩) ⟨{}, rfl, by decide, rfl⟩
  have dispatched : (issueSystem true).Reachable (.ok loadConstDispatched) :=
    .step (a := .back (.ldstIssue 0)) issued ⟨_, rfl, trivial, rfl⟩
  have sent : (issueSystem true).Reachable (.ok loadConstSent) :=
    .step (a := .back (.dispatchCycle [] true)) dispatched ⟨_, rfl, trivial, rfl⟩
  have h : loadConstSent.ReleasesOnTime := hall true _ sent
  have hreserved : 4 ∈ loadConstSent.regTable 0 := by decide
  obtain ⟨d, ⟨-, hstage | haccess⟩, -⟩ := (h.reserved 0 4).mp hreserved
  · have hnone : loadConstSent.stages = [] := rfl
    rw [hnone] at hstage
    cases hstage
  · have hnone : loadConstSent.accesses = [] := rfl
    rw [hnone] at haccess
    cases haccess

/-- Without a perfect constant cache the two accesses are sent one after the other. -/
theorem loads_releaseOnTime_loadConst :
    (loadConstDispatched.dispatchCycle false [.hit 0] true).1.ReleasesOnTime := by
  have issued : ((issueSystem false).restrict (TransitionSystem.onOk fun b action =>
      ¬ LosesAccess false b action)).Reachable (.ok loadConstIssued) :=
    .step (a := .issue loadConst) (.init ⟨{}, rfl, rfl⟩) ⟨nofun, {}, rfl, by decide, rfl⟩
  have dispatched : ((issueSystem false).restrict (TransitionSystem.onOk fun b action =>
      ¬ LosesAccess false b action)).Reachable (.ok loadConstDispatched) :=
    .step (a := .back (.ldstIssue 0)) issued ⟨nofun, _, rfl, trivial, rfl⟩
  have sent : ((issueSystem false).restrict (TransitionSystem.onOk fun b action =>
      ¬ LosesAccess false b action)).Reachable
      (.ok (loadConstDispatched.dispatchCycle false [.hit 0] true).1) := by
    refine .step (a := .back (.dispatchCycle [.hit 0] true)) dispatched
      ⟨?_, _, rfl, trivial, rfl⟩
    rintro ⟨p, -, hperfect, -⟩
    cases hperfect
  exact loads_releaseOnTime sent

end GpuCalorie.Issue
