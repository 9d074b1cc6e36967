/-
# The scoreboard and the instructions in flight

The reserved registers of a warp are those that the instructions in flight write, no two of
these instructions write the same one, and the instruction whose registers a step releases
is in flight. This holds in every run in which the check of the scoreboard is right: the
registers an instruction writes differ, and none of those the check does not look at is
reserved. Other instructions pass the check and are issued with a hazard, or abort in
`reserveRegister`.
-/

import GpuCalorie.Issue.Machine

namespace GpuCalorie.Issue

open GpuCalorie.Hardware GpuCalorie.Math BackEnd

namespace BackEnd

variable (b : BackEnd)

/-- The instruction was issued and is not written back. -/
def Awaited (d : WarpInst) : Prop :=
  d ∈ b.issued ∧ (d ∈ b.stages ∨ d ∈ b.due)

/-- The instruction whose registers are released by the calls of `releaseRegister` in a step. -/
def releasing : BackAction → Option WarpInst
  | .writeback k => b.pipeline[k]?.filter fun d => ¬ isMemOp d.inst.op
  | .dispatchCycle _ _ => b.dispatchReg.map Prod.fst
  | .latencyHit k => b.l1LatencyQueue[k]?
  | .ldstWriteback => b.nextWb
  | _ => none

/-- The scoreboard has the registers of the instructions in flight. -/
structure Disciplined : Prop where
  reserved : ∀ w r, r ∈ b.regTable w ↔ ∃ d, b.Awaited d ∧ d.Writes (w, r)
  unique : ∀ d e reg, b.Awaited d → b.Awaited e → d.Writes reg → e.Writes reg → d = e
  releases : ∀ action d, b.releasing action = some d → b.Awaited d

/-- After the check an instruction is issued, and without a hazard. -/
def IssuesSafely (d : WarpInst) : Prop :=
  checkCollision b.regTable d.warpId d.inst = false →
    ¬ d.inst.Hazard b.regTable d.warpId ∧ ∃ b', b.issue d = .ok b'

end BackEnd

/-- The check of the scoreboard is right about an instruction that is issued. -/
def IssueGuard (b : BackEnd) : IssueAction → Prop
  | .issue d =>
    checkCollision b.regTable d.warpId d.inst = false → d.inst.Issuable b.regTable d.warpId
  | .back _ => True

instance (b : BackEnd) (action : IssueAction) : Decidable (IssueGuard b action) :=
  match action with
  | .issue _ => inferInstanceAs (Decidable (_ → _))
  | .back _ => inferInstanceAs (Decidable True)

variable {b b' : BackEnd} {d : WarpInst} {perfect : Bool}

theorem has_releasing {action : BackAction} (hd : b.releasing action = some d) :
    b.ledger.Has d := by
  cases action with
  | writeback k =>
      obtain ⟨hk, -⟩ := Option.filter_eq_some_iff.mp hd
      exact .inl (mem_stages.mpr (.inl (List.mem_of_getElem? hk)))
  | dispatchCycle outcomes smemFree =>
      refine .inl (mem_stages.mpr (.inr (.inl ?_)))
      rw [dispatched, show b.dispatchReg.map Prod.fst = some d from hd]
      exact List.mem_singleton_self d
  | latencyHit k =>
      refine .inr (List.mem_append_right _ (mem_answers.mpr (.inl ?_)))
      exact List.mem_of_getElem? hd
  | ldstWriteback =>
      have hwb : b.nextWb = some d := hd
      by_cases hshared : d.space = .sharedSpace
      · refine .inl (mem_stages.mpr (.inr (.inr (.inr ?_))))
        simp [sharedWb, hwb, hshared]
      · refine .inr (List.mem_append_right _ (mem_answers.mpr (.inr (.inr (.inl ?_)))))
        simp [loadWb, hwb, hshared]
  | ldstIssue => cases hd
  | latencyMiss => cases hd
  | answer => cases hd
  | answerShared => cases hd

namespace BackEnd.Consistent

theorem awaited_iff (h : b.Consistent perfect) : b.Awaited d ↔ b.ledger.Has d :=
  and_iff_right_of_imp (h.inFlight.issued d)

theorem disciplined (h : b.Consistent perfect) : b.Disciplined where
  reserved w r := by
    refine (h.inFlight.sound.table (w, r)).trans (exists_congr fun d => ?_)
    exact and_congr_left fun _ => h.awaited_iff.symm
  unique d e reg hd he :=
    h.inFlight.sound.unique d e reg (h.awaited_iff.mp hd) (h.awaited_iff.mp he)
  releases _ _ hd := h.awaited_iff.mpr (has_releasing hd)

end BackEnd.Consistent

theorem issue_ok_iff :
    (∃ b', b.issue d = .ok b') ↔ ∃ table', reserveRegisters b.regTable d = .ok table' := by
  rw [BackEnd.issue]
  constructor
  · rintro ⟨b', hok⟩
    obtain ⟨table, htable, -⟩ := bind_eq_ok.mp hok
    exact ⟨table, htable⟩
  · rintro ⟨table, htable⟩
    exact ⟨_, by rw [htable]; rfl⟩

theorem issuesSafely_iff : b.IssuesSafely d ↔ IssueGuard b (.issue d) := by
  refine forall_congr' fun hchecked => ?_
  rw [issue_ok_iff]
  exact Inst.issuable_iff hchecked

theorem consistent_of_guarded {outcome : Except CoreFailure BackEnd}
    (reached : ((issueSystem perfect).restrict (TransitionSystem.onOk IssueGuard)).Reachable
    outcome) :
    OkOr (BackEnd.Consistent perfect) (fun _ => False) outcome := by
  refine reached.invariant_ofExcept ?_ ?_
  · rintro b rfl
    exact .init
  · intro b action h hguard henabled
    refine .intro (fun b' hok => (h.issueStep henabled).of_ok hok) fun failure herror => ?_
    cases action with
    | issue d =>
        rw [issueStep, BackEnd.schedule] at herror
        split_ifs at herror with hchecked
        obtain ⟨-, b', hok⟩ := issuesSafely_iff.mpr hguard (by simpa using hchecked)
        rw [hok] at herror
        cases herror
    | back action =>
        obtain ⟨next, hok, -⟩ := h.step action
        rw [issueStep, hok] at herror
        cases herror

/-- Scoreboard, issue and writeback: in a run in which the check is right about every
instruction that is issued, the reserved registers are those of the instructions in flight. The
next instruction is issued safely if and only if the check is right about it. -/
theorem scoreboard_disciplined {outcome : Except CoreFailure BackEnd}
    (reached : ((issueSystem perfect).restrict (TransitionSystem.onOk IssueGuard)).Reachable
    outcome) :
    ∃ b, outcome = .ok b ∧ b.Disciplined ∧
      ∀ d, b.IssuesSafely d ↔ IssueGuard b (.issue d) := by
  have h := consistent_of_guarded reached
  cases outcome with
  | ok b =>
      have h : b.Consistent perfect := h
      exact ⟨b, rfl, h.disciplined, fun d => issuesSafely_iff⟩
  | error failure => exact h.elim

/-! ## A register the check does not look at -/

/-- `ld.global.u32 %r4, [%r9]` -/
def loadR4 : WarpInst where
  uid := 1
  warpId := 0
  inst :=
    { pc := 0, isize := 8, op := .loadOp, isLoad := true, dst := .reg 4, ar1 := 9
      load_of_out := nofun
      barrier := nofun }
  space := .globalSpace
  activeCount := 32
  accessqCount := 1
  accessqCount_pos := by decide

/-- `bfi.b32 %r5, %r1, %r2, %r3, %r4`: the fourth register it reads has no place in `in`. -/
def bfiR4 : WarpInst where
  uid := 2
  warpId := 0
  inst :=
    { pc := 8, isize := 8, op := .aluOp, isLoad := false, dst := .reg 5
      srcs := [.reg 1, .reg 2, .reg 3, .reg 4]
      load_of_out := nofun
      barrier := nofun }
  space := .undefinedSpace
  activeCount := 32
  accessqCount := 0
  accessqCount_pos := by decide

/-- `ld.global.v2.u32 {%r1, %r1}, [%r9]` -/
def loadTwice : WarpInst :=
  { loadR4 with
    inst :=
      { pc := 0, isize := 8, op := .loadOp, isLoad := true, dst := .vector [1, 1], ar1 := 9
        load_of_out := nofun
        barrier := nofun }
    accessqCount_pos := by decide }

/-- While the load is in flight. -/
def loadR4Issued : BackEnd where
  regTable := Function.update (fun _ => ∅) 0 {4}
  pipeline := [loadR4]
  issued := [loadR4]

/-- The check lets an instruction pass that reads a register a load in flight writes. -/
theorem not_scoreboard_disciplined :
    ¬ ∀ (perfect : Bool) (outcome : Except CoreFailure BackEnd),
      (issueSystem perfect).Reachable outcome →
      ∃ b, outcome = .ok b ∧ b.Disciplined ∧
        ∀ d, IssueEnabled b (.issue d) → b.IssuesSafely d := by
  intro hall
  have hstep : issueStep false {} (.issue loadR4) = .ok loadR4Issued := rfl
  have reached : (issueSystem false).Reachable (.ok loadR4Issued) :=
    .step (a := .issue loadR4) (.init ⟨{}, rfl, rfl⟩) ⟨{}, rfl, by decide, hstep⟩
  obtain ⟨b, heq, -, hsafe⟩ := hall false _ reached
  cases heq
  have hbfi := hsafe bfiR4 (by decide) (by decide)
  exact hbfi.1 (by decide)

/-- A load that writes a register twice stops the core. -/
example : issueStep false {} (.issue loadTwice) = .error .reservedTwice := by rfl

theorem scoreboard_disciplined_loadR4 :
    IssueGuard {} (.issue loadR4) ∧ loadR4Issued.Disciplined := by
  have hstep : issueStep false {} (.issue loadR4) = .ok loadR4Issued := rfl
  have hguard : IssueGuard {} (.issue loadR4) := by decide
  have reached : ((issueSystem false).restrict (TransitionSystem.onOk IssueGuard)).Reachable
      (.ok loadR4Issued) :=
    .step (a := .issue loadR4) (.init ⟨{}, rfl, rfl⟩) ⟨hguard, {}, rfl, by decide, hstep⟩
  obtain ⟨b, heq, hdisciplined, -⟩ := scoreboard_disciplined reached
  cases heq
  exact ⟨hguard, hdisciplined⟩

end GpuCalorie.Issue
