/-
# Long operations

Beside the reserved registers the scoreboard keeps, for each warp, the registers that loads from
slow memory write. Both are filled when an instruction is issued. `releaseRegisters` takes a
register from both, but `releaseRegister`, which the load-store unit calls when the last access of
a load comes back, only from the reserved ones. `BackEnd` has the reserved registers; here it runs
together with the others, and `longops_tracked` says in which runs they are right.
-/

import GpuCalorie.Issue.Discipline

namespace GpuCalorie.Issue

open GpuCalorie.Hardware GpuCalorie.Math BackEnd

/-- The spaces of which `reserveRegisters` takes a load for a long operation. -/
def isLongSpace : MemorySpace → Bool
  | .globalSpace | .localSpace | .paramSpaceKernel | .paramSpaceLocal
  | .paramSpaceUnclassified | .texSpace => true
  | _ => false

/-- A load whose registers are marked as those of a long operation. -/
def WarpInst.isLongop (d : WarpInst) : Bool :=
  d.inst.isLoad && isLongSpace d.space

/-- `longopregs`, by warp. -/
abbrev LongopRegs := ℕ → Finset ℕ

/-- The end of `reserveRegisters`. -/
def markLongops (longopregs : LongopRegs) (d : WarpInst) : LongopRegs :=
  if d.isLongop then
    d.inst.dests.foldl
      (fun longopregs r =>
        Function.update longopregs d.warpId (insert r (longopregs d.warpId))) longopregs
  else longopregs

/-- What `releaseRegisters` does to `longopregs`. -/
def eraseLongops (longopregs : LongopRegs) (d : WarpInst) : LongopRegs :=
  d.inst.dests.foldl
    (fun longopregs r =>
      Function.update longopregs d.warpId ((longopregs d.warpId).erase r)) longopregs

/-- `islongop` -/
def islongop (longopregs : LongopRegs) (warpId regnum : ℕ) : Bool :=
  regnum ∈ longopregs warpId

/-- The test of `order_warps` in the two-level scheduler: the next instruction of a warp, if it
has one, reads a register of a long operation. -/
def waitsOnLongop (longopregs : LongopRegs) (warpId : ℕ) : Option Inst → Bool
  | some inst => inst.inRegs.any fun r => 0 < r && islongop longopregs warpId r
  | none => false

namespace BackEnd

variable (b : BackEnd)

/-- The instruction that leaves the dispatch register with `releaseRegisters`, once its accesses
were sent. -/
def leaving : Option WarpInst :=
  match b.dispatchReg with
  | some (d, n) =>
    if 0 < n then none
    else if d.inst.isLoad then
      if d.space = .sharedSpace then none
      else if b.pendingRequests d then none
      else some d
    else none
  | none => none

/-- The instruction a step calls `releaseRegisters` with. -/
def releasedWhole (perfectInstConstCache : Bool) : BackAction → Option WarpInst
  | .writeback k => b.pipeline[k]?.filter fun d => ¬ isMemOp d.inst.op
  | .dispatchCycle outcomes _ => (b.sendAccesses perfectInstConstCache outcomes).leaving
  | _ => none

end BackEnd

/-- The back end with all of the scoreboard. -/
structure TrackedBackEnd where
  back : BackEnd := {}
  longopregs : LongopRegs := fun _ => ∅

/-- A step of the back end and of `longopregs`. -/
def longopStep (perfectInstConstCache : Bool) (s : TrackedBackEnd) :
    IssueAction → Except CoreFailure TrackedBackEnd
  | .issue d =>
    if checkCollision s.back.regTable d.warpId d.inst then .ok s
    else do
      let back ← s.back.issue d
      return ⟨back, markLongops s.longopregs d⟩
  | .back action => do
    let (back, _) ← s.back.step perfectInstConstCache action
    return ⟨back,
      match s.back.releasedWhole perfectInstConstCache action with
      | some d => eraseLongops s.longopregs d
      | none => s.longopregs⟩

/-- The runs of the back end with all of the scoreboard. -/
def longopSystem (perfectInstConstCache : Bool) :
    TransitionSystem (Except CoreFailure TrackedBackEnd) IssueAction :=
  .ofExcept (· = {}) (fun s => IssueEnabled s.back) (longopStep perfectInstConstCache)

/-- A register is that of a long operation exactly while a load from slow memory that writes it
is awaited, and the scheduler finds a warp waiting on a long operation only then. -/
structure TrackedBackEnd.Tracks (s : TrackedBackEnd) : Prop where
  islongop_iff : ∀ w r, islongop s.longopregs w r ↔
    ∃ d, s.back.Awaited d ∧ d.isLongop ∧ d.Writes (w, r)
  waits : ∀ w inst, waitsOnLongop s.longopregs w (some inst) →
    ∃ r ∈ inst.inRegs, ∃ d, s.back.Awaited d ∧ d.isLongop ∧ d.Writes (w, r)

/-- The last access of a long operation does not come back through the latency queue of the L1 or
to `m_next_wb`, where its registers are released one by one. -/
def LongopGuard (s : TrackedBackEnd) : IssueAction → Prop
  | .back (.latencyHit k) => ∀ d ∈ s.back.l1LatencyQueue[k]?, d.isLongop →
      ∀ r ∈ d.inst.dests, s.back.pendingWrites d.warpId r ≠ 1
  | .back .ldstWriteback => ∀ d ∈ s.back.nextWb, d.isLongop →
      ∀ r ∈ d.inst.dests, s.back.pendingWrites d.warpId r ≠ 1
  | _ => True

variable {s s' : TrackedBackEnd} {b b' : BackEnd} {d e : WarpInst} {perfect : Bool} {w r k n : ℕ}
  {action : BackAction} {longopregs : LongopRegs} {next : Stepped}

/-! ## The registers of long operations -/

theorem mem_markLongops :
    r ∈ markLongops longopregs d w ↔ r ∈ longopregs w ∨ d.isLongop ∧ d.Writes (w, r) := by
  have hfold : ∀ (regs : List ℕ) (longopregs : LongopRegs),
      r ∈ (regs.foldl (fun longopregs r =>
        Function.update longopregs d.warpId (insert r (longopregs d.warpId))) longopregs) w ↔
        r ∈ longopregs w ∨ (d.warpId = w ∧ r ∈ regs) := by
    intro regs
    induction regs with
    | nil => simp
    | cons reg regs ih =>
        intro longopregs
        rw [List.foldl_cons, ih, List.mem_cons]
        by_cases hw : w = d.warpId
        · subst hw
          rw [Function.update_self, Finset.mem_insert]
          tauto
        · rw [Function.update_of_ne hw]
          have hne : ¬ d.warpId = w := fun heq => hw heq.symm
          simp [hne]
  rw [markLongops]
  split_ifs with hlong
  · rw [hfold]
    simp [hlong, WarpInst.Writes]
  · simp [hlong]

theorem mem_eraseLongops : r ∈ eraseLongops longopregs d w ↔ r ∈ longopregs w ∧ ¬ d.Writes (w, r) :=
  mem_foldl_releaseRegister

/-- A long operation that writes a register is awaited. -/
def TrackedBackEnd.LongopOn (s : TrackedBackEnd) (w r : ℕ) : Prop :=
  ∃ d, s.back.Awaited d ∧ d.isLongop ∧ d.Writes (w, r)

theorem TrackedBackEnd.tracks_iff :
    s.Tracks ↔ ∀ w r, r ∈ s.longopregs w ↔ s.LongopOn w r := by
  have hmem : ∀ w r, islongop s.longopregs w r ↔ r ∈ s.longopregs w := fun w r => by
    rw [islongop, decide_eq_true_iff]
  constructor
  · intro htracks w r
    exact (hmem w r).symm.trans (htracks.islongop_iff w r)
  · intro hlongop
    refine ⟨fun w r => (hmem w r).trans (hlongop w r), ?_⟩
    intro w inst hwaits
    obtain ⟨r, hr, hlong⟩ := List.any_eq_true.mp hwaits
    have hmarked := (hmem w r).mp (Bool.and_eq_true_iff.mp hlong).2
    exact ⟨r, hr, (hlongop w r).mp hmarked⟩

/-! ## Nothing new is in flight after a step -/

namespace BackEnd

/-- Where an instruction or an access of a load can be. -/
def places (b : BackEnd) : List WarpInst :=
  b.pipeline ++ b.dispatched ++ b.smem ++ b.l1LatencyQueue ++ b.outstanding ++ b.nextWb.toList ++
    b.lost

theorem mem_places : d ∈ b.places ↔ d ∈ b.pipeline ∨ d ∈ b.dispatched ∨ d ∈ b.smem ∨
    d ∈ b.l1LatencyQueue ∨ d ∈ b.outstanding ∨ d ∈ b.nextWb ∨ d ∈ b.lost := by
  simp only [places, List.mem_append, Option.mem_toList, Option.mem_def, or_assoc]

theorem has_iff_mem_places : b.ledger.Has d ↔ d ∈ b.places := by
  have hqueued : d ∈ b.queued → d ∈ b.dispatched := by
    rw [queued, dispatched]
    rcases b.dispatchReg with _ | ⟨e, n⟩
    · exact id
    · dsimp only
      split_ifs
      · exact fun hd => (List.mem_replicate.mp hd).2 ▸ List.mem_singleton_self _
      · exact fun hd => absurd hd List.not_mem_nil
  have hwb : d ∈ b.nextWb ↔ d ∈ b.sharedWb ∨ d ∈ b.loadWb := by
    rw [sharedWb, loadWb, List.mem_filter, List.mem_filter, Option.mem_toList]
    by_cases hshared : d.space = .sharedSpace <;> simp [hshared]
  have hhas : b.ledger.Has d ↔ d ∈ b.stages ∨ d ∈ b.queued ∨ d ∈ b.answers := by
    rw [← List.mem_append]
    exact Iff.rfl
  rw [hhas, mem_stages, mem_answers, mem_places, hwb]
  constructor
  · rintro ((h | h | h | h) | h | (h | h | h | h))
    · exact .inl h
    · exact .inr (.inl h)
    · exact .inr (.inr (.inl h))
    · exact .inr (.inr (.inr (.inr (.inr (.inl (.inl h))))))
    · exact .inr (.inl (hqueued h))
    · exact .inr (.inr (.inr (.inl h)))
    · exact .inr (.inr (.inr (.inr (.inl h))))
    · exact .inr (.inr (.inr (.inr (.inr (.inl (.inr h))))))
    · exact .inr (.inr (.inr (.inr (.inr (.inr h)))))
  · rintro (h | h | h | h | h | (h | h) | h)
    · exact .inl (.inl h)
    · exact .inl (.inr (.inl h))
    · exact .inl (.inr (.inr (.inl h)))
    · exact .inr (.inr (.inl h))
    · exact .inr (.inr (.inr (.inl h)))
    · exact .inl (.inr (.inr (.inr h)))
    · exact .inr (.inr (.inr (.inr (.inl h))))
    · exact .inr (.inr (.inr (.inr (.inr h))))

variable {b b' : BackEnd} {d : WarpInst} {perfect : Bool} {k : ℕ}

theorem sendAccess_places (outcome : AccessOutcome) : (b.sendAccess outcome).places ⊆ b.places := by
  intro e
  rw [sendAccess]
  rcases hreg : b.dispatchReg with _ | ⟨d, _ | n⟩
  · exact id
  · exact id
  · dsimp only
    split_ifs
    · cases outcome with
      | hit => simp [mem_places, dispatched, hreg]
      | sent =>
          simp [mem_places, dispatched, hreg]
          tauto
      | queued =>
          simp [mem_places, dispatched, hreg]
          tauto
    · simp [mem_places, dispatched, hreg]

theorem foldl_sendAccess_places (outcomes : List AccessOutcome) :
    (outcomes.foldl sendAccess b).places ⊆ b.places := by
  induction outcomes generalizing b with
  | nil => exact List.Subset.refl _
  | cons outcome outcomes ih =>
      exact List.Subset.trans ih (sendAccess_places outcome)

theorem sendAccesses_places (outcomes : List AccessOutcome) :
    (b.sendAccesses perfect outcomes).places ⊆ b.places := by
  rw [sendAccesses]
  rcases hreg : b.dispatchReg with _ | ⟨d, n⟩
  · exact List.Subset.refl _
  · dsimp only
    split_ifs
    · exact List.Subset.refl _
    · intro e
      rw [perfectConst]
      split_ifs <;> simp [mem_places, dispatched, hreg]
      tauto
    · exact foldl_sendAccess_places outcomes

theorem leaveDispatch_places (smemFree : Bool) :
    (b.leaveDispatch smemFree).1.places ⊆ b.places := by
  intro e
  rw [leaveDispatch]
  rcases hreg : b.dispatchReg with _ | ⟨d, n⟩
  · exact id
  · dsimp only
    split_ifs <;> simp [mem_places, dispatched, hreg] <;> tauto

theorem step_places (hstep : b.step perfect action = .ok next) : next.1.places ⊆ b.places := by
  intro e
  cases action with
  | writeback k =>
      cases hstep
      show e ∈ (b.writeback k).1.places → _
      rw [writeback]
      cases b.pipeline[k]? with
      | none => exact id
      | some d =>
          dsimp only
          split_ifs
          · exact id
          · have hsub : e ∈ b.pipeline.eraseIdx k → e ∈ b.pipeline := fun he =>
              List.mem_of_mem_eraseIdx he
            simp only [mem_places, dispatched]
            tauto
  | ldstIssue k =>
      cases hstep
      show e ∈ (b.ldstIssue k).1.places → _
      rw [ldstIssue]
      cases hk : b.pipeline[k]? with
      | none => exact id
      | some d =>
          cases hreg : b.dispatchReg with
          | some other => exact id
          | none =>
              have hd : d ∈ b.pipeline := List.mem_of_getElem? hk
              have hsub : e ∈ b.pipeline.eraseIdx k → e ∈ b.pipeline := fun he =>
                List.mem_of_mem_eraseIdx he
              dsimp only
              by_cases hop : isMemOp d.inst.op = true
              · rw [if_pos hop]
                simp only [mem_places, dispatched, Option.map_some, Option.toList_some,
                  List.mem_singleton]
                rintro (he | rfl | he)
                · exact .inl (hsub he)
                · exact .inl hd
                · exact .inr (.inr he)
              · rw [if_neg hop]
                exact id
  | dispatchCycle outcomes smemFree =>
      cases hstep
      exact fun he => sendAccesses_places outcomes (leaveDispatch_places smemFree he)
  | latencyHit k =>
      obtain ⟨b', hok, rfl⟩ := map_eq_ok.mp hstep
      rw [latencyHit] at hok
      cases hk : b.l1LatencyQueue[k]? with
      | none =>
          rw [hk] at hok
          cases hok
          exact id
      | some d =>
          rw [hk] at hok
          obtain ⟨result, -, heq⟩ := bind_eq_ok.mp hok
          cases heq
          have hsub : e ∈ b.l1LatencyQueue.eraseIdx k → e ∈ b.l1LatencyQueue := fun he =>
            List.mem_of_mem_eraseIdx he
          simp only [mem_places, dispatched]
          tauto
  | latencyMiss k =>
      cases hstep
      show e ∈ (b.latencyMiss k).places → _
      rw [latencyMiss]
      cases hk : b.l1LatencyQueue[k]? with
      | none => exact id
      | some d =>
          have hd : d ∈ b.l1LatencyQueue := List.mem_of_getElem? hk
          have hsub : e ∈ b.l1LatencyQueue.eraseIdx k → e ∈ b.l1LatencyQueue := fun he =>
            List.mem_of_mem_eraseIdx he
          simp only [mem_places, dispatched, List.mem_append, List.mem_singleton]
          rintro (he | he | he | he | (he | rfl) | he) <;> tauto
  | answer k hasInst =>
      cases hstep
      show e ∈ (b.answer k hasInst).places → _
      rw [answer]
      cases hk : b.outstanding[k]? with
      | none => exact id
      | some d =>
          cases hwb : b.nextWb with
          | some other => exact id
          | none =>
              have hd : d ∈ b.outstanding := List.mem_of_getElem? hk
              have hsub : e ∈ b.outstanding.eraseIdx k → e ∈ b.outstanding := fun he =>
                List.mem_of_mem_eraseIdx he
              cases hasInst with
              | true =>
                  simp only [mem_places, dispatched, if_true, Option.mem_some_iff]
                  rintro (he | he | he | he | he | rfl | he) <;> tauto
              | false =>
                  simp only [mem_places, dispatched, Bool.false_eq_true, if_false, List.mem_append,
                    List.mem_singleton]
                  rintro (he | he | he | he | he | he | he | rfl) <;> tauto
  | answerShared k =>
      cases hstep
      show e ∈ (b.answerShared k).1.places → _
      rw [answerShared]
      cases hk : b.smem[k]? with
      | none => exact id
      | some d =>
          cases hwb : b.nextWb with
          | some other => exact id
          | none =>
              have hd : d ∈ b.smem := List.mem_of_getElem? hk
              have hsub : e ∈ b.smem.eraseIdx k → e ∈ b.smem := fun he =>
                List.mem_of_mem_eraseIdx he
              simp only [mem_places, dispatched, Option.mem_some_iff]
              rintro (he | he | he | he | he | rfl | he) <;> tauto
  | ldstWriteback =>
      obtain ⟨b', hok, rfl⟩ := map_eq_ok.mp hstep
      rw [ldstWriteback] at hok
      cases hwb : b.nextWb with
      | none =>
          rw [hwb] at hok
          cases hok
          exact id
      | some d =>
          rw [hwb] at hok
          dsimp only at hok
          by_cases hshared : d.space = .sharedSpace
          · rw [if_pos hshared] at hok
            cases hok
            simp [mem_places, dispatched]
            tauto
          · rw [if_neg hshared] at hok
            obtain ⟨result, -, heq⟩ := bind_eq_ok.mp hok
            cases heq
            simp [mem_places, dispatched]
            tauto

/-! ## The registers a step releases -/

/-- The registers for which a step calls `releaseRegister` alone. -/
def releasedSingly (b : BackEnd) : BackAction → ℕ × ℕ → Prop
  | .latencyHit k, reg =>
    ∃ d ∈ b.l1LatencyQueue[k]?, d.Writes reg ∧ b.pendingWrites reg.1 reg.2 = 1
  | .ldstWriteback, reg =>
    ∃ d ∈ b.nextWb, d.Writes reg ∧ (d.space = .sharedSpace ∨ b.pendingWrites reg.1 reg.2 = 1)
  | _, _ => False

theorem sendAccesses_regTable (outcomes : List AccessOutcome) :
    (b.sendAccesses perfect outcomes).regTable = b.regTable := by
  have hsend : ∀ (b : BackEnd) outcome, (b.sendAccess outcome).regTable = b.regTable := by
    intro b outcome
    rw [sendAccess]
    rcases b.dispatchReg with _ | ⟨d, _ | n⟩
    · rfl
    · rfl
    · dsimp only
      split_ifs
      · cases outcome <;> rfl
      · rfl
  have hfold : (outcomes.foldl sendAccess b).regTable = b.regTable := by
    induction outcomes generalizing b with
    | nil => rfl
    | cons outcome outcomes ih => rw [List.foldl_cons, ih, hsend]
  rw [sendAccesses]
  rcases b.dispatchReg with _ | ⟨d, n⟩
  · rfl
  · dsimp only
    split_ifs
    · rfl
    · rw [perfectConst]
      split_ifs <;> rfl
    · exact hfold

theorem leaveDispatch_regTable (smemFree : Bool) : (b.leaveDispatch smemFree).1.regTable =
    match b.leaving with
    | some d => releaseRegisters b.regTable d
    | none => b.regTable := by
  rw [leaveDispatch, leaving]
  rcases b.dispatchReg with _ | ⟨d, n⟩
  · rfl
  · dsimp only
    split_ifs <;> rfl

theorem Consistent.mem_regTable_step (h : b.Consistent perfect)
    (hstep : b.step perfect action = .ok next) {w r : ℕ} :
    r ∈ next.1.regTable w ↔ r ∈ b.regTable w ∧
      (∀ d ∈ b.releasedWhole perfect action, ¬ d.Writes (w, r)) ∧
      ¬ b.releasedSingly action (w, r) := by
  have hkept : ∀ table : RegTable, table = b.regTable → b.releasedWhole perfect action = none →
      ¬ b.releasedSingly action (w, r) → (r ∈ table w ↔ r ∈ b.regTable w ∧
        (∀ d ∈ b.releasedWhole perfect action, ¬ d.Writes (w, r)) ∧
        ¬ b.releasedSingly action (w, r)) := by
    rintro table rfl hwhole hsingly
    simp [hwhole, hsingly]
  have hsettled : ∀ d ∈ b.due, ∀ result, settle d.warpId d.inst.dests b.regTable b.pendingWrites =
      .ok result → (r ∈ result.1 w ↔
        r ∈ b.regTable w ∧ ¬ (d.Writes (w, r) ∧ b.pendingWrites w r = 1)) := by
    intro d hd result hok
    obtain ⟨result', hok', hsettled⟩ := h.inFlight.settle_ok hd
    cases hok.symm.trans hok'
    refine (hsettled.freed w r).trans (and_congr_right fun _ => not_congr ?_)
    rw [WarpInst.Writes, and_assoc, eq_comm]
  cases action with
  | writeback k =>
      cases hstep
      show r ∈ (b.writeback k).1.regTable w ↔ _
      rw [writeback]
      cases hk : b.pipeline[k]? with
      | none => exact hkept _ rfl (by rw [releasedWhole, hk]; rfl) id
      | some d =>
          dsimp only
          split_ifs with hop
          · refine hkept _ rfl ?_ id
            rw [releasedWhole, hk]
            simp [Option.filter, hop]
          · have hwhole : b.releasedWhole perfect (.writeback k) = some d := by
              rw [releasedWhole, hk]
              simp [Option.filter, hop]
            rw [hwhole]
            refine mem_releaseRegisters.trans (and_congr_right fun _ => ?_)
            simp [releasedSingly]
  | ldstIssue k =>
      cases hstep
      refine hkept _ ?_ rfl id
      show (b.ldstIssue k).1.regTable = _
      rw [ldstIssue]
      cases b.pipeline[k]? with
      | none => rfl
      | some d =>
          cases b.dispatchReg with
          | some other => rfl
          | none =>
              dsimp only
              split_ifs <;> rfl
  | dispatchCycle outcomes smemFree =>
      cases hstep
      show r ∈ ((b.sendAccesses perfect outcomes).leaveDispatch smemFree).1.regTable w ↔ _
      rw [leaveDispatch_regTable, sendAccesses_regTable, releasedWhole]
      cases (b.sendAccesses perfect outcomes).leaving with
      | none => simp [releasedSingly]
      | some d =>
          refine mem_releaseRegisters.trans (and_congr_right fun _ => ?_)
          simp [releasedSingly]
  | latencyHit k =>
      obtain ⟨b', hok, rfl⟩ := map_eq_ok.mp hstep
      rw [latencyHit] at hok
      cases hk : b.l1LatencyQueue[k]? with
      | none =>
          rw [hk] at hok
          cases hok
          exact hkept _ rfl rfl (by simp [releasedSingly, hk])
      | some d =>
          rw [hk] at hok
          obtain ⟨result, hresult, heq⟩ := bind_eq_ok.mp hok
          cases heq
          have hd : d ∈ b.due := List.mem_append_right _
            (mem_answers.mpr (.inl (List.mem_of_getElem? hk)))
          refine (hsettled d hd result hresult).trans (and_congr_right fun _ => ?_)
          simp [releasedWhole, releasedSingly, hk]
  | latencyMiss k =>
      cases hstep
      refine hkept _ ?_ rfl id
      show (b.latencyMiss k).regTable = _
      rw [latencyMiss]
      cases b.l1LatencyQueue[k]? <;> rfl
  | answer k hasInst =>
      cases hstep
      refine hkept _ ?_ rfl id
      show (b.answer k hasInst).regTable = _
      rw [answer]
      cases b.outstanding[k]? with
      | none => rfl
      | some d =>
          cases b.nextWb with
          | some other => rfl
          | none => cases hasInst <;> rfl
  | answerShared k =>
      cases hstep
      refine hkept _ ?_ rfl id
      show (b.answerShared k).1.regTable = _
      rw [answerShared]
      cases b.smem[k]? with
      | none => rfl
      | some d => cases b.nextWb <;> rfl
  | ldstWriteback =>
      obtain ⟨b', hok, rfl⟩ := map_eq_ok.mp hstep
      rw [ldstWriteback] at hok
      cases hwb : b.nextWb with
      | none =>
          rw [hwb] at hok
          cases hok
          exact hkept _ rfl rfl (by simp [releasedSingly, hwb])
      | some d =>
          rw [hwb] at hok
          dsimp only at hok
          by_cases hshared : d.space = .sharedSpace
          · rw [if_pos hshared] at hok
            cases hok
            refine mem_releaseRegisters.trans (and_congr_right fun _ => ?_)
            simp [releasedWhole, releasedSingly, hwb, hshared]
          · rw [if_neg hshared] at hok
            obtain ⟨result, hresult, heq⟩ := bind_eq_ok.mp hok
            cases heq
            have hd : d ∈ b.due := List.mem_append_right _
              (mem_answers.mpr (.inr (.inr (.inl (by simp [loadWb, hwb, hshared])))))
            refine (hsettled d hd result hresult).trans (and_congr_right fun _ => ?_)
            simp [releasedWhole, releasedSingly, hwb, hshared]

end BackEnd

/-! ## Steps -/

namespace TrackedBackEnd

section

variable (h : s.back.Consistent perfect)
include h

theorem longopOn_step (hstep : s.back.step perfect action = .ok next) :
    LongopOn ⟨next.1, longopregs⟩ w r ↔ s.LongopOn w r ∧ r ∈ next.1.regTable w := by
  have hnext : next.1.Consistent perfect := by
    obtain ⟨next', hok, hnext⟩ := h.step action
    cases hstep.symm.trans hok
    exact hnext
  have hold : ∀ d, next.1.ledger.Has d → s.back.ledger.Has d := by
    intro d hd
    rw [has_iff_mem_places] at hd ⊢
    exact step_places hstep hd
  constructor
  · rintro ⟨d, hd, hlong, hwrites⟩
    have hhas := hnext.awaited_iff.mp hd
    exact ⟨⟨d, h.awaited_iff.mpr (hold d hhas), hlong, hwrites⟩,
      (hnext.inFlight.sound.table (w, r)).mpr ⟨d, hhas, hwrites⟩⟩
  · rintro ⟨⟨d, hd, hlong, hwrites⟩, hreserved⟩
    obtain ⟨e, he, hewrites⟩ := (hnext.inFlight.sound.table (w, r)).mp hreserved
    have heq : e = d := h.inFlight.sound.unique e d (w, r) (hold e he) (h.awaited_iff.mp hd)
      hewrites hwrites
    exact ⟨d, hnext.awaited_iff.mpr (heq ▸ he), hlong, hwrites⟩

theorem tracks_back_iff (htracks : s.Tracks)
    (hstep : longopStep perfect s (.back action) = .ok s') :
    s'.Tracks ↔ ∀ w r, s.LongopOn w r → ¬ s.back.releasedSingly action (w, r) := by
  obtain ⟨⟨back, dec⟩, hback, heq⟩ := bind_eq_ok.mp hstep
  cases heq
  have hmarked : ∀ w r, r ∈ (match s.back.releasedWhole perfect action with
      | some d => eraseLongops s.longopregs d
      | none => s.longopregs) w ↔
        s.LongopOn w r ∧ ∀ d ∈ s.back.releasedWhole perfect action, ¬ d.Writes (w, r) := by
    intro w r
    cases s.back.releasedWhole perfect action with
    | none => simpa using tracks_iff.mp htracks w r
    | some d =>
        simpa using mem_eraseLongops.trans (and_congr_left fun _ => tracks_iff.mp htracks w r)
  have hreserved : ∀ w r, s.LongopOn w r → r ∈ s.back.regTable w := by
    rintro w r ⟨d, hd, -, hwrites⟩
    exact (h.inFlight.sound.table (w, r)).mpr ⟨d, h.awaited_iff.mp hd, hwrites⟩
  -- no step calls both functions
  have hwhole : ∀ reg, s.back.releasedSingly action reg →
      s.back.releasedWhole perfect action = none := by
    intro reg hsingly
    cases action <;> first | rfl | exact hsingly.elim
  rw [tracks_iff]
  refine forall_congr' fun w => forall_congr' fun r => ?_
  rw [hmarked, longopOn_step h hback, h.mem_regTable_step hback]
  constructor
  · intro hiff hlong hsingly
    have hnone : ∀ d ∈ s.back.releasedWhole perfect action, ¬ d.Writes (w, r) := by
      simp [hwhole _ hsingly]
    exact (hiff.mp ⟨hlong, hnone⟩).2.2.2 hsingly
  · intro hsingly
    constructor
    · rintro ⟨hlong, hnone⟩
      exact ⟨hlong, hreserved w r hlong, hnone, hsingly hlong⟩
    · rintro ⟨hlong, -, hnone, -⟩
      exact ⟨hlong, hnone⟩

theorem longopGuard_iff : LongopGuard s (.back action) ↔
      ∀ w r, s.LongopOn w r → ¬ s.back.releasedSingly action (w, r) := by
  have hunique : ∀ d w r, s.back.ledger.Has d → d.Writes (w, r) → s.LongopOn w r →
      d.isLongop := by
    rintro d w r hd hwrites ⟨e, he, hlong, hewrites⟩
    rwa [h.inFlight.sound.unique d e (w, r) hd (h.awaited_iff.mp he) hwrites hewrites]
  cases action with
  | latencyHit k =>
      have hhas : ∀ d ∈ s.back.l1LatencyQueue[k]?, s.back.ledger.Has d := fun d hk =>
        .inr (List.mem_append_right _ (mem_answers.mpr (.inl (List.mem_of_getElem? hk))))
      constructor
      · rintro hguard w r hlong ⟨d, hk, hwrites, hone⟩
        obtain ⟨rfl, hr⟩ := id hwrites
        exact hguard d hk (hunique d _ r (hhas d hk) hwrites hlong) r hr hone
      · intro hnone d hk hlong r hr hone
        exact hnone d.warpId r ⟨d, h.awaited_iff.mpr (hhas d hk), hlong, rfl, hr⟩
          ⟨d, hk, ⟨rfl, hr⟩, hone⟩
  | ldstWriteback =>
      have hhas : ∀ d ∈ s.back.nextWb, s.back.ledger.Has d := fun d hwb =>
        has_iff_mem_places.mpr
          (mem_places.mpr (.inr (.inr (.inr (.inr (.inr (.inl hwb)))))))
      constructor
      · rintro hguard w r hlong ⟨d, hwb, hwrites, hone⟩
        have hdlong := hunique d _ r (hhas d hwb) hwrites hlong
        obtain ⟨rfl, hr⟩ := id hwrites
        rcases hone with hshared | hone
        · simp [WarpInst.isLongop, hshared, isLongSpace] at hdlong
        · exact hguard d hwb hdlong r hr hone
      · intro hnone d hwb hlong r hr hone
        exact hnone d.warpId r ⟨d, h.awaited_iff.mpr (hhas d hwb), hlong, rfl, hr⟩
          ⟨d, hwb, ⟨rfl, hr⟩, .inr hone⟩
  | _ => exact iff_of_true trivial fun _ _ _ => id

theorem tracks_issue (htracks : s.Tracks) (hnew : d ∉ s.back.issued)
    (hok : s.back.issue d = .ok b') : Tracks ⟨b', markLongops s.longopregs d⟩ := by
  have hnext : b'.Consistent perfect := (h.issue hnew).of_ok hok
  have hplaces : ∀ e, e ∈ b'.places ↔ e ∈ s.back.places ∨ e = d := by
    intro e
    rw [BackEnd.issue] at hok
    obtain ⟨table, -, heq⟩ := bind_eq_ok.mp hok
    cases heq
    simp only [mem_places, dispatched, List.mem_append, List.mem_singleton]
    tauto
  have hawaited : ∀ e, b'.Awaited e ↔ s.back.Awaited e ∨ e = d := by
    intro e
    rw [hnext.awaited_iff, h.awaited_iff, has_iff_mem_places, has_iff_mem_places, hplaces]
  rw [tracks_iff]
  intro w r
  rw [mem_markLongops, tracks_iff.mp htracks]
  constructor
  · rintro (⟨e, he, hlong⟩ | hlong)
    · exact ⟨e, (hawaited e).mpr (.inl he), hlong⟩
    · exact ⟨d, (hawaited d).mpr (.inr rfl), hlong⟩
  · rintro ⟨e, he, hlong⟩
    rcases (hawaited e).mp he with he | rfl
    · exact .inl ⟨e, he, hlong⟩
    · exact .inr hlong

theorem tracks_step_iff (htracks : s.Tracks) {action : IssueAction}
    (henabled : IssueEnabled s.back action) :
    OkOr (fun s' => s'.back.Consistent perfect ∧ (s'.Tracks ↔ LongopGuard s action))
      (· = .reservedTwice) (longopStep perfect s action) := by
  cases action with
  | issue d =>
      have hnew := notMem_issued henabled
      rw [longopStep]
      split_ifs
      · exact ⟨h, iff_of_true htracks trivial⟩
      · refine (h.issue hnew).bind_eq fun b' hok hnext => ?_
        exact ⟨hnext, iff_of_true (tracks_issue h htracks hnew hok) trivial⟩
  | back action =>
      obtain ⟨next, hok, hnext⟩ := h.step action
      have hstep : longopStep perfect s (.back action) = .ok ⟨next.1,
          match s.back.releasedWhole perfect action with
          | some d => eraseLongops s.longopregs d
          | none => s.longopregs⟩ := by
        rw [longopStep, hok]
        rfl
      rw [hstep]
      exact ⟨hnext, (tracks_back_iff h htracks hstep).trans (longopGuard_iff h).symm⟩

end

theorem tracks_init : Tracks {} := by
  rw [tracks_iff]
  intro w r
  refine iff_of_false (Finset.notMem_empty r) ?_
  rintro ⟨d, ⟨hissued, -⟩, -⟩
  exact List.not_mem_nil hissued

end TrackedBackEnd

/-! ## Runs -/

/-- Long operations: in a run in which no load from slow memory gets its last access through the
latency queue of the L1 or through `m_next_wb`, a register is that of a long operation exactly
while such a load is awaited. The next step keeps it so if and only if it meets the condition. -/
theorem longops_tracked {outcome : Except CoreFailure TrackedBackEnd}
    (reached : ((longopSystem perfect).restrict
      (TransitionSystem.onOk LongopGuard)).Reachable outcome) :
    OkOr (fun s => s.Tracks ∧ ∀ action, IssueEnabled s.back action →
        OkOr (fun s' => s'.Tracks ↔ LongopGuard s action) (· = .reservedTwice)
          (longopStep perfect s action))
      (· = .reservedTwice) outcome := by
  have h : OkOr (fun s => s.back.Consistent perfect ∧ s.Tracks) (· = .reservedTwice) outcome := by
    refine reached.invariant_ofExcept ?_ ?_
    · rintro s rfl
      exact ⟨.init, TrackedBackEnd.tracks_init⟩
    · rintro s action ⟨hs, htracks⟩ hguard henabled
      exact (TrackedBackEnd.tracks_step_iff hs htracks henabled).imp fun s' hs' =>
        ⟨hs'.1, hs'.2.mpr hguard⟩
  refine h.imp fun s hs => ⟨hs.2, fun action henabled => ?_⟩
  exact (TrackedBackEnd.tracks_step_iff hs.1 hs.2 henabled).imp fun s' hs' => hs'.2

/-- `ld.global.u32 %r4, [%r9]` in the dispatch register. -/
def loadR4Dispatched : TrackedBackEnd where
  back := (loadR4Issued.ldstIssue 0).1
  longopregs := Function.update (fun _ => ∅) 0 {4}

/-- The load when its access hits at once. -/
def loadR4Hit : TrackedBackEnd where
  back := (loadR4Dispatched.back.dispatchCycle false [.hit 0] true).1
  longopregs := eraseLongops loadR4Dispatched.longopregs loadR4

theorem longops_tracked_loadR4 : loadR4Hit.Tracks := by
  have issued : ((longopSystem false).restrict (TransitionSystem.onOk LongopGuard)).Reachable
      (.ok ⟨loadR4Issued, Function.update (fun _ => ∅) 0 {4}⟩) :=
    .step (a := .issue loadR4) (.init ⟨{}, rfl, rfl⟩) ⟨trivial, {}, rfl, by decide, rfl⟩
  have dispatched : ((longopSystem false).restrict (TransitionSystem.onOk LongopGuard)).Reachable
      (.ok loadR4Dispatched) :=
    .step (a := .back (.ldstIssue 0)) issued ⟨trivial, _, rfl, trivial, rfl⟩
  have hit : ((longopSystem false).restrict (TransitionSystem.onOk LongopGuard)).Reachable
      (.ok loadR4Hit) :=
    .step (a := .back (.dispatchCycle [.hit 0] true)) dispatched ⟨trivial, _, rfl, trivial, rfl⟩
  exact (longops_tracked hit).1

/-- The load with its access on its way. -/
def loadR4Sent : TrackedBackEnd where
  back := (loadR4Dispatched.back.dispatchCycle false [.sent 0] true).1
  longopregs := loadR4Dispatched.longopregs

/-- The load in `m_next_wb`. -/
def loadR4Answered : TrackedBackEnd where
  back := loadR4Sent.back.answer 0 true
  longopregs := loadR4Dispatched.longopregs

/-- The load after it has written back. -/
def loadR4Written : TrackedBackEnd where
  back :=
    { loadR4Answered.back with
      regTable := releaseRegister loadR4Answered.back.regTable 0 4
      pendingWrites := Function.update loadR4Answered.back.pendingWrites 0
        (Function.update (loadR4Answered.back.pendingWrites 0) 4 0)
      nextWb := none
      completed := [loadR4] }
  longopregs := loadR4Dispatched.longopregs

/-- A load that has written its register back is still taken for a long operation. -/
theorem not_longops_tracked :
    ¬ ∀ (perfect : Bool) (outcome : Except CoreFailure TrackedBackEnd),
      (longopSystem perfect).Reachable outcome →
        OkOr TrackedBackEnd.Tracks (· = .reservedTwice) outcome := by
  intro hall
  have issued : (longopSystem false).Reachable
      (.ok ⟨loadR4Issued, Function.update (fun _ => ∅) 0 {4}⟩) :=
    .step (a := .issue loadR4) (.init ⟨{}, rfl, rfl⟩) ⟨{}, rfl, by decide, rfl⟩
  have dispatched : (longopSystem false).Reachable (.ok loadR4Dispatched) :=
    .step (a := .back (.ldstIssue 0)) issued ⟨_, rfl, trivial, rfl⟩
  have sent : (longopSystem false).Reachable (.ok loadR4Sent) :=
    .step (a := .back (.dispatchCycle [.sent 0] true)) dispatched ⟨_, rfl, trivial, rfl⟩
  have answered : (longopSystem false).Reachable (.ok loadR4Answered) :=
    .step (a := .back (.answer 0 true)) sent ⟨_, rfl, trivial, rfl⟩
  have written : (longopSystem false).Reachable (.ok loadR4Written) :=
    .step (a := .back .ldstWriteback) answered ⟨_, rfl, trivial, rfl⟩
  have htracks : loadR4Written.Tracks := hall false _ written
  obtain ⟨d, ⟨-, hd⟩, -⟩ := (htracks.islongop_iff 0 4).mp (by decide)
  have hnone : loadR4Written.back.places = [] := rfl
  have hplaces := has_iff_mem_places.mp hd
  rw [hnone] at hplaces
  cases hplaces

end GpuCalorie.Issue
