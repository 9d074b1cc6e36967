/-
# What a unit holds between two cycles

Every instruction in a unit is on time: it stands as many positions before the end of the row
as there are cycles left until it has been in the unit for its latency, and `occupied` has the
bit of that cycle. So two instructions are never due in one cycle, and the register an
instruction moves to has been left by the one before it.
-/

import GpuCalorie.Pipeline.Execute

namespace GpuCalorie.Pipeline

open GpuCalorie.Math

/-- One for an instruction and zero for all others. -/
def indicator (inst : WarpInst) : WarpInst → ℕ := fun other => if other = inst then 1 else 0

namespace SimdUnit

/-- The weight of the instruction in the dispatch register. -/
def dispatchTotal (s : SimdUnit) (weight : WarpInst → ℕ) : ℕ :=
  (s.dispatchReg.map fun waiting => weight waiting.1).getD 0

/-- The state of a unit before a cycle. -/
structure OnTime (cfg : SimdUnitConfig) (now : ℕ) (s : SimdUnit) : Prop where
  fits : s.pipelineReg.Fits cfg.pipelineDepth
  stages : ∀ position inst, s.pipelineReg position = some inst →
    inst.dispatchCycle + inst.latency = now + position ∧ s.occupied position = true
  waiting : ∀ inst cycles, s.dispatchReg = some (inst, cycles) →
    0 < cycles ∧ cfg.InRange inst ∧ inst.dispatchCycle + inst.initiationInterval = now + cycles ∧
      s.occupied (cycles + (inst.latency - inst.initiationInterval)) = true ∧
      s.pipelineReg (cycles + (inst.latency - inst.initiationInterval)) = none
  active : s.activeInstsInPipeline = s.pipelineReg.total (fun _ => 1) cfg.pipelineDepth
  once : s.issued.Nodup
  /-- Every instruction that was issued has left the unit or is in it. -/
  ledger : ∀ inst, s.issued.count inst = (s.left.map Prod.fst).count inst +
    (s.pipelineReg.total (indicator inst) cfg.pipelineDepth + s.dispatchTotal (indicator inst))
  due : ∀ e ∈ s.left, e.2 = e.1.dispatchCycle + e.1.latency ∧ e.2 < now

theorem onTime_empty (cfg : SimdUnitConfig) (now : ℕ) : ({} : SimdUnit).OnTime cfg now where
  fits _ _ := rfl
  stages _ _ h := nomatch h
  waiting _ _ h := nomatch h
  active := (DelayLine.total_empty _ _).symm
  once := List.nodup_nil
  ledger _ := by
    rw [DelayLine.total_empty]
    rfl
  due _ h := absurd h List.not_mem_nil

variable {cfg : SimdUnitConfig} {now : ℕ} {s : SimdUnit}

/-! ## What leaves -/

theorem moveIn_ok {exWb : RegisterSet} (hfree : 0 < exWb.count none) (inst : WarpInst) :
    ∃ exWb', exWb.moveIn inst = .ok exWb' ∧ exWb'.count none + 1 = exWb.count none ∧
      exWb'.length = exWb.length := by
  induction exWb with
  | nil => exact absurd hfree (Nat.lt_irrefl 0)
  | cons reg regs ih =>
      cases reg with
      | none =>
          refine ⟨some inst :: regs, rfl, ?_, rfl⟩
          rw [List.count_cons_self, List.count_cons_of_ne (by simp)]
      | some other =>
          rw [List.count_cons_of_ne (by simp)] at hfree ⊢
          obtain ⟨regs', hmove, hcount, hlength⟩ := ih hfree
          refine ⟨some other :: regs', ?_, ?_, congrArg (· + 1) hlength⟩
          · rw [RegisterSet.moveIn, hmove]
            rfl
          · rw [List.count_cons_of_ne (by simp)]
            exact hcount

theorem complete_spec (h : s.OnTime cfg now) {exWb : RegisterSet}
    (hfree : (s.pipelineReg 0).isSome → 0 < exWb.count none) :
    ∃ exWb', s.complete exWb now = .ok (
        { s with
          pipelineReg := Function.update s.pipelineReg 0 none
          activeInstsInPipeline := s.pipelineReg.shift.total (fun _ => 1) cfg.pipelineDepth
          left := s.left ++ (s.pipelineReg 0).toList.map fun inst => (inst, now) }, exWb') ∧
      exWb'.count none + (if (s.pipelineReg 0).isSome then 1 else 0) = exWb.count none ∧
      exWb'.length = exWb.length := by
  have hactive := h.active
  rw [h.fits.total_shift] at hactive
  cases hlast : s.pipelineReg 0 with
  | none =>
      refine ⟨exWb, ?_, by simp, rfl⟩
      rw [hlast] at hactive
      have hsame : Function.update s.pipelineReg 0 none = s.pipelineReg := by
        rw [← hlast, Function.update_eq_self]
      have hcount : s.pipelineReg.shift.total (fun _ => 1) cfg.pipelineDepth
          = s.activeInstsInPipeline := by simpa using hactive.symm
      rw [complete, hlast, hsame, hcount]
      simp
  | some inst =>
      rw [hlast] at hactive hfree
      have hcount : s.activeInstsInPipeline
          = 1 + s.pipelineReg.shift.total (fun _ => 1) cfg.pipelineDepth := hactive
      obtain ⟨exWb', hmove, hregs⟩ := moveIn_ok (hfree rfl) inst
      refine ⟨exWb', ?_, hregs⟩
      have hpos : ¬ s.activeInstsInPipeline = 0 := by omega
      have hpred : s.activeInstsInPipeline - 1
          = s.pipelineReg.shift.total (fun _ => 1) cfg.pipelineDepth := by omega
      rw [complete, hlast]
      dsimp only
      rw [hmove]
      show (if s.activeInstsInPipeline = 0 then _ else _) = _
      rw [if_neg hpos, hpred]
      rfl

/-! ## The stages move -/

/-- The stages when the loop has moved those below a stage. -/
def movedBelow (regs : DelayLine WarpInst) (stage : ℕ) : DelayLine WarpInst := fun position =>
  if position < stage then regs (position + 1) else if position = stage then none else regs position

theorem movedBelow_zero (regs : DelayLine WarpInst) :
    movedBelow regs 0 = Function.update regs 0 none := by
  funext position
  simp [movedBelow, Function.update_apply]

theorem moveStage_movedBelow (regs : DelayLine WarpInst) (stage : ℕ) :
    moveStage stage (movedBelow regs stage) = .ok (movedBelow regs (stage + 1)) := by
  have hempty : movedBelow regs stage stage = none := by simp [movedBelow]
  have hnext : movedBelow regs stage (stage + 1) = regs (stage + 1) := by simp [movedBelow]
  rw [moveStage, hempty, hnext, if_neg (by simp)]
  congr 1
  funext position
  by_cases hone : position = stage + 1
  · subst hone
    simp [movedBelow]
  · rw [Function.update_of_ne hone]
    by_cases heq : position = stage
    · subst heq
      simp [movedBelow]
    · have hiff : position < stage + 1 ↔ position < stage := by omega
      rw [Function.update_of_ne heq]
      simp only [movedBelow, hiff, heq, hone, if_false]

theorem moveStage_all {depth : ℕ} (hdepth : 0 < depth) {regs : DelayLine WarpInst}
    (hfits : regs.Fits depth) :
    countUp moveStage (depth - 1) (Function.update regs 0 none) = .ok regs.shift := by
  obtain ⟨t, hrun, ht⟩ := countUp_ok (I := fun stage r => r = movedBelow regs stage) (depth - 1)
    (fun stage _ r hr => ⟨_, hr ▸ moveStage_movedBelow regs stage, rfl⟩) (movedBelow_zero regs).symm
  rw [hrun, ht]
  congr 1
  funext position
  by_cases hbefore : position < depth - 1
  · rw [movedBelow, if_pos hbefore]
    rfl
  · have hnext : regs (position + 1) = none := hfits _ (by omega)
    rw [movedBelow, if_neg hbefore, DelayLine.shift, hnext]
    split_ifs with hlast
    · rfl
    · exact hfits _ (by omega)

theorem advance_spec (s' : SimdUnit) {regs : DelayLine WarpInst}
    (hfits : regs.Fits cfg.pipelineDepth)
    (hregs : s'.pipelineReg = Function.update regs 0 none)
    (hactive : s'.activeInstsInPipeline = regs.shift.total (fun _ => 1) cfg.pipelineDepth) :
    s'.advance cfg = .ok { s' with pipelineReg := regs.shift } := by
  rw [advance]
  split_ifs with hzero
  · -- a unit that counts nothing in its stages has nothing in them
    have hempty : ∀ position, regs.shift position = none := by
      intro position
      by_contra hsome
      obtain ⟨inst, hinst⟩ := Option.ne_none_iff_exists'.mp hsome
      have hlt : position < cfg.pipelineDepth := by
        by_contra hge
        exact hsome (hfits.shift position (Nat.not_lt.mp hge))
      have hle := DelayLine.le_total hlt (fun _ => 1) hinst
      omega
    have hsame : s'.pipelineReg = regs.shift := by
      rw [hregs]
      funext position
      rw [hempty position]
      cases position with
      | zero => rw [Function.update_self]
      | succ position =>
          rw [Function.update_of_ne (Nat.succ_ne_zero position)]
          exact hempty position
    rw [← hsame]
  · rw [hregs, moveStage_all cfg.depth_pos hfits]
    rfl

/-! ## A cycle -/

/-- A unit before its dispatch register is looked at: the stages have moved, and the
instruction from the last one has left. -/
def moved (now : ℕ) (s : SimdUnit) (depth : ℕ) : SimdUnit :=
  { s with
    pipelineReg := s.pipelineReg.shift
    activeInstsInPipeline := s.pipelineReg.shift.total (fun _ => 1) depth
    left := s.left ++ (s.pipelineReg 0).toList.map fun inst => (inst, now) }

section

variable (h : s.OnTime cfg now)
include h

theorem OnTime.due_moved : ∀ e ∈ (s.moved now cfg.pipelineDepth).left,
      e.2 = e.1.dispatchCycle + e.1.latency ∧ e.2 < now + 1 := by
  intro e he
  cases List.mem_append.mp he with
  | inl hmem =>
      have hdue := h.due e hmem
      exact ⟨hdue.1, Nat.lt_succ_of_lt hdue.2⟩
  | inr hmem =>
      obtain ⟨inst, hinst, rfl⟩ := List.mem_map.mp hmem
      have hlast := h.stages 0 inst (Option.mem_toList.mp hinst)
      exact ⟨hlast.1.symm, Nat.lt_succ_self now⟩

theorem OnTime.ledger_moved (inst : WarpInst) :
    s.issued.count inst = ((s.moved now cfg.pipelineDepth).left.map Prod.fst).count inst +
      (s.pipelineReg.shift.total (indicator inst) cfg.pipelineDepth
        + s.dispatchTotal (indicator inst)) := by
  have hledger := h.ledger inst
  rw [h.fits.total_shift] at hledger
  have hleft : ((s.moved now cfg.pipelineDepth).left.map Prod.fst).count inst
      = (s.left.map Prod.fst).count inst + ((s.pipelineReg 0).map (indicator inst)).getD 0 := by
    rw [moved, List.map_append, List.count_append]
    congr 1
    cases s.pipelineReg 0 with
    | none => rfl
    | some other => simp [indicator, List.count_cons]
  omega

theorem OnTime.stages_moved (position : ℕ) (inst : WarpInst)
    (hinst : s.pipelineReg.shift position = some inst) :
    inst.dispatchCycle + inst.latency = now + 1 + position ∧
      s.occupied.shiftRight position = true := by
  have hstage := h.stages (position + 1) inst hinst
  exact ⟨by omega, hstage.2⟩

theorem dispatch_spec :
    ∃ t, (s.moved now cfg.pipelineDepth).dispatch cfg = .ok t ∧ t.occupied = s.occupied ∧
      ({ t with occupied := s.occupied.shiftRight }).OnTime cfg (now + 1) := by
  cases hdispatch : s.dispatchReg with
  | none =>
      refine ⟨s.moved now cfg.pipelineDepth, ?_, rfl, ?_⟩
      · rw [dispatch, moved, hdispatch]
      · exact {
          fits := h.fits.shift
          stages := h.stages_moved
          waiting := fun inst cycles hwaiting => by
            have hnone : some (inst, cycles) = none := hwaiting.symm.trans hdispatch
            cases hnone
          active := rfl
          once := h.once
          ledger := h.ledger_moved
          due := h.due_moved }
  | some waiting =>
      obtain ⟨inst, cycles⟩ := waiting
      obtain ⟨hcycles, hrange, htime, hbit, hempty⟩ := h.waiting inst cycles hdispatch
      have hrange' := hrange
      obtain ⟨-, hle, -, hdepth⟩ := hrange
      by_cases hdelay : 0 < cycles - 1
      · refine ⟨{ s.moved now cfg.pipelineDepth with dispatchReg := some (inst, cycles - 1) },
          ?_, rfl, ?_⟩
        · rw [dispatch, moved, hdispatch]
          dsimp only
          rw [if_pos hdelay]
        · have hsucc : cycles - 1 + (inst.latency - inst.initiationInterval) + 1
              = cycles + (inst.latency - inst.initiationInterval) := by omega
          exact {
            fits := h.fits.shift
            stages := h.stages_moved
            waiting := fun other cycles' hwaiting => by
              obtain ⟨rfl, rfl⟩ := Prod.mk.inj (Option.some.inj hwaiting)
              refine ⟨hdelay, hrange', by omega, ?_, ?_⟩
              · show s.occupied _ = true
                rw [hsucc]
                exact hbit
              · show s.pipelineReg _ = none
                rw [hsucc]
                exact hempty
            active := rfl
            once := h.once
            ledger := fun other => by
              have hledger := h.ledger_moved other
              rw [dispatchTotal, hdispatch] at hledger
              exact hledger
            due := h.due_moved }
      · -- the interval is over
        have hone : cycles = 1 := by omega
        subst hone
        have hstage : s.pipelineReg.shift (inst.latency - inst.initiationInterval) = none := by
          rw [DelayLine.shift, Nat.add_comm]
          exact hempty
        refine ⟨{ s.moved now cfg.pipelineDepth with
            dispatchReg := none
            pipelineReg := s.pipelineReg.shift.load (inst.latency - inst.initiationInterval) inst
            activeInstsInPipeline := s.pipelineReg.shift.total (fun _ => 1) cfg.pipelineDepth + 1 },
          ?_, rfl, ?_⟩
        · have hstart : ¬ (inst.latency < inst.initiationInterval ∨
              cfg.pipelineDepth ≤ inst.latency - inst.initiationInterval) := by omega
          rw [dispatch, moved, hdispatch]
          dsimp only
          rw [if_neg hdelay, if_neg hstart, if_neg (by simp [hstage])]
        · exact {
            fits := h.fits.shift.load hdepth inst
            stages := fun position other hother => by
              cases DelayLine.load_eq_some.mp hother with
              | inl hnew =>
                  obtain ⟨rfl, rfl⟩ := hnew
                  refine ⟨by omega, ?_⟩
                  show s.occupied _ = true
                  rw [Nat.add_comm]
                  exact hbit
              | inr hold => exact h.stages_moved position other hold.2
            waiting := fun _ _ hwaiting => nomatch hwaiting
            active := by
              show _ = DelayLine.total (s.pipelineReg.shift.load _ inst) _ _
              rw [DelayLine.total_load hdepth hstage, Nat.add_comm]
            once := h.once
            ledger := fun other => by
              have hledger := h.ledger_moved other
              rw [dispatchTotal, hdispatch] at hledger
              show _ = _ + (DelayLine.total (s.pipelineReg.shift.load _ inst) _ _ + _)
              rw [DelayLine.total_load hdepth hstage]
              calc s.issued.count other
                  = _ + (s.pipelineReg.shift.total (indicator other) cfg.pipelineDepth
                      + indicator other inst) := hledger
                _ = _ := by rw [Nat.add_comm (indicator other inst)]; rfl
            due := h.due_moved }

theorem cycle_spec (exWb : RegisterSet) (hfree : (s.pipelineReg 0).isSome → 0 < exWb.count none) :
    ∃ t exWb', s.cycle cfg exWb now = .ok (t, exWb') ∧ t.OnTime cfg (now + 1) ∧
      t.occupied = s.occupied.shiftRight ∧
      exWb'.count none + (if (s.pipelineReg 0).isSome then 1 else 0) = exWb.count none ∧
      exWb'.length = exWb.length := by
  obtain ⟨exWb', hcomplete, hcount⟩ := complete_spec h hfree
  obtain ⟨t, hdispatch, hsame, ht⟩ := dispatch_spec h
  refine ⟨{ t with occupied := s.occupied.shiftRight }, exWb', ?_, ht, rfl, hcount⟩
  rw [cycle, hcomplete]
  show ((advance cfg _) >>= _) = _
  rw [advance_spec _ h.fits rfl rfl]
  show ((s.moved now cfg.pipelineDepth).dispatch cfg >>= _) = _
  rw [hdispatch]
  show Except.ok ({ t with occupied := t.occupied.shiftRight }, exWb') = _
  rw [hsame]

/-! ## Issuing -/

omit h in
theorem canIssue_spec {inst : WarpInst} (hrange : cfg.InRange inst) :
    s.canIssue cfg inst = .ok (decide (cfg.kind.accepts inst.op = true ∧ s.dispatchReg = none ∧
      s.occupied inst.latency = false)) := by
  obtain ⟨-, -, hlatency, -⟩ := hrange
  rw [canIssue, Bitset.test, if_pos hlatency]
  by_cases haccept : cfg.kind.accepts inst.op = true ∧ s.dispatchReg = none
  · rw [if_pos haccept]
    show Except.ok (!s.occupied inst.latency) = _
    cases s.occupied inst.latency <;> simp [haccept]
  · rw [if_neg haccept]
    simp only [← and_assoc, haccept, false_and, decide_false]

theorem OnTime.notMem_issued (hempty : s.dispatchReg = none)
    (inst : WarpInst) (hnow : inst.dispatchCycle = now) (hfree : s.occupied inst.latency = false) :
    inst ∉ s.issued := by
  have hleft : inst ∉ s.left.map Prod.fst := by
    intro hmem
    obtain ⟨e, he, rfl⟩ := List.mem_map.mp hmem
    have hdue := h.due e he
    omega
  have hstages : s.pipelineReg.total (indicator inst) cfg.pipelineDepth = 0 := by
    refine DelayLine.total_eq_zero fun position other hother => if_neg fun heq => ?_
    subst heq
    obtain ⟨htime, hbit⟩ := h.stages position other hother
    have hposition : position = other.latency := by omega
    rw [hposition, hfree] at hbit
    cases hbit
  have hcount := h.ledger inst
  rw [List.count_eq_zero_of_not_mem hleft, hstages, dispatchTotal, hempty] at hcount
  exact List.count_eq_zero.mp hcount

end

theorem issue_spec (h : s.OnTime cfg (now + 1)) {inst : WarpInst} (hrange : cfg.InRange inst)
    (hempty : s.dispatchReg = none) (hfree : s.occupied inst.latency = false) :
    ∃ t, s.issue now inst = .ok t ∧ t.OnTime cfg (now + 1) ∧
      t.occupied = Function.update s.occupied inst.latency true ∧
      t.pipelineReg = s.pipelineReg := by
  have hrange' := hrange
  obtain ⟨hpos, hle, hlatency, hdepth⟩ := hrange
  have hbits : ∀ position, s.occupied position = true →
      Function.update s.occupied inst.latency true position = true := by
    intro position hset
    rw [Function.update_apply]
    split_ifs
    · rfl
    · exact hset
  have hstage : inst.initiationInterval + (inst.latency - inst.initiationInterval) =
      inst.latency := by
    omega
  refine ⟨{ s with
      dispatchReg := some ({ inst with dispatchCycle := now + 1 }, inst.initiationInterval)
      occupied := Function.update s.occupied inst.latency true
      issued := s.issued ++ [{ inst with dispatchCycle := now + 1 }] }, ?_, ?_, rfl, rfl⟩
  · rw [issue, hempty, if_neg (by simp), Bitset.set, if_pos hlatency]
    rfl
  · exact {
      fits := h.fits
      stages := fun position other hother => by
        have hstages := h.stages position other hother
        exact ⟨hstages.1, hbits position hstages.2⟩
      waiting := fun other cycles hwaiting => by
        obtain ⟨rfl, rfl⟩ := Prod.mk.inj (Option.some.inj hwaiting)
        refine ⟨hpos, hrange', rfl, ?_, ?_⟩
        · show Function.update s.occupied inst.latency true
            (inst.initiationInterval + (inst.latency - inst.initiationInterval)) = true
          rw [hstage, Function.update_self]
        · show s.pipelineReg (inst.initiationInterval + (inst.latency - inst.initiationInterval)) =
            none
          rw [hstage]
          by_contra hsome
          obtain ⟨other, hother⟩ := Option.ne_none_iff_exists'.mp hsome
          rw [(h.stages _ other hother).2] at hfree
          cases hfree
      active := h.active
      once := h.once.append (List.nodup_singleton _) (by
        simpa using h.notMem_issued hempty { inst with dispatchCycle := now + 1 } rfl hfree)
      ledger := fun other => by
        have hledger := h.ledger other
        rw [dispatchTotal, hempty] at hledger
        rw [List.count_append, hledger]
        simp [dispatchTotal, indicator, List.count_cons, Nat.add_assoc]
      due := h.due }

end SimdUnit

end GpuCalorie.Pipeline
