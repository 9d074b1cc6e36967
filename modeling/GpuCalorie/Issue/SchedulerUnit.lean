/-
# The cycle of a scheduler

`scheduler_unit::cycle` goes through the warps in the order of the cycle, and issues from the
first that has an instruction to issue, up to `gpgpu_max_insn_issue_per_warp` of them. A warp
from which nothing is issued may still lose its instruction buffer to a control hazard, or wait
for a launch by the device.

The core is the environment: what `cycle` asks it and has it do is any function of its state.
With the order of `order_lrr` a warp that could issue is overtaken once by each other at most.
-/

import GpuCalorie.Issue.TwoLevelScheduler
import GpuCalorie.Math.RoundRobin

namespace GpuCalorie.Issue

open GpuCalorie.Hardware GpuCalorie.Math

/-- `exec_unit_type_t`, with the number of a specialized unit. -/
inductive ExecUnit
  | sp | sfu | mem | dp | int | tensor
  | specialized (id : Fin 8)
  deriving DecidableEq, Repr

/-- The specialized units are of one type. -/
def ExecUnit.type : ExecUnit → ExecUnit
  | .specialized _ => .specialized 0
  | unit => unit

/-- `shader_core_config`, as far as the scheduler reads it. -/
structure SchedulerConfig where
  maxInsnIssuePerWarp : ℕ
  dualIssueDiffExecUnits : Bool
  /-- `gpgpu_num_sp_units` and so on, and `num_units` of a specialized unit. -/
  numUnits : ExecUnit → ℕ
  /-- `m_specialized_unit.size()` -/
  numSpecialized : ℕ
  cdpLatency : ℕ → ℕ

/-- `warp_inst_t`, as far as the scheduler looks at it. -/
structure NextInst where
  inst : Inst
  isCdp : ℕ

/-- What the scheduler asks the core and its warps, and has them do. -/
structure IssueCore (σ : Type) where
  doneExit : σ → ℕ → Bool
  waiting : σ → ℕ → Bool
  ibufferEmpty : σ → ℕ → Bool
  ibufferNextInst : σ → ℕ → Option NextInst
  ibufferNextValid : σ → ℕ → Bool
  instInPipeline : σ → ℕ → Bool
  /-- The PC of `get_pdom_stack_top_info`. -/
  stackTopPc : σ → ℕ → ℕ
  activeCount : σ → ℕ → ℕ
  regTable : σ → RegTable
  /-- `has_free` of the registers in front of the units. -/
  hasFree : σ → ExecUnit → Bool
  cdpLatency : σ → ℕ → ℕ
  cdpDummy : σ → ℕ → Bool
  setCdp : σ → ℕ → ℕ → Bool → σ
  /-- `set_next_pc` and `ibuffer_flush`. -/
  flush : σ → ℕ → ℕ → σ
  /-- `issue_warp`, and the `ibuffer_step` of `do_on_warp_issued`. -/
  issueWarp : σ → ExecUnit → NextInst → ℕ → σ

/-- The assertions of `cycle`. -/
inductive IssueFailure
  /-- `warp(warp_id).m_cdp_dummy` -/
  | cdpDummy
  /-- `valid` -/
  | invalid
  /-- `warp(warp_id).inst_in_pipeline()` -/
  | notInPipeline
  /-- `spec_id < m_shader->m_config->m_specialized_unit.size()` -/
  | specId
  deriving DecidableEq, Repr

section Warp

variable (cfg : SchedulerConfig)

/-- The unit has a free register, and the instruction before was not issued to its type where
that matters. -/
def admits (hasFree : ExecUnit → Bool) (previous : Option ExecUnit) (unit : ExecUnit) : Bool :=
  hasFree unit && !(cfg.dualIssueDiffExecUnits && previous.map ExecUnit.type = some unit.type)

/-- There are such units, and one is admitted. -/
def offer (hasFree : ExecUnit → Bool) (previous : Option ExecUnit) (unit : ExecUnit) :
    Option ExecUnit :=
  if 0 < cfg.numUnits unit ∧ admits cfg hasFree previous unit then some unit else none

/-- Where there are INT units, the SP units are for floating-point operations. -/
def aluUnit (hasFree : ExecUnit → Bool) (previous : Option ExecUnit) (op : OpType) :
    Option ExecUnit :=
  match if op = .spOp then none else offer cfg hasFree previous .int with
  | some unit => some unit
  | none => if cfg.numUnits .int = 0 ∨ op = .spOp then offer cfg hasFree previous .sp else none

/-- The unit that an instruction is issued to. -/
def selectUnit (hasFree : ExecUnit → Bool) (previous : Option ExecUnit) (op : OpType) :
    Except IssueFailure (Option ExecUnit) :=
  if isMemOp op then .ok (if admits cfg hasFree previous .mem then some .mem else none)
  else
    match op with
    | .dpOp => .ok (offer cfg hasFree previous (if 0 < cfg.numUnits .dp then .dp else .sfu))
    | .sfuOp => .ok (offer cfg hasFree previous .sfu)
    | .tensorCoreOp => .ok (offer cfg hasFree previous .tensor)
    | .specializedUnitOp k =>
        if cfg.dualIssueDiffExecUnits && previous.map ExecUnit.type = some (.specialized 0) then
          .ok none
        else if k.val < cfg.numSpecialized then .ok (offer cfg hasFree previous (.specialized k))
        else .error .specId
    | op => .ok (aluUnit cfg hasFree previous op)

variable {σ : Type} (core : IssueCore σ)

/-- An instruction that passes the scoreboard. A launch by the device waits before it is issued,
where it goes to the INT or SP units. -/
def issueReady (s : σ) (w : ℕ) (next : NextInst) (previous : Option ExecUnit) :
    Except IssueFailure (σ × Option ExecUnit) := do
  if !core.instInPipeline s w then .error .notInPipeline
  match ← selectUnit cfg (core.hasFree s) previous next.inst.op with
  | none => pure (s, none)
  | some unit =>
      if (unit = .int ∨ unit = .sp) ∧ next.isCdp ≠ 0 then
        if core.cdpDummy s w then
          pure (core.issueWarp (core.setCdp s w (core.cdpLatency s w) false) unit next w, some unit)
        else
          let latency := cfg.cdpLatency (next.isCdp - 1) +
            if next.isCdp = 1 then 0 else cfg.cdpLatency next.isCdp * core.activeCount s w
          pure (core.setCdp s w latency true, none)
      else pure (core.issueWarp s unit next w, some unit)

/-- The body of the loop for a warp, with the unit to which the next instruction was issued. -/
def issueNext (s : σ) (w : ℕ) (previous : Option ExecUnit) :
    Except IssueFailure (σ × Option ExecUnit) :=
  match core.ibufferNextInst s w with
  | none =>
      -- after a return in a diverged warp
      .ok (if core.ibufferNextValid s w then core.flush s w (core.stackTopPc s w) else s, none)
  | some next =>
      if next.isCdp ≠ 0 ∧ 0 < core.cdpLatency s w then
        if core.cdpDummy s w then .ok (core.setCdp s w (core.cdpLatency s w - 1) true, none)
        else .error .cdpDummy
      else if !core.ibufferNextValid s w then .error .invalid
      else if core.stackTopPc s w ≠ next.inst.pc then
        .ok (core.flush s w (core.stackTopPc s w), none)
      else if checkCollision (core.regTable s) w next.inst then .ok (s, none)
      else issueReady cfg core s w next previous

/-- The loop for a warp, and the units that were issued to. With `checked <= issued` it goes on
after an instruction that was issued only. -/
def issueLoop (s : σ) (w : ℕ) : ℕ → Option ExecUnit → Except IssueFailure (σ × List ExecUnit)
  | 0, _ => .ok (s, [])
  | more + 1, previous =>
      if core.waiting s w || core.ibufferEmpty s w then .ok (s, [])
      else do
        let (s, unit) ← issueNext cfg core s w previous
        match unit with
        | none => pure (s, [])
        | some unit =>
            let (s, units) ← issueLoop s w more (some unit)
            pure (s, unit :: units)

/-- What is issued from a warp in its turn. A warp that is done has none. -/
def issueFrom (s : σ) (w : ℕ) : Except IssueFailure (σ × List ExecUnit) :=
  if core.doneExit s w then .ok (s, []) else issueLoop cfg core s w cfg.maxInsnIssuePerWarp none

/-- The loop over the warps, with the warp that issued and the units. -/
def cycleLoop (s : σ) : List ℕ → Except IssueFailure (σ × Option (ℕ × List ExecUnit))
  | [] => .ok (s, none)
  | w :: rest => do
      let (s, units) ← issueFrom cfg core s w
      if units = [] then cycleLoop s rest else pure (s, some (w, units))

end Warp

/-- `scheduler_unit`, of the warps it supervises. The place of the last one that issued is their
number at first. -/
structure SchedulerUnit (supervised : List ℕ) where
  lastIssued : ℕ
  lastIssued_le : lastIssued ≤ supervised.length
  nodup : supervised.Nodup

variable {σ : Type} {supervised : List ℕ}

namespace SchedulerUnit

variable (cfg : SchedulerConfig) (core : IssueCore σ) (u : SchedulerUnit supervised)

/-- `cycle`, in the order of the cycle. -/
def cycle (s : σ) (order : List ℕ) :
    Except IssueFailure (SchedulerUnit supervised × σ × Option (ℕ × List ExecUnit)) := do
  let (s, issued) ← cycleLoop cfg core s order
  match issued with
  | none => pure (u, s, none)
  | some (w, units) =>
      pure ({ u with lastIssued := supervised.idxOf w, lastIssued_le := List.idxOf_le_length },
        s, some (w, units))

/-- The cycle of `lrr_scheduler`. -/
def lrrCycle (s : σ) : Option (SchedulerUnit supervised × σ × Option (ℕ × List ExecUnit)) :=
  (orderLrr supervised u.lastIssued supervised.length).toOption.bind fun order =>
    (u.cycle cfg core s order).toOption

/-- The place from which `order_lrr` goes round. -/
def start : ℕ := if u.lastIssued = supervised.length then 0 else u.lastIssued + 1

end SchedulerUnit

variable {cfg : SchedulerConfig} {core : IssueCore σ} {u u' : SchedulerUnit supervised}

/-! ## What is issued in a cycle -/

variable {s s' : σ} {w : ℕ} {hasFree : ExecUnit → Bool} {previous unit : Option ExecUnit}
  {order : List ℕ} {units : List ExecUnit}

/-- What is issued next is issued to another type of unit, where that matters. -/
def Differs (cfg : SchedulerConfig) (first second : ExecUnit) : Prop :=
  cfg.dualIssueDiffExecUnits = true → first.type ≠ second.type

theorem admits_of_offer {u v : ExecUnit} (h : offer cfg hasFree previous v = some u) :
    admits cfg hasFree previous u = true := by
  rw [offer] at h
  split_ifs at h with hv
  cases h
  exact hv.2

theorem admits_of_aluUnit {op : OpType} {u : ExecUnit}
    (h : aluUnit cfg hasFree previous op = some u) : admits cfg hasFree previous u = true := by
  rw [aluUnit] at h
  split at h
  · rename_i heq
    cases h
    split_ifs at heq
    exact admits_of_offer heq
  · split_ifs at h
    exact admits_of_offer h

theorem selectUnit_spec {op : OpType} :
    OkOr (fun unit => ∀ u ∈ unit, admits cfg hasFree previous u = true) (fun _ => True)
      (selectUnit cfg hasFree previous op) := by
  unfold selectUnit
  refine .ite (fun _ u hu => ?_) fun _ => ?_
  · split_ifs at hu with hadmits
    · cases hu
      exact hadmits
    · cases hu
  · split
    case h_4 =>
      refine .ite (fun _ _ hu => ?_) fun _ => .ite (fun _ _ => admits_of_offer) fun _ => trivial
      cases hu
    case h_5 => exact fun _ => admits_of_aluUnit
    all_goals exact fun _ => admits_of_offer

theorem issueNext_spec : OkOr (fun r => ∀ u ∈ r.2, ∀ p ∈ previous, Differs cfg p u)
    (fun _ => True) (issueNext cfg core s w previous) := by
  have hnone : ∀ s' : σ, OkOr (fun r : σ × Option ExecUnit => ∀ u ∈ r.2, ∀ p ∈ previous,
      Differs cfg p u) (fun _ : IssueFailure => True) (.ok (s', none)) :=
    fun _ _ hu => by cases hu
  rw [issueNext]
  cases core.ibufferNextInst s w with
  | none => exact hnone _
  | some next =>
      refine .ite (fun _ => .ite (fun _ => hnone _) fun _ => trivial) fun _ => ?_
      refine .ite (fun _ => trivial) fun _ => .ite (fun _ => hnone _) fun _ => ?_
      refine .ite (fun _ => hnone _) fun _ => ?_
      rw [issueReady]
      refine .ite (fun _ => trivial) fun _ => ?_
      refine selectUnit_spec.bind fun unit hadmits => ?_
      cases unit with
      | none => exact hnone _
      | some u =>
          have hissued : ∀ v ∈ some u, ∀ p ∈ previous, Differs cfg p v := by
            intro v hv p hp hdiff htype
            have hv := hadmits v hv
            rw [Option.mem_def.mp hp] at hv
            simp [admits, hdiff, htype] at hv
          exact .ite (fun _ => .ite (fun _ => hissued) fun _ => hnone _) fun _ => hissued

/-- So many are issued, each to another type of unit than the one before. -/
theorem issueLoop_spec {more : ℕ} :
    OkOr (fun r => r.2.length ≤ more ∧ (previous.toList ++ r.2).IsChain (Differs cfg))
      (fun _ => True) (issueLoop cfg core s w more previous) := by
  have hstop : ∀ (previous : Option ExecUnit) more (s' : σ),
      OkOr (fun r : σ × List ExecUnit => r.2.length ≤ more ∧
        (previous.toList ++ r.2).IsChain (Differs cfg)) (fun _ : IssueFailure => True)
        (.ok (s', [])) := by
    intro previous more s'
    refine ⟨Nat.zero_le _, ?_⟩
    cases previous with
    | none => exact .nil
    | some p => exact .singleton p
  induction more generalizing s previous with
  | zero => exact hstop _ 0 s
  | succ more ih =>
      rw [issueLoop]
      refine .ite (fun _ => hstop _ _ _) fun _ => issueNext_spec.bind ?_
      rintro ⟨s', unit⟩ hunit
      cases unit with
      | none => exact hstop _ _ _
      | some u =>
          refine (@ih s' (some u)).bind ?_
          rintro ⟨s'', units⟩ ⟨hlength, hchain⟩
          refine ⟨Nat.succ_le_succ hlength, ?_⟩
          cases previous with
          | none => exact hchain
          | some p => exact .cons_cons (hunit u rfl p rfl) hchain

/-! ## Turns -/

/-- A warp issues in its turn. -/
def Issues (cfg : SchedulerConfig) (core : IssueCore σ) (s : σ) (w : ℕ) : Prop :=
  ∃ r ∈ (issueFrom cfg core s w).toOption, r.2 ≠ []

instance (cfg : SchedulerConfig) (core : IssueCore σ) (s : σ) (w : ℕ) :
    Decidable (Issues cfg core s w) :=
  inferInstanceAs (Decidable (∃ r ∈ _, _))

/-- The core after the turns of warps that issue nothing. Those that would issue are left out. -/
def passOver (cfg : SchedulerConfig) (core : IssueCore σ) : σ → List ℕ → σ
  | s, [] => s
  | s, w :: rest =>
    match issueFrom cfg core s w with
    | .ok (s', []) => passOver cfg core s' rest
    | _ => passOver cfg core s rest

/-- None of some warps issues in its turn. -/
def NoneIssues (cfg : SchedulerConfig) (core : IssueCore σ) (s : σ) (order : List ℕ) : Prop :=
  ∀ a v b, order = a ++ v :: b → ¬ Issues cfg core (passOver cfg core s a) v

/-- A warp of the order issues, the first to do so in its turn. -/
structure IssuesFirst (cfg : SchedulerConfig) (core : IssueCore σ) (s : σ) (order : List ℕ)
    (w : ℕ) (units : List ExecUnit) (before : List ℕ) : Prop where
  split : ∃ after, order = before ++ w :: after
  result : ∃ s', issueFrom cfg core (passOver cfg core s before) w = .ok (s', units)
  some : units ≠ []
  first : NoneIssues cfg core s before

theorem noneIssues_cons {v : ℕ} {rest : List ℕ} (hfrom : issueFrom cfg core s v = .ok (s', []))
    (h : NoneIssues cfg core s' rest) : NoneIssues cfg core s (v :: rest) := by
  intro a v' b hsplit
  cases a with
  | nil =>
      cases hsplit
      rintro ⟨r, hr, hne⟩
      rw [passOver, hfrom] at hr
      cases hr
      exact hne rfl
  | cons x a =>
      cases hsplit
      rw [passOver, hfrom]
      exact h a v' b rfl

theorem cycleLoop_spec : OkOr
    (fun r => (r.2 = none → NoneIssues cfg core s order) ∧
      ∀ w units, r.2 = some (w, units) → ∃ pre, IssuesFirst cfg core s order w units pre)
    (fun _ => True) (cycleLoop cfg core s order) := by
  induction order generalizing s with
  | nil =>
      constructor
      · intro _ a v b hsplit
        cases a <;> cases hsplit
      · intro w units h
        cases h
  | cons v rest ih =>
      rw [cycleLoop]
      refine OkOr.bind_eq (P := fun _ => True) ?_ ?_
      · cases issueFrom cfg core s v <;> trivial
      rintro ⟨s', units⟩ hfrom -
      refine .ite (fun hnone => ?_) fun hsome => ?_
      · rw [hnone] at hfrom
        have hpass : ∀ a, passOver cfg core s (v :: a) = passOver cfg core s' a := by
          intro a
          rw [passOver, hfrom]
        refine ih.imp fun r hr => ⟨fun h => noneIssues_cons hfrom (hr.1 h), fun w units' hw => ?_⟩
        obtain ⟨pre, ⟨after, hsplit⟩, ⟨s'', hresult⟩, hunits, hfirst⟩ := hr.2 w units' hw
        refine ⟨v :: pre, ⟨after, by rw [hsplit, List.cons_append]⟩, ⟨s'', ?_⟩, hunits,
          noneIssues_cons hfrom hfirst⟩
        rwa [hpass]
      · constructor
        · intro h
          cases h
        · intro w units' hw
          cases hw
          refine ⟨[], ⟨rest, rfl⟩, ⟨s', hfrom⟩, hsome, fun a v' b hpre => ?_⟩
          cases a <;> cases hpre

theorem cycle_spec : OkOr
    (fun r => (r.2.2 = none ∧ r.1.lastIssued = u.lastIssued ∧ NoneIssues cfg core s order) ∨
      ∃ w units pre, r.2.2 = some (w, units) ∧ r.1.lastIssued = supervised.idxOf w ∧
        IssuesFirst cfg core s order w units pre)
    (fun _ => True) (u.cycle cfg core s order) := by
  refine cycleLoop_spec.bind ?_
  rintro ⟨s', issued⟩ hissued
  cases issued with
  | none => exact .inl ⟨rfl, rfl, hissued.1 rfl⟩
  | some result =>
      obtain ⟨w, units⟩ := result
      obtain ⟨pre, hfirst⟩ := hissued.2 w units rfl
      exact .inr ⟨w, units, pre, rfl, rfl, hfirst⟩

/-- In a cycle instructions of one warp are issued, no more than may be, and where it matters
no two in a row to the same type of unit. -/
theorem cycle_issues (h : u.cycle cfg core s order = .ok (u', s', some (w, units))) :
    w ∈ order ∧ 0 < units.length ∧ units.length ≤ cfg.maxInsnIssuePerWarp ∧
      units.IsChain (Differs cfg) := by
  rcases cycle_spec.of_ok h with ⟨hnone, -⟩ | ⟨w', units', pre, hsome, -, hfirst⟩
  · cases hnone
  cases hsome
  obtain ⟨⟨after, hsplit⟩, ⟨s'', hresult⟩, hunits, -⟩ := hfirst
  refine ⟨?_, List.length_pos_iff.mpr hunits, ?_⟩
  · rw [hsplit]
    exact List.mem_append_right _ List.mem_cons_self
  · rw [issueFrom] at hresult
    split_ifs at hresult with hdone
    · cases hresult
      exact absurd rfl hunits
    · exact issueLoop_spec.of_ok hresult

theorem lrrCycle_eq :
    u.lrrCycle cfg core s = (u.cycle cfg core s (supervised.rotate u.start)).toOption := by
  have hstart : u.start ≤ supervised.length := by
    have hle := u.lastIssued_le
    rw [SchedulerUnit.start]
    split_ifs <;> omega
  have horder : orderLrr supervised u.lastIssued supervised.length =
      .ok (supervised.rotate u.start) := by
    rw [orderLrr, if_pos le_rfl]
    change Except.ok (orderLrrLoop supervised supervised.length u.start) = _
    rw [TwoLevelScheduler.orderLrrLoop_eq le_rfl hstart,
      List.take_of_length_le (List.length_rotate _ _).le]
  rw [SchedulerUnit.lrrCycle, horder]
  rfl

/-- Instructions may be issued two at a time, to units of different types. -/
def dualIssue : SchedulerConfig where
  maxInsnIssuePerWarp := 2
  dualIssueDiffExecUnits := true
  numUnits _ := 1
  numSpecialized := 0
  cdpLatency _ := 0

/-- `add` and `add.f32` by turns, from any warp. -/
def additions (op : OpType) (h : isMemOp op = false) : NextInst where
  inst :=
    { pc := 0, isize := 8, op := op, isLoad := false
      load_of_out := by simp [h]
      barrier := fun _ => rfl }
  isCdp := 0

/-- A core that counts what was issued. -/
def countingCore : IssueCore ℕ where
  doneExit _ _ := false
  waiting _ _ := false
  ibufferEmpty _ _ := false
  ibufferNextInst s _ :=
    some (if s % 2 = 0 then additions .intpOp rfl else additions .spOp rfl)
  ibufferNextValid _ _ := true
  instInPipeline _ _ := true
  stackTopPc _ _ := 0
  activeCount _ _ := 32
  regTable _ _ := ∅
  hasFree _ _ := true
  cdpLatency _ _ := 0
  cdpDummy _ _ := false
  setCdp s _ _ _ := s
  flush s _ _ := s
  issueWarp s _ _ _ := s + 1

/-- A scheduler of three warps at first. -/
def threeWarps : SchedulerUnit [5, 7, 9] := ⟨3, le_rfl, by decide⟩

theorem cycle_issues_dual :
    threeWarps.cycle dualIssue countingCore 0 [5, 7, 9] =
        .ok ({ threeWarps with lastIssued := 0, lastIssued_le := Nat.zero_le 3 }, 2,
          some (5, [.int, .sp])) ∧
      [ExecUnit.int, .sp].IsChain (Differs dualIssue) := by
  have hrun : threeWarps.cycle dualIssue countingCore 0 [5, 7, 9] =
      .ok ({ threeWarps with lastIssued := 0, lastIssued_le := Nat.zero_le 3 }, 2,
        some (5, [.int, .sp])) := rfl
  exact ⟨hrun, (cycle_issues hrun).2.2.2⟩

/-- A cycle issues nothing only where no warp would issue in its turn. -/
theorem cycle_idle (h : u.cycle cfg core s order = .ok (u', s', none)) :
    NoneIssues cfg core s order := by
  rcases cycle_spec.of_ok h with ⟨-, -, hnone⟩ | ⟨w, units, pre, hsome, -⟩
  · exact hnone
  · cases hsome

/-- Without free registers in front of the units. -/
theorem cycle_idle_full :
    NoneIssues dualIssue { countingCore with hasFree := fun _ _ => false } 0 [5, 7, 9] := by
  have hrun : threeWarps.cycle dualIssue { countingCore with hasFree := fun _ _ => false } 0
      [5, 7, 9] = .ok (threeWarps, 0, none) := rfl
  exact cycle_idle hrun

/-- What happens to a core: a cycle of its scheduler, and anything else. -/
inductive SchedulerAction (σ : Type)
  | cycle
  | other (change : σ → σ)

/-- The arbiter of the warps that an `lrr_scheduler` supervises, by their places. A warp may be
served when it would issue in its turn. -/
def lrrTurns (cfg : SchedulerConfig) (core : IssueCore σ) (supervised : List ℕ) :
    RoundRobin.Arbiter (SchedulerUnit supervised × σ) (SchedulerAction σ) where
  step
    | (u, s), .cycle => (u.lrrCycle cfg core s).map fun r => (r.1, r.2.1)
    | (u, s), .other change => some (u, change s)
  pointer state := state.1.start
  served
    | (u, s), .cycle =>
        (u.lrrCycle cfg core s).bind fun r => r.2.2.map fun issued => supervised.idxOf issued.1
    | _, .other _ => none
  may
    | (u, s), .cycle, p => ∃ w ∈ supervised[p]?,
        Issues cfg core (passOver cfg core s ((supervised.rotate u.start).takeWhile (· ≠ w))) w
    | _, .other _, _ => False

theorem takeWhile_ne {a b : List ℕ} {v : ℕ} (h : (a ++ v :: b).Nodup) :
    (a ++ v :: b).takeWhile (· ≠ v) = a := by
  rw [List.takeWhile_append_of_pos]
  · rw [List.takeWhile_cons_of_neg (by simp), List.append_nil]
  · rintro x hx
    have hne := (List.nodup_append.mp h).2.2 x hx v List.mem_cons_self
    exact decide_eq_true hne

/-- Who issues is served, as the round goes from the start on. -/
theorem serves_of_issuesFirst {pre : List ℕ}
    (h : IssuesFirst cfg core s (supervised.rotate u.start) w units pre) :
    RoundRobin.Serves supervised.length u.start ((lrrTurns cfg core supervised).may (u, s) .cycle)
      (supervised.idxOf w) := by
  obtain ⟨after, hsplit⟩ := h.split
  have hnodup : (pre ++ w :: after).Nodup := hsplit ▸ List.nodup_rotate.mpr u.nodup
  have hlength : pre.length < supervised.length := by
    have hall := congrArg List.length hsplit
    rw [List.length_rotate, List.length_append, List.length_cons] at hall
    omega
  have hplace : supervised.idxOf w = (pre.length + u.start) % supervised.length := by
    have hw : (supervised.rotate u.start)[pre.length]? = some w := by
      rw [hsplit, List.getElem?_append_right le_rfl, Nat.sub_self, List.getElem?_cons_zero]
    rw [List.getElem?_rotate hlength, List.getElem?_eq_some_iff] at hw
    obtain ⟨hlt, hw⟩ := hw
    rw [← hw, u.nodup.idxOf_getElem]
  have hmem : w ∈ supervised := by
    rw [← List.mem_rotate (n := u.start), hsplit]
    exact List.mem_append_right _ List.mem_cons_self
  refine ⟨List.idxOf_lt_length_iff.mpr hmem, ⟨w, List.getElem?_idxOf hmem, ?_⟩, ?_⟩
  · obtain ⟨s', hresult⟩ := h.result
    rw [hsplit, takeWhile_ne hnodup]
    exact ⟨(s', units), by rw [hresult]; rfl, h.some⟩
  · intro other hother hmay
    obtain ⟨w', hw', hissues⟩ := hmay
    rw [hplace, RoundRobin.distance_rotate hlength]
    by_contra hlt
    -- its turn would have come before
    have hbefore : pre[RoundRobin.distance supervised.length u.start other]? = some w' := by
      rw [← List.getElem?_append_left (Nat.not_le.mp hlt), ← hsplit,
        List.getElem?_rotate (RoundRobin.distance_lt hother), RoundRobin.rotate_distance hother]
      exact hw'
    obtain ⟨a, b, hpre⟩ := List.append_of_mem (List.mem_of_getElem? hbefore)
    refine h.first a w' b hpre ?_
    rw [hsplit, hpre, List.append_assoc, List.cons_append, takeWhile_ne] at hissues
    · exact hissues
    · rwa [hpre, List.append_assoc, List.cons_append] at hnodup

theorem lrrTurns_fair : (lrrTurns cfg core supervised).Fair supervised.length := by
  have hcycle : ∀ {u : SchedulerUnit supervised} {s : σ} {r},
      u.lrrCycle cfg core s = some r → (r.2.2 = none ∧ r.1.lastIssued = u.lastIssued ∧
          NoneIssues cfg core s (supervised.rotate u.start)) ∨
        ∃ w units pre, r.2.2 = some (w, units) ∧ r.1.lastIssued = supervised.idxOf w ∧
          IssuesFirst cfg core s (supervised.rotate u.start) w units pre := by
    intro u s r hr
    rw [lrrCycle_eq] at hr
    cases hresult : u.cycle cfg core s (supervised.rotate u.start) with
    | error e =>
        rw [hresult] at hr
        cases hr
    | ok r' =>
        rw [hresult] at hr
        cases hr
        exact cycle_spec.of_ok hresult
  constructor
  case serves =>
    rintro ⟨u, s⟩ action state' d hstep hserved
    cases action with
    | other change => cases hserved
    | cycle =>
        obtain ⟨r, hr, rfl⟩ := Option.map_eq_some_iff.mp hstep
        change (u.lrrCycle cfg core s).bind _ = _ at hserved
        rw [hr, Option.bind_some] at hserved
        rcases hcycle hr with ⟨hnone, -⟩ | ⟨w, units, pre, hsome, hlast, hfirst⟩
        · rw [hnone] at hserved
          cases hserved
        · rw [hsome] at hserved
          cases hserved
          have hserves := serves_of_issuesFirst hfirst
          refine ⟨hserves, ?_⟩
          change r.1.start % supervised.length = _
          rw [SchedulerUnit.start, hlast, if_neg hserves.lt.ne]
  case keeps =>
    rintro ⟨u, s⟩ action state' hstep hserved
    cases action with
    | other change =>
        cases hstep
        rfl
    | cycle =>
        obtain ⟨r, hr, rfl⟩ := Option.map_eq_some_iff.mp hstep
        change (u.lrrCycle cfg core s).bind _ = _ at hserved
        rw [hr, Option.bind_some] at hserved
        rcases hcycle hr with ⟨-, hlast, -⟩ | ⟨w, units, pre, hsome, -⟩
        · change r.1.start = u.start
          rw [SchedulerUnit.start, SchedulerUnit.start, hlast]
        · rw [hsome] at hserved
          cases hserved

/-- While a warp would issue in its turn in each cycle that another one issues in, and does not,
no other one issues in two of them. -/
theorem lrr_overtaken_once {p : ℕ} (hp : p < supervised.length)
    (state : SchedulerUnit supervised × σ) (actions : List (SchedulerAction σ))
    (hwaits : (lrrTurns cfg core supervised).Waits p state actions)
    (hnot : p ∉ (lrrTurns cfg core supervised).servedIn state actions) :
    ((lrrTurns cfg core supervised).servedIn state actions).Nodup ∧
      ((lrrTurns cfg core supervised).servedIn state actions).length < supervised.length :=
  ⟨RoundRobin.Arbiter.nodup_servedIn lrrTurns_fair hp hwaits hnot,
    RoundRobin.Arbiter.length_servedIn_lt lrrTurns_fair hp hwaits hnot⟩

instance (state : SchedulerUnit supervised × σ) (action : SchedulerAction σ) (p : ℕ) :
    Decidable ((lrrTurns cfg core supervised).may state action p) :=
  match action with
  | .cycle => inferInstanceAs (Decidable (∃ w ∈ supervised[p]?, _))
  | .other _ => isFalse id

/-- Two of three warps issue, while the third waits for its turn. -/
theorem lrr_overtaken_once_run :
    (lrrTurns dualIssue countingCore [5, 7, 9]).servedIn (threeWarps, 0) [.cycle, .cycle] =
        [0, 1] ∧ [0, 1].Nodup ∧ [0, 1].length < 3 := by
  have hserved : (lrrTurns dualIssue countingCore [5, 7, 9]).servedIn (threeWarps, 0)
      [.cycle, .cycle] = [0, 1] := by decide
  have h := @lrr_overtaken_once ℕ [5, 7, 9] dualIssue countingCore 2 (by decide) (threeWarps, 0)
    [.cycle, .cycle] (by decide) (by rw [hserved]; decide)
  rw [hserved] at h
  exact ⟨hserved, h⟩

end GpuCalorie.Issue
