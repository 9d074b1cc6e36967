/-
# The functional simulator's warp loop

`functionalCoreSim::execute` runs one CTA without timing: it calls `executeWarp`
for every warp in turn, pass after pass. A warp whose last instruction was a
barrier or a memory fence is skipped until the end of a pass in which every live
warp was found stopped; then all of them are released together.

The functional state (threads, memory, SIMT stacks) is a parameter: the loop only
reads the class of the instruction a warp is about to execute, and only learns how
many of its threads finished. The loop itself is kept as an explicit state so that
its passes can be interrupted anywhere, and it records the instructions it issued.
-/

import GpuCalorie.Hardware.Isa
import GpuCalorie.Math.Transition
import Mathlib.Logic.Function.Basic

namespace GpuCalorie.FunctionalSim

open GpuCalorie.Hardware GpuCalorie.Math

universe u

/-- What the warp loop uses of a CTA's functional state: any program is an
instance. Both maps take the functional state and a warp id. -/
structure FunctionalCore (σ : Type u) where
  /-- `getExecuteWarp`: the class of the instruction at the top of the warp's SIMT stack. -/
  getExecuteWarp : σ → ℕ → OpType
  /-- `execute_warp_inst_t`, `do_atomic` and `updateSIMTStack` for that instruction. -/
  executeWarpInst : σ → ℕ → σ
  /-- How many lanes `checkExecutionStatusAndUpdate` finds done after the instruction. -/
  threadsDone : σ → ℕ → ℕ

/-- The loop parameters of one call of `execute`: the number of warps, `inst_count`,
and whether the checkpoint options name this kernel and CTA. -/
structure ExecuteConfig where
  warpCount : ℕ
  instCount : ℕ
  checkpointHere : Bool

/-- The variables of the loop, and the instructions issued so far (newest first). -/
structure ExecuteState (σ : Type u) where
  func : σ
  warpAtBarrier : ℕ → Bool
  liveThreadCount : ℕ → ℕ
  /-- The loop variable `i` of the pass in progress. -/
  warp : ℕ
  allAtBarrier : Bool
  someOneLive : Bool
  count : ℕ
  trace : List (ℕ × OpType)

variable {σ : Type u}

/-- `initializeCTA`: no warp waits, and every warp has its threads. -/
def initializeCTA (func : σ) (threads : ℕ → ℕ) : ExecuteState σ where
  func := func
  warpAtBarrier _ := false
  liveThreadCount := threads
  warp := 0
  allAtBarrier := true
  someOneLive := false
  count := 0
  trace := []

/-- The guard of `executeWarp`: the warp is neither waiting nor finished. -/
def ExecuteState.issues (s : ExecuteState σ) (i : ℕ) : Prop :=
  s.warpAtBarrier i = false ∧ s.liveThreadCount i ≠ 0

instance (s : ExecuteState σ) (i : ℕ) : Decidable (s.issues i) :=
  inferInstanceAs (Decidable (_ ∧ _))

/-- The guarded part of `executeWarp`: issue one instruction of warp `i`. -/
def ExecuteState.issue (core : FunctionalCore σ) (s : ExecuteState σ) (i : ℕ) :
    ExecuteState σ :=
  let op := core.getExecuteWarp s.func i
  { s with
    func := core.executeWarpInst s.func i
    liveThreadCount :=
      Function.update s.liveThreadCount i (s.liveThreadCount i - core.threadsDone s.func i)
    warpAtBarrier :=
      if op = .barrierOp ∨ op = .memoryBarrierOp then Function.update s.warpAtBarrier i true
      else s.warpAtBarrier
    trace := (i, op) :: s.trace }

/-- `functionalCoreSim::executeWarp`. -/
def executeWarp (core : FunctionalCore σ) (s : ExecuteState σ) (i : ℕ) : ExecuteState σ :=
  let s := if s.issues i then s.issue core i else s
  { s with
    someOneLive := s.someOneLive || decide (0 < s.liveThreadCount i)
    allAtBarrier :=
      s.allAtBarrier && !(!s.warpAtBarrier i && decide (0 < s.liveThreadCount i)) }

/-- The end of a pass: leave the loop at a checkpoint or when no thread is left,
and release every warp when all live ones are waiting. -/
def endPass (cfg : ExecuteConfig) (s : ExecuteState σ) : Option (ExecuteState σ) :=
  if 0 < cfg.instCount ∧ cfg.instCount < s.count ∧ cfg.checkpointHere then none
  else if !s.someOneLive then none
  else
    some { s with
      warpAtBarrier := fun i =>
        if s.allAtBarrier && decide (i < cfg.warpCount) then false else s.warpAtBarrier i
      warp := 0
      allAtBarrier := true
      someOneLive := false }

/-- One step of the loop of `execute`: a call of `executeWarp`, or the end of a pass. -/
def execute (core : FunctionalCore σ) (cfg : ExecuteConfig) (s : ExecuteState σ) (_ : Unit) :
    Option (ExecuteState σ) :=
  if s.warp < cfg.warpCount then
    some { executeWarp core s s.warp with warp := s.warp + 1, count := s.count + 1 }
  else endPass cfg s

/-- The runs of `execute` for one CTA, from any functional state and thread counts. -/
def executeSystem (core : FunctionalCore σ) (cfg : ExecuteConfig) :
    TransitionSystem (ExecuteState σ) Unit :=
  .ofStep (fun s => ∃ func threads, s = initializeCTA func threads) (execute core cfg)

/-! ## What the trace records -/

/-- How many `bar.sync` instructions warp `i` has executed. -/
def ExecuteState.barriersReached (s : ExecuteState σ) (i : ℕ) : ℕ :=
  s.trace.count (i, .barrierOp)

/-- The class of the instruction warp `i` executed last. -/
def ExecuteState.lastOp (s : ExecuteState σ) (i : ℕ) : Option OpType :=
  (s.trace.find? fun entry => entry.1 == i).map Prod.snd

variable (core : FunctionalCore σ) (s : ExecuteState σ)
include core s

@[simp]
theorem barriersReached_issue_self (i : ℕ) : (s.issue core i).barriersReached i =
      s.barriersReached i + if core.getExecuteWarp s.func i = .barrierOp then 1 else 0 := by
  by_cases h : core.getExecuteWarp s.func i = .barrierOp <;>
    simp [ExecuteState.barriersReached, ExecuteState.issue, h]

@[simp]
theorem barriersReached_issue_of_ne {i j : ℕ}
    (hne : j ≠ i) : (s.issue core i).barriersReached j = s.barriersReached j := by
  simp [ExecuteState.barriersReached, ExecuteState.issue, hne.symm]

@[simp]
theorem lastOp_issue_self (i : ℕ) :
    (s.issue core i).lastOp i = some (core.getExecuteWarp s.func i) := by
  simp [ExecuteState.lastOp, ExecuteState.issue]

@[simp]
theorem lastOp_issue_of_ne {i j : ℕ} (hne : j ≠ i) : (s.issue core i).lastOp j = s.lastOp j := by
  simp [ExecuteState.lastOp, ExecuteState.issue, hne.symm]

end GpuCalorie.FunctionalSim

/-!
## Barrier order in the functional simulator

A CTA-wide barrier orders the instructions of its warps: nothing after a warp's
`k`-th `bar.sync` runs before every warp that still has threads has reached its own
`k`-th. The loop of `execute` keeps one flag per warp for barriers and memory
fences alike and clears all flags at once, so a release can find one warp at a
`bar.sync` and another at a `membar`. Such a release lets the first warp run ahead.

The order holds in every run in which no release finds warps of both kinds. The
invariant is that all live warps have passed the same number of barriers, except
for one more at the warps that are waiting at a barrier right now.
-/

namespace GpuCalorie.FunctionalSim

open GpuCalorie.Hardware GpuCalorie.Math

universe u

variable {σ : Type u} {core : FunctionalCore σ} {cfg : ExecuteConfig} {s t : ExecuteState σ}
  {round i : ℕ}

/-- The warp whose `executeWarp` call is next, when it is about to issue, has not
passed more barriers than any warp of the CTA that still has live threads. -/
def BarrierOrdered (cfg : ExecuteConfig) (s : ExecuteState σ) : Prop :=
  s.warp < cfg.warpCount → s.issues s.warp →
    ∀ j < cfg.warpCount, 0 < s.liveThreadCount j →
      s.barriersReached s.warp ≤ s.barriersReached j

/-- The live warps of a CTA whose last instruction is of class `op`. -/
def ExecuteState.someLiveAt (cfg : ExecuteConfig) (s : ExecuteState σ) (op : OpType) : Prop :=
  ∃ i < cfg.warpCount, 0 < s.liveThreadCount i ∧ s.lastOp i = some op

instance (s : ExecuteState σ) (op : OpType) : Decidable (s.someLiveAt cfg op) :=
  inferInstanceAs (Decidable (∃ i < cfg.warpCount, _))

/-- A pass that ends with every live warp stopped does not find one stopped at a
`membar` and another at a `bar.sync`. -/
def ReleasesOneKind (cfg : ExecuteConfig) (s : ExecuteState σ) (_ : Unit) : Prop :=
  cfg.warpCount ≤ s.warp → s.allAtBarrier = true →
    s.someLiveAt cfg .memoryBarrierOp → ¬ s.someLiveAt cfg .barrierOp

instance (s : ExecuteState σ) (a : Unit) : Decidable (ReleasesOneKind cfg s a) :=
  inferInstanceAs (Decidable (_ → _ → _ → ¬ _))

/-- A warp is stopped at a barrier, rather than at a memory fence. -/
def ExecuteState.stoppedAtBarrier (s : ExecuteState σ) (i : ℕ) : Bool :=
  s.warpAtBarrier i && s.lastOp i == some .barrierOp

/-- What one live warp contributes to the invariant in round `round`: it has passed
`round` barriers and one more if it is stopped at a barrier, and if it is stopped at
all then at a barrier or a fence. -/
structure InRound (s : ExecuteState σ) (round i : ℕ) : Prop where
  reached : s.barriersReached i = round + (s.stoppedAtBarrier i).toNat
  stopped : s.warpAtBarrier i = true →
    s.lastOp i = some .barrierOp ∨ s.lastOp i = some .memoryBarrierOp

/-- The loop invariant: the live warps are in one round, and `allAtBarrier` is
accurate about the warps the pass has visited. -/
structure LoopInvariant (cfg : ExecuteConfig) (s : ExecuteState σ) : Prop where
  inRound : ∃ round, ∀ i < cfg.warpCount, 0 < s.liveThreadCount i → InRound s round i
  visited : s.allAtBarrier = true → ∀ i < s.warp, 0 < s.liveThreadCount i →
    s.warpAtBarrier i = true

theorem InRound.congr (h : InRound s round i)
    (hflag : t.warpAtBarrier i = s.warpAtBarrier i) (hlast : t.lastOp i = s.lastOp i)
    (hreached : t.barriersReached i = s.barriersReached i) : InRound t round i where
  reached := by
    simpa only [ExecuteState.stoppedAtBarrier, hflag, hlast, hreached] using h.reached
  stopped := by simpa only [hflag, hlast] using h.stopped

theorem InRound.of_running (hrun : s.warpAtBarrier i = false)
    (hreached : s.barriersReached i = round) : InRound s round i where
  reached := by simp [ExecuteState.stoppedAtBarrier, hrun, hreached]
  stopped := by simp [hrun]

theorem InRound.reached_of_ne (h : InRound s round i)
    (hop : s.lastOp i ≠ some .barrierOp) : s.barriersReached i = round := by
  have hbeq : (s.lastOp i == some .barrierOp) = false := beq_false_of_ne hop
  simpa [ExecuteState.stoppedAtBarrier, hbeq] using h.reached

theorem InRound.reached_of_stopped (h : InRound s round i)
    (hflag : s.warpAtBarrier i = true) (hop : s.lastOp i = some .barrierOp) :
    s.barriersReached i = round + 1 := by
  simpa [ExecuteState.stoppedAtBarrier, hflag, hop] using h.reached

theorem loopInvariant_initializeCTA (func : σ) (threads : ℕ → ℕ) :
    LoopInvariant cfg (initializeCTA func threads) where
  inRound := ⟨0, fun i _ _ =>
    { reached := by
        simp [ExecuteState.barriersReached, ExecuteState.stoppedAtBarrier, initializeCTA]
      stopped := by simp [initializeCTA] }⟩
  visited := by simp [initializeCTA]

/-! ## One call of `executeWarp` -/

theorem warpAtBarrier_issue_self (i : ℕ) (running : s.warpAtBarrier i = false) :
    (s.issue core i).warpAtBarrier i = decide (core.getExecuteWarp s.func i = .barrierOp ∨
      core.getExecuteWarp s.func i = .memoryBarrierOp) := by
  simp only [ExecuteState.issue]
  split <;> simp_all

theorem warpAtBarrier_issue_of_ne {i j : ℕ} (hne : j ≠ i) :
    (s.issue core i).warpAtBarrier j = s.warpAtBarrier j := by
  simp only [ExecuteState.issue]
  split <;> simp [hne]

theorem liveThreadCount_issue_of_ne {i j : ℕ} (hne : j ≠ i) :
    (s.issue core i).liveThreadCount j = s.liveThreadCount j := by
  simp [ExecuteState.issue, hne]

theorem InRound.issue_self {i round : ℕ} (h : InRound s round i)
    (running : s.warpAtBarrier i = false) : InRound (s.issue core i) round i where
  reached := by
    have hbefore : s.barriersReached i = round := by
      simpa [ExecuteState.stoppedAtBarrier, running] using h.reached
    by_cases hop : core.getExecuteWarp s.func i = .barrierOp <;>
      simp [ExecuteState.stoppedAtBarrier, warpAtBarrier_issue_self i running, hbefore, hop]
  stopped := by simp [warpAtBarrier_issue_self i running]

theorem InRound.issue_of_ne {i j round : ℕ} (h : InRound s round j) (hne : j ≠ i) :
    InRound (s.issue core i) round j :=
  h.congr (warpAtBarrier_issue_of_ne hne) (lastOp_issue_of_ne core s hne)
    (barriersReached_issue_of_ne core s hne)

section

variable (h : LoopInvariant cfg s)
include h

theorem LoopInvariant.issue (hissue : s.issues s.warp) :
    LoopInvariant cfg (s.issue core s.warp) where
  inRound := by
    obtain ⟨round, hround⟩ := h.inRound
    refine ⟨round, fun i hi halive => ?_⟩
    by_cases hself : i = s.warp
    · subst hself
      exact (hround _ hi (Nat.pos_of_ne_zero hissue.2)).issue_self hissue.1
    · rw [liveThreadCount_issue_of_ne hself] at halive
      exact (hround i hi halive).issue_of_ne hself
  visited := by
    intro hall i hi halive
    have hne : i ≠ s.warp := Nat.ne_of_lt hi
    rw [liveThreadCount_issue_of_ne hne] at halive
    rw [warpAtBarrier_issue_of_ne hne]
    exact h.visited hall i hi halive

theorem LoopInvariant.visit {count : ℕ} : LoopInvariant cfg { s with
        someOneLive := s.someOneLive || decide (0 < s.liveThreadCount s.warp)
        allAtBarrier :=
          s.allAtBarrier && !(!s.warpAtBarrier s.warp && decide (0 < s.liveThreadCount s.warp))
        warp := s.warp + 1
        count := count } where
  inRound := by
    obtain ⟨round, hround⟩ := h.inRound
    exact ⟨round, fun i hi halive => (hround i hi halive).congr rfl rfl rfl⟩
  visited := by
    intro hall i hi halive
    obtain ⟨hprior, hcurrent⟩ := Bool.and_eq_true_iff.mp hall
    rcases Nat.lt_succ_iff_lt_or_eq.mp hi with hlt | heq
    · exact h.visited hprior i hlt halive
    · subst heq
      have hpos : 0 < s.liveThreadCount s.warp := halive
      simpa [hpos] using hcurrent

theorem LoopInvariant.executeWarp : LoopInvariant cfg
      { executeWarp core s s.warp with warp := s.warp + 1, count := s.count + 1 } := by
  by_cases hissue : s.issues s.warp
  · rw [FunctionalSim.executeWarp, if_pos hissue]
    exact (h.issue hissue).visit
  · rw [FunctionalSim.executeWarp, if_neg hissue]
    exact h.visit

/-! ## The end of a pass -/

theorem LoopInvariant.endPass (hend : cfg.warpCount ≤ s.warp)
    (hkind : ReleasesOneKind cfg s ()) (hstep : endPass cfg s = some t) :
    LoopInvariant cfg t := by
  obtain ⟨round, hround⟩ := h.inRound
  simp only [FunctionalSim.endPass] at hstep
  split at hstep
  · cases hstep
  split at hstep
  · cases hstep
  cases hstep
  refine ⟨?_, by simp⟩
  by_cases hall : s.allAtBarrier
  · -- every live warp is stopped and none stays so; `hkind` says at what they were stopped
    have hstopped : ∀ i < cfg.warpCount, 0 < s.liveThreadCount i → s.warpAtBarrier i = true :=
      fun i hi halive => h.visited hall i (hi.trans_le hend) halive
    by_cases hfence : s.someLiveAt cfg .memoryBarrierOp
    · refine ⟨round, fun i hi halive => .of_running (by simp [hall, hi]) ?_⟩
      have hop : s.lastOp i ≠ some .barrierOp := fun hop =>
        hkind hend hall hfence ⟨i, hi, halive, hop⟩
      exact (hround i hi halive).reached_of_ne hop
    · refine ⟨round + 1, fun i hi halive => .of_running (by simp [hall, hi]) ?_⟩
      have hop : s.lastOp i = some .barrierOp :=
        ((hround i hi halive).stopped (hstopped i hi halive)).resolve_right fun hop =>
          hfence ⟨i, hi, halive, hop⟩
      exact (hround i hi halive).reached_of_stopped (hstopped i hi halive) hop
  · have hflag : s.allAtBarrier = false := by simpa using hall
    refine ⟨round, fun i hi halive => (hround i hi halive).congr ?_ rfl rfl⟩
    simp [hflag]

/-! ## Runs -/

theorem LoopInvariant.execute (hkind : ReleasesOneKind cfg s ())
    (hstep : execute core cfg s () = some t) : LoopInvariant cfg t := by
  simp only [FunctionalSim.execute] at hstep
  split at hstep
  case isTrue => cases hstep; exact h.executeWarp
  case isFalse hend => exact h.endPass (Nat.le_of_not_lt hend) hkind hstep

omit h in
theorem LoopInvariant.of_reachable
    (reached : ((executeSystem core cfg).restrict (ReleasesOneKind cfg)).Reachable s) :
    LoopInvariant cfg s := by
  refine reached.invariant ?_ ?_
  · rintro _ ⟨func, threads, rfl⟩
    exact loopInvariant_initializeCTA func threads
  · rintro s a t - ih ⟨hkind, hstep⟩
    exact ih.execute hkind hstep

theorem LoopInvariant.barrierOrdered : BarrierOrdered cfg s := by
  obtain ⟨round, hround⟩ := h.inRound
  intro hwarp hissue j hj halive
  have hself := (hround _ hwarp (Nat.pos_of_ne_zero hissue.2)).reached
  have hother := (hround j hj halive).reached
  simp only [ExecuteState.stoppedAtBarrier, hissue.1] at hself
  simp only [hself, hother, Bool.false_and, Bool.toNat_false]
  omega

end

/-- In every run of `execute` in which no release finds live warps stopped both at a
`membar` and at a `bar.sync`, no warp runs ahead of a barrier. -/
theorem barrierOrdered_of_releasesOneKind (core : FunctionalCore σ) (cfg : ExecuteConfig)
    (s : ExecuteState σ)
    (reached : ((executeSystem core cfg).restrict (ReleasesOneKind cfg)).Reachable s) :
    BarrierOrdered cfg s :=
  (LoopInvariant.of_reachable reached).barrierOrdered

/-! ## A fence that opens a barrier -/

/-- Warps that run straight-line programs: the functional state is the number of
instructions each warp has executed, and a warp's one thread finishes at its last. -/
def straightLine (program : ℕ → List OpType) : FunctionalCore (ℕ → ℕ) where
  getExecuteWarp pcs i := ((program i)[pcs i]?).getD .noOp
  executeWarpInst pcs i := Function.update pcs i (pcs i + 1)
  threadsDone pcs i := if pcs i + 1 = (program i).length then 1 else 0

/-- Warp 0 waits at a barrier, then computes; warp 1 executes a fence before its
barrier. -/
def fenceThenBarrier : ℕ → List OpType
  | 0 => [.barrierOp, .aluOp, .exitOps]
  | _ => [.memoryBarrierOp, .barrierOp, .exitOps]

/-- Two warps, no checkpoint. -/
def twoWarps : ExecuteConfig := ⟨2, 0, false⟩

/-- The state after the first pass (warp 0 at its barrier, warp 1 at its fence): both
are released, and warp 0 is about to compute although warp 1 has not reached its first
barrier. -/
theorem not_barrierOrdered_fenceThenBarrier :
    ¬ ∀ s, (executeSystem (straightLine fenceThenBarrier) twoWarps).Reachable s →
      BarrierOrdered twoWarps s := by
  intro hordered
  have hreached := TransitionSystem.Reachable.exec [(), (), ()]
    (.init ⟨fun _ => 0, fun _ => 1, rfl⟩ :
      (executeSystem (straightLine fenceThenBarrier) twoWarps).Reachable _) rfl
  exact absurd (hordered _ hreached (by decide) (by decide) 1 (by decide) (by decide)) (by decide)

/-- Two warps that run `bar.sync; alu; exit` stay in order: after their common release
warp 0 is about to compute, and warp 1 has reached its first barrier too. -/
theorem barrierOrdered_of_releasesOneKind_twoBarriers :
    ∃ s, TransitionSystem.exec
        (execute (straightLine fun _ => [.barrierOp, .aluOp, .exitOps]) twoWarps)
        (initializeCTA (fun _ => 0) fun _ => 1) [(), (), ()] = some s ∧
      s.barriersReached 0 = 1 ∧ s.barriersReached 0 ≤ s.barriersReached 1 := by
  have hreached := TransitionSystem.Reachable.execGuarded [(), (), ()]
    (.init ⟨fun _ => 0, fun _ => 1, rfl⟩ :
      ((executeSystem (straightLine fun _ => [.barrierOp, .aluOp, .exitOps]) twoWarps).restrict
        (ReleasesOneKind twoWarps)).Reachable _) rfl
  exact ⟨_, rfl, by decide,
    barrierOrdered_of_releasesOneKind _ _ _ hreached (by decide) (by decide) 1 (by decide)
      (by decide)⟩

end GpuCalorie.FunctionalSim
