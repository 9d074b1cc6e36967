/-
# Kernels are retired after their children

In every run in which no kernel is retired while its uid is in `m_finished_kernel`, each kernel
is retired once, after its children and as soon as it can be, every uid that is looked up has a
stream, and the operations of a stream are done in order. Where a child and its parent are both
in `m_finished_kernel`, in that order, the child takes the parent with it, and the null pointer
is used when the parent's turn comes.
-/

import GpuCalorie.Streams.Run

namespace GpuCalorie.Streams

open GpuCalorie.Math

/-- How kernels are retired. -/
structure StreamManager.Retirement (s : StreamManager) : Prop where
  once : s.retired.Nodup
  done : ∀ u ∈ s.retired, (s.kernels u).done = true
  /-- The children are retired before. -/
  ordered : ∀ later u before, s.retired = later ++ u :: before →
    ∀ c, (s.kernels c).parent = some u → c ∈ before
  /-- A kernel is retired when it is taken from `m_finished_kernel`, or with its last child. -/
  retired : ∀ u, (s.kernels u).done = true → u ∉ s.finishedKernel →
    (∀ c, (s.kernels c).parent = some u → c ∈ s.retired) → u ∈ s.retired
  lookedUp : ∀ u ∈ s.finishedKernel, s.gridIdToStream u ≠ none
  /-- The parent of a kernel is looked up when the kernel is retired. -/
  parent : ∀ c p, (s.kernels c).parent = some p → c ∉ s.retired → s.gridIdToStream p ≠ none
  inOrder : ∀ sid, (s.stream sid).InOrder

theorem StreamManager.Sound.retirement {s : StreamManager} {waiting : ℕ → ℕ} (h : s.Sound waiting)
    (hwaits : s.Waiting) : s.Retirement where
  once := h.family.retired_nodup
  done := h.launched.retired_done
  ordered := h.family.ordered
  retired u hdone hout hchildren := by
    rcases h.launched.done u hdone with hretired | hgrid
    · exact hretired
    · refine absurd ?_ (hwaits.waits u hdone hgrid hout (Option.some_ne_none u))
      refine List.eq_nil_iff_forall_not_mem.mpr fun c hc => ?_
      obtain ⟨hparent, hleft⟩ := (h.family.children_iff u c).mp hc
      exact hleft (hchildren c hparent)
  lookedUp := hwaits.finished
  parent := h.launched.parent
  inOrder := h.queues.inOrder

theorem Threads.Sound.init : ({} : Threads).Sound := ⟨.init, .init, .init⟩

variable {cfg : StreamConfig}

/-- In every run in which no kernel is retired while its uid is in `m_finished_kernel`, kernels
are retired as they should be, and nothing fails. -/
theorem retirement_of_reachable {r : Except StreamFailure Threads}
    (reached : ((threadSystem cfg).restrict (TransitionSystem.onOk Threads.RetiresTaken)).Reachable
    r) :
    OkOr (fun s => s.manager.Retirement) (fun _ => False) r := by
  have hinvariant : OkOr (fun s => s.Sound ∧ s.manager.Waiting) (fun _ => False) r := by
    refine reached.invariant_ofExcept ?_ ?_
    · rintro _ rfl
      exact ⟨.init, .init⟩
    · intro s event ⟨hsound, hwaits⟩ htaken henabled
      exact (hsound.step cfg event henabled).mono (fun _ h => ⟨h.1, h.2 hwaits htaken⟩)
        fun _ herror => herror.2 hwaits
  exact hinvariant.imp fun s h => h.1.retirement h.2

/-! ## A parent and its child -/

abbrev twoKernels : StreamConfig where
  maxConcurrentKernel := 2
  cudaLaunchBlocking := false
  kernelLaunchLatency := 0

/-- The host launches a kernel, which launches a child. -/
def parentAndChild : List Event :=
  .launch none :: List.replicate 6 (.run .host) ++
    .operation :: List.replicate 4 (.run .sim) ++
    .createStreamCta 1 :: List.replicate 3 (.run .sim) ++
    [.launchDevice 1 1, .launchOneDeviceKernel] ++ List.replicate 3 (.run .sim) ++
    .operation :: List.replicate 4 (.run .sim)

/-- The child finishes and is retired, and then its parent is. -/
theorem retirement_parentAndChild : ∃ s : Threads, s.manager.retired = [1, 2] ∧
    (s.manager.kernels 2).parent = some 1 ∧ s.manager.Retirement := by
  have hrun : ((TransitionSystem.execOk
      (fun s event => Threads.RetiresTaken s event ∧ Threads.Enabled s event)
        (Threads.step twoKernels) {}
      (parentAndChild ++ .finish 2 :: .operation :: List.replicate 4 (.run .sim) ++
        .finish 1 :: .operation :: List.replicate 4 (.run .sim))).any fun s =>
          decide (s.manager.retired = [1, 2] ∧ (s.manager.kernels 2).parent = some 1)) = true := by
    decide +kernel
  obtain ⟨s, hs, hfound⟩ := (Option.any_eq_true _ _).mp hrun
  obtain ⟨hretired, hparent⟩ := of_decide_eq_true hfound
  have hreached : ((threadSystem twoKernels).restrict
      (TransitionSystem.onOk Threads.RetiresTaken)).Reachable (.ok s) :=
    .execOk_restrict _ (.init ⟨_, rfl, rfl⟩) hs
  exact ⟨s, hretired, hparent, (retirement_of_reachable hreached).of_ok rfl⟩

/-- The child and its parent finish before the uid of the child is taken. -/
theorem nullStream_parentAndChild : ∃ r, (threadSystem twoKernels).Reachable r ∧
    ¬ OkOr (fun s => s.manager.Retirement) (fun _ => False) r := by
  have hrun : ((TransitionSystem.execOk Threads.Enabled (Threads.step twoKernels) {}
      (parentAndChild ++ .finish 2 :: .finish 1 :: .operation :: List.replicate 8 (.run .sim) ++
        [.operation])).any fun s =>
          decide (Threads.Enabled s (.run .sim)) && match s.step twoKernels (.run .sim) with
            | .ok _ => false
            | .error e => decide (e = .nullStream)) = true := by
    decide +kernel
  obtain ⟨s, hs, hfound⟩ := (Option.any_eq_true _ _).mp hrun
  obtain ⟨henabled, hfails⟩ := (Bool.and_eq_true _ _).mp hfound
  have hreached : (threadSystem twoKernels).Reachable (.ok s) := .execOk _ (.init ⟨_, rfl, rfl⟩) hs
  refine ⟨_, hreached.step ⟨s, rfl, of_decide_eq_true henabled, rfl⟩, ?_⟩
  cases hstep : s.step twoKernels (.run .sim) with
  | ok t =>
      rw [hstep] at hfails
      cases hfails
  | error e => exact id

end GpuCalorie.Streams
