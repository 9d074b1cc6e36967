/-
# The next operation is performed

`issue` has the front operation of a stream begin, and either the operation is done, or it is a
kernel that the GPU has launched, or it is cancelled and the stream is as it was.
-/

import GpuCalorie.Streams.Unwind

namespace GpuCalorie.Streams

namespace StreamManager

variable {cfg : StreamConfig} {s t v : StreamManager} {waiting : ℕ → ℕ} {uid sid : ℕ}

/-- The kernels that may be retired wait for their children. -/
def Waiting (s : StreamManager) : Prop := Waits s.kernels s.finishedKernel s.gridIdToStream none

/-- What stays when operations are performed. -/
structure Served (s t : StreamManager) : Prop where
  frame : t = { s with
    stream := t.stream
    lastStream := t.lastStream
    gridIdToStream := t.gridIdToStream
    kernels := t.kernels
    runningKernels := t.runningKernels
    updates := t.updates }
  operations : ∀ sid, (t.stream sid).operations <:+ (s.stream sid).operations
  ctaStreams : ∀ u, (t.kernels u).ctaStreams = (s.kernels u).ctaStreams
  parent : ∀ u, (t.kernels u).parent = (s.kernels u).parent

theorem Served.trans (h : s.Served t) (h' : t.Served v) : s.Served v where
  frame := by rw [h'.frame, h.frame]
  operations sid := (h'.operations sid).trans (h.operations sid)
  ctaStreams u := (h'.ctaStreams u).trans (h.ctaStreams u)
  parent u := (h'.parent u).trans (h.parent u)

/-! ## Parts of `issue` -/

variable (h : s.Sound waiting)
include h

theorem Sound.begin (hready : (s.stream sid).ready = true) :
    (s.begin sid).Sound waiting ∧ s.Served (s.begin sid) ∧ (s.Waiting → (s.begin sid).Waiting) := by
  have hidle : (s.stream sid).pending = false :=
    (Bool.not_eq_true' _).mp ((Bool.and_eq_true _ _).mp hready).1
  have hgrid : ∀ u, s.gridIdToStream u ≠ none → (s.begin sid).gridIdToStream u ≠ none := by
    intro u hsome
    rw [s.gridIdToStream_begin sid u]
    split_ifs with hhead
    · exact Option.some_ne_none sid
    · exact hsome
  refine ⟨⟨h.family, h.queues.begin hready, h.launched.begin hgrid⟩, ?_, fun hwaits => ?_⟩
  · exact ⟨rfl, suffix_update List.suffix_rfl, fun _ => rfl, fun _ => rfl⟩
  · refine hwaits.grid (fun u _ => hgrid u) fun u hdone hsome => ?_
    rw [s.gridIdToStream_begin sid u] at hsome
    split_ifs at hsome with hhead
    · have hnone := h.queues.grid_eq_none hhead hidle
      have hlive := (h.queues.queued sid u (CUstream.launches_pos_of_head hhead)).2
      have hbusy := (h.launched.not_running hnone hlive).2.2
      exact Bool.noConfusion (hbusy.symm.trans hdone)
    · exact hsome

theorem Sound.done (hpending : (s.stream sid).pending = true)
    (hop : ∀ u, (s.stream sid).operations.head? ≠ some (.kernelLaunch u)) :
    ∃ t, s.recordNextDone sid = .ok t ∧ t.Sound waiting ∧ s.Served t ∧ (s.Waiting → t.Waiting) := by
  obtain ⟨t, hdone, hops, hidle, hinOrder⟩ := (h.queues.inOrder sid).recordNextDone hpending
  refine ⟨s.setStream sid t, ?_, ?_, ?_, id⟩
  · rw [StreamManager.recordNextDone, hdone]
    rfl
  · exact ⟨h.family, h.queues.recordNextDone hops hidle hinOrder hop, h.launched⟩
  · exact ⟨rfl, suffix_update (hops ▸ List.tail_suffix _), fun _ => rfl, fun _ => rfl⟩

theorem Sound.cancel (hpending : (s.stream sid).pending = true)
    {op : StreamOperation} (hop : (s.stream sid).operations.head? = some op)
    (hkernel : ∀ u, op ≠ .kernelLaunch u) :
    ∃ t, s.cancel sid op = .ok t ∧ t.Sound waiting ∧ s.Served t ∧ (s.Waiting → t.Waiting) := by
  obtain ⟨t, hcancel, hops, hidle, hinOrder⟩ := (h.queues.inOrder sid).cancelFront hpending
  have hqueues : Queues (Function.update s.stream sid t) s.gridIdToStream s.nextUid s.retired
      waiting := by
    refine h.queues.setStream hinOrder (fun u => ?_) (fun u => ?_) fun _ _ _ => Iff.rfl
    · rw [CUstream.launches, hops]
      exact le_rfl
    · refine iff_of_false (fun hgrid => ?_) fun hfront => ?_
      · have hhead := (h.queues.front hgrid).2
        exact hkernel u (Option.some.inj (hop.symm.trans hhead))
      · rw [CUstream.Front, hidle] at hfront
        exact Bool.false_ne_true hfront.1
  refine ⟨s.setStream sid t, ?_, ⟨h.family, hqueues, h.launched⟩, ?_, id⟩
  · show ((s.stream sid).cancelFront >>= _) = _
    rw [hcancel]
    cases op with
    | kernelLaunch u => exact absurd rfl (hkernel u)
    | memcpy => rfl
    | event e => rfl
    | waitEvent e count => rfl
  · exact ⟨rfl, suffix_update (hops ▸ List.suffix_rfl), fun _ => rfl, fun _ => rfl⟩

section

variable (hready : (s.stream sid).ready = true)
include hready

section

variable (hhead : (s.stream sid).operations.head? = some (.kernelLaunch uid))
include hhead

theorem Sound.launch :
    ({ s.begin sid with runningKernels := s.runningKernels ++ [uid] } : StreamManager).Sound
    waiting := by
  have hidle : (s.stream sid).pending = false :=
    (Bool.not_eq_true' _).mp ((Bool.and_eq_true _ _).mp hready).1
  have hbegin := (h.begin hready).1
  have hlive := (h.queues.queued sid uid (CUstream.launches_pos_of_head hhead)).2
  have hgrid : (s.begin sid).gridIdToStream uid ≠ none := by
    rw [s.gridIdToStream_begin sid uid, if_pos hhead]
    exact Option.some_ne_none sid
  exact ⟨h.family, hbegin.queues,
    hbegin.launched.launch h.launched (h.queues.grid_eq_none hhead hidle) hgrid hlive⟩

theorem Sound.postpone (latency : ℕ) : ∃ t, ({ s.begin sid with
        kernels := Function.update s.kernels uid { s.kernels uid with launchLatency := latency } } :
          StreamManager).cancel sid (.kernelLaunch uid) = .ok t ∧
      t.Sound waiting ∧ s.Served t ∧ (s.Waiting → t.Waiting) := by
  have hidle : (s.stream sid).pending = false :=
    (Bool.not_eq_true' _).mp ((Bool.and_eq_true _ _).mp hready).1
  have hnone := h.queues.grid_eq_none hhead hidle
  have hlive := (h.queues.queued sid uid (CUstream.launches_pos_of_head hhead)).2
  obtain ⟨hbegin, -, hwaiting⟩ := h.begin hready
  have hself : (s.begin sid).stream sid = (s.stream sid).next := Function.update_self _ _ _
  obtain ⟨t, hcancel, hops, hpending, hinOrder⟩ :=
    ((h.queues.inOrder sid).next hready).cancelFront rfl
  have hfield : ∀ {α : Type} (field : KernelInfo → α),
      (∀ k latency, field { k with launchLatency := latency } = field k) → ∀ u, field
        (Function.update s.kernels uid { s.kernels uid with launchLatency := latency } u)
          = field (s.kernels u) := by
    intro α field hignores u
    by_cases heq : u = uid
    · rw [heq, Function.update_self, hignores]
    · rw [Function.update_of_ne heq]
  have hgrid : (s.begin sid).gridIdToStream uid = some sid := by
    rw [s.gridIdToStream_begin sid uid, if_pos hhead]
  refine ⟨{ s.begin sid with
    stream := Function.update (s.begin sid).stream sid t
    gridIdToStream := Function.update (s.begin sid).gridIdToStream uid none
    kernels := Function.update s.kernels uid { s.kernels uid with launchLatency := latency } },
    ?_, ⟨?_, ?_, ?_⟩, ?_, fun hwaits => ?_⟩
  · show (((s.begin sid).stream sid).cancelFront >>= _) = _
    rw [hself, hcancel]
    rfl
  · exact h.family.congr (hfield KernelInfo.parent fun _ _ => rfl)
      (hfield KernelInfo.children fun _ _ => rfl)
  · refine hbegin.queues.leave hgrid (fun u => ?_) hpending hinOrder
    rw [hself, CUstream.launches, hops]
    exact le_rfl
  · exact (hbegin.launched.cancel h.launched hnone hlive).congr
      (hfield KernelInfo.parent fun _ _ => rfl)
      (hfield KernelInfo.done fun _ _ => rfl)
  · refine ⟨rfl, fun sid' => ?_, hfield KernelInfo.ctaStreams fun _ _ => rfl,
      hfield KernelInfo.parent fun _ _ => rfl⟩
    show (Function.update (Function.update s.stream sid _) sid t sid').operations <:+ _
    rw [Function.update_idem]
    exact suffix_update (hops ▸ List.suffix_rfl) sid'
  · have hdone := hfield KernelInfo.done fun _ _ => rfl
    have hchildren := hfield KernelInfo.children fun _ _ => rfl
    refine ((hwaiting hwaits).congr hdone fun u hsome => (hchildren u).symm ▸ hsome).grid
      (fun u hmem hsome => ?_)
      fun u _ hsome => ?_
    · have hne : u ≠ uid := by
        rintro rfl
        exact (h.launched.not_running hnone hlive).2.1 hmem
      show Function.update (s.begin sid).gridIdToStream uid none u ≠ none
      rwa [Function.update_of_ne hne]
    · have hne : u ≠ uid := by
        rintro rfl
        exact hsome (Function.update_self _ _ _)
      change Function.update (s.begin sid).gridIdToStream uid none u ≠ none at hsome
      rwa [Function.update_of_ne hne] at hsome

end

/-! ## `issue` -/

theorem Sound.perform {op : StreamOperation} (hhead : (s.stream sid).operations.head? = some op) :
    ∃ t, ((s.begin sid).doOperation cfg sid op >>= fun done =>
        if done.1 then .ok done.2 else done.2.cancel sid op) = .ok t ∧
      t.Sound waiting ∧ s.Served t ∧ (s.Waiting → t.Waiting) := by
  obtain ⟨hbegin, hserved, hwaiting⟩ := h.begin hready
  have hself : (s.begin sid).stream sid = (s.stream sid).next := Function.update_self _ _ _
  have hpending : ((s.begin sid).stream sid).pending = true := by
    rw [hself]
    rfl
  have hfront : ((s.begin sid).stream sid).operations.head? = some op := by
    rw [hself]
    exact hhead
  have hother : (∀ u, op ≠ .kernelLaunch u) →
      ∀ u, ((s.begin sid).stream sid).operations.head? ≠ some (.kernelLaunch u) := by
    intro hkernel u hsame
    exact hkernel u (Option.some.inj (hfront.symm.trans hsame))
  cases op with
  | memcpy =>
      obtain ⟨t, hdone, hsound, hserved', hwaits⟩ :=
        hbegin.done hpending (hother (by rintro _ ⟨⟩))
      refine ⟨t, ?_, hsound, hserved.trans hserved', hwaits ∘ hwaiting⟩
      show (((s.begin sid).recordNextDone sid >>= _) >>= _) = _
      rw [hdone]
      rfl
  | kernelLaunch uid =>
      rw [doOperation]
      split_ifs with hcan
      · refine ⟨_, rfl, h.launch hready hhead,
          hserved.trans ⟨rfl, fun _ => List.suffix_rfl, fun _ => rfl,
          fun _ => rfl⟩, hwaiting⟩
      · exact h.postpone hready hhead _
  | event e =>
      have hupdated : ({ s.begin sid with
          updates := Function.update s.updates e (s.updates e + 1) } : StreamManager).Sound
            waiting :=
        ⟨hbegin.family, hbegin.queues, hbegin.launched⟩
      obtain ⟨t, hdone, hsound, hserved', hwaits⟩ :=
        hupdated.done hpending (hother (by rintro _ ⟨⟩))
      refine ⟨t, ?_, hsound, (hserved.trans ?_).trans hserved', hwaits ∘ hwaiting⟩
      · exact congrArg (fun x =>
          (x >>= fun s => pure (true, s)) >>= fun done : Bool × StreamManager =>
          if done.1 then .ok done.2 else done.2.cancel sid (.event e)) hdone
      · exact ⟨rfl, fun _ => List.suffix_rfl, fun _ => rfl, fun _ => rfl⟩
  | waitEvent e count =>
      rw [doOperation]
      split_ifs with hcan
      · obtain ⟨t, hdone, hsound, hserved', hwaits⟩ :=
          hbegin.done hpending (hother (by rintro _ ⟨⟩))
        refine ⟨t, ?_, hsound, hserved.trans hserved', hwaits ∘ hwaiting⟩
        show (((s.begin sid).recordNextDone sid >>= _) >>= _) = _
        rw [hdone]
        rfl
      · obtain ⟨t, hcancel, hsound, hserved', hwaits⟩ :=
          hbegin.cancel hpending hfront (by rintro _ ⟨⟩)
        exact ⟨t, hcancel, hsound, hserved.trans hserved', hwaits ∘ hwaiting⟩

end

omit h in
theorem exists_head_of_ready {t : CUstream} (h : t.ready = true) :
    ∃ op, t.operations.head? = some op := by
  obtain ⟨-, hsome⟩ := (Bool.and_eq_true _ _).mp h
  cases hops : t.operations with
  | nil =>
      rw [hops] at hsome
      cases hsome
  | cons op rest => exact ⟨op, rfl⟩

theorem Sound.issue (cfg : StreamConfig) :
    ∃ t, s.issue cfg = .ok t ∧ t.Sound waiting ∧ s.Served t ∧ (s.Waiting → t.Waiting) := by
  have hserve : ∀ (v : StreamManager) (sid : ℕ), v.Sound waiting → (v.stream sid).ready = true →
      ∃ op, ((v.begin sid).stream sid).operations.head? = some op ∧
        ∃ t, ((v.begin sid).doOperation cfg sid op >>= fun done =>
            if done.1 then .ok done.2 else done.2.cancel sid op) = .ok t ∧
          t.Sound waiting ∧ v.Served t ∧ (v.Waiting → t.Waiting) := by
    intro v sid hv hready
    obtain ⟨op, hhead⟩ := exists_head_of_ready hready
    refine ⟨op, ?_, hv.perform hready hhead⟩
    rw [show (v.begin sid).stream sid = (v.stream sid).next from Function.update_self _ _ _]
    exact hhead
  rw [StreamManager.issue, front]
  split_ifs with hzero
  · obtain ⟨op, hhead, hperform⟩ := hserve s 0 h hzero
    dsimp only
    rw [hhead]
    exact hperform
  · cases hfind : s.candidates.find? fun sid => (s.stream sid).ready with
    | none =>
        refine ⟨_, rfl, ⟨h.family, h.queues, h.launched⟩, ?_, id⟩
        exact ⟨rfl, fun _ => List.suffix_rfl, fun _ => rfl, fun _ => rfl⟩
    | some sid =>
        have hready := List.find?_some hfind
        obtain ⟨op, hhead, t, hissue, hsound, hserved, hwaits⟩ :=
          hserve { s with lastStream := some sid } sid ⟨h.family, h.queues, h.launched⟩ hready
        dsimp only
        rw [hhead]
        refine ⟨t, hissue, hsound, Served.trans ?_ hserved, hwaits⟩
        exact ⟨rfl, fun _ => List.suffix_rfl, fun _ => rfl, fun _ => rfl⟩

end StreamManager

end GpuCalorie.Streams
