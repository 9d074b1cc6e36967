/-
# The steps of the two threads

Every step of the threads keeps `Sound`, or looks up a uid that has no stream. That does not
happen where no kernel is retired while its uid is in `m_finished_kernel`.
-/

import GpuCalorie.Streams.Issue
import GpuCalorie.Streams.Threads
import Mathlib.Algebra.GroupWithZero.Nat

namespace GpuCalorie.Streams

open GpuCalorie.Math

/-- The number of launches of a kernel that an instruction pushes. -/
def Instr.launches : Instr → ℕ → ℕ
  | .accept _ (.kernelLaunch v), u => if v = u then 1 else 0
  | _, _ => 0

/-- The number of launches of a kernel that a call is still to push. -/
def launchesOf (p : List Instr) (u : ℕ) : ℕ := (p.map fun i => i.launches u).sum

/-- The number of launches of a kernel that wait to be pushed. -/
def Threads.waiting (s : Threads) (u : ℕ) : ℕ :=
  (s.manager.deviceLaunchOp.map Prod.fst).count u + launchesOf (s.program .host) u +
    launchesOf (s.program .sim) u

/-- What holds of the threads between two steps. -/
def Threads.Sound (s : Threads) : Prop := s.manager.Sound s.waiting

/-! ## Launches in calls -/

section Launches

variable {p q : List Instr} {u : ℕ}

theorem launchesOf_append : launchesOf (p ++ q) u = launchesOf p u + launchesOf q u := by
  rw [launchesOf, List.map_append, List.sum_append]
  rfl

theorem launchesOf_cons (i : Instr) : launchesOf (i :: p) u = i.launches u + launchesOf p u := by
  rw [launchesOf, List.map_cons, List.sum_cons]
  rfl

theorem launchesOf_destroyStreamCall (sid : ℕ) : launchesOf (destroyStreamCall sid) u = 0 := rfl

theorem launchesOf_flatMap {α : Type} (l : List α) {f : α → List Instr}
    (h : ∀ a ∈ l, launchesOf (f a) u = 0) : launchesOf (l.flatMap f) u = 0 := by
  induction l with
  | nil => rfl
  | cons a l ih =>
      rw [List.flatMap_cons, launchesOf_append, h a List.mem_cons_self,
        ih fun b hb => h b (List.mem_cons_of_mem _ hb)]

theorem launchesOf_destroyCtaStreams (s : StreamManager) (deleted : List ℕ) :
    launchesOf (s.destroyCtaStreams deleted) u = 0 :=
  launchesOf_flatMap _ fun _ _ => launchesOf_flatMap _ fun _ _ => launchesOf_destroyStreamCall _

theorem launchesOf_pushCall (cfg : StreamConfig) (target : Option ℕ) (op : StreamOperation) :
    launchesOf (pushCall cfg target op) u = Instr.launches (.accept target op) u := by
  rw [pushCall]
  split_ifs with hblock
  · rw [launchesOf_append, launchesOf_append, launchesOf_cons .lock, launchesOf_cons]
    show 0 + (0 + (Instr.launches (.accept target op) u + 0)) + 0 = _
    omega
  · rw [launchesOf_append, launchesOf_append, launchesOf_cons .lock, launchesOf_cons]
    show 0 + (0 + (Instr.launches (.accept target op) u + 0)) + 0 = _
    omega

end Launches

/-! ## Instructions -/

namespace StreamManager

variable {cfg : StreamConfig} {s : StreamManager} {waiting waiting' : ℕ → ℕ}

/-- No kernel is retired while its uid is in `m_finished_kernel`. -/
def RetiresTaken (s : StreamManager) : Prop :=
  match s.finishedKernel with
  | [] => True
  | uid :: rest => ∀ u ∈ s.unwinds uid, u ∉ rest

instance (s : StreamManager) : Decidable s.RetiresTaken := by
  unfold RetiresTaken
  cases s.finishedKernel <;> infer_instance

variable (h : s.Sound waiting)
include h

theorem Sound.mono (hle : ∀ u, waiting' u ≤ waiting u) : s.Sound waiting' :=
  ⟨h.family, h.queues.mono hle, h.launched⟩

theorem Sound.push (sid : ℕ) (target : Option ℕ) (op : StreamOperation)
    (hwaiting : ∀ u, waiting u = waiting' u + Instr.launches (.accept target op) u) :
    (s.setStream sid ((s.stream sid).push op)).Sound waiting' := by
  refine ⟨h.family, h.queues.push sid (fun u => ?_) fun u hop => ?_, h.launched⟩
  · rw [hwaiting u]
    exact Nat.le_add_right _ _
  · have hone : Instr.launches (.accept target op) u = 1 := by
      rw [hop]
      exact if_pos rfl
    have hsum := hwaiting u
    have hle := h.queues.waiting_le u
    omega

theorem Sound.checkFinishedKernel :
    OkOr (fun p => p.2.Sound waiting ∧ (s.Waiting → s.RetiresTaken → p.2.Waiting) ∧
        ∃ popped uids, p.1 = uids.reverse ∧ { s with finishedKernel := popped }.Unwound p.2 uids ∧
          (∀ uid, s.finishedKernel.head? = some uid →
            s.gridIdToStream uid ≠ none ∧ uids = s.unwinds uid) ∧
          (s.finishedKernel = [] → uids = []))
      (fun e => e = .nullStream ∧ ¬ s.Waiting) s.checkFinishedKernel := by
  rw [StreamManager.checkFinishedKernel]
  cases hfinished : s.finishedKernel with
  | nil =>
      exact ⟨h, fun hwaits _ => hwaits, s.finishedKernel, [], rfl, .refl s, fun _ hnone =>
        (by cases hnone),
        fun _ => rfl⟩
  | cons uid rest =>
      have hlaunched := h.launched
      rw [hfinished] at hlaunched
      have hpop : ({ s with finishedKernel := rest } : StreamManager).Sound waiting :=
        ⟨h.family, h.queues, hlaunched.pop⟩
      by_cases hgrid : s.gridIdToStream uid = none
      · show OkOr _ _ (StreamManager.registerFinishedKernel (uid + 1) uid
          { s with finishedKernel := rest })
        have hnull : StreamManager.registerFinishedKernel (uid + 1) uid
          { s with finishedKernel := rest }
            = .error .nullStream := by
          rw [StreamManager.registerFinishedKernel]
          dsimp only
          rw [hgrid]
        rw [hnull]
        refine ⟨rfl, fun hwaits => ?_⟩
        exact hwaits.finished uid (by rw [hfinished]; exact List.mem_cons_self) hgrid
      · obtain ⟨t, hregister, hsound, hunwound, hwaits⟩ :=
          hpop.registerFinishedKernel (Nat.lt_succ_self uid) hgrid
        show OkOr _ _ (StreamManager.registerFinishedKernel (uid + 1) uid
          { s with finishedKernel := rest })
        rw [hregister]
        refine ⟨hsound, fun hold htaken => ?_, rest, _, rfl, hunwound, ?_, by rintro ⟨⟩⟩
        · rw [RetiresTaken, hfinished] at htaken
          rw [Waiting, hfinished] at hold
          exact hwaits hold.pop htaken
        · intro uid' hhead
          cases hhead
          exact ⟨hgrid, rfl⟩

theorem Sound.exec (cfg : StreamConfig) (i : Instr)
    (hwaiting : ∀ u, waiting u = waiting' u + i.launches u) :
    OkOr (fun p => p.2.Sound waiting' ∧ (∀ u, launchesOf p.1 u = 0) ∧
        p.2.deviceLaunchOp = s.deviceLaunchOp ∧
        (s.Waiting → (∀ loop, i = .checkFinished loop → s.RetiresTaken) → p.2.Waiting))
      (fun e => e = .nullStream ∧ ¬ s.Waiting) (s.exec cfg i) := by
  have hmono : s.Sound waiting' := h.mono fun u => by
    rw [hwaiting u]
    exact Nat.le_add_right _ _
  have hnothing : ∀ u, launchesOf [] u = 0 := fun _ => rfl
  cases i with
  | lock => exact ⟨hmono, hnothing, rfl, fun hwaits _ => hwaits⟩
  | unlock => exact ⟨hmono, hnothing, rfl, fun hwaits _ => hwaits⟩
  | untilEmpty => exact ⟨hmono, hnothing, rfl, fun hwaits _ => hwaits⟩
  | synchronize sid => exact ⟨hmono, hnothing, rfl, fun hwaits _ => hwaits⟩
  | awaitEmpty sid => exact ⟨hmono, hnothing, rfl, fun hwaits _ => hwaits⟩
  | addStream sid =>
      exact ⟨⟨hmono.family, hmono.queues, hmono.launched⟩, hnothing, rfl, fun hwaits _ => hwaits⟩
  | eraseStream sid =>
      exact ⟨⟨hmono.family, hmono.queues, hmono.launched⟩, hnothing, rfl, fun hwaits _ => hwaits⟩
  | testConcurrent =>
      refine ⟨hmono, fun u => ?_, rfl, fun hwaits _ => hwaits⟩
      dsimp only
      split_ifs <;> rfl
  | accept target op =>
      refine OkOr.ite (fun _ => ⟨hmono, hnothing, rfl, fun hwaits _ => hwaits⟩) fun _ => ?_
      cases target with
      | none => exact ⟨h.push 0 none op hwaiting, hnothing, rfl, fun hwaits _ => hwaits⟩
      | some sid =>
          refine OkOr.ite (fun _ => ?_) fun _ => ?_
          · exact ⟨h.push 0 (some sid) op hwaiting, hnothing, rfl, fun hwaits _ => hwaits⟩
          · exact ⟨h.push sid (some sid) op hwaiting, hnothing, rfl, fun hwaits _ => hwaits⟩
  | checkFinished loop =>
      refine hmono.checkFinishedKernel.bind fun p ⟨hsound, hwaits, popped, uids, _, hunwound, _⟩ =>
        ?_
      have hdevice := congrArg StreamManager.deviceLaunchOp hunwound.frame
      refine ⟨hsound, fun u => ?_, hdevice, fun hold htaken => hwaits hold (htaken loop rfl)⟩
      rw [launchesOf_append, launchesOf_destroyCtaStreams]
      split_ifs <;> rfl
  | issue =>
      obtain ⟨t, hissue, hsound, hserved, hwaits⟩ := hmono.issue cfg
      have hdevice := congrArg StreamManager.deviceLaunchOp hserved.frame
      rw [StreamManager.exec, hissue]
      exact ⟨hsound, hnothing, hdevice, fun hold _ => hwaits hold⟩
  | stopRunning =>
      refine ⟨⟨hmono.family, hmono.queues, hmono.launched.stopRunning⟩, hnothing, rfl, fun hold _ =>
        ?_⟩
      exact hold.stopRunning fun u hmem => (h.launched.running u hmem).1

/-! ## Events of the host and of the GPU -/

theorem Sound.newKernel (cfg : StreamConfig) (parent : Option ℕ)
    (hparent : ∀ p ∈ parent, p ∈ s.runningKernels)
    (hwaiting : ∀ u, waiting' u = if u = s.nextUid then 1 else waiting u) :
    (s.newKernel cfg parent).Sound waiting' ∧ (s.Waiting → (s.newKernel cfg parent).Waiting) := by
  have hgrid : ∀ p ∈ parent, s.gridIdToStream p ≠ none := fun p hp =>
    (h.launched.running p (hparent p hp)).1
  have hlive : ∀ p ∈ parent, p < s.nextUid ∧ p ∉ s.retired := by
    intro p hp
    obtain ⟨sid, hsid⟩ := Option.ne_none_iff_exists'.mp (hgrid p hp)
    exact h.queues.not_retired hsid
  have hnew : s.nextUid ∉ s.retired := fun hmem => Nat.lt_irrefl _ (h.family.retired_lt _ hmem)
  have hnoGrid : s.gridIdToStream s.nextUid = none := by
    cases hsome : s.gridIdToStream s.nextUid with
    | none => rfl
    | some sid => exact absurd (h.queues.not_retired hsome).1 (Nat.lt_irrefl _)
  have hnotDone := (h.launched.not_running hnoGrid hnew).2.2
  have hself := s.newKernel_self cfg parent
  have hdone : ∀ u, ((s.newKernel cfg parent).kernels u).done = (s.kernels u).done := by
    intro u
    by_cases heq : u = s.nextUid
    · rw [heq, hself, hnotDone]
    · rw [s.newKernel_of_ne cfg parent heq]
  have hlaunched : Launched (s.newKernel cfg parent).kernels s.runningKernels s.finishedKernel
      s.gridIdToStream s.retired := by
    constructor
    case running_nodup => exact h.launched.running_nodup
    case running => simpa only [hdone] using h.launched.running
    case finished_nodup => exact h.launched.finished_nodup
    case finished => exact h.launched.finished
    case done => simpa only [hdone] using h.launched.done
    case retired_done => simpa only [hdone] using h.launched.retired_done
    case parent =>
      intro c p hc hnot
      by_cases heq : c = s.nextUid
      · rw [heq, hself] at hc
        exact hgrid p hc
      · rw [s.newKernel_of_ne cfg parent heq] at hc
        exact h.launched.parent c p hc hnot
  refine ⟨⟨h.family.newKernel cfg (fun p hp => (hlive p hp).1) fun p hp => (hlive p hp).2,
    h.queues.newKernel h.family.retired_lt hwaiting, hlaunched⟩, fun hwaits => ?_⟩
  refine hwaits.congr hdone fun u hsome => ?_
  by_cases heq : u = s.nextUid
  · refine absurd (List.eq_nil_iff_forall_not_mem.mpr fun c hc => ?_) hsome
    have hbelow := h.family.parent_lt c u ((h.family.children_iff u c).mp hc).1
    omega
  · rw [s.newKernel_of_ne cfg parent heq]
    exact List.append_ne_nil_of_left_ne_nil hsome _

theorem Sound.newCtaStream (uid : ℕ) :
    (s.newCtaStream uid).Sound waiting ∧ (s.Waiting → (s.newCtaStream uid).Waiting) := by
  have hfield : ∀ {α : Type} (field : KernelInfo → α),
      (∀ k streams, field { k with ctaStreams := streams } = field k) →
      ∀ u, field ((s.newCtaStream uid).kernels u) = field (s.kernels u) := by
    intro α field hignores u
    show field (Function.update s.kernels uid _ u) = _
    by_cases heq : u = uid
    · rw [heq, Function.update_self, hignores]
    · rw [Function.update_of_ne heq]
  have hparent := hfield KernelInfo.parent fun _ _ => rfl
  have hdone := hfield KernelInfo.done fun _ _ => rfl
  have hchildren := hfield KernelInfo.children fun _ _ => rfl
  exact ⟨⟨h.family.congr hparent hchildren, h.queues, h.launched.congr hparent hdone⟩,
    fun hwaits => hwaits.congr hdone fun u hsome => (hchildren u).symm ▸ hsome⟩

theorem Sound.finish {uid : ℕ} (hmem : uid ∈ s.runningKernels) :
    (s.finish uid).Sound waiting ∧ (s.Waiting → (s.finish uid).Waiting) := by
  have hfield : ∀ {α : Type} (field : KernelInfo → α),
      (∀ k done, field { k with done := done } = field k) →
      ∀ u, field ((s.finish uid).kernels u) = field (s.kernels u) := by
    intro α field hignores u
    show field (Function.update s.kernels uid _ u) = _
    by_cases heq : u = uid
    · rw [heq, Function.update_self, hignores]
    · rw [Function.update_of_ne heq]
  exact ⟨⟨h.family.congr (hfield KernelInfo.parent fun _ _ => rfl)
    (hfield KernelInfo.children fun _ _ => rfl), h.queues, h.launched.finish hmem⟩,
    fun hwaits => hwaits.finish (h.launched.running uid hmem).1⟩

end StreamManager

/-! ## Steps -/

theorem launchesOf_update (program : Thread → List Instr) (t : Thread) (p : List Instr) (u : ℕ) :
    launchesOf (Function.update program t p .host) u +
      launchesOf (Function.update program t p .sim) u
        + launchesOf (program t) u
      = launchesOf (program .host) u + launchesOf (program .sim) u + launchesOf p u := by
  cases t with
  | host =>
      rw [Function.update_self, Function.update_of_ne (by decide)]
      omega
  | sim =>
      rw [Function.update_self, Function.update_of_ne (by decide)]
      omega

namespace Threads

variable {cfg : StreamConfig} {s : Threads}

/-- Before `check_finished_kernel`, no kernel is retired while its uid is in
`m_finished_kernel`. -/
def RetiresTaken (s : Threads) : Event → Prop
  | .run t => ∀ i ∈ (s.program t).head?, ∀ loop, i = .checkFinished loop → s.manager.RetiresTaken
  | _ => True

instance (s : Threads) (event : Event) : Decidable (s.RetiresTaken event) :=
  match event with
  | .run t => inferInstanceAs (Decidable (∀ i ∈ (s.program t).head?, ∀ _, _ → _))
  | .createStream | .destroyStream _ | .launch _ | .push _ _ | .waitEvent _ _ _ | .operation
  | .hitMax | .stopAllRunningKernels | .finish _ | .createStreamCta _ | .launchDevice _ _
  | .launchOneDeviceKernel => inferInstanceAs (Decidable True)

theorem Sound.call {t : Thread} {p : List Instr} {m : StreamManager} (waiting : ℕ → ℕ)
    (h : m.Sound waiting) (hidle : s.program t = [])
    (hwaiting : ∀ u, waiting u + (s.manager.deviceLaunchOp.map Prod.fst).count u
      = s.waiting u + (m.deviceLaunchOp.map Prod.fst).count u + launchesOf p u) :
    (s.call t p m).Sound := by
  refine StreamManager.Sound.mono h fun u => ?_
  have hupdate := launchesOf_update s.program t p u
  have hsum := hwaiting u
  rw [hidle] at hupdate
  change _ + 0 = _ at hupdate
  rw [Threads.waiting] at hsum
  show (m.deviceLaunchOp.map Prod.fst).count u +
    launchesOf (Function.update s.program t p .host) u +
    launchesOf (Function.update s.program t p .sim) u ≤ waiting u
  omega

theorem Sound.run (h : s.Sound) (cfg : StreamConfig) (t : Thread) :
    OkOr (fun s' => s'.Sound ∧
        (s.manager.Waiting → s.RetiresTaken (.run t) → s'.manager.Waiting))
      (fun e => e = .nullStream ∧ ¬ s.manager.Waiting) (s.run cfg t) := by
  rw [Threads.run]
  cases hprogram : s.program t with
  | nil => exact ⟨h, fun hwaits _ => hwaits⟩
  | cons i rest =>
      have hsplit : ∀ u, s.waiting u
          = (s.waiting u - i.launches u) + i.launches u := by
        intro u
        have hle : launchesOf (s.program t) u ≤ s.waiting u := by
          rw [waiting]
          cases t <;> omega
        rw [hprogram, launchesOf_cons] at hle
        omega
      refine (StreamManager.Sound.exec h cfg i hsplit).bind
        fun p ⟨hsound, hnothing, hdevice, hwaits⟩ => ?_
      refine ⟨StreamManager.Sound.mono hsound fun u => ?_, fun hold htaken =>
        hwaits hold fun loop hi => ?_⟩
      · have hupdate := launchesOf_update s.program t (p.1 ++ rest) u
        rw [launchesOf_append, hnothing u, hprogram, launchesOf_cons] at hupdate
        show (p.2.deviceLaunchOp.map Prod.fst).count u
          + launchesOf (Function.update s.program t (p.1 ++ rest) .host) u
          + launchesOf (Function.update s.program t (p.1 ++ rest) .sim) u ≤ _
        rw [hdevice]
        have hwaiting : s.waiting u = (s.manager.deviceLaunchOp.map Prod.fst).count u
            + launchesOf (s.program .host) u + launchesOf (s.program .sim) u := rfl
        omega
      · exact htaken i (by rw [hprogram]; rfl) loop hi

theorem Sound.step (h : s.Sound) (cfg : StreamConfig) (event : Event) (henabled : s.Enabled event) :
    OkOr (fun s' => s'.Sound ∧ (s.manager.Waiting → s.RetiresTaken event → s'.manager.Waiting))
      (fun e => e = .nullStream ∧ ¬ s.manager.Waiting) (s.step cfg event) := by
  have hnew : ∀ u, (if u = s.manager.nextUid then 1 else s.waiting u)
      = s.waiting u + if u = s.manager.nextUid then 1 else 0 := by
    intro u
    split_ifs with heq
    · have hnone : s.waiting u = 0 := by
        by_contra hpos
        have hlt := (h.queues.waiting u (Nat.pos_of_ne_zero hpos)).1
        omega
      rw [hnone]
    · rfl
  cases event with
  | run t => exact h.run cfg t
  | createStream =>
      refine ⟨Sound.call s.waiting ⟨h.family, h.queues, h.launched⟩ henabled fun u => ?_,
        fun hwaits _ => hwaits⟩
      rfl
  | destroyStream sid =>
      refine ⟨Sound.call s.waiting ⟨h.family, h.queues, h.launched⟩ henabled.1 fun u => ?_,
        fun hwaits _ => hwaits⟩
      rfl
  | launch target =>
      obtain ⟨hsound, hwaits⟩ := StreamManager.Sound.newKernel h cfg none
        (fun _ hp => nomatch hp) fun _ => rfl
      refine ⟨Sound.call _ hsound henabled.1 fun u => ?_, fun hold _ => hwaits hold⟩
      rw [hnew u, launchesOf_pushCall]
      show s.waiting u + (if u = s.manager.nextUid then 1 else 0) +
        (s.manager.deviceLaunchOp.map Prod.fst).count u
        = s.waiting u + (s.manager.deviceLaunchOp.map Prod.fst).count u + if s.manager.nextUid =
          u then 1 else 0
      rw [if_congr eq_comm rfl rfl]
      omega
  | push target op =>
      refine ⟨Sound.call s.waiting h henabled.1 fun u => ?_, fun hwaits _ => hwaits⟩
      rw [launchesOf_pushCall]
      cases op with
      | kernelLaunch uid => exact absurd rfl (henabled.2.2 uid)
      | memcpy => rfl
      | event e => rfl
      | waitEvent e count => rfl
  | waitEvent sid event count =>
      refine ⟨Sound.call s.waiting h henabled.1 fun u => ?_, fun hwaits _ => hwaits⟩
      rw [launchesOf_pushCall]
      rfl
  | operation =>
      refine ⟨Sound.call s.waiting h henabled.1 fun u => ?_, fun hwaits _ => hwaits⟩
      rfl
  | hitMax => exact ⟨⟨h.family, h.queues, h.launched⟩, fun hwaits _ => hwaits⟩
  | stopAllRunningKernels =>
      refine ⟨Sound.call s.waiting h henabled.1.1 fun u => ?_, fun hwaits _ => hwaits⟩
      rfl
  | finish uid =>
      obtain ⟨hsound, hwaits⟩ := StreamManager.Sound.finish h henabled.2.1
      exact ⟨hsound, fun hold _ => hwaits hold⟩
  | createStreamCta uid =>
      obtain ⟨hsound, hwaits⟩ := StreamManager.Sound.newCtaStream h uid
      refine ⟨Sound.call _ hsound henabled.1.1 fun u => ?_, fun hold _ => hwaits hold⟩
      rfl
  | launchDevice uid sid =>
      have hwaiting : ∀ u, Threads.waiting { s with manager :=
        { s.manager.newKernel cfg (some uid) with
          deviceLaunchOp := s.manager.deviceLaunchOp ++ [(s.manager.nextUid, sid)] } } u
            = if u = s.manager.nextUid then 1 else s.waiting u := by
        intro u
        rw [hnew u, Threads.waiting, Threads.waiting]
        dsimp only
        rw [List.map_append, List.count_append]
        show _ + [s.manager.nextUid].count u + _ + _ = _
        rw [List.count_singleton]
        simp only [beq_iff_eq, @eq_comm _ s.manager.nextUid u]
        omega
      obtain ⟨hsound, hwaits⟩ := StreamManager.Sound.newKernel h cfg (some uid)
        (fun p hp => Option.some.inj hp ▸ henabled.2.1.1) hwaiting
      exact ⟨⟨hsound.family, hsound.queues, hsound.launched⟩, fun hold _ => hwaits hold⟩
  | launchOneDeviceKernel =>
      rw [Threads.step]
      cases hdevice : s.manager.deviceLaunchOp with
      | nil => exact ⟨h, fun hwaits _ => hwaits⟩
      | cons first rest =>
          obtain ⟨uid, sid⟩ := first
          refine ⟨Sound.call s.waiting ⟨h.family, h.queues, h.launched⟩ henabled.1.1 fun u => ?_,
            fun hwaits _ => hwaits⟩
          rw [hdevice, launchesOf_pushCall, List.map_cons, List.count_cons]
          show _ + (_ + if (uid == u) = true then 1 else 0) = _ + _ + if uid = u then 1 else 0
          simp only [beq_iff_eq]
          omega

end Threads

end GpuCalorie.Streams
