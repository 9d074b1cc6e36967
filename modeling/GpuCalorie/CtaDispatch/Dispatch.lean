/-
# CTAs are dispatched in order

What holds of a GPU between two events. `OnCores` speaks of the CTAs on the cores, which are of
the core's kernel, lie in their places, and are counted by `m_num_cores_running`.
`IssuedInOrder` says that the CTAs issued so far are those that come before `m_next_cta`, each
of them once. With what `InSlots` and `Selected` say this is `Dispatch`, which every event keeps.
-/

import GpuCalorie.CtaDispatch.BeginCta
import GpuCalorie.CtaDispatch.ExitThread
import GpuCalorie.CtaDispatch.Slots

namespace GpuCalorie.CtaDispatch

open GpuCalorie.Math Finset

/-- The number of a kernel's CTAs that are on the cores. -/
def residents (cfg : GpuConfig) (cores : ℕ → ShaderCore) (uid : ℕ) : ℕ :=
  ∑ sid ∈ range cfg.nShader, (cores sid).resident.countP fun r => r.kernel = uid

/-- What holds of the CTAs on the cores. -/
structure OnCores (cfg : GpuConfig) (kernels : ℕ → KernelInfo) (launched : List ℕ)
    (cores : ℕ → ShaderCore) : Prop where
  occupancy : ∀ sid, (cores sid).Occupancy cfg.shader
  kernel : ∀ sid, ∀ r ∈ (cores sid).resident, (cores sid).kernel = some r.kernel
  idle : ∀ sid, (cores sid).resident = [] → (cores sid).kernel = none
  shape : ∀ sid, ∀ r ∈ (cores sid).resident,
    r.size = (kernels r.kernel).threadsPerCta ∧ r.InPlace cfg.shader
  launched : ∀ sid, ∀ r ∈ (cores sid).resident, r.kernel ∈ launched
  running : ∀ uid, (kernels uid).numCoresRunning = residents cfg cores uid

/-- What holds of the CTAs that were issued. -/
structure IssuedInOrder (cfg : GpuConfig) (kernels : ℕ → KernelInfo) (launched : List ℕ)
    (issued : List (ℕ × Dim3)) : Prop where
  fresh : ∀ uid, (kernels uid).activeThreads = 0
  created : ∀ uid, uid ∉ launched → (kernels uid).nextCta = ⟨0, 0, 0⟩
  runnable : ∀ uid ∈ launched, 0 < (kernels uid).threadsPerCta ∧
    (kernels uid).threadsPerCta ≤ cfg.shader.nThreadPerShader
  isNext : ∀ uid ∈ launched, (kernels uid).nextCta.IsNext (kernels uid).gridDim
  issued : ∀ uid c, issued.count (uid, c) =
    if c.InGrid (kernels uid).gridDim ∧
      c.rank (kernels uid).gridDim < (kernels uid).nextCta.rank (kernels uid).gridDim then 1 else 0

/-- The state of a GPU between two events. -/
structure Dispatch (cfg : GpuConfig) (s : Gpu) : Prop where
  onCores : OnCores cfg s.kernels s.launched s.cores
  inSlots : InSlots cfg (fun uid => (s.kernels uid).done) s.launched s.runningKernels
    s.finishedKernel
  selected : Selected cfg s.kernels s.runningKernels s.lastIssuedKernel s.executedKernelUids
  issuedInOrder : IssuedInOrder cfg s.kernels s.launched s.issued

variable {cfg : GpuConfig} {cores : ℕ → ShaderCore} {sid uid : ℕ}

/-! ## Counting CTAs -/

theorem residents_update (cores : ℕ → ShaderCore) (hsid : sid < cfg.nShader) (core : ShaderCore)
    (uid : ℕ) :
    residents cfg (Function.update cores sid core) uid
        + ((cores sid).resident.countP fun r => r.kernel = uid)
      = residents cfg cores uid + core.resident.countP fun r => r.kernel = uid := by
  have hmem : sid ∈ range cfg.nShader := mem_range.mpr hsid
  have hcomp : (fun i => (Function.update cores sid core i).resident.countP fun r => r.kernel = uid)
      = Function.update (fun i => (cores i).resident.countP fun r => r.kernel = uid) sid
        (core.resident.countP fun r => r.kernel = uid) := by
    funext i
    by_cases heq : i = sid
    · rw [heq, Function.update_self, Function.update_self]
    · rw [Function.update_of_ne heq, Function.update_of_ne heq]
  have hsplit := sum_eq_add_sum_sdiff_singleton_of_mem hmem
    fun i => (cores i).resident.countP fun r => r.kernel = uid
  rw [residents, hcomp, sum_update_of_mem hmem, residents, hsplit]
  omega

theorem length_le_residents (hsid : sid < cfg.nShader)
    (hsame : ∀ r ∈ (cores sid).resident, r.kernel = uid) :
    (cores sid).resident.length ≤ residents cfg cores uid := by
  have hall : ((cores sid).resident.countP fun r => r.kernel = uid) = (cores sid).resident.length :=
    List.countP_eq_length.mpr fun r hr => decide_eq_true (hsame r hr)
  rw [← hall]
  exact single_le_sum (f := fun sid => (cores sid).resident.countP fun r => r.kernel = uid)
    (fun _ _ => Nat.zero_le _) (mem_range.mpr hsid)

theorem residents_eq_zero_iff :
    residents cfg cores uid = 0 ↔ ∀ sid < cfg.nShader, ∀ r ∈ (cores sid).resident,
      r.kernel ≠ uid := by
  rw [residents, sum_eq_zero_iff]
  refine forall_congr' fun sid => ?_
  rw [mem_range, List.countP_eq_zero]
  simp only [decide_eq_true_iff, ne_eq]

/-! ## Kernels -/

namespace KernelInfo

variable {k : KernelInfo}

theorem done_eq_false_of_running (h : 0 < k.numCoresRunning) : k.done = false := by
  rw [done, running, decide_eq_true h]
  simp

theorem field_update {α : Type} (field : KernelInfo → α) (kernels : ℕ → KernelInfo) (uid : ℕ)
    (k : KernelInfo) (h : field k = field (kernels uid)) (uid' : ℕ) :
    field (Function.update kernels uid k uid') = field (kernels uid') := by
  by_cases heq : uid' = uid
  · rw [heq, Function.update_self, h]
  · rw [Function.update_of_ne heq]

theorem done_eq_false_of_more (h : k.noMoreCtasToRun = false) : k.done = false := by
  rw [done, h]
  rfl

end KernelInfo

/-! ## What an event changes -/

variable {kernels kernels' : ℕ → KernelInfo} {launched : List ℕ} {issued : List (ℕ × Dim3)}

namespace OnCores

variable (h : OnCores cfg kernels launched cores)
include h

theorem update (hsid : sid < cfg.nShader)
    {core : ShaderCore} {k : KernelInfo} (hoccupancy : core.Occupancy cfg.shader)
    (hkernel : ∀ r ∈ core.resident, core.kernel = some r.kernel)
    (hidle : core.resident = [] → core.kernel = none)
    (hshape : ∀ r ∈ core.resident,
      r.size = (kernels r.kernel).threadsPerCta ∧ r.InPlace cfg.shader)
    (hlaunched : ∀ r ∈ core.resident, r.kernel ∈ launched)
    (hthreads : k.threadsPerCta = (kernels uid).threadsPerCta)
    (hcount : ∀ uid', (Function.update kernels uid k uid').numCoresRunning
        + ((cores sid).resident.countP fun r => r.kernel = uid')
      = (kernels uid').numCoresRunning + core.resident.countP fun r => r.kernel = uid') :
    OnCores cfg (Function.update kernels uid k) launched (Function.update cores sid core) := by
  have hsize := KernelInfo.field_update KernelInfo.threadsPerCta kernels uid k hthreads
  have hcore : ∀ {p : ShaderCore → Prop}, p core → (∀ sid', p (cores sid')) →
      ∀ sid', p (Function.update cores sid core sid') := by
    intro p hnew hold sid'
    by_cases heq : sid' = sid
    · rw [heq, Function.update_self]
      exact hnew
    · rw [Function.update_of_ne heq]
      exact hold sid'
  constructor
  case occupancy => exact hcore hoccupancy h.occupancy
  case kernel =>
      exact hcore (p := fun c => ∀ r ∈ c.resident, c.kernel = some r.kernel) hkernel h.kernel
  case idle => exact hcore (p := fun c => c.resident = [] → c.kernel = none) hidle h.idle
  case shape =>
    simp only [hsize]
    exact hcore (p := fun c => ∀ r ∈ c.resident,
      r.size = (kernels r.kernel).threadsPerCta ∧ r.InPlace cfg.shader) hshape h.shape
  case launched =>
      exact hcore (p := fun c => ∀ r ∈ c.resident, r.kernel ∈ launched) hlaunched h.launched
  case running =>
    intro uid'
    have hupdate := residents_update cores hsid core uid'
    have hrunning := h.running uid'
    have hcount' := hcount uid'
    omega

theorem congr (hthreads : ∀ uid, (kernels' uid).threadsPerCta = (kernels uid).threadsPerCta)
    (hrunning : ∀ uid, (kernels' uid).numCoresRunning = (kernels uid).numCoresRunning) :
    OnCores cfg kernels' launched cores where
  occupancy := h.occupancy
  kernel := h.kernel
  idle := h.idle
  shape := by simpa only [hthreads] using h.shape
  launched := h.launched
  running := by simpa only [hrunning] using h.running

theorem launch (uid : ℕ) : OnCores cfg kernels (uid :: launched) cores where
  occupancy := h.occupancy
  kernel := h.kernel
  idle := h.idle
  shape := h.shape
  launched sid r hr := List.mem_cons_of_mem _ (h.launched sid r hr)
  running := h.running

theorem resident_of_kernel (hkernel : (cores sid).kernel = some uid) :
    uid ∈ launched ∧ ∀ r ∈ (cores sid).resident, r.kernel = uid := by
  have hall : ∀ r ∈ (cores sid).resident, r.kernel = uid := fun r hr =>
    Option.some.inj ((h.kernel sid r hr).symm.trans hkernel)
  cases hresident : (cores sid).resident with
  | nil => cases (h.idle sid hresident).symm.trans hkernel
  | cons r rest =>
      have hr : r ∈ (cores sid).resident := hresident ▸ List.mem_cons_self
      rw [← hresident, ← hall r hr]
      exact ⟨h.launched sid r hr, fun r' hr' => (hall r' hr').trans (hall r hr).symm⟩

theorem nActiveCta_le (hsid : sid < cfg.nShader) {r : Resident}
    (hr : r ∈ (cores sid).resident) : (cores sid).nActiveCta ≤
    (kernels r.kernel).numCoresRunning := by
  rw [(h.occupancy sid).nActiveCta, h.running r.kernel]
  exact length_le_residents hsid (h.resident_of_kernel (h.kernel sid r hr)).2

theorem ctaLeft (hsid : sid < cfg.nShader) {r : Resident}
    (hr : r ∈ (cores sid).resident) {core : ShaderCore} {k : KernelInfo}
    (hoccupancy : core.Occupancy cfg.shader)
    (hresident : core.resident = (cores sid).resident.filter fun r' => r'.ctaId ≠ r.ctaId)
    (hlast : (cores sid).nActiveCta = 1 → core.kernel = none)
    (hothers : (cores sid).nActiveCta ≠ 1 → core.kernel = some r.kernel)
    (hthreads : k.threadsPerCta = (kernels r.kernel).threadsPerCta)
    (hrunning : k.numCoresRunning + 1 = (kernels r.kernel).numCoresRunning) :
    OnCores cfg (Function.update kernels r.kernel k) launched (Function.update cores sid core) := by
  have hold := h.occupancy sid
  have hsame := (h.resident_of_kernel (h.kernel sid r hr)).2
  have hperm := hold.perm_filter hr
  rw [← hresident] at hperm
  have hlength := hperm.length_eq
  rw [← hold.nActiveCta, List.length_cons] at hlength
  have hmem : ∀ r' ∈ core.resident, r' ∈ (cores sid).resident := fun r' hr' =>
    hperm.symm.subset (List.mem_cons_of_mem _ hr')
  refine h.update hsid hoccupancy ?_ ?_ ?_ ?_ hthreads ?_
  · intro r' hr'
    have hlong := List.length_pos_of_mem hr'
    rw [hothers (by omega), hsame r' (hmem r' hr')]
  · intro hnil
    rw [hnil] at hlength
    exact hlast hlength
  · exact fun r' hr' => h.shape sid r' (hmem r' hr')
  · exact fun r' hr' => h.launched sid r' (hmem r' hr')
  · intro uid'
    rw [hperm.countP_eq, List.countP_cons]
    by_cases heq : uid' = r.kernel
    · rw [heq, Function.update_self, if_pos (decide_eq_true rfl)]
      omega
    · have hne : ¬ decide (r.kernel = uid') = true := by simpa using Ne.symm heq
      rw [Function.update_of_ne heq, if_neg hne, Nat.add_zero]

end OnCores

namespace IssuedInOrder

variable (h : IssuedInOrder cfg kernels launched issued)
include h

theorem congr (hgrid : ∀ uid, (kernels' uid).gridDim = (kernels uid).gridDim)
    (hthreads : ∀ uid, (kernels' uid).threadsPerCta = (kernels uid).threadsPerCta)
    (hnext : ∀ uid, (kernels' uid).nextCta = (kernels uid).nextCta)
    (hactive : ∀ uid, (kernels' uid).activeThreads = (kernels uid).activeThreads) :
    IssuedInOrder cfg kernels' launched issued where
  fresh := by simpa only [hactive] using h.fresh
  created := by simpa only [hnext] using h.created
  runnable := by simpa only [hthreads] using h.runnable
  isNext := by simpa only [hnext, hgrid] using h.isNext
  issued := by simpa only [hnext, hgrid] using h.issued

theorem launch (hnew : uid ∉ launched)
    (hblocks : (kernels uid).numBlocks ≠ 0) (hpos : 0 < (kernels uid).threadsPerCta)
    (hfits : (kernels uid).threadsPerCta ≤ cfg.shader.nThreadPerShader) :
    (kernels uid).noMoreCtasToRun = false ∧ IssuedInOrder cfg kernels (uid :: launched) issued := by
  have hfirst : (kernels uid).nextCta.InGrid (kernels uid).gridDim := by
    rw [h.created uid hnew]
    exact KernelInfo.inGrid_zero hblocks
  refine ⟨KernelInfo.noMoreCtasToRun_eq_false.mpr hfirst, ?_⟩
  constructor
  case fresh => exact h.fresh
  case created =>
      exact fun uid' hnot => h.created uid' fun hold => hnot (List.mem_cons_of_mem _ hold)
  case runnable =>
    intro uid' hmem
    rcases List.mem_cons.mp hmem with rfl | hold
    · exact ⟨hpos, hfits⟩
    · exact h.runnable uid' hold
  case isNext =>
    intro uid' hmem
    rcases List.mem_cons.mp hmem with rfl | hold
    · exact .inl hfirst
    · exact h.isNext uid' hold
  case issued => exact h.issued

theorem issue (hlaunched : uid ∈ launched) (hmore : (kernels uid).noMoreCtasToRun = false) :
    IssuedInOrder cfg (Function.update kernels uid (kernels uid).ctaBegun) launched
      ((uid, (kernels uid).nextCta) :: issued) := by
  have hin := KernelInfo.noMoreCtasToRun_eq_false.mp hmore
  have hactive :=
    KernelInfo.field_update KernelInfo.activeThreads kernels uid (kernels uid).ctaBegun rfl
  have hthreads :=
    KernelInfo.field_update KernelInfo.threadsPerCta kernels uid (kernels uid).ctaBegun rfl
  constructor
  case fresh => exact fun uid' => (hactive uid').trans (h.fresh uid')
  case created =>
    intro uid' hnot
    have hne : uid' ≠ uid := fun heq => hnot (heq ▸ hlaunched)
    rw [Function.update_of_ne hne]
    exact h.created uid' hnot
  case runnable =>
    intro uid' hmem
    rw [hthreads uid']
    exact h.runnable uid' hmem
  case isNext =>
    intro uid' hmem
    by_cases heq : uid' = uid
    · rw [heq, Function.update_self]
      exact Dim3.isNext_increment hin
    · rw [Function.update_of_ne heq]
      exact h.isNext uid' hmem
  case issued =>
    intro uid' c
    rw [List.count_cons, h.issued uid' c]
    by_cases heq : uid' = uid
    · subst heq
      rw [Function.update_self]
      show _ = if c.InGrid (kernels uid').gridDim ∧ c.rank (kernels uid').gridDim
        < ((kernels uid').nextCta.incrementXThenYThenZ _).rank (kernels uid').gridDim then 1 else 0
      rw [Dim3.rank_increment hin]
      by_cases hc : c = (kernels uid').nextCta
      · subst hc
        simp [hin]
      · have hne : ((uid', (kernels uid').nextCta) == (uid', c)) = false := by
          simpa using Ne.symm hc
        rw [hne, if_neg Bool.false_ne_true, Nat.add_zero]
        refine if_congr (and_congr_right fun hcin => ?_) rfl rfl
        have hrank : c.rank (kernels uid').gridDim ≠
            (kernels uid').nextCta.rank (kernels uid').gridDim :=
          fun hsame => hc (Dim3.rank_inj hcin hin hsame)
        omega
    · have hne : ((uid, (kernels uid).nextCta) == (uid', c)) = false := by
        have heq' := Ne.symm heq
        simp [heq']
      rw [Function.update_of_ne heq, hne, if_neg Bool.false_ne_true, Nat.add_zero]

theorem mem_iff {c : Dim3} : (uid, c) ∈ issued ↔ c.InGrid (kernels uid).gridDim ∧
      c.rank (kernels uid).gridDim < (kernels uid).nextCta.rank (kernels uid).gridDim := by
  rw [← List.count_pos_iff, h.issued uid c]
  split_ifs with hbefore
  · exact iff_of_true Nat.one_pos hbefore
  · exact iff_of_false (Nat.lt_irrefl 0) hbefore

theorem launched_of_mem {c : Dim3} (hmem : (uid, c) ∈ issued) : uid ∈ launched := by
  by_contra hnot
  have hbefore := (h.mem_iff.mp hmem).2
  rw [h.created uid hnot] at hbefore
  simp [Dim3.rank] at hbefore

theorem noMoreCtasToRun_iff (hlaunched : uid ∈ launched) : (kernels uid).noMoreCtasToRun = true ↔
      ∀ c : Dim3, c.InGrid (kernels uid).gridDim → (uid, c) ∈ issued := by
  rw [← Bool.not_eq_false, KernelInfo.noMoreCtasToRun_eq_false]
  constructor
  · intro hout c hc
    have hend := (h.isNext uid hlaunched).resolve_left hout
    rw [h.mem_iff, hend]
    exact ⟨hc, Dim3.rank_lt_end hc⟩
  · intro hall hin
    exact Nat.lt_irrefl _ (h.mem_iff.mp (hall _ hin)).2

end IssuedInOrder

end GpuCalorie.CtaDispatch
