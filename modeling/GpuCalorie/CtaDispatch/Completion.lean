/-
# Kernels run to their ends

On a GPU without concurrent kernels on a core, any interleaving of launches, issued CTAs and
exits of threads keeps the counters of the cores, issues every CTA of a kernel once, and sets a
kernel done once, which is when all its CTAs have been issued and have exited. Apart from a
kernel that is too large for the cores, or one that `max_cta` refuses, nothing fails.
-/

import GpuCalorie.CtaDispatch.Dispatch

namespace GpuCalorie.CtaDispatch

open GpuCalorie.Math Finset

variable {cfg : GpuConfig} {s : Gpu} {sid uid : ℕ}

theorem Gpu.setKernel_eq_self (h : (s.cores sid).kernel = some uid) : s.setKernel sid uid = s := by
  rw [setKernel, ← h, Function.update_eq_self]

namespace Dispatch

/-! ## Kernels are launched -/

theorem init (h : s.Created) : Dispatch cfg s := by
  obtain ⟨kernels, ctaIssueNextCore, rfl, hkernels⟩ := h
  constructor
  case onCores =>
    constructor
    case occupancy => exact fun _ => ShaderCore.occupancy_empty cfg.shader
    case kernel => exact fun _ _ hr => absurd hr List.not_mem_nil
    case idle => exact fun _ _ => rfl
    case shape => exact fun _ _ hr => absurd hr List.not_mem_nil
    case launched => exact fun _ _ hr => absurd hr List.not_mem_nil
    case running => exact fun uid => (hkernels uid).2.2.trans (sum_eq_zero fun _ _ => rfl).symm
  case inSlots => exact InSlots.init cfg _
  case selected => exact ⟨cfg.maxConcurrentKernel_pos, fun _ hmem => absurd hmem List.not_mem_nil⟩
  case issuedInOrder =>
    constructor
    case fresh => exact fun uid => (hkernels uid).2.1
    case created => exact fun uid _ => (hkernels uid).1
    case runnable => exact fun _ hmem => absurd hmem List.not_mem_nil
    case isNext => exact fun _ hmem => absurd hmem List.not_mem_nil
    case issued =>
      intro uid c
      have hnone : ¬ c.rank (kernels uid).gridDim <
          (kernels uid).nextCta.rank (kernels uid).gridDim := by
        rw [(hkernels uid).1]
        simp [Dim3.rank]
      rw [if_neg fun hbefore => hnone hbefore.2]
      rfl

variable (h : Dispatch cfg s)
include h

theorem launch (henabled : s.Enabled cfg (.launch uid)) :
    OkOr (Dispatch cfg) CtaFailure.OfMaxCta (s.launch cfg uid) := by
  obtain ⟨hnew, hstart, hblocks, hpos⟩ := henabled
  rw [Gpu.launch]
  split_ifs with hlarge
  · exact .inr (.inr rfl)
  · cases hfind : Gpu.findSlot cfg s.slotFree with
    | none =>
        rw [Gpu.canStartKernel, hfind] at hstart
        cases hstart
    | some n =>
        obtain ⟨hn, hfree⟩ := findSlot_eq_some hfind
        have hnone := h.inSlots.eq_none_of_free hfree
        obtain ⟨hmore, hissued⟩ := h.issuedInOrder.launch hnew hblocks hpos (Nat.not_lt.mp hlarge)
        have hdone := KernelInfo.done_eq_false_of_more hmore
        exact ⟨h.onCores.launch uid, h.inSlots.launch hn hnone hnew hdone,
          h.selected.launch hnone uid,
          hissued⟩

theorem decrementKernelLatency : Dispatch cfg (s.decrementKernelLatency cfg) := by
  have hsame : ∀ uid, ∃ latency, ((s.kernels uid).tbLatency = 0 → latency = 0) ∧
      (s.decrementKernelLatency cfg).kernels uid = { s.kernels uid with tbLatency := latency } := by
    intro uid
    rw [Gpu.decrementKernelLatency]
    dsimp only
    split_ifs
    · exact ⟨(s.kernels uid).tbLatency - 1, fun hzero => by rw [hzero], rfl⟩
    · exact ⟨(s.kernels uid).tbLatency, id, rfl⟩
  have hfield : ∀ {α : Type} (field : KernelInfo → α),
      (∀ k latency, field { k with tbLatency := latency } = field k) →
      ∀ uid, field ((s.decrementKernelLatency cfg).kernels uid) = field (s.kernels uid) := by
    intro α field hignores uid
    obtain ⟨latency, -, heq⟩ := hsame uid
    rw [heq, hignores]
  have hdone := funext (hfield KernelInfo.done fun _ _ => rfl)
  constructor
  case onCores =>
    exact h.onCores.congr (hfield KernelInfo.threadsPerCta fun _ _ => rfl)
      (hfield KernelInfo.numCoresRunning fun _ _ => rfl)
  case inSlots => exact hdone ▸ h.inSlots
  case selected =>
    refine h.selected.mono (fun uid hzero => ?_) fun uid hmore => ?_
    · obtain ⟨latency, hlatency, heq⟩ := hsame uid
      rw [heq]
      exact hlatency hzero
    · rwa [hfield KernelInfo.noMoreCtasToRun fun _ _ => rfl] at hmore
  case issuedInOrder =>
    exact h.issuedInOrder.congr (hfield KernelInfo.gridDim fun _ _ => rfl)
      (hfield KernelInfo.threadsPerCta fun _ _ => rfl) (hfield KernelInfo.nextCta fun _ _ => rfl)
      (hfield KernelInfo.activeThreads fun _ _ => rfl)

theorem clearExecutedKernelInfo : Dispatch cfg { s with executedKernelUids := [] } where
  onCores := h.onCores
  inSlots := h.inSlots
  selected := ⟨h.selected.last_lt, fun _ hmem => absurd hmem List.not_mem_nil⟩
  issuedInOrder := h.issuedInOrder

/-! ## CTAs are issued -/

theorem chooseKernel (sid : ℕ) : ∃ kernel s', s.chooseKernel cfg sid = .ok (kernel, s') ∧
      (s'.kernelMoreCtaLeft kernel = false ∧ Dispatch cfg s' ∨
        ∃ t uid, kernel = some uid ∧ s' = t.setKernel sid uid ∧ Dispatch cfg t ∧ uid ∈ t.launched ∧
          (t.kernels uid).noMoreCtasToRun = false ∧ ∀ r ∈ (t.cores sid).resident,
            r.kernel = uid) := by
  rw [Gpu.chooseKernel]
  split_ifs with hleft hempty
  · obtain ⟨uid, hkernel, hmore⟩ := (Option.any_eq_true _ _).mp hleft
    obtain ⟨hlaunched, hall⟩ := h.onCores.resident_of_kernel hkernel
    exact ⟨_, _, rfl, .inr ⟨s, uid, hkernel, (Gpu.setKernel_eq_self hkernel).symm, h, hlaunched,
      Bool.not_eq_true' _ ▸ hmore, hall⟩⟩
  · obtain ⟨kernel, last, executed, hselect, hselected, hchosen⟩ := Gpu.selectKernel_spec h.selected
    have hnext : Dispatch cfg { s with lastIssuedKernel := last, executedKernelUids := executed } :=
      ⟨h.onCores, h.inSlots, hselected, h.issuedInOrder⟩
    rw [hselect]
    cases kernel with
    | none => exact ⟨none, _, rfl, .inl ⟨rfl, hnext⟩⟩
    | some uid =>
        obtain ⟨⟨n, hslot⟩, hmore⟩ := hchosen uid rfl
        have hlaunched := (h.inSlots.slot n uid hslot).2.1
        have hnone : (s.cores sid).resident = [] := by
          have hoccupancy := h.onCores.occupancy sid
          rw [hoccupancy.notCompleted_status, sum_eq_zero_iff] at hempty
          refine List.eq_nil_iff_forall_not_mem.mpr fun r hr => ?_
          have hzero := hempty r.ctaId (mem_range.mpr (hoccupancy.id_lt r hr))
          exact hoccupancy.ctaId_ne hzero r hr rfl
        refine ⟨some uid, _, rfl, .inr ⟨_, uid, rfl, rfl, hnext, hlaunched, hmore, ?_⟩⟩
        intro r hr
        rw [hnone] at hr
        exact absurd hr List.not_mem_nil
  · exact ⟨_, _, rfl, .inl ⟨Bool.eq_false_of_not_eq_true hleft, h⟩⟩

variable (hoff : cfg.shader.gpgpuConcurrentKernelSm = false)
include hoff

theorem issueCta (hsid : sid < cfg.nShader) (hlaunched : uid ∈ s.launched)
    (hmore : (s.kernels uid).noMoreCtasToRun = false)
    (hsame : ∀ r ∈ (s.cores sid).resident, r.kernel = uid) {maxCta : ℕ}
    (hmax : cfg.shader.maxCta (s.kernels uid) = .ok maxCta) (hle : maxCta ≤ maxCtaPerShader)
    (hend : maxCta * cfg.shader.paddedCtaSize (s.kernels uid).threadsPerCta ≤
    cfg.shader.nThreadPerShader)
    (hcan : (s.cores sid).nActiveCta < maxCta) :
    OkOr (Dispatch cfg) CtaFailure.OfMaxCta ((s.setKernel sid uid).issueCta cfg sid uid) := by
  have hset : ({ s.cores sid with kernel := some uid } : ShaderCore).Occupancy cfg.shader :=
    (h.onCores.occupancy sid).congr rfl rfl rfl rfl rfl rfl rfl
  have hshape : ∀ r ∈ (s.cores sid).resident,
      r.size = (s.kernels uid).threadsPerCta ∧ r.InPlace cfg.shader := fun r hr =>
    hsame r hr ▸ h.onCores.shape sid r hr
  have hpos := (h.issuedInOrder.runnable uid hlaunched).1
  obtain ⟨r, hkernel, hsize, hinPlace, hbegun, hissue⟩ :=
    hset.issueBlock2core hoff uid hmax hle hend hcan
    hpos (h.issuedInOrder.fresh uid) hmore hshape
  have hcore : (s.setKernel sid uid).cores sid = { s.cores sid with kernel := some uid } :=
    Function.update_self _ _ _
  rw [Gpu.issueCta, hcore]
  show OkOr _ _ (ShaderCore.issueBlock2core cfg.shader _ uid (s.kernels uid) >>= _)
  rw [hissue]
  have hbusy : (s.kernels uid).ctaBegun.done = (s.kernels uid).done :=
    (KernelInfo.done_eq_false_of_running (Nat.succ_pos _)).trans
      (KernelInfo.done_eq_false_of_more hmore).symm
  have hdone := funext (KernelInfo.field_update KernelInfo.done s.kernels uid _ hbusy)
  have hlatency :=
    KernelInfo.field_update KernelInfo.tbLatency s.kernels uid (s.kernels uid).ctaBegun rfl
  show Dispatch cfg _
  constructor
  case onCores =>
    show OnCores cfg _ s.launched (Function.update (Function.update s.cores sid _) sid _)
    rw [Function.update_idem]
    refine h.onCores.update hsid hbegun ?_ ?_ ?_ ?_ rfl ?_
    · intro r' hr'
      rcases List.mem_cons.mp hr' with rfl | hold
      · exact congrArg some hkernel.symm
      · exact congrArg some (hsame r' hold).symm
    · exact fun hnil => nomatch hnil
    · intro r' hr'
      rcases List.mem_cons.mp hr' with rfl | hold
      · exact ⟨hkernel ▸ hsize, hinPlace⟩
      · exact h.onCores.shape sid r' hold
    · intro r' hr'
      rcases List.mem_cons.mp hr' with rfl | hold
      · exact hkernel ▸ hlaunched
      · exact h.onCores.launched sid r' hold
    · intro uid'
      show _ = _ + (r :: (s.cores sid).resident).countP _
      rw [List.countP_cons, hkernel]
      by_cases heq : uid' = uid
      · rw [heq, Function.update_self, if_pos (decide_eq_true rfl)]
        show (s.kernels uid).numCoresRunning + 1 + _ = _
        omega
      · have hne : ¬ decide (uid = uid') = true := by simpa using Ne.symm heq
        rw [Function.update_of_ne heq, if_neg hne]
        rfl
  case inSlots => exact hdone ▸ h.inSlots
  case selected =>
    refine h.selected.mono (fun uid' hzero => ?_) fun uid' hleft => ?_
    · exact (hlatency uid').trans hzero
    · change (Function.update s.kernels uid (s.kernels uid).ctaBegun uid').noMoreCtasToRun =
        false at hleft
      by_cases heq : uid' = uid
      · rw [heq]
        exact hmore
      · rwa [Function.update_of_ne heq] at hleft
  case issuedInOrder => exact h.issuedInOrder.issue hlaunched hmore

omit h in
theorem issueFrom {cluster : ℕ}
    (hcluster : cluster < cfg.nSimtClusters) (count : ℕ) (hcount : count ≤ cfg.nSimtCoresPerCluster)
    (h : Dispatch cfg s) : OkOr (Dispatch cfg) CtaFailure.OfMaxCta
    (Gpu.issueFrom cfg cluster count s) := by
  induction count generalizing s with
  | zero => exact h
  | succ count ih =>
      have hnext := fun {s : Gpu} (h : Dispatch cfg s) => ih (Nat.le_of_succ_le hcount) h
      rw [Gpu.issueFrom]
      dsimp only
      generalize hcore : (cfg.nSimtCoresPerCluster - (count + 1) + s.ctaIssueNextCore cluster + 1)
        % cfg.nSimtCoresPerCluster = core
      have hlt : core < cfg.nSimtCoresPerCluster := hcore ▸ Nat.mod_lt _ (by omega)
      have hsid : cluster * cfg.nSimtCoresPerCluster + core < cfg.nShader := by
        have hmul := Nat.mul_le_mul_right cfg.nSimtCoresPerCluster (Nat.succ_le_of_lt hcluster)
        rw [Nat.succ_mul] at hmul
        rw [GpuConfig.nShader]
        omega
      generalize cluster * cfg.nSimtCoresPerCluster + core = sid at hsid ⊢
      obtain ⟨kernel, s', hchoose, hcases⟩ := h.chooseKernel sid
      rw [hchoose]
      rcases hcases with ⟨hnone, h'⟩ | ⟨t, uid, rfl, rfl, ht, hlaunched, hmore, hsame⟩
      · cases kernel with
        | none => exact hnext h'
        | some uid =>
            show OkOr _ _ (if s'.kernelMoreCtaLeft (some uid) = true then _ else _)
            rw [if_neg (by rw [hnone]; decide)]
            exact hnext h'
      · have hleft : (t.setKernel sid uid).kernelMoreCtaLeft (some uid) = true := by
          show (!(t.kernels uid).noMoreCtasToRun) = true
          rw [hmore]
          rfl
        have hself : (t.setKernel sid uid).cores sid = { t.cores sid with kernel := some uid } :=
          Function.update_self _ _ _
        have hfits := (ht.issuedInOrder.runnable uid hlaunched).2
        show OkOr _ _ (if (t.setKernel sid uid).kernelMoreCtaLeft (some uid) = true then _ else _)
        rw [if_pos hleft, hself]
        refine (ShaderCore.canIssue1block_spec hoff hfits).bind fun canIssue hcan => ?_
        obtain ⟨maxCta, hmax, hpos, hle, hend, hcanIssue⟩ := hcan
        refine OkOr.ite (fun hissue => ?_) fun hnot => ?_
        · have hless := of_decide_eq_true (hcanIssue.symm.trans hissue)
          refine (ht.issueCta hoff hsid hlaunched hmore hsame hmax hle hend hless).bind
            fun t' ht' => ?_
          exact ⟨ht'.onCores, ht'.inSlots, ht'.selected, ht'.issuedInOrder⟩
        · have hfull : ¬ (t.cores sid).nActiveCta < maxCta := fun hless =>
            hnot (hcanIssue.trans (decide_eq_true hless))
          have hlength : 0 < (t.cores sid).resident.length := by
            rw [← (ht.onCores.occupancy sid).nActiveCta]
            omega
          obtain ⟨r, hr⟩ := List.exists_mem_of_length_pos hlength
          have hkernel := ht.onCores.kernel sid r hr
          rw [hsame r hr] at hkernel
          rw [Gpu.setKernel_eq_self hkernel]
          exact hnext ht

/-! ## Threads exit -/

omit hoff in
theorem exitMany (hsid : sid < cfg.nShader) {core : ShaderCore}
    (hoccupancy : core.Occupancy cfg.shader) (hresident : core.resident = (s.cores sid).resident)
    (hkernel : core.kernel = (s.cores sid).kernel) (uid : ℕ) :
    Dispatch cfg { s with
      cores := Function.update s.cores sid core
      kernels := Function.update s.kernels uid (s.kernels uid) } := by
  have hself : Function.update s.kernels uid (s.kernels uid) = s.kernels :=
    Function.update_eq_self _ _
  constructor
  case onCores =>
    refine h.onCores.update hsid hoccupancy ?_ ?_ ?_ ?_ rfl fun uid' => ?_
    · rw [hresident, hkernel]
      exact h.onCores.kernel sid
    · rw [hresident, hkernel]
      exact h.onCores.idle sid
    · rw [hresident]
      exact h.onCores.shape sid
    · rw [hresident]
      exact h.onCores.launched sid
    · rw [hself, hresident]
  case inSlots => exact hself.symm ▸ h.inSlots
  case selected => exact hself.symm ▸ h.selected
  case issuedInOrder => exact hself.symm ▸ h.issuedInOrder

theorem exitOne
    (hsid : sid < cfg.nShader) {tid : ℕ} {r : Resident} (hr : r ∈ (s.cores sid).resident)
    (hwarp : (s.cores sid).warpCtaId (tid / cfg.shader.warpSize) = r.ctaId)
    (hthread : ((s.cores sid).threads tid).kernel = r.kernel)
    (hone : (s.cores sid).ctaStatus r.ctaId = 1)
    (hoccupancy : ((s.cores sid).finished r tid).Occupancy cfg.shader) :
    OkOr (Dispatch cfg) CtaFailure.OfMaxCta (s.exitThread cfg sid tid) := by
  have hkernel := h.onCores.kernel sid r hr
  have hlaunched := h.onCores.launched sid r hr
  have hrunning := h.onCores.nActiveCta_le hsid hr
  have hpos : 0 < (s.cores sid).nActiveCta := by
    rw [(h.onCores.occupancy sid).nActiveCta]
    exact List.length_pos_of_mem hr
  have hafter : (s.cores sid).kernelAfter s.kernels r.kernel
      = .ok (if (s.cores sid).nActiveCta = 1 then none else some r.kernel) := by
    rw [ShaderCore.kernelAfter]
    split_ifs with hlast hother
    · exact absurd hkernel hother.1
    · rfl
    · rw [hkernel]
  have hrelease : (s.cores sid).occupied.releaseShaderResource1block cfg.shader r.ctaId
    (s.kernels r.kernel)
      = .ok (s.cores sid).occupied := by
    rw [Resources.releaseShaderResource1block, if_neg (by rw [hoff]; decide)]
  have hdec : (s.kernels r.kernel).decRunning = .ok { s.kernels r.kernel with
      numCoresRunning := (s.kernels r.kernel).numCoresRunning - 1 } := by
    rw [KernelInfo.decRunning, if_neg (by omega)]
  rw [Gpu.exitThread, ShaderCore.exitThread_one hwarp hthread hone hafter hrelease hdec, hthread]
  obtain ⟨k, hk⟩ : ∃ k, k = ({ s.kernels r.kernel with
    numCoresRunning := (s.kernels r.kernel).numCoresRunning - 1 } : KernelInfo) := ⟨_, rfl⟩
  rw [← hk]
  have hcount : k.numCoresRunning + 1 = (s.kernels r.kernel).numCoresRunning := by
    rw [hk]
    dsimp only
    omega
  have hbusy : (s.kernels r.kernel).done = false := KernelInfo.done_eq_false_of_running (by omega)
  -- `m_kernel` is set to null twice where the kernel is done
  obtain ⟨core, hcore⟩ : ∃ core, core = ({ (s.cores sid).finished r tid with
    kernel := if k.done ∧ (if (s.cores sid).nActiveCta = 1 then none else some r.kernel) =
      some r.kernel
      then none else if (s.cores sid).nActiveCta = 1 then none else some r.kernel
    occupied := (s.cores sid).occupied } : ShaderCore) := ⟨_, rfl⟩
  rw [← hcore]
  have honCores : OnCores cfg (Function.update s.kernels r.kernel k) s.launched
      (Function.update s.cores sid core) := by
    refine h.onCores.ctaLeft hsid hr ?_ ?_ ?_ ?_ (by rw [hk]) hcount
    · rw [hcore]
      exact hoccupancy.congr rfl rfl rfl rfl rfl rfl rfl
    · rw [hcore]
      rfl
    · intro hlast
      rw [hcore, if_pos hlast]
      dsimp only
      split_ifs <;> rfl
    · intro hmany
      have hnot : k.done = false := KernelInfo.done_eq_false_of_running (by omega)
      rw [hcore, if_neg fun hboth => Bool.noConfusion (hnot.symm.trans hboth.1), if_neg hmany]
  have hselected : Selected cfg (Function.update s.kernels r.kernel k) s.runningKernels
      s.lastIssuedKernel s.executedKernelUids := by
    have hlatency := KernelInfo.field_update KernelInfo.tbLatency s.kernels r.kernel k (by rw [hk])
    have hmore :=
      KernelInfo.field_update KernelInfo.noMoreCtasToRun s.kernels r.kernel k (by rw [hk]; rfl)
    exact h.selected.mono (fun uid hzero => (hlatency uid).trans hzero) fun uid hleft =>
      (hmore uid).symm.trans hleft
  have hissued : IssuedInOrder cfg (Function.update s.kernels r.kernel k) s.launched s.issued :=
    h.issuedInOrder.congr (KernelInfo.field_update KernelInfo.gridDim s.kernels r.kernel k
      (by rw [hk]))
      (KernelInfo.field_update KernelInfo.threadsPerCta s.kernels r.kernel k (by rw [hk]))
      (KernelInfo.field_update KernelInfo.nextCta s.kernels r.kernel k (by rw [hk]))
      (KernelInfo.field_update KernelInfo.activeThreads s.kernels r.kernel k (by rw [hk]))
  show OkOr _ _ (if k.done = true then Gpu.setKernelDone cfg { s with
      cores := Function.update s.cores sid core
      kernels := Function.update s.kernels r.kernel k } r.kernel else .ok _)
  refine OkOr.ite (fun hdone => ?_) fun hdone => ?_
  · obtain ⟨n, hn⟩ := h.inSlots.inSlot r.kernel hlaunched hbusy
    have hlt := (h.inSlots.slot n r.kernel hn).1
    obtain ⟨n', hslot, hset⟩ := Gpu.setKernelDone_spec (s := { s with
      cores := Function.update s.cores sid core
      kernels := Function.update s.kernels r.kernel k }) hlt hn
    rw [hset]
    have hnone : (Function.update s.kernels r.kernel k r.kernel).noMoreCtasToRun = true := by
      rw [Function.update_self]
      exact ((Bool.and_eq_true _ _).mp hdone).1
    have hdones : (fun uid => (Function.update s.kernels r.kernel k uid).done)
        = Function.update (fun uid => (s.kernels uid).done) r.kernel true := by
      funext uid
      by_cases heq : uid = r.kernel
      · rw [heq, Function.update_self, Function.update_self, hdone]
      · rw [Function.update_of_ne heq, Function.update_of_ne heq]
    exact ⟨honCores, hdones ▸ h.inSlots.setKernelDone hslot, hselected.setKernelDone hslot hnone,
      hissued⟩
  · have hsameDone : k.done = (s.kernels r.kernel).done :=
      (Bool.eq_false_of_not_eq_true hdone).trans hbusy.symm
    have hdones := funext (KernelInfo.field_update KernelInfo.done s.kernels r.kernel k hsameDone)
    exact ⟨honCores, hdones ▸ h.inSlots, hselected, hissued⟩

theorem exitThread {tid : ℕ} (henabled : s.Enabled cfg (.exitThread sid tid)) :
    OkOr (Dispatch cfg) CtaFailure.OfMaxCta (s.exitThread cfg sid tid) := by
  obtain ⟨hsid, hactive⟩ := henabled
  have hoccupancy := h.onCores.occupancy sid
  obtain ⟨r, hr, hhas, hwarp, hthread⟩ := hoccupancy.owner tid hactive
  have hpos := (hoccupancy.status r hr).2
  by_cases hone : (s.cores sid).ctaStatus r.ctaId = 1
  · exact h.exitOne hoff hsid hr hwarp hthread hone (hoccupancy.finished hr hhas hactive hone)
  · have hmany : 1 < (s.cores sid).ctaStatus r.ctaId := by omega
    rw [Gpu.exitThread, ShaderCore.exitThread_many hwarp hthread hmany, hthread]
    exact h.exitMany hsid (hoccupancy.exited hr hhas hactive hmany) rfl rfl r.kernel

theorem step (event : Gpu.Event)
    (henabled : s.Enabled cfg event) : OkOr (Dispatch cfg) CtaFailure.OfMaxCta
    (s.step cfg event) := by
  cases event with
  | launch uid => exact h.launch henabled
  | decrementKernelLatency => exact h.decrementKernelLatency
  | clearExecutedKernelInfo => exact h.clearExecutedKernelInfo
  | issueBlock2core cluster => exact h.issueFrom hoff henabled cfg.nSimtCoresPerCluster le_rfl
  | exitThread sid tid => exact h.exitThread hoff henabled

end Dispatch

/-! ## What can be seen of a GPU -/

namespace ShaderCore

variable {cfg : ShaderCoreConfig} {s : ShaderCore}

theorem Occupancy.card_activeThreads (h : s.Occupancy cfg) :
    #{tid ∈ range maxThreadPerSm | s.activeThreads tid = true} = s.notCompleted := by
  have hsub : range cfg.nThreadPerShader ⊆ range maxThreadPerSm :=
    range_subset_range.mpr cfg.threads_le
  have hbit : ∀ tid, (if s.activeThreads tid = true then 1 else 0) =
      (s.threads tid).active.toNat := by
    intro tid
    rw [h.activeThreads tid]
    cases (s.threads tid).active <;> rfl
  rw [card_filter, sum_congr rfl fun tid _ => hbit tid, h.notCompleted, countActive]
  refine (sum_subset hsub fun tid _ hnot => ?_).symm
  by_contra hactive
  have hset : (s.threads tid).active = true := by
    by_contra hclear
    exact hactive (by rw [Bool.eq_false_of_not_eq_true hclear]; rfl)
  obtain ⟨r, hr, hhas, -, -⟩ := h.owner tid hset
  exact hnot (mem_range.mpr (lt_of_lt_of_le (hhas.lt_stop cfg) (h.placed r hr).2))

theorem Occupancy.card_ctaStatus (h : s.Occupancy cfg) :
    #{ctaId ∈ range maxCtaPerShader | s.ctaStatus ctaId ≠ 0} = s.nActiveCta := by
  have hids : {ctaId ∈ range maxCtaPerShader | s.ctaStatus ctaId ≠ 0}
      = (s.resident.map Resident.ctaId).toFinset := by
    ext ctaId
    rw [mem_filter, mem_range, List.mem_toFinset, List.mem_map]
    constructor
    · intro ⟨_, hbusy⟩
      by_contra hnone
      exact hbusy (h.status_free ctaId fun r hr hid => hnone ⟨r, hr, hid⟩)
    · intro ⟨r, hr, hid⟩
      rw [← hid]
      exact ⟨h.id_lt r hr, Nat.pos_iff_ne_zero.mp (h.status r hr).2⟩
  rw [hids, List.toFinset_card_of_nodup h.ids, List.length_map, h.nActiveCta]

end ShaderCore

/-- The counters of the cores count what they are for, and the CTAs on a core are apart and of
its kernel. Every CTA of a grid is issued once, and a kernel is set done once, which is when
all its CTAs have been issued and none of them is on a core. -/
structure Dispatched (cfg : GpuConfig) (s : Gpu) : Prop where
  notCompleted_ctaStatus : ∀ sid < cfg.nShader,
    (s.cores sid).notCompleted = ∑ ctaId ∈ range maxCtaPerShader, (s.cores sid).ctaStatus ctaId
  notCompleted_activeThreads : ∀ sid < cfg.nShader,
    (s.cores sid).notCompleted = #{tid ∈ range maxThreadPerSm | (s.cores sid).activeThreads tid =
    true}
  nActiveCta : ∀ sid < cfg.nShader,
    (s.cores sid).nActiveCta = #{ctaId ∈ range maxCtaPerShader | (s.cores sid).ctaStatus ctaId ≠ 0}
  owner : ∀ sid < cfg.nShader, ∀ tid, (s.cores sid).activeThreads tid = true →
    ∃ r ∈ (s.cores sid).resident, r.Has tid ∧
      (s.cores sid).warpCtaId (tid / cfg.shader.warpSize) = r.ctaId
  status : ∀ sid < cfg.nShader, ∀ r ∈ (s.cores sid).resident,
    (s.cores sid).ctaStatus r.ctaId = (s.cores sid).activeIn r ∧ (s.cores sid).ctaStatus r.ctaId ≠ 0
  apart : ∀ sid < cfg.nShader, ∀ r ∈ (s.cores sid).resident, ∀ r' ∈ (s.cores sid).resident,
    r ≠ r' → r.Apart cfg.shader r'
  kernel : ∀ sid < cfg.nShader, ∀ r ∈ (s.cores sid).resident, (s.cores sid).kernel = some r.kernel
  issued_once : ∀ uid c, s.issued.count (uid, c) ≤ 1
  issued_inGrid : ∀ uid c, (uid, c) ∈ s.issued → uid ∈ s.launched ∧ c.InGrid (s.kernels uid).gridDim
  issued_all : ∀ uid ∈ s.launched, (s.kernels uid).noMoreCtasToRun = true →
    ∀ c : Dim3, c.InGrid (s.kernels uid).gridDim → (uid, c) ∈ s.issued
  finished_once : ∀ uid, s.finishedKernel.count uid ≤ 1
  finished_iff : ∀ uid, uid ∈ s.finishedKernel ↔ uid ∈ s.launched ∧
    (∀ c : Dim3, c.InGrid (s.kernels uid).gridDim → (uid, c) ∈ s.issued) ∧
    ∀ sid < cfg.nShader, ∀ r ∈ (s.cores sid).resident, r.kernel ≠ uid

theorem Dispatch.dispatched (h : Dispatch cfg s) : Dispatched cfg s where
  notCompleted_ctaStatus sid _ := (h.onCores.occupancy sid).notCompleted_status
  notCompleted_activeThreads sid _ := (h.onCores.occupancy sid).card_activeThreads.symm
  nActiveCta sid _ := (h.onCores.occupancy sid).card_ctaStatus.symm
  owner sid _ tid hactive := by
    rw [(h.onCores.occupancy sid).activeThreads tid] at hactive
    obtain ⟨r, hr, hhas, hwarp, -⟩ := (h.onCores.occupancy sid).owner tid hactive
    exact ⟨r, hr, hhas, hwarp⟩
  status sid _ r hr := by
    obtain ⟨hcount, hpos⟩ := (h.onCores.occupancy sid).status r hr
    exact ⟨hcount, Nat.pos_iff_ne_zero.mp hpos⟩
  apart sid _ := (h.onCores.occupancy sid).apart
  kernel sid _ := h.onCores.kernel sid
  issued_once uid c := by
    rw [h.issuedInOrder.issued uid c]
    split_ifs
    · exact le_rfl
    · exact Nat.zero_le 1
  issued_inGrid _ _ hmem :=
    ⟨h.issuedInOrder.launched_of_mem hmem, (h.issuedInOrder.mem_iff.mp hmem).1⟩
  issued_all _ hlaunched := (h.issuedInOrder.noMoreCtasToRun_iff hlaunched).mp
  finished_once uid := by
    rw [h.inSlots.finished uid]
    split_ifs
    · exact le_rfl
    · exact Nat.zero_le 1
  finished_iff uid := by
    rw [← List.count_pos_iff, h.inSlots.finished uid, ← residents_eq_zero_iff,
      ← h.onCores.running uid]
    constructor
    · intro hpos
      split_ifs at hpos with hboth
      · obtain ⟨hlaunched, hdone⟩ := hboth
        obtain ⟨hmore, hrunning⟩ := (Bool.and_eq_true _ _).mp hdone
        have hidle : (s.kernels uid).numCoresRunning = 0 := by
          rw [KernelInfo.running, Bool.not_eq_true', decide_eq_false_iff_not] at hrunning
          omega
        exact ⟨hlaunched, (h.issuedInOrder.noMoreCtasToRun_iff hlaunched).mp hmore, hidle⟩
      · exact absurd hpos (Nat.lt_irrefl 0)
    · rintro ⟨hlaunched, hall, hidle⟩
      have hdone : (s.kernels uid).done = true := by
        rw [KernelInfo.done, (h.issuedInOrder.noMoreCtasToRun_iff hlaunched).mpr hall,
          KernelInfo.running, hidle]
        rfl
      rw [if_pos ⟨hlaunched, hdone⟩]
      exact Nat.one_pos

/-- Without concurrent kernels on a core every run keeps this, unless it ends at a kernel that
is refused. -/
theorem dispatched_of_reachable (hoff : cfg.shader.gpgpuConcurrentKernelSm = false)
    {r : Except CtaFailure Gpu} (reached : (gpuSystem cfg).Reachable r) :
    OkOr (Dispatched cfg) CtaFailure.OfMaxCta r :=
  (reached.invariant_ofExcept_all (fun _ => Dispatch.init)
    fun _ event h henabled => h.step hoff event henabled).imp fun _ h => h.dispatched

/-- Two clusters with a core each, for two CTAs with two threads, and two slots. -/
def twoCores : GpuConfig where
  shader :=
    { warpSize := 2
      nThreadPerShader := 4
      gpgpuShmemSize := 1024
      gpgpuShaderRegisters := 1024
      maxCtaPerCore := 8
      numShader := 2
      gpgpuIgnoreResourcesLimitation := false
      gpgpuConcurrentKernelSm := false
      warpSize_pos := by decide
      threads_le := by decide
      warpSize_dvd := by decide }
  nSimtClusters := 2
  nSimtCoresPerCluster := 1
  maxConcurrentKernel := 2
  maxConcurrentKernel_pos := by decide

/-- Kernels that have two CTAs with a thread and one with two threads. -/
def smallKernels (uid : ℕ) : KernelInfo where
  gridDim := ⟨2 - uid, 1, 1⟩
  threadsPerCta := uid + 1
  smem := 0
  regs := 0

/-- One kernel is done while a CTA of the other one has a thread left. -/
theorem dispatched_twoCores : ∃ s : Gpu, s.finishedKernel = [0] ∧
    s.issued = [(1, ⟨0, 0, 0⟩), (0, ⟨1, 0, 0⟩), (0, ⟨0, 0, 0⟩)] ∧ Dispatched twoCores s := by
  have hrun : ((TransitionSystem.execOk (Gpu.Enabled twoCores) (Gpu.step twoCores)
      { kernels := smallKernels, ctaIssueNextCore := fun _ => 0 }
      [.launch 0, .launch 1, .issueBlock2core 0, .issueBlock2core 1, .exitThread 0 0,
        .issueBlock2core 0, .exitThread 1 0, .issueBlock2core 0, .exitThread 0 0]).any fun s =>
        decide (s.finishedKernel = [0] ∧
          s.issued = [(1, ⟨0, 0, 0⟩), (0, ⟨1, 0, 0⟩), (0, ⟨0, 0, 0⟩)])) = true := by decide +kernel
  obtain ⟨s, hs, hfound⟩ := (Option.any_eq_true _ _).mp hrun
  obtain ⟨hfinished, hissued⟩ := of_decide_eq_true hfound
  have hreached : (gpuSystem twoCores).Reachable (.ok s) :=
    .execOk _ (.init ⟨_, rfl, _, _, rfl, fun _ => ⟨rfl, rfl, rfl⟩⟩) hs
  exact ⟨s, hfinished, hissued, (dispatched_of_reachable rfl hreached).of_ok rfl⟩

end GpuCalorie.CtaDispatch
