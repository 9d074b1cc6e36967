/-
# A CTA begins

`beginCta` does not fail for a CTA whose entry of `m_cta_status` is free and whose range of
hardware threads is apart from those of the CTAs on the core. It starts the next CTA of the
kernel with all its threads.
-/

import GpuCalorie.CtaDispatch.Occupancy
import GpuCalorie.Math.Outcome

namespace GpuCalorie.CtaDispatch

open GpuCalorie.Math Finset

/-! ## The loops -/

variable {count hwTid : ℕ}

theorem exists_allClear (bits : ℕ → Bool) (hrange : hwTid + count ≤ maxThreadPerSm) :
    ∃ clear, allClear bits count hwTid = .ok clear := by
  induction count generalizing hwTid with
  | zero => exact ⟨true, rfl⟩
  | succ count ih =>
      rw [allClear, if_neg (by omega)]
      split_ifs with hbit
      · exact ⟨false, rfl⟩
      · exact ih (by omega)

theorem allClear_eq_ok {bits : ℕ → Bool} (hrange : hwTid + count ≤ maxThreadPerSm)
    (hclear : ∀ tid, hwTid ≤ tid → tid < hwTid + count → bits tid = false) :
    allClear bits count hwTid = .ok true := by
  induction count generalizing hwTid with
  | zero => rfl
  | succ count ih =>
      have hfirst := hclear hwTid le_rfl (by omega)
      rw [allClear, if_neg (by omega), hfirst]
      exact ih (by omega) fun tid hle hlt => hclear tid (by omega) (by omega)

theorem clear_of_allClear {bits : ℕ → Bool} (h : allClear bits count hwTid = .ok true) :
    ∀ tid, hwTid ≤ tid → tid < hwTid + count → bits tid = false := by
  induction count generalizing hwTid with
  | zero =>
      intro tid hle hlt
      omega
  | succ count ih =>
      rw [allClear] at h
      split_ifs at h with hbound hbit
      · cases h
      · intro tid hle hlt
        by_cases heq : tid = hwTid
        · rw [heq]
          exact Bool.eq_false_of_not_eq_true hbit
        · exact ih h tid (by omega) (by omega)

theorem freeCtaFrom_spec {ctaStatus : ℕ → ℕ} (count i : ℕ) (hlt : ∀ ctaId < i, ctaStatus ctaId ≠ 0)
    (hfree : ∃ ctaId < i + count, ctaId < maxCtaPerShader ∧ ctaStatus ctaId = 0) :
    ∃ ctaId, freeCtaFrom ctaStatus count i = .ok ctaId ∧ ctaStatus ctaId = 0 ∧
      ctaId < maxCtaPerShader ∧ ctaId < i + count := by
  obtain ⟨ctaId, hbound, hrange, hzero⟩ := hfree
  have hle : i ≤ ctaId := by
    by_contra hless
    exact hlt ctaId (Nat.not_le.mp hless) hzero
  induction count generalizing i with
  | zero => omega
  | succ count ih =>
      rw [freeCtaFrom, if_neg (by omega)]
      split_ifs with hthis
      · exact ⟨i, rfl, hthis, by omega, by omega⟩
      · have hne : i ≠ ctaId := fun heq => hthis (heq ▸ hzero)
        have hlt' : ∀ other < i + 1, ctaStatus other ≠ 0 := by
          intro other hother
          rcases Nat.lt_succ_iff_lt_or_eq.mp hother with hless | heq
          · exact hlt other hless
          · rw [heq]
            exact hthis
        obtain ⟨found, hfound, hzero', hrange', hbound'⟩ := ih (i + 1) hlt' (by omega) (by omega)
        exact ⟨found, hfound, hzero', hrange', by omega⟩

namespace KernelInfo

variable (k : KernelInfo)

/-- A kernel of whose next CTA some threads have been handed out. -/
def handedOut (i : ℕ) : KernelInfo :=
  if i = 0 then k
  else { k with
    nextCta := k.nextCta.incrementXThenYThenZ k.gridDim
    activeThreads := k.threadsPerCta - i }

variable {k}

theorem simInitThread_handedOut (hfresh : k.activeThreads = 0) (hmore : k.noMoreCtasToRun = false)
    {i : ℕ} (hi : i < k.threadsPerCta) :
    (k.handedOut i).simInitThread (k.threadsPerCta - i) = .ok (1, k.handedOut (i + 1)) := by
  rw [handedOut, handedOut, if_neg (Nat.succ_ne_zero i)]
  split_ifs with hzero
  · subst hzero
    rw [simInitThread, if_neg (not_not.mpr hfresh), if_neg (by simp [hmore]), Nat.sub_zero,
      if_neg (Nat.lt_irrefl _)]
    rfl
  · have hleft : k.threadsPerCta - i ≠ 0 := by omega
    rw [simInitThread, if_pos hleft, if_neg (Nat.lt_irrefl _), Nat.sub_sub]

theorem handedOut_all (hfresh : k.activeThreads = 0) (hsize : 0 < k.threadsPerCta) :
    k.handedOut k.threadsPerCta = k.incrementCtaId := by
  rw [handedOut, if_neg (Nat.pos_iff_ne_zero.mp hsize), Nat.sub_self, incrementCtaId, ← hfresh]

end KernelInfo

namespace ShaderCore

variable {cfg : ShaderCoreConfig} {s : ShaderCore}

theorem initThread_all {start : ℕ} {k : KernelInfo} (hfresh : k.activeThreads = 0)
    (hmore : k.noMoreCtasToRun = false) (hsize : 0 < k.threadsPerCta)
    (hidle : ∀ tid, start ≤ tid → tid < start + k.threadsPerCta → (s.threads tid).active = false) :
    countUp (s.initThread start k.threadsPerCta) k.threadsPerCta (0, k)
      = .ok (k.threadsPerCta, k.incrementCtaId) := by
  have hthread : ∀ i < k.threadsPerCta, ∀ counted, counted = (i, k.handedOut i) →
      ∃ counted', s.initThread start k.threadsPerCta i counted = .ok counted' ∧
        counted' = (i + 1, k.handedOut (i + 1)) := by
    intro i hi counted hcounted
    have hidle' := hidle (start + i) (Nat.le_add_right _ _) (Nat.add_lt_add_left hi _)
    refine ⟨_, ?_, rfl⟩
    rw [hcounted, initThread, if_neg (by rw [hidle']; decide)]
    dsimp only
    rw [KernelInfo.simInitThread_handedOut hfresh hmore hi]
    rfl
  obtain ⟨t, hrun, ht⟩ := countUp_ok (s := (0, k)) k.threadsPerCta hthread rfl
  rw [hrun, ht, KernelInfo.handedOut_all hfresh hsize]

/-! ## The core afterwards -/

/-- A core after a CTA has begun. -/
def begun (cfg : ShaderCoreConfig) (s : ShaderCore) (r : Resident) : ShaderCore :=
  { s with
    ctaStatus := Function.update s.ctaStatus r.ctaId r.size
    threads := fun hwTid =>
      if r.start ≤ hwTid ∧ hwTid < r.start + r.size then ⟨true, r.kernel⟩ else s.threads hwTid
    activeThreads := setRange s.activeThreads r.start r.size
    warpCtaId := fun warp =>
      if r.start / cfg.warpSize ≤ warp ∧ warp * cfg.warpSize < r.start + r.size then r.ctaId
      else s.warpCtaId warp
    notCompleted := s.notCompleted + r.size
    nActiveCta := s.nActiveCta + 1
    resident := r :: s.resident }

variable {r : Resident}

theorem Occupancy.idle (h : s.Occupancy cfg) (hapart : ∀ r' ∈ s.resident, r'.Apart cfg r) {tid : ℕ}
    (hhas : r.Has tid) : (s.threads tid).active = false := by
  by_contra hactive
  obtain ⟨r', hr', hhas', -, -⟩ := h.owner tid (Bool.eq_true_of_not_eq_false hactive)
  exact (hapart r' hr').not_has hhas' hhas

theorem threads_begun_of_not_has {tid : ℕ} (h : ¬ r.Has tid) :
    (s.begun cfg r).threads tid = s.threads tid :=
  if_neg h

theorem activeIn_begun {r' : Resident} (hapart : r'.Apart cfg r) :
    (s.begun cfg r).activeIn r' = s.activeIn r' :=
  countActive_congr fun _ htid => threads_begun_of_not_has (hapart.not_has (mem_Ico.mp htid))

theorem activeIn_begun_self : (s.begun cfg r).activeIn r = r.size := by
  have hall : ∀ tid ∈ Ico r.start (r.start + r.size),
      ((s.begun cfg r).threads tid).active.toNat = 1 := by
    intro tid htid
    show (if _ then _ else _ : HwThread).active.toNat = 1
    rw [if_pos (mem_Ico.mp htid)]
    rfl
  rw [activeIn, countActive, sum_congr rfl hall, sum_const, Nat.card_Ico]
  simp

theorem Occupancy.begun (h : s.Occupancy cfg) (hid : r.ctaId < maxCtaPerShader)
    (hfree : s.ctaStatus r.ctaId = 0) (hsize : 0 < r.size) (hplaced : r.Placed cfg)
    (hapart : ∀ r' ∈ s.resident, r'.Apart cfg r) : (s.begun cfg r).Occupancy cfg where
  ids := by
    refine List.nodup_cons.mpr ⟨fun hmem => ?_, h.ids⟩
    obtain ⟨r', hr', heq⟩ := List.mem_map.mp hmem
    exact h.ctaId_ne hfree r' hr' heq
  id_lt r' hr' := by
    rcases List.mem_cons.mp hr' with rfl | hold
    · exact hid
    · exact h.id_lt r' hold
  placed r' hr' := by
    rcases List.mem_cons.mp hr' with rfl | hold
    · exact hplaced
    · exact h.placed r' hold
  apart r₁ h₁ r₂ h₂ hne := by
    rcases List.mem_cons.mp h₁ with rfl | hold₁
    · rcases List.mem_cons.mp h₂ with rfl | hold₂
      · exact absurd rfl hne
      · exact (hapart r₂ hold₂).symm
    · rcases List.mem_cons.mp h₂ with rfl | hold₂
      · exact hapart r₁ hold₁
      · exact h.apart r₁ hold₁ r₂ hold₂ hne
  status r' hr' := by
    show Function.update s.ctaStatus r.ctaId r.size r'.ctaId = _ ∧
      0 < Function.update s.ctaStatus r.ctaId r.size r'.ctaId
    rcases List.mem_cons.mp hr' with rfl | hold
    · rw [Function.update_self, activeIn_begun_self]
      exact ⟨rfl, hsize⟩
    · rw [Function.update_of_ne (h.ctaId_ne hfree r' hold), activeIn_begun (hapart r' hold)]
      exact h.status r' hold
  status_free ctaId hnone := by
    show Function.update s.ctaStatus r.ctaId r.size ctaId = 0
    rw [Function.update_of_ne (hnone r (List.mem_cons_self)).symm]
    exact h.status_free ctaId fun r' hr' => hnone r' (List.mem_cons_of_mem _ hr')
  owner tid hactive := by
    by_cases hhas : r.Has tid
    · refine ⟨r, List.mem_cons_self, hhas, ?_, ?_⟩
      · have hwarp := hplaced.warp_mem_iff.mpr ⟨hhas.1, hhas.lt_stop cfg⟩
        exact if_pos hwarp
      · exact congrArg HwThread.kernel (if_pos hhas)
    · rw [threads_begun_of_not_has hhas] at hactive ⊢
      obtain ⟨r', hr', hhas', hwarp, hkernel⟩ := h.owner tid hactive
      refine ⟨r', List.mem_cons_of_mem _ hr', hhas', ?_, hkernel⟩
      rw [← hwarp]
      refine if_neg fun hmem => ?_
      obtain ⟨hstart, hstop⟩ := hplaced.warp_mem_iff.mp hmem
      have hstart' := hhas'.1
      have hstop' := hhas'.lt_stop cfg
      rcases hapart r' hr' with hle | hle <;> omega
  activeThreads tid := by
    show setRange _ _ _ _ = (if _ then _ else _ : HwThread).active
    rw [setRange, h.activeThreads tid]
    split_ifs <;> rfl
  nActiveCta := congrArg (· + 1) h.nActiveCta
  notCompleted := by
    have hstop : r.start + r.size ≤ cfg.nThreadPerShader :=
      (Nat.add_le_add_left (cfg.le_paddedCtaSize r.size) _).trans hplaced.2
    refine Eq.trans ?_ (countActive_begin hstop fun tid hle hlt => h.idle hapart ⟨hle, hlt⟩).symm
    rw [← h.notCompleted]
    rfl
  notCompleted_status := by
    have hmem : r.ctaId ∈ range maxCtaPerShader := mem_range.mpr hid
    have hrest := sum_eq_add_sum_sdiff_singleton_of_mem hmem s.ctaStatus
    show s.notCompleted + r.size = ∑ ctaId ∈ _, Function.update s.ctaStatus r.ctaId r.size ctaId
    rw [sum_update_of_mem hmem, h.notCompleted_status, hrest, hfree]
    omega

theorem initWarps_spec {t : ShaderCore} (hplaced : r.Placed cfg)
    (hidle : ∀ tid, r.Has tid → t.activeThreads tid = false) :
    initWarps cfg t r.ctaId r.start r.size = .ok { t with
      activeThreads := setRange t.activeThreads r.start r.size
      warpCtaId := fun warp =>
        if r.start / cfg.warpSize ≤ warp ∧ warp * cfg.warpSize < r.start + r.size then r.ctaId
        else t.warpCtaId warp
      notCompleted := t.notCompleted + r.size } := by
  have hbound : r.start + r.size ≤ maxThreadPerSm :=
    ((Nat.add_le_add_left (cfg.le_paddedCtaSize r.size) _).trans hplaced.2).trans cfg.threads_le
  have hclear := allClear_eq_ok hbound fun tid hle hlt => hidle tid ⟨hle, hlt⟩
  rw [initWarps, hplaced.start_div, Nat.add_sub_cancel_left, hclear]
  rfl

theorem beginCta_spec (h : s.Occupancy cfg) {k : KernelInfo} (hfresh : k.activeThreads = 0)
    (hmore : k.noMoreCtasToRun = false) (hsize : k.threadsPerCta = r.size) (hpos : 0 < r.size)
    (hplaced : r.Placed cfg) (hapart : ∀ r' ∈ s.resident, r'.Apart cfg r) :
    s.beginCta cfg r.ctaId r.start r.kernel k
      = .ok (s.begun cfg r, k.incrementCtaId) := by
  have hinit := initThread_all hfresh hmore (hsize ▸ hpos) fun tid hle hlt =>
    h.idle hapart ⟨hle, hsize ▸ hlt⟩
  have hthreads : r.size ≤ cfg.nThreadPerShader :=
    ((cfg.le_paddedCtaSize r.size).trans (Nat.le_add_left _ _)).trans hplaced.2
  have hidle : ∀ tid, r.Has tid → s.activeThreads tid = false := fun tid hhas => by
    rw [h.activeThreads tid, h.idle hapart hhas]
  rw [beginCta]
  dsimp only
  rw [hinit]
  show (if _ ∨ _ then _ else _) = _
  rw [if_neg (by omega), hsize, initWarps_spec hplaced]
  · rfl
  · exact hidle

end ShaderCore

end GpuCalorie.CtaDispatch

/-!
## CTAs of one kernel on a core

Without concurrent kernels a CTA has the hardware threads that belong to its entry of
`m_cta_status`. As all CTAs on the core have one size, and there are no more of them than
`max_cta` allows, their ranges are apart and on the core.
-/

namespace GpuCalorie.CtaDispatch

open GpuCalorie.Math

/-- How `max_cta` fails. -/
def CtaFailure.OfMaxCta (e : CtaFailure) : Prop := e = .divisionByZero ∨ e = .maxCta ∨ e = .abort

instance (e : CtaFailure) : Decidable e.OfMaxCta := inferInstanceAs (Decidable (_ ∨ _ ∨ _))

namespace ShaderCoreConfig

variable {cfg : ShaderCoreConfig} {k : KernelInfo}

theorem maxCtaResult_le (cfg : ShaderCoreConfig) (k : KernelInfo) :
    cfg.maxCtaResult k ≤ cfg.nThreadPerShader / cfg.paddedCtaSize k.threadsPerCta := by
  rw [maxCtaResult]
  generalize hlimit : min (min (min (cfg.nThreadPerShader / cfg.paddedCtaSize k.threadsPerCta)
    (cfg.resultShmem k)) (cfg.resultRegs k)) cfg.maxCtaPerCore = result
  have hle : result ≤ cfg.nThreadPerShader / cfg.paddedCtaSize k.threadsPerCta := by omega
  refine le_trans ?_ hle
  split_ifs with hfew hpart
  · have hless : k.numBlocks < result * cfg.numShader := lt_of_lt_of_le hfew (Nat.mod_le _ _)
    exact Nat.succ_le_of_lt (Nat.div_lt_of_lt_mul (by rwa [Nat.mul_comm]))
  · have hless : k.numBlocks < result * cfg.numShader := lt_of_lt_of_le hfew (Nat.mod_le _ _)
    exact (Nat.div_lt_of_lt_mul (by rwa [Nat.mul_comm])).le
  · exact le_rfl

theorem maxCta_spec (hfits : k.threadsPerCta ≤ cfg.nThreadPerShader) :
    OkOr (fun maxCta => 0 < maxCta ∧ maxCta ≤ maxCtaPerShader ∧
        maxCta * cfg.paddedCtaSize k.threadsPerCta ≤ cfg.nThreadPerShader)
      CtaFailure.OfMaxCta (cfg.maxCta k) := by
  have hpadded := cfg.paddedCtaSize_le hfits
  rw [maxCta]
  split_ifs with hzero hmany hnone hignore
  · exact .inl rfl
  · exact .inr (.inl rfl)
  · exact ⟨Nat.one_pos, by decide, by rwa [Nat.one_mul]⟩
  · exact .inr (.inr rfl)
  · have hpos : 0 < cfg.paddedCtaSize k.threadsPerCta := by omega
    exact ⟨Nat.not_lt.mp hnone, Nat.not_lt.mp hmany,
      (Nat.le_div_iff_mul_le hpos).mp (cfg.maxCtaResult_le k)⟩

end ShaderCoreConfig

/-- The range of a CTA belongs to its entry of `m_cta_status`. -/
def Resident.InPlace (cfg : ShaderCoreConfig) (r : Resident) : Prop :=
  r.start = r.ctaId * cfg.paddedCtaSize r.size

theorem Resident.InPlace.apart {cfg : ShaderCoreConfig} {r r' : Resident} (h : r.InPlace cfg)
    (h' : r'.InPlace cfg) (hsize : r.size = r'.size) (hne : r.ctaId ≠ r'.ctaId) :
    r.Apart cfg r' := by
  rw [Apart, stop, stop, h, h', hsize, ← Nat.succ_mul, ← Nat.succ_mul]
  rcases Nat.lt_or_gt_of_ne hne with hlt | hlt
  · exact .inl (Nat.mul_le_mul_right _ hlt)
  · exact .inr (Nat.mul_le_mul_right _ hlt)

namespace ShaderCore

variable {cfg : ShaderCoreConfig} {s : ShaderCore}

theorem canIssue1block_spec (hoff : cfg.gpgpuConcurrentKernelSm = false) {k : KernelInfo}
    (hfits : k.threadsPerCta ≤ cfg.nThreadPerShader) :
    OkOr (fun canIssue => ∃ maxCta, cfg.maxCta k = .ok maxCta ∧ 0 < maxCta ∧
        maxCta ≤ maxCtaPerShader ∧ maxCta * cfg.paddedCtaSize k.threadsPerCta ≤
          cfg.nThreadPerShader ∧
        canIssue = decide (s.nActiveCta < maxCta))
      CtaFailure.OfMaxCta (s.canIssue1block cfg k) := by
  refine (ShaderCoreConfig.maxCta_spec hfits).bind_eq fun maxCta hmax ⟨hpos, hle, hend⟩ => ?_
  show OkOr _ _ (if cfg.gpgpuConcurrentKernelSm = true then _ else _)
  rw [if_neg (by rw [hoff]; decide)]
  exact ⟨maxCta, hmax, hpos, hle, hend, rfl⟩

theorem Occupancy.issueBlock2core (h : s.Occupancy cfg) (hoff : cfg.gpgpuConcurrentKernelSm = false)
    (uid : ℕ) {maxCta : ℕ} {k : KernelInfo} (hmax : cfg.maxCta k = .ok maxCta)
    (hle : maxCta ≤ maxCtaPerShader)
    (hend : maxCta * cfg.paddedCtaSize k.threadsPerCta ≤ cfg.nThreadPerShader)
    (hcan : s.nActiveCta < maxCta) (hpos : 0 < k.threadsPerCta) (hidle : k.activeThreads = 0)
    (hmore : k.noMoreCtasToRun = false)
    (hsame : ∀ r ∈ s.resident, r.size = k.threadsPerCta ∧ r.InPlace cfg) :
    ∃ r, r.kernel = uid ∧ r.size = k.threadsPerCta ∧ r.InPlace cfg ∧
      (({ s with kernelMaxCtaPerShader := maxCta }).begun cfg r).Occupancy cfg ∧
      s.issueBlock2core cfg uid k
        = .ok (({ s with kernelMaxCtaPerShader := maxCta }).begun cfg r, k.ctaBegun) := by
  have hlength : s.resident.length < maxCta := h.nActiveCta ▸ hcan
  obtain ⟨free, hfree, hzero⟩ := h.exists_free hlength
  obtain ⟨ctaId, hctaId, hstatus, hid, hlt⟩ := freeCtaFrom_spec maxCta 0
    (fun _ hless => absurd hless (Nat.not_lt_zero _)) ⟨free, by omega, by omega, hzero⟩
  let r : Resident := ⟨ctaId, uid, ctaId * cfg.paddedCtaSize k.threadsPerCta, k.threadsPerCta⟩
  have hinPlace : r.InPlace cfg := rfl
  have hplaced : r.Placed cfg := by
    refine ⟨(cfg.warpSize_dvd_paddedCtaSize _).trans (Nat.dvd_mul_left _ _), ?_⟩
    show ctaId * _ + _ ≤ _
    rw [← Nat.succ_mul]
    exact (Nat.mul_le_mul_right _ (by omega)).trans hend
  have hapart : ∀ r' ∈ s.resident, r'.Apart cfg r := fun r' hr' =>
    (hsame r' hr').2.apart hinPlace (hsame r' hr').1 (h.ctaId_ne hstatus r' hr')
  have hset : ({ s with kernelMaxCtaPerShader := maxCta }).Occupancy cfg :=
    h.congr rfl rfl rfl rfl rfl rfl rfl
  have hbegin :=
    ShaderCore.beginCta_spec hset (r := r) (k :=
    { k with numCoresRunning := k.numCoresRunning + 1 })
    hidle hmore rfl hpos hplaced hapart
  refine ⟨r, rfl, rfl, hinPlace, hset.begun hid hstatus hpos hplaced hapart, ?_⟩
  have honNot : ¬ cfg.gpgpuConcurrentKernelSm = true := by rw [hoff]; decide
  rw [ShaderCore.issueBlock2core, reserve, if_neg honNot, hmax]
  show (freeCtaHwId cfg { s with kernelMaxCtaPerShader := maxCta } >>= _) = _
  rw [freeCtaHwId, if_neg honNot]
  show (freeCtaFrom s.ctaStatus maxCta 0 >>= _) = _
  rw [hctaId]
  show (startThread cfg { s with kernelMaxCtaPerShader := maxCta } _ ctaId >>= _) = _
  rw [startThread, if_neg honNot]
  exact hbegin

end ShaderCore

end GpuCalorie.CtaDispatch
