/-
# A core accounts for its CTAs

The invariant of `smSystem`: one lemma for a launch that meets `Fits`, one for the exit of a
thread.
-/

import GpuCalorie.CtaDispatch.SmResources

namespace GpuCalorie.CtaDispatch

open GpuCalorie.Math

/-! ## The search for a range -/

namespace Resources
variable {k : KernelInfo}


variable {cfg : ShaderCoreConfig} {s : Resources}

theorem findFrom_spec {size j : ℕ} (hend : (j + 1) * size ≤ cfg.nThreadPerShader) (hsize : 0 < size)
    (hclear : ∀ i < size, s.hwtid (j * size + i) = false) {rounds i : ℕ} (hle : i ≤ j)
    (henough : j < i + rounds) :
    ∃ found, s.findFrom cfg size rounds (i * size) = .ok (some (found * size)) ∧
      (found + 1) * size ≤ cfg.nThreadPerShader ∧
      ∀ tid, found * size ≤ tid → tid < found * size + size → s.hwtid tid = false := by
  induction rounds generalizing i with
  | zero => omega
  | succ rounds ih =>
      have hblock : i * size + size ≤ cfg.nThreadPerShader := by
        rw [← Nat.succ_mul]
        exact (Nat.mul_le_mul_right size (Nat.succ_le_succ hle)).trans hend
      obtain ⟨clear, hfound⟩ :=
        exists_allClear s.hwtid (hblock.trans cfg.threads_le)
      rw [findFrom, if_neg (by omega), hfound]
      cases clear with
      | true =>
          refine ⟨i, rfl, ?_, clear_of_allClear hfound⟩
          rw [Nat.succ_mul]
          exact hblock
      | false =>
          have hne : i ≠ j := by
            rintro rfl
            have hall : ∀ tid, i * size ≤ tid → tid < i * size + size → s.hwtid tid = false := by
              intro tid hstart hstop
              have htid := hclear (tid - i * size) (by omega)
              rwa [Nat.add_sub_cancel' hstart] at htid
            rw [allClear_eq_ok (hblock.trans cfg.threads_le) hall] at hfound
            cases hfound
          show ∃ found, s.findFrom cfg size rounds (i * size + size) = _ ∧ _
          rw [← Nat.succ_mul]
          exact ih (by omega) (by omega)

theorem placeCta_spec {size ctaId : ℕ} (hsize : 0 < size)
    (hrange : ∃ j < cfg.nThreadPerShader / size, ∀ i < size, s.hwtid (j * size + i) = false)
    (hnew : s.ctaToHwtid ctaId = none) :
    ∃ start, s.placeCta cfg size ctaId = .ok (start, { s with
        hwtid := setRange s.hwtid start size
        ctaToHwtid := Function.update s.ctaToHwtid ctaId (some start) }) ∧
      size ∣ start ∧ start + size ≤ cfg.nThreadPerShader ∧
      ∀ tid, start ≤ tid → tid < start + size → s.hwtid tid = false := by
  obtain ⟨j, hj, hclear⟩ := hrange
  have hend : (j + 1) * size ≤ cfg.nThreadPerShader := (Nat.le_div_iff_mul_le hsize).mp hj
  have hrounds : j < 0 + cfg.nThreadPerShader := by
    have hle := Nat.le_mul_of_pos_right (j + 1) hsize
    omega
  obtain ⟨found, hfound, hend', hclear'⟩ := findFrom_spec hend hsize hclear (Nat.zero_le j) hrounds
  rw [Nat.zero_mul] at hfound
  refine ⟨found * size, ?_, Nat.dvd_mul_left _ _, ?_, hclear'⟩
  · rw [placeCta, findAvailableHwtid, hfound]
    show (if s.ctaToHwtid ctaId ≠ none then _ else _) = _
    rw [if_neg (not_not.mpr hnew)]
    rfl
  · rw [← Nat.succ_mul]
    exact hend'

theorem of_hasResources (h : s.hasResources cfg k = .ok true) :
    s.nThreads + cfg.paddedCtaSize k.threadsPerCta ≤ cfg.nThreadPerShader ∧
      s.ctas + 1 ≤ cfg.maxCtaPerCore := by
  rw [hasResources] at h
  by_cases hthreads : cfg.nThreadPerShader < s.nThreads + cfg.paddedCtaSize k.threadsPerCta
  · rw [if_pos hthreads] at h
    cases h
  rw [if_neg hthreads] at h
  cases hfind : s.findAvailableHwtid cfg (cfg.paddedCtaSize k.threadsPerCta) with
  | error e =>
      rw [hfind] at h
      cases h
  | ok step =>
      rw [hfind] at h
      have hall := of_decide_eq_true (Except.ok.inj h)
      exact ⟨Nat.not_lt.mp hthreads, hall.2.2.2⟩

end Resources

namespace ShaderCore

variable {cfg : ShaderCoreConfig} {s : ShaderCore}

theorem of_canIssue1block (hconcurrent : cfg.gpgpuConcurrentKernelSm = true)
    (h : s.canIssue1block cfg k = .ok true) : s.occupied.hasResources cfg k = .ok true := by
  rw [canIssue1block] at h
  cases hmax : cfg.maxCta k with
  | error e =>
      rw [hmax] at h
      cases h
  | ok maxCta =>
      rw [hmax] at h
      change (if cfg.gpgpuConcurrentKernelSm = true then
        if maxCta < 1 then Except.ok false else s.occupied.hasResources cfg k else _) = _ at h
      rw [if_pos hconcurrent] at h
      split_ifs at h
      · cases h
      · exact h

end ShaderCore

/-! ## The invariant -/

namespace SmState

/-- The state of a core between two events. -/
structure Inv (cfg : ShaderCoreConfig) (s : SmState) : Prop where
  occupancy : s.core.Occupancy cfg
  accounted : s.Accounted cfg
  kernel : s.core.kernel = none
  place : ∀ r ∈ s.core.resident, s.core.occupied.ctaToHwtid r.ctaId = some r.start
  place_free : ∀ ctaId, (∀ r ∈ s.core.resident, r.ctaId ≠ ctaId) →
    s.core.occupied.ctaToHwtid ctaId = none
  regs_lt : s.core.occupied.regs < 2 ^ 32
  running : ∀ uid, (s.kernels uid).numCoresRunning = s.core.resident.countP fun r => r.kernel = uid
  launched : ∀ uid, (s.kernels uid).Launched cfg
  idle : ∀ uid, (s.kernels uid).activeThreads = 0

variable {cfg : ShaderCoreConfig} {s : SmState} {r : Resident} {β : Type} {uid : ℕ}

theorem needs_update (needs : KernelInfo → β) {kernels : ℕ → KernelInfo}
    (h : needs k = needs (kernels uid)) (other : ℕ) :
    needs (Function.update kernels uid k other) = needs (kernels other) := by
  by_cases heq : other = uid
  · rw [heq, Function.update_self, h]
  · rw [Function.update_of_ne heq]

theorem inv_start {kernels : ℕ → KernelInfo}
    (hkernels : ∀ uid, (kernels uid).Launched cfg ∧ (kernels uid).Fresh) :
    (SmState.mk {} kernels).Inv cfg where
  occupancy := ShaderCore.occupancy_empty cfg
  accounted := {
    size := fun _ h => absurd h List.not_mem_nil
    inBounds := fun _ h => absurd h List.not_mem_nil
    apart := fun _ h => absurd h List.not_mem_nil
    nThreads := rfl
    shmem := rfl
    regs := rfl
    ctas := rfl
    hwtid := fun _ => by simp }
  kernel := rfl
  place _ h := absurd h List.not_mem_nil
  place_free _ _ := rfl
  regs_lt := Nat.pow_pos (by decide)
  running uid := (hkernels uid).2.2.2
  launched uid := (hkernels uid).1
  idle uid := (hkernels uid).2.2.1

theorem Inv.apart_of_clear (h : s.Inv cfg)
    (hclear : ∀ tid, r.start ≤ tid → tid < r.stop cfg → s.core.occupied.hwtid tid = false)
    (hpos : r.start < r.stop cfg) {r' : Resident} (hr' : r' ∈ s.core.resident) :
    r'.Apart cfg r := by
  by_contra hmeet
  obtain ⟨hstop, hstart⟩ := not_or.mp hmeet
  have hpos' : r'.start < r'.stop cfg := by
    have hsize := (h.launched r'.kernel).1
    have hle := cfg.le_paddedCtaSize r'.size
    rw [h.accounted.size r' hr'] at hle
    rw [Resident.stop, h.accounted.size r' hr']
    omega
  have hmarked := (h.accounted.hwtid (max r'.start r.start)).mpr
    ⟨r', hr', le_max_left _ _, max_lt hpos' (Nat.not_le.mp hstop)⟩
  rw [hclear _ (le_max_right _ _) (max_lt (Nat.not_le.mp hstart) hpos)] at hmarked
  cases hmarked

/-- The core and its kernels after a launch. -/
def launched (cfg : ShaderCoreConfig) (s : SmState) (r : Resident) : SmState where
  core := ShaderCore.begun cfg { s.core with
    occupied := { s.core.occupied.occupy cfg (s.kernels r.kernel) with
      hwtid := setRange s.core.occupied.hwtid r.start
        (cfg.paddedCtaSize (s.kernels r.kernel).threadsPerCta)
      ctaToHwtid := Function.update s.core.occupied.ctaToHwtid r.ctaId (some r.start) } } r
  kernels := Function.update s.kernels r.kernel (s.kernels r.kernel).ctaBegun

theorem needs_launched (needs : KernelInfo → β) (hneeds : ∀ k, needs k.ctaBegun = needs k)
    (r : Resident) (other : ℕ) :
    needs ((s.launched cfg r).kernels other) = needs (s.kernels other) :=
  needs_update needs (hneeds (s.kernels r.kernel)) other

theorem sum_launched (cfg : ShaderCoreConfig) (s : SmState) (needs : KernelInfo → ℕ)
    (hneeds : ∀ k, needs k.ctaBegun = needs k) (r : Resident) :
    ((s.launched cfg r).core.resident.map fun r' =>
    needs ((s.launched cfg r).kernels r'.kernel)).sum
      = (s.core.resident.map fun r' => needs (s.kernels r'.kernel)).sum +
        needs (s.kernels r.kernel) := by
  simp only [needs_launched needs hneeds]
  show ((r :: s.core.resident).map _).sum = _
  rw [List.map_cons, List.sum_cons, Nat.add_comm]

theorem Accounted.launched (h : s.Accounted cfg)
    (hsize : r.size = (s.kernels r.kernel).threadsPerCta) (hend : r.stop cfg ≤ cfg.nThreadPerShader)
    (hapart : ∀ r' ∈ s.core.resident, r'.Apart cfg r)
    (hshmem : s.core.occupied.shmem + (s.kernels r.kernel).smem < 2 ^ 32)
    (hregs : s.core.occupied.regs + cfg.ctaRegs (s.kernels r.kernel) < 2 ^ 32) :
    (s.launched cfg r).Accounted cfg where
  size r' hr' := by
    rw [needs_launched KernelInfo.threadsPerCta fun _ => rfl]
    rcases List.mem_cons.mp hr' with rfl | hold
    · exact hsize
    · exact h.size r' hold
  inBounds r' hr' := by
    rcases List.mem_cons.mp hr' with rfl | hold
    · exact hend
    · exact h.inBounds r' hold
  apart r₁ h₁ r₂ h₂ hne := by
    rcases List.mem_cons.mp h₁ with rfl | hold₁
    · rcases List.mem_cons.mp h₂ with rfl | hold₂
      · exact absurd rfl hne
      · exact (hapart r₂ hold₂).symm
    · rcases List.mem_cons.mp h₂ with rfl | hold₂
      · exact hapart r₁ hold₁
      · exact h.apart r₁ hold₁ r₂ hold₂ hne
  nThreads := by
    rw [sum_launched cfg s (fun k => cfg.paddedCtaSize k.threadsPerCta) fun _ => rfl, ← h.nThreads]
    rfl
  shmem := by
    rw [sum_launched cfg s KernelInfo.smem fun _ => rfl, ← h.shmem]
    exact Nat.mod_eq_of_lt hshmem
  regs := by
    rw [sum_launched cfg s cfg.ctaRegs fun _ => rfl, ← h.regs]
    show unsigned (s.core.occupied.regs + unsigned (cfg.ctaRegs (s.kernels r.kernel))) = _
    rw [unsigned, unsigned, Nat.add_mod_mod, Nat.mod_eq_of_lt hregs]
  ctas := congrArg (· + 1) h.ctas
  hwtid tid := by
    show setRange s.core.occupied.hwtid r.start _ tid = true ↔ ∃ r' ∈ r :: s.core.resident, _
    rw [setRange, ← hsize, List.exists_mem_cons_iff, ← h.hwtid tid]
    show (if r.start ≤ tid ∧ tid < r.stop cfg then true else _) = true ↔ _
    by_cases hnew : r.start ≤ tid ∧ tid < r.stop cfg
    · rw [if_pos hnew]
      exact iff_of_true rfl (.inl hnew)
    · rw [if_neg hnew, or_iff_right hnew]

theorem Inv.exists_launched (h : s.Inv cfg) (hconcurrent : cfg.gpgpuConcurrentKernelSm = true)
    (hfits : s.Fits cfg (.issue uid)) (henabled : s.Enabled cfg (.issue uid)) :
    ∃ r, r.kernel = uid ∧ r.size = (s.kernels uid).threadsPerCta ∧ r.ctaId < maxCtaPerShader ∧
      s.core.ctaStatus r.ctaId = 0 ∧ r.Placed cfg ∧ (∀ r' ∈ s.core.resident, r'.Apart cfg r) ∧
      s.step cfg (.issue uid) = .ok (s.launched cfg r) := by
  obtain ⟨hmore, hcan⟩ := henabled
  obtain ⟨hrange, -, -, hentries⟩ := hfits
  have hresources := ShaderCore.of_canIssue1block hconcurrent hcan
  obtain ⟨-, hctas⟩ := Resources.of_hasResources hresources
  have hpos := (h.launched uid).1
  have hpadded : 0 < cfg.paddedCtaSize (s.kernels uid).threadsPerCta :=
    lt_of_lt_of_le hpos (cfg.le_paddedCtaSize _)
  -- the entry of `m_cta_status`
  have hlength : s.core.resident.length < min maxCtaPerShader cfg.maxCtaPerCore := by
    have hcount := h.occupancy.nActiveCta
    have hcounted := h.accounted.ctas
    omega
  obtain ⟨free, hfree, hzero⟩ := h.occupancy.exists_free hlength
  obtain ⟨ctaId, hctaId, hstatus, hid, -⟩ := freeCtaFrom_spec cfg.maxCtaPerCore 0
    (fun _ hlt => absurd hlt (Nat.not_lt_zero _)) ⟨free, by omega, by omega, hzero⟩
  -- the range of hardware threads
  obtain ⟨start, hplace, hdvd, hend, hclear⟩ := Resources.placeCta_spec
    (s := s.core.occupied.occupy cfg (s.kernels uid)) hpadded hrange
    (h.place_free ctaId (h.occupancy.ctaId_ne hstatus))
  let r : Resident := ⟨ctaId, uid, start, (s.kernels uid).threadsPerCta⟩
  have hplaced : r.Placed cfg := ⟨(cfg.warpSize_dvd_paddedCtaSize _).trans hdvd, hend⟩
  have hapart : ∀ r' ∈ s.core.resident, r'.Apart cfg r := fun r' hr' =>
    h.apart_of_clear hclear (Nat.lt_add_of_pos_right hpadded) hr'
  refine ⟨r, rfl, rfl, hid, hstatus, hplaced, hapart, ?_⟩
  have hbegin := ShaderCore.beginCta_spec (r := r)
    (k := { s.kernels uid with numCoresRunning := (s.kernels uid).numCoresRunning + 1 })
    (h.occupancy.congr (t := { s.core with
      occupied := { s.core.occupied.occupy cfg (s.kernels uid) with
        hwtid := setRange s.core.occupied.hwtid start
          (cfg.paddedCtaSize (s.kernels uid).threadsPerCta)
        ctaToHwtid := Function.update s.core.occupied.ctaToHwtid ctaId (some start) } })
      rfl rfl rfl rfl rfl rfl rfl) (h.idle uid) hmore rfl hpos hplaced hapart
  rw [step, ShaderCore.issueBlock2core, ShaderCore.reserve, if_pos hconcurrent,
    Resources.occupyShaderResource1block, hresources]
  show ((ShaderCore.freeCtaHwId cfg { s.core with occupied := _ } >>= _) >>= _) = _
  rw [ShaderCore.freeCtaHwId, if_pos hconcurrent]
  show ((freeCtaFrom s.core.ctaStatus cfg.maxCtaPerCore 0 >>= _) >>= _) = _
  rw [hctaId]
  show ((ShaderCore.startThread cfg { s.core with occupied := _ } _ ctaId >>= _) >>= _) = _
  rw [ShaderCore.startThread, if_pos hconcurrent, hplace]
  exact (congrArg (fun begun => begun >>= _) hbegin).trans rfl

theorem Inv.issue (h : s.Inv cfg) (hconcurrent : cfg.gpgpuConcurrentKernelSm = true)
    (hfits : s.Fits cfg (.issue uid)) (henabled : s.Enabled cfg (.issue uid)) :
    ∃ t, s.step cfg (.issue uid) = .ok t ∧ t.Inv cfg := by
  obtain ⟨r, rfl, hsize, hid, hstatus, hplaced, hapart, hstep⟩ :=
    h.exists_launched hconcurrent hfits henabled
  have hoccupancy : (ShaderCore.begun cfg _ r).Occupancy cfg :=
    (h.occupancy.congr (t := { s.core with occupied := (s.launched cfg r).core.occupied })
      rfl rfl rfl rfl rfl rfl rfl).begun hid hstatus
        (hsize ▸ (h.launched r.kernel).1) hplaced hapart
  refine ⟨_, hstep, ?_⟩
  exact {
    occupancy := hoccupancy
    accounted := h.accounted.launched hsize hplaced.2 hapart hfits.2.1 hfits.2.2.1
    kernel := h.kernel
    place := fun r' hr' => by
      show Function.update s.core.occupied.ctaToHwtid r.ctaId (some r.start) r'.ctaId = _
      rcases List.mem_cons.mp hr' with rfl | hold
      · exact Function.update_self _ _ _
      · rw [Function.update_of_ne (h.occupancy.ctaId_ne hstatus r' hold)]
        exact h.place r' hold
    place_free := fun ctaId hnone => by
      show Function.update s.core.occupied.ctaToHwtid r.ctaId (some r.start) ctaId = none
      rw [Function.update_of_ne (hnone r List.mem_cons_self).symm]
      exact h.place_free ctaId fun r' hr' => hnone r' (List.mem_cons_of_mem _ hr')
    regs_lt := Nat.mod_lt _ (by decide)
    running := fun uid => by
      show KernelInfo.numCoresRunning (Function.update s.kernels r.kernel _ uid)
        = (r :: s.core.resident).countP _
      have hrunning := h.running uid
      by_cases heq : uid = r.kernel
      · rw [heq] at hrunning ⊢
        rw [Function.update_self, List.countP_cons_of_pos (by simp), ← hrunning]
        rfl
      · rw [Function.update_of_ne heq, List.countP_cons_of_neg (by simpa using Ne.symm heq),
          hrunning]
    launched := fun uid => by
      rw [KernelInfo.Launched, needs_launched KernelInfo.threadsPerCta fun _ => rfl]
      exact h.launched uid
    idle := fun uid => by
      rw [needs_launched KernelInfo.activeThreads fun _ => rfl]
      exact h.idle uid }

/-- The core and its kernels after the last thread of a CTA has exited. -/
def ended (cfg : ShaderCoreConfig) (s : SmState) (r : Resident) (tid : ℕ) : SmState where
  core := { s.core.finished r tid with
    kernel := none
    occupied := s.core.occupied.vacate cfg r.ctaId (s.kernels r.kernel) }
  kernels := Function.update s.kernels r.kernel
    { s.kernels r.kernel with numCoresRunning := (s.kernels r.kernel).numCoresRunning - 1 }

theorem needs_ended (needs : KernelInfo → β)
    (hneeds : ∀ k n, needs { k with numCoresRunning := n } = needs k) (r : Resident)
    (tid other : ℕ) :
    needs ((s.ended cfg r tid).kernels other) = needs (s.kernels other) :=
  needs_update needs (hneeds _ _) other

section

variable (h : s.Inv cfg)
include h

theorem Inv.sum_ended (hr : r ∈ s.core.resident) (tid : ℕ)
    (needs : KernelInfo → ℕ) (hneeds : ∀ k n, needs { k with numCoresRunning := n } = needs k) :
    ((s.ended cfg r tid).core.resident.map fun r' =>
    needs ((s.ended cfg r tid).kernels r'.kernel)).sum
        + needs (s.kernels r.kernel)
      = (s.core.resident.map fun r' => needs (s.kernels r'.kernel)).sum := by
  have hperm := (h.occupancy.perm_filter hr).map fun r' => needs (s.kernels r'.kernel)
  rw [hperm.sum_eq, List.map_cons, List.sum_cons, Nat.add_comm]
  simp only [needs_ended needs hneeds]
  rfl

theorem Inv.usedRegs_eq (hr : r ∈ s.core.resident) :
    cfg.usedRegs (s.kernels r.kernel) = cfg.ctaRegs (s.kernels r.kernel) := by
  have hsum := h.sum_ended hr 0 cfg.ctaRegs fun _ _ => rfl
  have hcount := h.accounted.regs
  have hlt := h.regs_lt
  exact Nat.mod_eq_of_lt (by omega)

theorem Inv.accounted_ended (hr : r ∈ s.core.resident) (tid : ℕ) :
    (s.ended cfg r tid).Accounted cfg where
  size r' hr' := by
    rw [needs_ended KernelInfo.threadsPerCta fun _ _ => rfl]
    exact h.accounted.size r' ((h.occupancy.mem_filter_iff hr).mp hr').1
  inBounds r' hr' := h.accounted.inBounds r' ((h.occupancy.mem_filter_iff hr).mp hr').1
  apart r₁ h₁ r₂ h₂ :=
    h.accounted.apart r₁ ((h.occupancy.mem_filter_iff hr).mp h₁).1 r₂
      ((h.occupancy.mem_filter_iff hr).mp h₂).1
  nThreads := by
    have hsum := h.sum_ended hr tid (fun k => cfg.paddedCtaSize k.threadsPerCta) fun _ _ => rfl
    have hcount := h.accounted.nThreads
    show s.core.occupied.nThreads - cfg.paddedCtaSize (s.kernels r.kernel).threadsPerCta = _
    omega
  shmem := by
    have hsum := h.sum_ended hr tid KernelInfo.smem fun _ _ => rfl
    have hcount := h.accounted.shmem
    show s.core.occupied.shmem - (s.kernels r.kernel).smem = _
    omega
  regs := by
    have hsum := h.sum_ended hr tid cfg.ctaRegs fun _ _ => rfl
    have hcount := h.accounted.regs
    show s.core.occupied.regs - cfg.usedRegs (s.kernels r.kernel) = _
    rw [h.usedRegs_eq hr]
    omega
  ctas := by
    have hlength := (h.occupancy.perm_filter hr).length_eq
    have hcount := h.accounted.ctas
    rw [List.length_cons] at hlength
    show s.core.occupied.ctas - 1 = (s.core.resident.filter _).length
    omega
  hwtid other := by
    show resetRange s.core.occupied.hwtid ((s.core.occupied.ctaToHwtid r.ctaId).getD 0) _ other =
      true ↔
      ∃ r' ∈ s.core.resident.filter _, _
    rw [h.place r hr, Option.getD_some, ← h.accounted.size r hr, resetRange]
    show (if r.start ≤ other ∧ other < r.stop cfg then false else _) = true ↔ _
    by_cases hown : r.start ≤ other ∧ other < r.stop cfg
    · rw [if_pos hown]
      refine iff_of_false Bool.false_ne_true ?_
      rintro ⟨r', hr', hstart, hstop⟩
      obtain ⟨hold, hne⟩ := (h.occupancy.mem_filter_iff hr).mp hr'
      rcases h.accounted.apart r' hold r hr hne with hle | hle <;> omega
    · rw [if_neg hown, h.accounted.hwtid other]
      constructor
      · rintro ⟨r', hr', hrange⟩
        refine ⟨r', (h.occupancy.mem_filter_iff hr).mpr ⟨hr', ?_⟩, hrange⟩
        rintro rfl
        exact hown hrange
      · rintro ⟨r', hr', hrange⟩
        exact ⟨r', ((h.occupancy.mem_filter_iff hr).mp hr').1, hrange⟩

theorem Inv.release (hconcurrent : cfg.gpgpuConcurrentKernelSm = true) (hr : r ∈ s.core.resident) :
    s.core.occupied.releaseShaderResource1block cfg r.ctaId (s.kernels r.kernel)
      = .ok (s.core.occupied.vacate cfg r.ctaId (s.kernels r.kernel)) := by
  have hthreads := h.sum_ended hr 0 (fun k => cfg.paddedCtaSize k.threadsPerCta) fun _ _ => rfl
  have hshmem := h.sum_ended hr 0 KernelInfo.smem fun _ _ => rfl
  have hregs := h.sum_ended hr 0 cfg.ctaRegs fun _ _ => rfl
  have hctas := List.length_pos_of_mem hr
  have hnThreads := h.accounted.nThreads
  have hnShmem := h.accounted.shmem
  have hnRegs := h.accounted.regs
  have hnCtas := h.accounted.ctas
  rw [Resources.releaseShaderResource1block, if_pos hconcurrent, h.usedRegs_eq hr,
    if_neg (by omega)]

theorem Inv.exit (hconcurrent : cfg.gpgpuConcurrentKernelSm = true) {tid : ℕ}
    (henabled : s.Enabled cfg (.exit tid)) :
    ∃ t, s.step cfg (.exit tid) = .ok t ∧ t.Inv cfg := by
  obtain ⟨r, hr, hhas, hwarp, hkernel⟩ := h.occupancy.owner tid henabled
  have hpos := (h.occupancy.status r hr).2
  rcases Nat.lt_or_eq_of_le hpos with hmany | hone
  · refine ⟨⟨s.core.exited r tid, s.kernels⟩, ?_, ?_⟩
    · rw [step, ShaderCore.exitThread_many hwarp hkernel hmany]
      show Except.ok (SmState.mk _ (Function.update s.kernels _ _)) = _
      rw [hkernel, Function.update_eq_self]
    · exact { h with
        occupancy := h.occupancy.exited hr hhas henabled hmany
        accounted := { h.accounted with } }
  · have hrunning : 0 < (s.kernels r.kernel).numCoresRunning := by
      rw [h.running r.kernel]
      exact List.countP_pos_iff.mpr ⟨r, hr, by simp⟩
    have hafter : s.core.kernelAfter s.kernels r.kernel = .ok none := by
      rw [ShaderCore.kernelAfter, h.kernel]
      by_cases hlast : s.core.nActiveCta = 1
      · rw [if_pos hlast]
        exact if_neg fun hleft => nomatch hleft.2
      · exact if_neg hlast
    have hdec : (s.kernels r.kernel).decRunning = .ok { s.kernels r.kernel with
        numCoresRunning := (s.kernels r.kernel).numCoresRunning - 1 } := by
      rw [KernelInfo.decRunning, if_neg (by omega)]
    refine ⟨s.ended cfg r tid, ?_, ?_⟩
    · rw [step, ShaderCore.exitThread_one hwarp hkernel hone.symm hafter
        (h.release hconcurrent hr) hdec,
        ite_self]
      show Except.ok (SmState.mk _ (Function.update s.kernels _ _)) = _
      rw [hkernel]
      rfl
    · exact {
        occupancy :=
          (h.occupancy.finished hr hhas henabled hone.symm).congr rfl rfl rfl rfl rfl rfl rfl
        accounted := h.accounted_ended hr tid
        kernel := rfl
        place := fun r' hr' => by
          obtain ⟨hold, hne⟩ := (h.occupancy.mem_filter_iff hr).mp hr'
          show Function.update s.core.occupied.ctaToHwtid r.ctaId none r'.ctaId = _
          rw [Function.update_of_ne fun hid => hne (h.occupancy.eq_of_ctaId hold hr hid)]
          exact h.place r' hold
        place_free := fun ctaId hnone => by
          show Function.update s.core.occupied.ctaToHwtid r.ctaId none ctaId = none
          by_cases heq : ctaId = r.ctaId
          · rw [heq, Function.update_self]
          · rw [Function.update_of_ne heq]
            refine h.place_free ctaId fun r' hr' hid => ?_
            refine hnone r' ((h.occupancy.mem_filter_iff hr).mpr ⟨hr', fun hself => heq ?_⟩) hid
            rw [← hid, hself]
        regs_lt := lt_of_le_of_lt (Nat.sub_le _ _) h.regs_lt
        running := fun uid => by
          have hcount := (h.occupancy.perm_filter hr).countP_eq fun r' => decide (r'.kernel = uid)
          have huid := h.running uid
          show KernelInfo.numCoresRunning (Function.update s.kernels r.kernel _ uid)
            = (s.core.resident.filter _).countP _
          by_cases heq : uid = r.kernel
          · subst heq
            rw [List.countP_cons_of_pos (by simp)] at hcount
            rw [Function.update_self]
            show (s.kernels r.kernel).numCoresRunning - 1 = _
            omega
          · rw [List.countP_cons_of_neg (by simpa using Ne.symm heq)] at hcount
            rw [Function.update_of_ne heq, huid, hcount]
        launched := fun uid => by
          rw [KernelInfo.Launched, needs_ended KernelInfo.threadsPerCta fun _ _ => rfl]
          exact h.launched uid
        idle := fun uid => by
          rw [needs_ended KernelInfo.activeThreads fun _ _ => rfl]
          exact h.idle uid }

end

/-- In every run in which all launches meet `Fits`, nothing fails, in particular no assertion
of a launch that `can_issue_1block` has allowed, and the core accounts for its CTAs. -/
theorem smAccounted_of_reachable (hconcurrent : cfg.gpgpuConcurrentKernelSm = true)
    {r : Except CtaFailure SmState}
    (reached : ((smSystem cfg).restrict (TransitionSystem.onOk (Fits cfg))).Reachable r) :
    OkOr (Accounted cfg) (fun _ => False) r := by
  have hinv : OkOr (Inv cfg) (fun _ => False) r := by
    refine reached.invariant_ofExcept ?_ ?_
    · rintro ⟨core, kernels⟩ ⟨rfl, hkernels⟩
      exact inv_start hkernels
    · intro s event h hfits henabled
      cases event with
      | issue uid =>
          obtain ⟨t, hstep, ht⟩ := h.issue hconcurrent hfits henabled
          rw [hstep]
          exact ht
      | exit tid =>
          obtain ⟨t, hstep, ht⟩ := h.exit hconcurrent henabled
          rw [hstep]
          exact ht
  exact hinv.imp fun _ h => h.accounted

/-- A core with four warps. -/
def fourWarps : ShaderCoreConfig where
  warpSize := 32
  nThreadPerShader := 128
  gpgpuShmemSize := 49152
  gpgpuShaderRegisters := 65536
  maxCtaPerCore := 8
  numShader := 1
  gpgpuIgnoreResourcesLimitation := false
  gpgpuConcurrentKernelSm := true
  warpSize_pos := by decide
  threads_le := by decide
  warpSize_dvd := by decide

/-- Kernels whose CTAs have one, two and three warps. -/
def warpsKernels (uid : ℕ) : KernelInfo where
  gridDim := ⟨2, 1, 1⟩
  threadsPerCta := 32 * (uid % 3 + 1)
  smem := 1024
  regs := 16

theorem warpsKernels_start (uid : ℕ) :
    (warpsKernels uid).Launched fourWarps ∧ (warpsKernels uid).Fresh := by
  refine ⟨⟨?_, ?_⟩, rfl, rfl, rfl⟩
  · show 0 < 32 * (uid % 3 + 1)
    omega
  · show 32 * (uid % 3 + 1) ≤ 128
    omega

/-- A CTA with one warp and one with two. -/
theorem accounted_fourWarps :
    ∃ s : SmState, s.core.resident.map Resident.start = [64, 0] ∧ s.Accounted fourWarps := by
  have hrun : ((TransitionSystem.execOk
      (fun s event => s.Fits fourWarps event ∧ s.Enabled fourWarps event) (SmState.step fourWarps)
      ⟨{}, warpsKernels⟩ [.issue 0, .issue 1, .exit 0]).any fun s =>
        decide (s.core.resident.map Resident.start = [64, 0])) = true := by decide +kernel
  obtain ⟨s, hs, hstarts⟩ := (Option.any_eq_true _ _).mp hrun
  have hreached : ((smSystem fourWarps).restrict (TransitionSystem.onOk (Fits fourWarps))).Reachable
      (.ok s) :=
    .execOk_restrict _ (.init ⟨_, rfl, rfl, warpsKernels_start⟩) hs
  exact ⟨s, of_decide_eq_true hstarts, (smAccounted_of_reachable rfl hreached).of_ok rfl⟩

/-- Next to a CTA with one warp, one with three warps begins at the last warp of the core. -/
theorem not_accounted_fourWarps :
    ∃ s, (smSystem fourWarps).Reachable (.ok s) ∧ ¬ s.Accounted fourWarps := by
  have hrun : ((TransitionSystem.execOk (SmState.Enabled fourWarps) (SmState.step fourWarps)
      ⟨{}, warpsKernels⟩ [.issue 0, .issue 2]).any fun s =>
        decide (s.core.resident.map (Resident.stop fourWarps) = [192, 32])) =
          true := by decide +kernel
  obtain ⟨s, hs, hstops⟩ := (Option.any_eq_true _ _).mp hrun
  refine ⟨s, .execOk _ (.init ⟨_, rfl, rfl, warpsKernels_start⟩) hs, fun h => ?_⟩
  have hmem : 192 ∈ s.core.resident.map (Resident.stop fourWarps) := by
    rw [of_decide_eq_true hstops]
    decide
  obtain ⟨r, hr, hstop⟩ := List.mem_map.mp hmem
  have hbound := h.inBounds r hr
  rw [hstop] at hbound
  exact absurd hbound (by decide)

end SmState

end GpuCalorie.CtaDispatch
